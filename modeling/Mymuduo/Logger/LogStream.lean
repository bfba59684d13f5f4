import Mymuduo.Framework.Numeral
import Mymuduo.Logger.FixedBuffer

/-! # LogStream

    The stream of one log record.  Each `operator<<` adds the whole of its rendering to
    the buffer or nothing at all: a text needs more room than it is long, a number the
    48 bytes of `kMaxNumericSize`, whatever its length.

    The eight integer types differ in their values only: the short ones are converted to
    `int`, and `formatInteger` is one template.
-/

namespace LogStream

abbrev SmallBuffer := FixedBuffer kSmallBuffer

def kMaxNumericSize : Nat := 48

/-! ## Numbers -/

/-- `"9876543210123456789"`. -/
def digits : List UInt8 :=
  ['9', '8', '7', '6', '5', '4', '3', '2', '1', '0', '1', '2', '3', '4', '5', '6', '7', '8',
    '9'].map Char.toUInt8

/-- `"0123456789ABCDEF"`. -/
def digitsHex : List UInt8 :=
  ['0', '1', '2', '3', '4', '5', '6', '7', '8', '9', 'A', 'B', 'C', 'D', 'E', 'F'].map
    Char.toUInt8

/-- `zero[remainder]`, with `zero` in the middle of `digits`. -/
def zero (remainder : Int) : UInt8 := digits.getD (9 + remainder).toNat 0

/-- The loop of `formatInteger`, last digit first; it makes at most `fuel` rounds, and
    `%` and `/` round towards zero. -/
def formatLoop : Nat → Int → List UInt8
  | 0, _ => []
  | fuel + 1, num =>
    zero (num.tmod 10) :: if num.tdiv 10 ≠ 0 then formatLoop fuel (num.tdiv 10) else []

/-- What `formatInteger(num)` leaves at the cursor; 20 rounds are enough for the digits
    of any 64-bit number (`formatInteger_eq`). -/
def formatInteger (num : Int) : List UInt8 :=
  (formatLoop 20 num ++ if num < 0 then ['-'.toUInt8] else []).reverse

/-- The loop of `convertHex`. -/
def hexLoop : Nat → Nat → List UInt8
  | 0, _ => []
  | fuel + 1, i =>
    digitsHex.getD (i % 16) 0 :: if i / 16 ≠ 0 then hexLoop fuel (i / 16) else []

/-- `convertHex(buf, value)`, for a value of 64 bits. -/
def convertHex (value : Nat) : List UInt8 := (hexLoop 16 value).reverse

theorem length_formatLoop_le (fuel : Nat) (num : Int) : (formatLoop fuel num).length ≤ fuel := by
  induction fuel generalizing num with
  | zero => exact Nat.le_refl _
  | succ fuel ih =>
    rw [formatLoop, List.length_cons]
    split
    · exact Nat.succ_le_succ (ih _)
    · exact Nat.succ_le_succ (Nat.zero_le _)

theorem length_hexLoop_le (fuel i : Nat) : (hexLoop fuel i).length ≤ fuel := by
  induction fuel generalizing i with
  | zero => exact Nat.le_refl _
  | succ fuel ih =>
    rw [hexLoop, List.length_cons]
    split
    · exact Nat.succ_le_succ (ih _)
    · exact Nat.succ_le_succ (Nat.zero_le _)

theorem length_formatInteger_le (num : Int) : (formatInteger num).length ≤ 21 := by
  have hloop := length_formatLoop_le 20 num
  rw [formatInteger, List.length_reverse, List.length_append]
  split
  · rw [List.length_singleton]
    omega
  · rw [List.length_nil]
    omega

theorem length_convertHex_le (value : Nat) : (convertHex value).length ≤ 16 := by
  rw [convertHex, List.length_reverse]
  exact length_hexLoop_le 16 value

/-- A negative remainder finds its digit on the left half of the table. -/
theorem zero_tmod (num : Int) : zero (num.tmod 10) = digitByte (num.natAbs % 10) := by
  have htable : ∀ d : Fin 10, zero (d.val : Int) = digitByte d.val ∧
      zero (-(d.val : Int)) = digitByte d.val := by decide
  have hd := htable ⟨num.natAbs % 10, Nat.mod_lt _ (by decide)⟩
  have hmod : ((num.natAbs : Int)).tmod 10 = ((num.natAbs % 10 : Nat) : Int) :=
    (Int.ofNat_tmod num.natAbs 10).symm
  rcases Int.natAbs_eq num with hnum | hnum
  · rw [← hnum] at hmod
    rw [hmod]
    exact hd.1
  · have hneg : num.tmod 10 = -((num.natAbs % 10 : Nat) : Int) := by
      rw [← hmod, ← Int.neg_tmod, ← hnum]
    rw [hneg]
    exact hd.2

theorem natAbs_tdiv_ten (num : Int) : (num.tdiv 10).natAbs = num.natAbs / 10 :=
  Int.natAbs_tdiv num 10

/-- The loop writes the digits of the absolute value from the end. -/
theorem formatLoop_eq {fuel : Nat} {num : Int} (h : num.natAbs < 10 ^ (fuel + 1)) :
    formatLoop (fuel + 1) num = (numeral num.natAbs).reverse := by
  induction fuel generalizing num with
  | zero =>
    have hlt : num.natAbs < 10 := by simpa using h
    have hdiv := natAbs_tdiv_ten num
    have hzero : num.tdiv 10 = 0 := by omega
    rw [formatLoop, zero_tmod, if_neg (fun hne => hne hzero), numeral_of_lt hlt,
      Nat.mod_eq_of_lt hlt]
    rfl
  | succ fuel ih =>
    rw [formatLoop, zero_tmod]
    have hdiv := natAbs_tdiv_ten num
    by_cases hlt : num.natAbs < 10
    · have hzero : num.tdiv 10 = 0 := by omega
      rw [if_neg (fun hne => hne hzero), numeral_of_lt hlt, Nat.mod_eq_of_lt hlt]
      rfl
    · have hne : num.tdiv 10 ≠ 0 := by omega
      have hbound : (num.tdiv 10).natAbs < 10 ^ (fuel + 1) := by
        rw [hdiv]
        exact Nat.div_lt_of_lt_mul (by rwa [Nat.pow_succ, Nat.mul_comm] at h)
      rw [if_pos hne, ih hbound, hdiv, numeral_of_ge (Nat.le_of_not_lt hlt), List.reverse_append]
      rfl

theorem formatInteger_eq {num : Int} (h : num.natAbs < 10 ^ 20) :
    formatInteger num = decimal num := by
  rw [formatInteger, formatLoop_eq h, List.reverse_append, List.reverse_reverse, decimal]
  split <;> rfl

/-! ## operator<< -/

/-- The argument of one `operator<<`. -/
inductive Item where
  | bool (v : Bool)
  /-- One of the integer types. -/
  | integer (v : Int) (hrange : -2 ^ 63 ≤ v ∧ v < 2 ^ 64)
  /-- A `double`, with its rendering by `%.12g`. -/
  | double (text : List UInt8) (hlen : text.length < kMaxNumericSize)
  | char (v : UInt8)
  | pointer (p : BitVec 64)
  /-- A `const char*`, with the bytes up to the zero, or a null pointer. -/
  | cstring (str : Option (List UInt8))
  /-- A `std::string`, a `SmallBuffer` or a `GeneralTemplate`. -/
  | string (str : List UInt8)

/-- `"(null)"`. -/
def nullText : List UInt8 := ['(', 'n', 'u', 'l', 'l', ')'].map Char.toUInt8

namespace Item

/-- The text of an item. -/
def rendering : Item → List UInt8
  | .bool v => [if v then '1'.toUInt8 else '0'.toUInt8]
  | .integer v _ => formatInteger v
  | .double text _ => text
  | .char v => [v]
  | .pointer p => '0'.toUInt8 :: 'x'.toUInt8 :: convertHex p.toNat
  | .cstring (some str) => str
  | .cstring none => nullText
  | .string str => str

/-- The items that are formatted at the cursor itself. -/
def numeric : Item → Bool
  | .integer _ _ | .double _ _ | .pointer _ => true
  | .bool _ | .char _ | .cstring _ | .string _ => false

/-- A number and the zero behind it fit into `kMaxNumericSize`. -/
theorem length_rendering_lt {item : Item} (h : item.numeric = true) :
    item.rendering.length < kMaxNumericSize := by
  cases item with
  | integer v hrange =>
    have hlen := length_formatInteger_le v
    show (formatInteger v).length < 48
    omega
  | double text hlen => exact hlen
  | pointer p =>
    have hlen := length_convertHex_le p.toNat
    show (convertHex p.toNat).length + 1 + 1 < 48
    omega
  | bool _ | char _ | cstring _ | string _ => cases h

/-- Needs room for the item in the buffer. -/
def FitsIn (item : Item) (avail : Nat) : Prop :=
  if item.numeric = true then kMaxNumericSize ≤ avail else item.rendering.length < avail

instance (item : Item) (avail : Nat) : Decidable (item.FitsIn avail) :=
  inferInstanceAs (Decidable (if item.numeric = true then _ else _))

theorem fitsIn_of_numeric {item : Item} (h : item.numeric = true) {a : Nat} :
    item.FitsIn a ↔ kMaxNumericSize ≤ a := by
  rw [FitsIn, if_pos h]

theorem fitsIn_of_text {item : Item} (h : ¬ item.numeric = true) {a : Nat} :
    item.FitsIn a ↔ item.rendering.length < a := by
  rw [FitsIn, if_neg h]

end Item

/-- The numbers are written at the cursor, behind which `kMaxNumericSize` bytes must be
    left, and the cursor is moved. -/
def writeNumeric (b : SmallBuffer) (text : List UInt8) (hlen : text.length < kMaxNumericSize) :
    SmallBuffer :=
  if h : kMaxNumericSize ≤ b.avail then
    ⟨b.data ++ text, by
      have hfits := b.fits
      unfold FixedBuffer.avail at h
      rw [List.length_append]
      omega⟩
  else b

/-- `operator<<`. -/
def shl (b : SmallBuffer) : Item → SmallBuffer
  | .bool v => b.append [if v then '1'.toUInt8 else '0'.toUInt8] 1
  | .integer v hrange => writeNumeric b (formatInteger v) (Item.length_rendering_lt
      (show (Item.integer v hrange).numeric = true from rfl))
  | .double text hlen => writeNumeric b text hlen
  | .char v => b.append [v] 1
  | .pointer p => writeNumeric b ('0'.toUInt8 :: 'x'.toUInt8 :: convertHex p.toNat)
      (Item.length_rendering_lt (show (Item.pointer p).numeric = true from rfl))
  | .cstring (some str) => b.append str str.length
  | .cstring none => b.append nullText 6
  | .string str => b.append str str.length

/-- The overloads are of two kinds. -/
theorem shl_eq (b : SmallBuffer) (item : Item) :
    shl b item =
      if h : item.numeric = true then
        writeNumeric b item.rendering (Item.length_rendering_lt h)
      else b.append item.rendering item.rendering.length := by
  cases item with
  | cstring str => cases str <;> rfl
  | _ => rfl

/-- All or nothing. -/
theorem shl_data (b : SmallBuffer) (item : Item) :
    (shl b item).data =
      if item.FitsIn b.avail then b.data ++ item.rendering else b.data := by
  by_cases hnum : item.numeric = true
  · have hfits := Item.fitsIn_of_numeric hnum (a := b.avail)
    rw [shl_eq, dif_pos hnum, writeNumeric]
    by_cases hroom : kMaxNumericSize ≤ b.avail
    · rw [dif_pos hroom, if_pos (hfits.mpr hroom)]
    · rw [dif_neg hroom, if_neg (fun h => hroom (hfits.mp h))]
  · have hfits := Item.fitsIn_of_text hnum (a := b.avail)
    rw [shl_eq, dif_neg hnum]
    by_cases hroom : item.rendering.length < b.avail
    · rw [if_pos (hfits.mpr hroom), FixedBuffer.append_data hroom, List.take_length]
    · rw [if_neg (fun h => hroom (hfits.mp h)), FixedBuffer.append, dif_neg hroom]

theorem shl_of_fits {b : SmallBuffer} {item : Item} (h : item.FitsIn b.avail) :
    (shl b item).data = b.data ++ item.rendering := by
  rw [shl_data, if_pos h]

theorem shl_of_not_fits {b : SmallBuffer} {item : Item} (h : ¬ item.FitsIn b.avail) :
    shl b item = b := by
  have hdata : (shl b item).data = b.data := by rw [shl_data, if_neg h]
  cases hb : shl b item
  cases b
  simp_all

theorem length_shl_le (b : SmallBuffer) (item : Item) :
    (shl b item).data.length ≤ b.data.length + item.rendering.length := by
  rw [shl_data]
  split
  · exact Nat.le_of_eq List.length_append
  · exact Nat.le_add_right _ _

/-! ## Several items -/

/-- `stream << a << b << ...`. -/
def shlAll (b : SmallBuffer) (items : List Item) : SmallBuffer := items.foldl shl b

@[simp] theorem shlAll_nil (b : SmallBuffer) : shlAll b [] = b := rfl

theorem shlAll_cons (b : SmallBuffer) (item : Item) (items : List Item) :
    shlAll b (item :: items) = shlAll (shl b item) items := rfl

theorem shlAll_append (b : SmallBuffer) (xs ys : List Item) :
    shlAll b (xs ++ ys) = shlAll (shlAll b xs) ys :=
  List.foldl_append ..

/-- The text of all items. -/
def renderings (items : List Item) : List UInt8 := items.flatMap Item.rendering

theorem renderings_cons (item : Item) (items : List Item) :
    renderings (item :: items) = item.rendering ++ renderings items :=
  List.flatMap_cons ..

theorem renderings_append (xs ys : List Item) :
    renderings (xs ++ ys) = renderings xs ++ renderings ys :=
  List.flatMap_append ..

/-- The items that find room where their turn comes, with `avail` bytes left at first. -/
def kept : Nat → List Item → List Item
  | _, [] => []
  | avail, item :: items =>
    if item.FitsIn avail then item :: kept (avail - item.rendering.length) items
    else kept avail items

/-- These go into the buffer as a whole, and of the others nothing. -/
theorem shlAll_kept (b : SmallBuffer) (items : List Item) :
    (shlAll b items).data = b.data ++ renderings (kept b.avail items) := by
  induction items generalizing b with
  | nil => exact (List.append_nil _).symm
  | cons item items ih =>
    rw [shlAll_cons, kept]
    split
    next hfits =>
      have hdata := shl_of_fits hfits
      have havail : (shl b item).avail = b.avail - item.rendering.length := by
        rw [FixedBuffer.avail, hdata, List.length_append, FixedBuffer.avail, Nat.sub_sub]
      rw [ih, hdata, havail, renderings_cons, List.append_assoc]
    next hnot => rw [shl_of_not_fits hnot, ih]

theorem length_shlAll_le (b : SmallBuffer) (items : List Item) :
    (shlAll b items).data.length ≤ b.data.length + (renderings items).length := by
  induction items generalizing b with
  | nil => exact Nat.le_add_right _ _
  | cons item items ih =>
    have hstep := length_shl_le b item
    have hrest := ih (shl b item)
    rw [renderings_cons, List.length_append, shlAll_cons]
    omega

/-- What is in the buffer stays there. -/
theorem prefix_shlAll (b : SmallBuffer) (items : List Item) : b.data <+: (shlAll b items).data := by
  induction items generalizing b with
  | nil => exact List.prefix_refl _
  | cons item items ih =>
    have hstep : b.data <+: (shl b item).data := by
      rw [shl_data]
      split
      · exact List.prefix_append _ _
      · exact List.prefix_refl _
    exact hstep.trans (ih (shl b item))

/-- Nothing but the empty text goes into the last byte. -/
theorem shlAll_full {b : SmallBuffer} (hfull : b.avail ≤ 1) {items : List Item}
    (hne : ∀ item ∈ items, item.rendering ≠ []) : shlAll b items = b := by
  induction items with
  | nil => rfl
  | cons item items ih =>
    have hnot : ¬ item.FitsIn b.avail := by
      have hpos := List.length_pos_iff.mpr (hne item List.mem_cons_self)
      unfold Item.FitsIn kMaxNumericSize
      split <;> omega
    rw [shlAll_cons, shl_of_not_fits hnot]
    exact ih fun i hi => hne i (List.mem_cons_of_mem item hi)

/-- With `kMaxNumericSize` bytes to spare nothing is left out. -/
theorem shlAll_complete {b : SmallBuffer} {items : List Item}
    (h : (renderings items).length + kMaxNumericSize ≤ b.avail) :
    (shlAll b items).data = b.data ++ renderings items := by
  induction items generalizing b with
  | nil => exact (List.append_nil _).symm
  | cons item items ih =>
    rw [renderings_cons, List.length_append] at h
    unfold kMaxNumericSize at h
    have hfits : item.FitsIn b.avail := by
      unfold Item.FitsIn kMaxNumericSize
      split <;> omega
    have hdata := shl_of_fits hfits
    have havail : (shl b item).avail = b.avail - item.rendering.length := by
      unfold FixedBuffer.avail
      rw [hdata, List.length_append]
      omega
    have hroom : (renderings items).length + kMaxNumericSize ≤ (shl b item).avail := by
      unfold kMaxNumericSize
      omega
    rw [shlAll_cons, ih hroom, hdata, renderings_cons, List.append_assoc]

/-- If nothing was left out, each item that is not empty found room behind the ones
    before it. -/
theorem fitsIn_of_complete {b : SmallBuffer} {xs ys : List Item} {item : Item}
    (hne : item.rendering ≠ [])
    (h : (shlAll b (xs ++ item :: ys)).data = b.data ++ renderings (xs ++ item :: ys)) :
    item.FitsIn (shlAll b xs).avail ∧
      (shlAll b xs).data.length = b.data.length + (renderings xs).length := by
  have hlength := congrArg List.length h
  rw [shlAll_append, shlAll_cons, renderings_append, renderings_cons, List.length_append,
    List.length_append, List.length_append] at hlength
  have hxs := length_shlAll_le b xs
  have hitem := length_shl_le (shlAll b xs) item
  have hys := length_shlAll_le (shl (shlAll b xs) item) ys
  have hpos := List.length_pos_iff.mpr hne
  refine ⟨?_, by omega⟩
  by_contra hnot
  rw [shl_of_not_fits hnot] at hlength hys
  omega

end LogStream
