import Mymuduo.Framework.Machine
import Mymuduo.Logger.FormatInteger

/-! # Any sequence of operator<<

    Every overload of `operator<<` over the cells of the buffer, in any order and with
    `resetBuffer` anywhere between them.

    * The numbers are stored at the cursor if `avail()` is `kMaxNumericSize` or more; the
      other overloads go through `append`, which compares `avail()` as a `size_t`.
    * On the bytes before the cursor each overload is what `LogStream.shl` says.
-/

namespace LogStream.Cells

open FixedBuffer (Cells)

/-! ## The overloads -/

/-- A `GeneralTemplate`, with the bytes that can be read at `data_`. -/
structure GeneralTemplate where
  data_ : List UInt8
  len_ : BitVec 32
  readable : len_.toInt ≤ data_.length

/-- The argument of one `operator<<`. -/
inductive Arg where
  | bool (v : Bool)
  | short (v : BitVec 16)
  | unsignedShort (v : BitVec 16)
  | int (v : BitVec 32)
  | unsignedInt (v : BitVec 32)
  | long (v : BitVec 64)
  | unsignedLong (v : BitVec 64)
  | longLong (v : BitVec 64)
  | unsignedLongLong (v : BitVec 64)
  /-- A `float`, with the rendering of its value by `%.12g`. -/
  | float (text : List UInt8) (hlen : text.length < kMaxNumericSize)
  | double (text : List UInt8) (hlen : text.length < kMaxNumericSize)
  | char (v : UInt8)
  | pointer (p : BitVec 64)
  /-- The bytes before the zero, or a null pointer. -/
  | cstring (str : Option (List UInt8))
  | unsignedCstring (str : Option (List UInt8))
  | string (str : List UInt8)
  | smallBuffer (buf : Cells) (hbuf : buf.Wf kSmallBuffer)
  | general (g : GeneralTemplate)

/-- `operator<<(double)`: `snprintf` stores the rendering and a zero behind it. -/
def shlDouble (b : Cells) (text : List UInt8) : Option Cells :=
  if (BitVec.ofNat 32 kMaxNumericSize).sle b.avail then do
    let data ← Region.copyIn b.data_ b.cur_ (text ++ [0])
    return { b with data_ := data }.add text.length
  else some b

/-- `operator<<(const void*)`. -/
def shlPointer (b : Cells) (v : BitVec 64) : Option Cells :=
  if (BitVec.ofNat 32 kMaxNumericSize).sle b.avail then do
    let buf := b.cur_
    let data ← Region.store b.data_ buf '0'.toUInt8
    let data ← Region.store data (buf + 1) 'x'.toUInt8
    let (data, len) ← convertHex data (buf + 2) v
    return { b with data_ := data }.add (len + 2)
  else some b

/-- `operator<<(const char*)`. -/
def shlCstring (b : Cells) : Option (List UInt8) → Option Cells
  | some str => b.append str str.length
  | none => b.append nullText 6

/-- `operator<<`. -/
def shl (b : Cells) : Arg → Option Cells
  | .bool v => b.append (if v then ['1'.toUInt8] else ['0'.toUInt8]) 1
  -- the short types are converted first
  | .short v => formatInteger .signed b (v.signExtend 32)
  | .unsignedShort v => formatInteger .unsigned b (v.setWidth 32)
  | .int v => formatInteger .signed b v
  | .unsignedInt v => formatInteger .unsigned b v
  | .long v => formatInteger .signed b v
  | .unsignedLong v => formatInteger .unsigned b v
  | .longLong v => formatInteger .signed b v
  | .unsignedLongLong v => formatInteger .unsigned b v
  | .float text _ => shlDouble b text
  | .double text _ => shlDouble b text
  | .char v => b.append [v] 1
  | .pointer p => shlPointer b p
  | .cstring str => shlCstring b str
  | .unsignedCstring str => shlCstring b str
  | .string str => b.append str str.length
  | .smallBuffer buf _ => do
    let str ← buf.toString
    b.append str str.length
  -- the int is converted to a size_t
  | .general g => b.append g.data_ (g.len_.signExtend 64).toNat

/-! ## What they add -/

namespace Arg

/-- The text of an argument. -/
def rendering : Arg → List UInt8
  | .bool v => if v then ['1'.toUInt8] else ['0'.toUInt8]
  | .short v => decimal v.toInt
  | .unsignedShort v => decimal v.toNat
  | .int v => decimal v.toInt
  | .unsignedInt v => decimal v.toNat
  | .long v => decimal v.toInt
  | .unsignedLong v => decimal v.toNat
  | .longLong v => decimal v.toInt
  | .unsignedLongLong v => decimal v.toNat
  | .float text _ => text
  | .double text _ => text
  | .char v => [v]
  | .pointer p => '0'.toUInt8 :: 'x'.toUInt8 :: LogStream.convertHex p.toNat
  | .cstring str => str.getD nullText
  | .unsignedCstring str => str.getD nullText
  | .string str => str
  | .smallBuffer buf _ => buf.content
  | .general g => g.data_.take g.len_.toInt.toNat

/-- The numbers and the pointers. -/
def numeric : Arg → Bool
  | .short _ | .unsignedShort _ | .int _ | .unsignedInt _ | .long _ | .unsignedLong _
  | .longLong _ | .unsignedLongLong _ | .float _ _ | .double _ _ | .pointer _ => true
  | .bool _ | .char _ | .cstring _ | .unsignedCstring _ | .string _ | .smallBuffer _ _
  | .general _ => false

/-- The length of a text, as a `size_t`; that of a `GeneralTemplate` is what it says. -/
def size : Arg → Nat
  | .general g => (g.len_.signExtend 64).toNat
  | arg => arg.rendering.length

/-- The condition for an argument to be added. -/
def Accepted (arg : Arg) (avail : Int) : Prop :=
  if arg.numeric = true then (kMaxNumericSize : Int) ≤ avail else (arg.size : Int) < avail

instance (arg : Arg) (avail : Int) : Decidable (arg.Accepted avail) :=
  inferInstanceAs (Decidable (if arg.numeric = true then _ else _))

theorem accepted_of_numeric {arg : Arg} (h : arg.numeric = true) {a : Int} :
    arg.Accepted a ↔ (kMaxNumericSize : Int) ≤ a := by
  rw [Accepted, if_pos h]

theorem accepted_of_text {arg : Arg} (h : ¬ arg.numeric = true) {a : Int} :
    arg.Accepted a ↔ (arg.size : Int) < a := by
  rw [Accepted, if_neg h]

end Arg

/-! ## All or nothing -/

/-- `b'` has all of `text` behind the content of `b` and a cell to spare if `accepted`, and is
    `b` otherwise. -/
structure Outcome (b : Cells) (text : List UInt8) (accepted : Prop) (b' : Cells) : Prop where
  all : accepted → b.Wrote text b' ∧ b'.cur_ < b.data_.length
  nothing : ¬ accepted → b' = b

section

variable {SIZE : Nat} {b : Cells}

theorem append_outcome (hb : b.Wf SIZE) {buf : List UInt8} {len : Nat}
    (hread : (len : Int) < b.avail.toInt → len ≤ buf.length) :
    ∃ b', b.append buf len = some b' ∧
      Outcome b (buf.take len) ((len : Int) < b.avail.toInt) b' := by
  have hguard : len < (b.avail.signExtend 64).toNat ↔ (len : Int) < b.avail.toInt := by
    have hcur := hb.cur_le
    rw [hb.toNat_avail, hb.toInt_avail]
    omega
  rw [Cells.append]
  by_cases hroom : (len : Int) < b.avail.toInt
  · have hsize := hb.size
    have hbuf := hread hroom
    have hlen : (buf.take len).length = len := List.length_take_of_le hbuf
    have hroom' := hroom
    rw [if_pos (hguard.mpr hroom)]
    rw [hb.toInt_avail] at hroom
    have hcopy := Region.copyIn_eq (by omega : b.cur_ + (buf.take len).length ≤ b.data_.length)
    have hbytes : Region.copyOut buf 0 len = some (buf.take len) := by
      rw [Region.copyOut_eq (by omega), Region.slice, List.drop_zero]
    simp only [hbytes, hcopy, Option.bind_eq_bind, Option.bind_some]
    refine ⟨_, rfl, ?_, fun h => absurd hroom' h⟩
    intro _
    constructor
    · apply Cells.wrote_of_data (by omega) _ rfl
      · show b.cur_ + len = b.cur_ + (buf.take len).length
        rw [hlen]
      · simp only [List.length_append, List.length_take, List.length_drop]
        omega
    · show b.cur_ + len < b.data_.length
      omega
  · rw [if_neg (fun h => hroom (hguard.mp h))]
    exact ⟨b, rfl, fun h => absurd h hroom, fun _ => rfl⟩

/-- A number that is stored with a zero behind it. -/
theorem numeric_outcome (hb : b.Wf SIZE) {text : List UInt8}
    (hlen : text.length < kMaxNumericSize) {result : Option Cells}
    (hyes : (kMaxNumericSize : Int) ≤ b.avail.toInt → result = some (b.terminated text))
    (hno : ¬ (BitVec.ofNat 32 kMaxNumericSize).sle b.avail = true → result = some b) :
    ∃ b', result = some b' ∧ Outcome b text ((kMaxNumericSize : Int) ≤ b.avail.toInt) b' := by
  by_cases havail : (kMaxNumericSize : Int) ≤ b.avail.toInt
  · have hroom := numeric_room hb havail hlen
    exact ⟨_, hyes havail, fun _ => ⟨Cells.wrote_terminated hroom, hroom⟩, fun h => absurd havail h⟩
  · have hguard := fun h => havail ((numeric_guard b).mp h)
    exact ⟨b, hno hguard, fun h => absurd h havail, fun _ => rfl⟩

theorem formatInteger_outcome (T : Signedness) {w : Nat} (hlow : 32 ≤ w) (hhigh : w ≤ 64)
    (v : BitVec w) (hb : b.Wf SIZE) :
    ∃ b', formatInteger T b v = some b' ∧
      Outcome b (decimal (T.value v)) ((kMaxNumericSize : Int) ≤ b.avail.toInt) b' := by
  apply numeric_outcome hb
  · exact Nat.lt_of_le_of_lt (length_decimal_value_le T hhigh v) (by decide)
  · exact formatInteger_eq_terminated T hlow hhigh v hb
  · intro hguard
    exact if_neg hguard

theorem shlDouble_outcome {text : List UInt8} (hlen : text.length < kMaxNumericSize)
    (hb : b.Wf SIZE) :
    ∃ b', shlDouble b text = some b' ∧
      Outcome b text ((kMaxNumericSize : Int) ≤ b.avail.toInt) b' := by
  apply numeric_outcome hb hlen
  · intro havail
    have hroom := numeric_room hb havail hlen
    have hcells : b.cur_ + (text ++ [0]).length ≤ b.data_.length := by
      rw [List.length_append, List.length_singleton]
      omega
    have hcopy := Region.copyIn_eq hcells
    rw [shlDouble, if_pos ((numeric_guard b).mpr havail), hcopy]
    simp [Cells.terminated, Cells.add, Nat.add_assoc]
  · intro hguard
    exact if_neg hguard

/-- The two stores in front of the digits of a pointer are one copy of two cells. -/
theorem store_prefix (htwo : b.cur_ + 2 ≤ b.data_.length) :
    ∃ data₁ data₂, Region.store b.data_ b.cur_ '0'.toUInt8 = some data₁ ∧
      Region.store data₁ (b.cur_ + 1) 'x'.toUInt8 = some data₂ ∧
      data₂.length = b.data_.length ∧
      data₂.take (b.cur_ + 2) = b.data_.take b.cur_ ++ ['0'.toUInt8, 'x'.toUInt8] ∧
      ∀ n, data₂.drop (b.cur_ + 2 + n) = b.data_.drop (b.cur_ + 2 + n) := by
  have hcells : b.cur_ + ['0'.toUInt8, 'x'.toUInt8].length ≤ b.data_.length := htwo
  have hcopy := Region.copyIn_eq hcells
  simp only [Region.copyIn, Option.bind_eq_bind, Option.bind_eq_some_iff] at hcopy
  obtain ⟨data₁, hzero, data₂, hx, hdata⟩ := hcopy
  have hlength : (b.data_.take b.cur_ ++ ['0'.toUInt8, 'x'.toUInt8]).length = b.cur_ + 2 := by
    rw [List.length_append, List.length_take, Nat.min_eq_left (by omega)]
    rfl
  have hdata₂ : data₂ = b.data_.take b.cur_ ++ ['0'.toUInt8, 'x'.toUInt8] ++
      b.data_.drop (b.cur_ + 2) := Option.some.inj hdata
  refine ⟨data₁, data₂, hzero, hx, ?_, ?_, ?_⟩
  · rw [hdata₂, List.length_append, hlength, List.length_drop]
    omega
  · rw [hdata₂, ← hlength, List.take_left]
  · intro n
    rw [← List.drop_drop, hdata₂, ← hlength, List.drop_left, hlength, List.drop_drop]

theorem shlPointer_outcome (p : BitVec 64) (hb : b.Wf SIZE) :
    ∃ b', shlPointer b p = some b' ∧
      Outcome b ('0'.toUInt8 :: 'x'.toUInt8 :: LogStream.convertHex p.toNat)
        ((kMaxNumericSize : Int) ≤ b.avail.toInt) b' := by
  have hhex := length_convertHex_le p.toNat
  have hlen : ('0'.toUInt8 :: 'x'.toUInt8 :: LogStream.convertHex p.toNat).length <
      kMaxNumericSize := by
    show (LogStream.convertHex p.toNat).length + 1 + 1 < 48
    omega
  apply numeric_outcome hb hlen
  · intro havail
    have hroom := numeric_room hb havail hlen
    rw [List.length_cons, List.length_cons] at hroom
    obtain ⟨data₁, data₂, hzero, hx, hsize, htake, hdrop⟩ := store_prefix (b := b) (by omega)
    have hconvert := convertHex_eq p (by omega : b.cur_ + 2 + _ < data₂.length)
    rw [shlPointer, if_pos ((numeric_guard b).mpr havail)]
    simp only [hzero, hx, hconvert, Option.bind_eq_bind, Option.bind_some, htake]
    have hend : b.cur_ + 2 + ((LogStream.convertHex p.toNat).length + 1) =
        b.cur_ + ((LogStream.convertHex p.toNat).length + 1 + 1) + 1 := by omega
    rw [Nat.add_assoc, hdrop, hend]
    simp [Cells.terminated, Cells.add]
  · intro hguard
    exact if_neg hguard

/-- A text that is given as a whole. -/
theorem append_text_outcome (hb : b.Wf SIZE) (str : List UInt8) :
    ∃ b', b.append str str.length = some b' ∧
      Outcome b str ((str.length : Int) < b.avail.toInt) b' := by
  have happend := append_outcome hb fun _ => Nat.le_refl str.length
  rw [List.take_length] at happend
  exact happend

/-- A negative length becomes a `size_t` that no buffer has room for. -/
theorem shl_general_outcome (g : GeneralTemplate) (hb : b.Wf SIZE) :
    ∃ b', shl b (.general g) = some b' ∧
      Outcome b (g.data_.take g.len_.toInt.toNat)
        (((g.len_.signExtend 64).toNat : Int) < b.avail.toInt) b' := by
  have hreadable := g.readable
  by_cases hneg : g.len_.toInt < 0
  · have hlen := toNat_signExtend_of_neg (by decide : 32 ≤ 64) hneg
    have hlow := BitVec.le_toInt g.len_
    have hsize := hb.int
    have hnot : ¬ ((g.len_.signExtend 64).toNat : Int) < b.avail.toInt := by
      rw [hb.toInt_avail]
      omega
    have hread : ((g.len_.signExtend 64).toNat : Int) < b.avail.toInt →
        (g.len_.signExtend 64).toNat ≤ g.data_.length := fun h => absurd h hnot
    obtain ⟨b', happend, houtcome⟩ := append_outcome hb hread
    exact ⟨b', happend, fun h => absurd h hnot, houtcome.nothing⟩
  · have hlen := toNat_signExtend_of_nonneg (by decide : 32 ≤ 64) (Int.not_lt.mp hneg)
    have htake : g.len_.toInt.toNat = (g.len_.signExtend 64).toNat := by omega
    rw [htake]
    apply append_outcome hb
    intro _
    omega

theorem shl_outcome (arg : Arg) (hb : b.Wf SIZE) :
    ∃ b', shl b arg = some b' ∧ Outcome b arg.rendering (arg.Accepted b.avail.toInt) b' := by
  cases arg with
  | bool v =>
    cases v with
    | false => exact append_text_outcome hb ['0'.toUInt8]
    | true => exact append_text_outcome hb ['1'.toUInt8]
  | short v =>
    have hint := formatInteger_outcome .signed (by decide) (by decide) (v.signExtend 32) hb
    have hvalue : Signedness.signed.value (v.signExtend 32) = v.toInt :=
      BitVec.toInt_signExtend_of_le (by decide)
    rw [hvalue] at hint
    exact hint
  | unsignedShort v =>
    have hint := formatInteger_outcome .unsigned (by decide) (by decide) (v.setWidth 32) hb
    have hvalue : Signedness.unsigned.value (v.setWidth 32) = v.toNat := by
      show ((v.setWidth 32).toNat : Int) = v.toNat
      rw [BitVec.toNat_setWidth_of_le (by decide)]
    rw [hvalue] at hint
    exact hint
  | int v => exact formatInteger_outcome .signed (by decide) (by decide) v hb
  | unsignedInt v => exact formatInteger_outcome .unsigned (by decide) (by decide) v hb
  | long v | longLong v => exact formatInteger_outcome .signed (by decide) (by decide) v hb
  | unsignedLong v | unsignedLongLong v =>
    exact formatInteger_outcome .unsigned (by decide) (by decide) v hb
  | float text hlen | double text hlen => exact shlDouble_outcome hlen hb
  | char v => exact append_text_outcome hb [v]
  | pointer p => exact shlPointer_outcome p hb
  | cstring str | unsignedCstring str =>
    cases str with
    | none => exact append_text_outcome hb nullText
    | some str => exact append_text_outcome hb str
  | string str => exact append_text_outcome hb str
  | smallBuffer buf hbuf =>
    rw [shl, hbuf.toString_eq]
    exact append_text_outcome hb buf.content
  | general g => exact shl_general_outcome g hb

end

/-! ## The text of the stream -/

/-- An integer of at most 64 bits. -/
def integerItem (T : Signedness) {w : Nat} (hw : w ≤ 64) (v : BitVec w) : Item :=
  .integer (T.value v) (by
    have hpow : 2 ^ w ≤ 2 ^ 64 := Nat.pow_le_pow_right (by decide) hw
    have habs := T.natAbs_value_lt v
    constructor
    · by_cases hneg : T.value v < 0
      · have hleast := T.two_mul_natAbs_value_le hneg
        omega
      · omega
    · omega)

/-- The argument without its cells. -/
def Arg.item : Arg → Item
  | .bool v => .bool v
  | .short v => integerItem .signed (by decide) v
  | .unsignedShort v => integerItem .unsigned (by decide) v
  | .int v => integerItem .signed (by decide) v
  | .unsignedInt v => integerItem .unsigned (by decide) v
  | .long v => integerItem .signed (by decide) v
  | .unsignedLong v => integerItem .unsigned (by decide) v
  | .longLong v => integerItem .signed (by decide) v
  | .unsignedLongLong v => integerItem .unsigned (by decide) v
  | .float text hlen => .double text hlen
  | .double text hlen => .double text hlen
  | .char v => .char v
  | .pointer p => .pointer p
  | .cstring str => .cstring str
  | .unsignedCstring str => .cstring str
  | .string str => .string str
  | .smallBuffer buf _ => .string buf.content
  | .general g => .string (g.data_.take g.len_.toInt.toNat)

theorem integerItem_rendering (T : Signedness) {w : Nat} (hw : w ≤ 64) (v : BitVec w) :
    (integerItem T hw v).rendering = decimal (T.value v) := by
  have hpow : 2 ^ w ≤ 2 ^ 64 := Nat.pow_le_pow_right (by decide) hw
  have habs := T.natAbs_value_lt v
  exact formatInteger_eq (by omega)

theorem Arg.item_rendering (arg : Arg) : arg.item.rendering = arg.rendering := by
  cases arg with
  | short v | int v | long v | longLong v => exact integerItem_rendering .signed (by decide) v
  | unsignedShort v | unsignedInt v | unsignedLong v | unsignedLongLong v =>
    exact integerItem_rendering .unsigned (by decide) v
  | bool v => cases v <;> rfl
  | cstring str | unsignedCstring str => cases str <;> rfl
  | float _ _ | double _ _ | char _ | pointer _ | string _ | smallBuffer _ _ | general _ => rfl

theorem Arg.item_numeric (arg : Arg) : arg.item.numeric = arg.numeric := by
  cases arg <;> rfl

/-- The length that `append` is given is that of the text, unless it is negative. -/
theorem Arg.size_cases (arg : Arg) : arg.size = arg.rendering.length ∨ arg.rendering = [] := by
  cases arg with
  | general g =>
    have hreadable := g.readable
    by_cases hneg : g.len_.toInt < 0
    · right
      show g.data_.take g.len_.toInt.toNat = []
      rw [Int.toNat_of_nonpos (Int.le_of_lt hneg), List.take_zero]
    · left
      have hlen := toNat_signExtend_of_nonneg (by decide : 32 ≤ 64) (Int.not_lt.mp hneg)
      show (g.len_.signExtend 64).toNat = (g.data_.take g.len_.toInt.toNat).length
      rw [List.length_take]
      omega
  | _ => exact Or.inl rfl

/-- `LogStream.shl` takes the same arguments. -/
theorem shl_item_data (b : SmallBuffer) (arg : Arg) :
    (LogStream.shl b arg.item).data =
      if arg.Accepted b.avail then b.data ++ arg.rendering else b.data := by
  rw [shl_data, arg.item_rendering]
  by_cases hnum : arg.numeric = true
  · have hitem : arg.item.numeric = true := arg.item_numeric.trans hnum
    have hiff : arg.item.FitsIn b.avail ↔ arg.Accepted b.avail := by
      rw [Item.fitsIn_of_numeric hitem, Arg.accepted_of_numeric hnum, Int.ofNat_le]
    exact if_congr hiff rfl rfl
  · have hitem : ¬ arg.item.numeric = true := fun h => hnum (arg.item_numeric.symm.trans h)
    -- a length that is not that of the text means that there is no text
    rcases arg.size_cases with hsize | hempty
    · have hiff : arg.item.FitsIn b.avail ↔ arg.Accepted b.avail := by
        rw [Item.fitsIn_of_text hitem, Arg.accepted_of_text hnum, arg.item_rendering, hsize,
          Int.ofNat_lt]
      exact if_congr hiff rfl rfl
    · rw [hempty, List.append_nil, ite_self, ite_self]

/-! ## Runs -/

inductive Op where
  | shl (arg : Arg)
  | resetBuffer

structure State where
  buffer_ : Cells
  /-- The arguments that were added since the last reset. -/
  accepted : List Arg := []

def next (s : State) : Op → Option State
  | .shl arg => do
    let b ← shl s.buffer_ arg
    return { buffer_ := b
             accepted :=
              if arg.Accepted s.buffer_.avail.toInt then s.accepted ++ [arg] else s.accepted }
  | .resetBuffer => some { buffer_ := s.buffer_.reset, accepted := [] }

/-- The constructor of `FixedBuffer` does not initialise the cells. -/
def machine : Machine State Op where
  init := fun s =>
    s.buffer_.data_.length = kSmallBuffer ∧ s.buffer_.cur_ = 0 ∧ s.accepted = []
  next := next

/-- The same calls on the text alone. -/
def textMachine : Machine SmallBuffer Op where
  init := fun b => b = FixedBuffer.ctor
  next := fun b op =>
    some (match op with
      | .shl arg => LogStream.shl b arg.item
      | .resetBuffer => b.reset)

structure Inv (s : State) : Prop where
  wf : s.buffer_.Wf kSmallBuffer
  room : s.buffer_.cur_ < kSmallBuffer
  content : s.buffer_.content = s.accepted.flatMap Arg.rendering

/-- One call adds the whole rendering of its argument or does nothing. -/
def AllOrNothing (s : State) : Op → Prop
  | .shl arg => ∃ b', shl s.buffer_ arg = some b' ∧
      (arg.Accepted s.buffer_.avail.toInt →
        b'.content = s.buffer_.content ++ arg.rendering ∧
          b'.length.toInt = s.buffer_.length.toInt + arg.rendering.length) ∧
      (¬ arg.Accepted s.buffer_.avail.toInt → b' = s.buffer_)
  | .resetBuffer => s.buffer_.reset.content = [] ∧ s.buffer_.reset.length.toInt = 0

theorem inv_init {s : State} (h : machine.init s) : Inv s := by
  obtain ⟨hsize, hcur, haccepted⟩ := h
  have hwf : s.buffer_.Wf kSmallBuffer := ⟨by decide, hsize, by omega⟩
  refine ⟨hwf, ?_, ?_⟩
  · rw [hcur]
    decide
  · rw [haccepted, Cells.content, hcur]
    rfl

theorem next_shl {s : State} {arg : Arg} {b' : Cells} (h : shl s.buffer_ arg = some b') :
    next s (.shl arg) = some
      { buffer_ := b'
        accepted :=
          if arg.Accepted s.buffer_.avail.toInt then s.accepted ++ [arg] else s.accepted } := by
  rw [next, h]
  rfl

theorem inv_reset {s : State} (h : Inv s) :
    Inv { buffer_ := s.buffer_.reset, accepted := [] } where
  wf := ⟨h.wf.int, h.wf.size, Nat.zero_le _⟩
  room := Nat.lt_of_le_of_lt (Nat.zero_le _) h.room
  content := rfl

theorem inv_accepted {s : State} (h : Inv s) {arg : Arg} {b' : Cells}
    (hwrote : s.buffer_.Wrote arg.rendering b') (hroom : b'.cur_ < kSmallBuffer) :
    Inv { buffer_ := b', accepted := s.accepted ++ [arg] } where
  wf := h.wf.wrote hwrote (by rw [← hwrote.cur]; exact Nat.le_of_lt hroom)
  room := hroom
  content := by
    rw [hwrote.content, h.content, List.flatMap_append, List.flatMap_singleton]

/-- A call is defined, adds all or nothing, and keeps the invariant. -/
theorem step_spec {s : State} (h : Inv s) (op : Op) :
    AllOrNothing s op ∧ ∃ s', next s op = some s' ∧ Inv s' := by
  cases op with
  | resetBuffer =>
    have hinv := inv_reset h
    exact ⟨⟨rfl, hinv.wf.toInt_length⟩, _, rfl, hinv⟩
  | shl arg =>
    obtain ⟨b', hshl, houtcome⟩ := shl_outcome arg h.wf
    have hnext := next_shl hshl
    by_cases haccepted : arg.Accepted s.buffer_.avail.toInt
    · obtain ⟨hwrote, hroom⟩ := houtcome.all haccepted
      rw [h.wf.size] at hroom
      have hinv := inv_accepted h hwrote hroom
      refine ⟨⟨b', hshl, ?_, houtcome.nothing⟩, _, hnext, ?_⟩
      · intro _
        refine ⟨hwrote.content, ?_⟩
        rw [hinv.wf.toInt_length, h.wf.toInt_length, hwrote.cur]
        exact Int.natCast_add _ _
      · rw [if_pos haccepted]
        exact hinv
    · obtain rfl := houtcome.nothing haccepted
      refine ⟨⟨_, hshl, fun h => absurd h haccepted, fun _ => rfl⟩, _, hnext, ?_⟩
      rw [if_neg haccepted]
      exact h

/-- The bytes before the cursor. -/
def State.text (s : State) : SmallBuffer :=
  ⟨s.buffer_.content.take kSmallBuffer, List.length_take_le _ _⟩

namespace Inv

variable {s : State}

theorem text_data (h : Inv s) : s.text.data = s.buffer_.content := by
  apply List.take_of_length_le
  rw [h.wf.length_content]
  exact h.wf.cur_le

theorem text_avail (h : Inv s) : (s.text.avail : Int) = s.buffer_.avail.toInt := by
  have hcur := h.wf.cur_le
  rw [FixedBuffer.avail, h.text_data, h.wf.length_content, h.wf.toInt_avail]
  omega

end Inv

theorem text_step {s s' : State} (h : Inv s) (h' : Inv s') {op : Op}
    (hnext : next s op = some s') : textMachine.next s.text op = some s'.text := by
  have hext : ∀ {a b : SmallBuffer}, a.data = b.data → some a = some b := by
    rintro ⟨a, _⟩ ⟨b, _⟩ rfl
    rfl
  apply hext
  rw [h'.text_data]
  obtain ⟨hstep, _⟩ := step_spec h op
  cases op with
  | resetBuffer =>
    cases hnext
    exact hstep.1.symm
  | shl arg =>
    obtain ⟨b', hshl, hall, hnothing⟩ := hstep
    rw [next_shl hshl, Option.some.injEq] at hnext
    subst hnext
    show (LogStream.shl s.text arg.item).data = b'.content
    rw [shl_item_data, h.text_avail, h.text_data]
    split
    next haccepted => exact (hall haccepted).1.symm
    next hrefused => rw [hnothing hrefused]

/-- The stream over its cells is the stream over its text. -/
def textSimulation : Simulation machine textMachine fun _ _ => True where
  Inv := Inv
  abs := State.text
  init := by
    intro s hinit
    have hinv := inv_init hinit
    refine ⟨hinv, ?_⟩
    show s.text = FixedBuffer.ctor
    have hempty : s.buffer_.content = [] := by
      rw [Cells.content, hinit.2.1, List.take_zero]
    simp [State.text, hempty, FixedBuffer.ctor]
  step := by
    intro s op hinv _
    obtain ⟨s', hnext, hinv'⟩ := (step_spec hinv op).2
    exact ⟨s', hnext, hinv', text_step hinv hinv' hnext⟩

/-- For every sequence of calls: no access leaves the cells of the buffer (the run is
    defined), the length stays below `kSmallBuffer`, each call adds all of its rendering or
    nothing, and the content is made of the renderings of the arguments that were accepted
    since the last reset. -/
theorem stream_all_or_nothing {s₀ : State} (hinit : machine.init s₀) (ops : List Op) :
    machine.Along AllOrNothing s₀ ops ∧
    ∃ s, machine.run s₀ ops = some s ∧ s.buffer_.length.toInt ≤ kSmallBuffer - 1 ∧
      s.buffer_.toString = some (s.accepted.flatMap Arg.rendering) := by
  have hinv := inv_init hinit
  obtain ⟨s, hrun, hs, _⟩ :=
    textSimulation.run hinv (machine.along_of_forall (fun _ _ => trivial) s₀ ops)
  have hs : Inv s := hs
  refine ⟨?_, s, hrun, ?_, ?_⟩
  · apply machine.along_of_run _ hinv hrun
    intro t op t' ht hnext
    obtain ⟨hstep, t'', hnext', ht''⟩ := step_spec ht op
    have heq : some t' = some t'' := hnext.symm.trans hnext'
    exact ⟨hstep, Option.some.inj heq ▸ ht''⟩
  · have hroom := hs.room
    rw [hs.wf.toInt_length]
    omega
  · rw [hs.wf.toString_eq, hs.content]

/-- A number, an address and a text that is too long, and a new start. -/
theorem stream_all_or_nothing_mixed :
    ∃ s₀ s : State, machine.init s₀ ∧
      machine.run s₀ [.shl (.int (-7)), .shl (.pointer 0xbeef),
        .shl (.string (List.replicate kSmallBuffer 65)), .resetBuffer, .shl (.bool true)] =
          some s ∧
      s.buffer_.length.toInt ≤ kSmallBuffer - 1 ∧
      s.buffer_.toString = some (s.accepted.flatMap Arg.rendering) := by
  have hinit : machine.init { buffer_ := ⟨List.replicate kSmallBuffer 0xcc, 0⟩ } :=
    ⟨List.length_replicate, rfl, rfl⟩
  obtain ⟨_, s, hrun⟩ := stream_all_or_nothing hinit [.shl (.int (-7)), .shl (.pointer 0xbeef),
    .shl (.string (List.replicate kSmallBuffer 65)), .resetBuffer, .shl (.bool true)]
  exact ⟨_, s, hinit, hrun⟩

end LogStream.Cells
