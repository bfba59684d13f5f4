import Mymuduo.Framework.MachineInt
import Mymuduo.Framework.Region
import Mymuduo.Logger.LogStream

/-! # Numbers at the cursor

    `LogStream` has the text that each `operator<<` adds.  Here the buffer is the array of
    its cells with the position of the cursor, every access to a cell is checked, and the
    numbers are words of their types, so that a result `some _` means that no cell outside
    the buffer was touched.

    * `formatInteger` and `convertHex` write the digits from the last one on, then a zero
      byte, and turn the digits around in place.
    * What they leave are the numerals of `Framework/Numeral`.
-/

/-! ## FixedBuffer -/

namespace FixedBuffer

/-- A `FixedBuffer` with all its cells.  Those from `cur_` on hold anything. -/
structure Cells where
  data_ : List UInt8
  /-- How far `cur_` is from `data_`. -/
  cur_ : Nat
  deriving DecidableEq

namespace Cells

/-- `avail()`, an `int`. -/
def avail (b : Cells) : BitVec 32 := BitVec.ofInt 32 (b.data_.length - b.cur_)

/-- `length()`, an `int`. -/
def length (b : Cells) : BitVec 32 := BitVec.ofNat 32 b.cur_

/-- `append(buf, len)`; `buf` are the bytes readable at the pointer.  `avail()` is compared
    as a `size_t`. -/
def append (b : Cells) (buf : List UInt8) (len : Nat) : Option Cells :=
  if len < (b.avail.signExtend 64).toNat then do
    let bytes ← Region.copyOut buf 0 len
    let data ← Region.copyIn b.data_ b.cur_ bytes
    return { data_ := data, cur_ := b.cur_ + len }
  else some b

def add (b : Cells) (len : Nat) : Cells := { b with cur_ := b.cur_ + len }

def reset (b : Cells) : Cells := { b with cur_ := 0 }

/-- `toString()`: the string is made of `length()` bytes, converted to a `size_t`. -/
def toString (b : Cells) : Option (List UInt8) :=
  Region.copyOut b.data_ 0 (b.length.signExtend 64).toNat

/-! ## The bytes before the cursor -/

/-- An array of `SIZE` cells, which is an `int`, with the cursor in it or at its end. -/
structure Wf (SIZE : Nat) (b : Cells) : Prop where
  int : SIZE < 2 ^ 31
  size : b.data_.length = SIZE
  cur_le : b.cur_ ≤ SIZE

def content (b : Cells) : List UInt8 := b.data_.take b.cur_

/-- `b'` is `b` with `text` behind its content; the cells behind that may have changed. -/
structure Wrote (b : Cells) (text : List UInt8) (b' : Cells) : Prop where
  size : b'.data_.length = b.data_.length
  cur : b'.cur_ = b.cur_ + text.length
  content : b'.content = b.content ++ text

variable {SIZE : Nat} {b b' : Cells}

namespace Wf

theorem length_content (h : b.Wf SIZE) : b.content.length = b.cur_ := by
  rw [content, List.length_take, h.size]
  exact Nat.min_eq_left h.cur_le

theorem toInt_avail (h : b.Wf SIZE) : b.avail.toInt = SIZE - b.cur_ := by
  have hint := h.int
  have hcur := h.cur_le
  rw [avail, h.size]
  apply BitVec.toInt_ofInt_eq_self (by decide) <;> omega

theorem toInt_length (h : b.Wf SIZE) : b.length.toInt = b.cur_ := by
  have hint := h.int
  have hcur := h.cur_le
  exact Signedness.value_ofNat .signed (by omega)

/-- As a `size_t`, the room is the same number. -/
theorem toNat_avail (h : b.Wf SIZE) : (b.avail.signExtend 64).toNat = SIZE - b.cur_ := by
  have hcur := h.cur_le
  have havail := h.toInt_avail
  have hcast := toNat_signExtend_of_nonneg (by decide : 32 ≤ 64) (x := b.avail) (by omega)
  omega

theorem toString_eq (h : b.Wf SIZE) : b.toString = some b.content := by
  have hcur := h.cur_le
  have hsize := h.size
  have hlength := h.toInt_length
  have hcast := toNat_signExtend_of_nonneg (by decide : 32 ≤ 64) (x := b.length) (by omega)
  have hlen : (b.length.signExtend 64).toNat = b.cur_ := by omega
  rw [toString, hlen, Region.copyOut_eq (by omega)]
  rfl

theorem wrote (h : b.Wf SIZE) {text : List UInt8} (hw : b.Wrote text b')
    (hroom : b.cur_ + text.length ≤ SIZE) : b'.Wf SIZE where
  int := h.int
  size := hw.size.trans h.size
  cur_le := hw.cur ▸ hroom

end Wf

/-- Cells that hold `text` from the cursor on, under a cursor that has moved behind it. -/
theorem wrote_of_data (h : b.cur_ ≤ b.data_.length) {text rest : List UInt8}
    (hsize : b'.data_.length = b.data_.length)
    (hdata : b'.data_ = b.data_.take b.cur_ ++ text ++ rest)
    (hcur : b'.cur_ = b.cur_ + text.length) : b.Wrote text b' where
  size := hsize
  cur := hcur
  content := by
    have hlen : (b.data_.take b.cur_ ++ text).length = b'.cur_ := by
      rw [List.length_append, List.length_take, Nat.min_eq_left h, hcur]
    rw [content, hdata, ← hlen, List.take_left]
    rfl

/-- The cells with `text` and a zero at the cursor, and the cursor behind the text. -/
def terminated (b : Cells) (text : List UInt8) : Cells where
  data_ := b.data_.take b.cur_ ++ text ++ 0 :: b.data_.drop (b.cur_ + text.length + 1)
  cur_ := b.cur_ + text.length

theorem wrote_terminated {text : List UInt8} (h : b.cur_ + text.length < b.data_.length) :
    b.Wrote text (b.terminated text) := by
  apply wrote_of_data (by omega) _ rfl rfl
  simp only [terminated, List.length_append, List.length_cons, List.length_take, List.length_drop]
  omega

end Cells

end FixedBuffer

namespace LogStream.Cells

open FixedBuffer (Cells)

/-! ## The functions -/

/-- `table[i]` for an `int` index. -/
def loadDigit (table : List UInt8) (i : Int) : Option UInt8 :=
  if 0 ≤ i then Region.load table i.toNat else none

/-- The loop of `formatInteger` over the cells from `cur` on; without a result if it does not
    end within `fuel` rounds. -/
def formatLoop (T : Signedness) {w : Nat} :
    Nat → List UInt8 → Nat → BitVec w → Option (List UInt8 × Nat)
  | 0, _, _, _ => none
  | fuel + 1, data, cur, num => do
    -- an int with the sign of num, so the table is indexed around its zero
    let remainder : BitVec 32 := (T.rem num 10#w).setWidth 32
    let digit ← loadDigit digits (9 + remainder.toInt)
    let data ← Region.store data cur digit
    let num := T.quot num 10#w
    if num ≠ 0#w then formatLoop T fuel data (cur + 1) num else some (data, cur + 1)

/-- The sign behind the digits. -/
def formatSign (negative : Bool) (data : List UInt8) (cur : Nat) : Option (List UInt8 × Nat) :=
  if negative then do
    let data ← Region.store data cur '-'.toUInt8
    return (data, cur + 1)
  else some (data, cur)

/-- `formatInteger<T>(num)`, where `T` has `w` bits. -/
def formatInteger (T : Signedness) {w : Nat} (b : Cells) (num : BitVec w) : Option Cells :=
  if (BitVec.ofNat 32 kMaxNumericSize).sle b.avail then do
    let start := b.cur_
    let negative := T.lt num 0#w
    -- the digits come last first
    let (data, cur) ← formatLoop T 20 b.data_ start num
    let (data, cur) ← formatSign negative data cur
    let data ← Region.store data cur 0
    let data ← Region.reverse data start (cur - start)
    return { b with data_ := data }.add (cur - start)
  else some b

/-- The loop of `convertHex`. -/
def hexLoop : Nat → List UInt8 → Nat → BitVec 64 → Option (List UInt8 × Nat)
  | 0, _, _, _ => none
  | fuel + 1, data, p, i => do
    let lsd : BitVec 32 := (i.umod 16#64).setWidth 32
    let i := i.udiv 16#64
    let digit ← loadDigit digitsHex lsd.toInt
    let data ← Region.store data p digit
    if i ≠ 0#64 then hexLoop fuel data (p + 1) i else some (data, p + 1)

/-- `convertHex(buf, value)`: the cells and the number of digits. -/
def convertHex (data : List UInt8) (buf : Nat) (value : BitVec 64) : Option (List UInt8 × Nat) := do
  let (data, p) ← hexLoop 16 data buf value
  let data ← Region.store data p 0
  let data ← Region.reverse data buf (p - buf)
  return (data, p - buf)

/-! ## The loops -/

section

variable (T : Signedness) {w : Nat} (hw : 32 ≤ w)
include hw

theorem value_ten : T.value 10#w = 10 := by
  apply T.value_ofNat
  calc 2 * 10 < 2 ^ 32 := by decide
    _ ≤ 2 ^ w := Nat.pow_le_pow_right (by decide) hw

/-- The conversion to `int` keeps a remainder, and its sign with it. -/
theorem toInt_remainder (num : BitVec w) :
    ((T.rem num 10#w).setWidth 32).toInt = (T.value num).tmod 10 := by
  have hrem : T.value (T.rem num 10#w) = (T.value num).tmod 10 := by
    rw [T.value_rem, value_ten T hw]
  have hlow := Int.lt_tmod_of_pos (T.value num) (by decide : (0 : Int) < 10)
  have hhigh := Int.tmod_lt_of_pos (T.value num) (by decide : (0 : Int) < 10)
  -- a remainder by ten is far from the bounds of an int
  rw [← hrem] at hlow hhigh ⊢
  apply T.toInt_setWidth_eq (by decide) hw <;> omega

theorem value_quot_ten (num : BitVec w) : T.value (T.quot num 10#w) = (T.value num).tdiv 10 := by
  have hten := value_ten T hw
  rw [T.value_quot (by omega), hten]

end

/-- No remainder leads out of the table. -/
theorem loadDigit_remainder (num : Int) :
    loadDigit digits (9 + num.tmod 10) = some (zero (num.tmod 10)) := by
  have hlow := Int.lt_tmod_of_pos num (by decide : (0 : Int) < 10)
  have hhigh := Int.tmod_lt_of_pos num (by decide : (0 : Int) < 10)
  have hlt : (9 + num.tmod 10).toNat < digits.length := by
    show _ < 19
    omega
  rw [loadDigit, if_pos (by omega), Region.load, zero, List.getD_eq_getElem?_getD,
    List.getElem?_eq_getElem hlt, Option.getD_some]

section

variable (T : Signedness) {w : Nat} (hw : 32 ≤ w)
include hw

/-- One round, in terms of the number. -/
theorem formatLoop_succ (fuel : Nat) (data : List UInt8) (cur : Nat) (num : BitVec w) :
    formatLoop T (fuel + 1) data cur num =
      (Region.store data cur (zero ((T.value num).tmod 10))).bind fun data =>
        if (T.value num).tdiv 10 ≠ 0 then formatLoop T fuel data (cur + 1) (T.quot num 10#w)
        else some (data, cur + 1) := by
  have hquot : T.quot num 10#w ≠ 0#w ↔ (T.value num).tdiv 10 ≠ 0 := by
    rw [← value_quot_ten T hw, Ne, Ne, T.value_eq_zero]
  rw [formatLoop, toInt_remainder T hw, loadDigit_remainder]
  simp only [hquot, Option.bind_eq_bind, Option.bind_some]

/-- The loop over the cells stores the digits that the loop over numbers has, one by one. -/
theorem formatLoop_eq_copyIn {fuel : Nat} {num : BitVec w}
    (h : (T.value num).natAbs < 10 ^ (fuel + 1)) (data : List UInt8) (cur : Nat) :
    formatLoop T (fuel + 1) data cur num =
      (Region.copyIn data cur (LogStream.formatLoop (fuel + 1) (T.value num))).map fun data =>
        (data, cur + (LogStream.formatLoop (fuel + 1) (T.value num)).length) := by
  apply Region.loop_eq_copyIn (formatLoop T)
    (fun fuel num => LogStream.formatLoop fuel (T.value num))
    (fun fuel num => (T.value num).natAbs < 10 ^ (fuel + 1)) (formatLoop_succ T hw) _ _ _ h
  · intro fuel num
    rw [LogStream.formatLoop, value_quot_ten T hw]
  · intro num hnum
    have hdiv := natAbs_tdiv_ten (T.value num)
    omega
  · intro fuel num hnum
    rw [value_quot_ten T hw, natAbs_tdiv_ten]
    exact Nat.div_lt_of_lt_mul (by rwa [Nat.pow_succ, Nat.mul_comm] at hnum)

end

/-- The remainder of an unsigned word is an `int` too. -/
theorem loadDigit_lsd (i : BitVec 64) :
    loadDigit digitsHex ((i.umod 16#64).setWidth 32).toInt =
      some (digitsHex.getD (i.toNat % 16) 0) := by
  have hrem : (i.umod 16#64).toNat = i.toNat % 16 := BitVec.toNat_umod
  have hlt : i.toNat % 16 < digitsHex.length := Nat.mod_lt _ (by decide)
  have hlsd : ((i.umod 16#64).setWidth 32).toInt = ((i.toNat % 16 : Nat) : Int) := by
    rw [← hrem]
    apply Signedness.toInt_setWidth_eq .unsigned (by decide) (by decide)
    · show _ ≤ ((i.umod 16#64).toNat : Int)
      omega
    · show ((i.umod 16#64).toNat : Int) < _
      omega
  rw [hlsd, loadDigit, if_pos (by omega), Region.load, Int.toNat_natCast,
    List.getD_eq_getElem?_getD, List.getElem?_eq_getElem hlt, Option.getD_some]

theorem hexLoop_succ (fuel : Nat) (data : List UInt8) (p : Nat) (i : BitVec 64) :
    hexLoop (fuel + 1) data p i =
      (Region.store data p (digitsHex.getD (i.toNat % 16) 0)).bind fun data =>
        if i.toNat / 16 ≠ 0 then hexLoop fuel data (p + 1) (i.udiv 16#64)
        else some (data, p + 1) := by
  have hquot : i.udiv 16#64 ≠ 0#64 ↔ i.toNat / 16 ≠ 0 := by
    have hdiv : (i.udiv 16#64).toNat = i.toNat / 16 := BitVec.toNat_udiv
    rw [← hdiv, Ne, Ne, BitVec.toNat_eq]
    simp
  rw [hexLoop, loadDigit_lsd]
  simp only [hquot, Option.bind_eq_bind, Option.bind_some]

theorem hexLoop_eq_copyIn {fuel : Nat} {i : BitVec 64} (h : i.toNat < 16 ^ (fuel + 1))
    (data : List UInt8) (p : Nat) :
    hexLoop (fuel + 1) data p i =
      (Region.copyIn data p (LogStream.hexLoop (fuel + 1) i.toNat)).map fun data =>
        (data, p + (LogStream.hexLoop (fuel + 1) i.toNat).length) := by
  have hquot : ∀ i : BitVec 64, (i.udiv 16#64).toNat = i.toNat / 16 := fun i =>
    BitVec.toNat_udiv
  apply Region.loop_eq_copyIn hexLoop (fun fuel i => LogStream.hexLoop fuel i.toNat)
    (fun fuel i => i.toNat < 16 ^ (fuel + 1)) hexLoop_succ _ _ _ h
  · intro fuel i
    rw [LogStream.hexLoop, hquot]
  · intro i hi
    omega
  · intro fuel i hi
    rw [hquot]
    exact Nat.div_lt_of_lt_mul (by rwa [Nat.pow_succ, Nat.mul_comm] at hi)

/-! ## The cells that are left -/

/-- Bytes that are stored with a zero behind them, and then turned around. -/
theorem reverse_copyIn {data text : List UInt8} {pos : Nat}
    (h : pos + text.length < data.length) :
    ((Region.copyIn data pos text).bind fun data =>
      (Region.store data (pos + text.length) 0).bind fun data =>
        Region.reverse data pos text.length) =
      some (data.take pos ++ text.reverse ++ 0 :: data.drop (pos + text.length + 1)) := by
  have hzero : ∀ data, Region.store data (pos + text.length) 0 =
      Region.copyIn data (pos + text.length) [(0 : UInt8)] := fun data =>
    (Region.copyIn_singleton data _ 0).symm
  have hlen : (text ++ [0]).length = text.length + 1 := by simp
  have hpos : (data.take pos).length = pos := by
    rw [List.length_take]
    omega
  simp only [hzero]
  rw [← Option.bind_assoc, ← Region.copyIn_append, Region.copyIn_eq (by omega), Option.bind_some,
    hlen]
  have hcells := Region.reverse_eq (data.take pos) text
    (0 :: data.drop (pos + text.length + 1))
  rw [hpos] at hcells
  rw [← hcells]
  simp [Nat.add_assoc]

/-- What `formatInteger` stores, in the order in which it stores it. -/
def storedInteger (v : Int) : List UInt8 :=
  LogStream.formatLoop 20 v ++ if v < 0 then ['-'.toUInt8] else []

theorem length_storedInteger_le (v : Int) : (storedInteger v).length ≤ 21 := by
  have hlen := length_formatInteger_le v
  rw [LogStream.formatInteger, List.length_reverse] at hlen
  exact hlen

theorem formatSign_eq_copyIn (negative : Bool) (data : List UInt8) (cur : Nat) :
    formatSign negative data cur =
      (Region.copyIn data cur (if negative then ['-'.toUInt8] else [])).map fun data =>
        (data, cur + (if negative then ['-'.toUInt8] else []).length) := by
  cases negative with
  | false => rfl
  | true =>
    rw [formatSign, if_pos rfl, if_pos rfl, Region.copyIn_singleton, Option.map_eq_bind]
    rfl

section

variable {SIZE : Nat} {b : Cells}

theorem numeric_guard (b : Cells) :
    (BitVec.ofNat 32 kMaxNumericSize).sle b.avail = true ↔
      (kMaxNumericSize : Int) ≤ b.avail.toInt := by
  rw [BitVec.sle_iff_toInt_le]
  rfl

/-- A text that is shorter than `kMaxNumericSize` has room for the zero behind it. -/
theorem numeric_room (hb : b.Wf SIZE) (havail : (kMaxNumericSize : Int) ≤ b.avail.toInt)
    {len : Nat} (hlen : len < kMaxNumericSize) : b.cur_ + len < b.data_.length := by
  rw [hb.toInt_avail] at havail
  rw [hb.size]
  omega

/-- The sign and the zero behind the digits, and all but the zero turned around. -/
theorem formatInteger_eq_terminated (T : Signedness) {w : Nat} (hlow : 32 ≤ w) (hhigh : w ≤ 64)
    (v : BitVec w) (hb : b.Wf SIZE) (havail : (kMaxNumericSize : Int) ≤ b.avail.toInt) :
    formatInteger T b v = some (b.terminated (decimal (T.value v))) := by
  have hbound : (T.value v).natAbs < 10 ^ 20 := by
    calc (T.value v).natAbs < 2 ^ w := T.natAbs_value_lt v
      _ ≤ 2 ^ 64 := Nat.pow_le_pow_right (by decide) hhigh
      _ < 10 ^ 20 := by decide
  have htext : (storedInteger (T.value v)).reverse = decimal (T.value v) :=
    formatInteger_eq hbound
  have hlen : (storedInteger (T.value v)).length < kMaxNumericSize :=
    Nat.lt_of_le_of_lt (length_storedInteger_le _) (by decide)
  -- digits and sign are stored as two copies, one behind the other
  have hcells := reverse_copyIn (numeric_room hb havail hlen)
  rw [htext, storedInteger, Region.copyIn_append, ← storedInteger] at hcells
  simp only [Option.bind_eq_some_iff] at hcells
  obtain ⟨data₂, ⟨data₁, hdigits, hsign⟩, data₃, hzero, hreverse⟩ := hcells
  have hback : ∀ n : Nat, b.cur_ + n - b.cur_ = n := by omega
  have hlength : (LogStream.formatLoop 20 (T.value v)).length +
      (if T.value v < 0 then ['-'.toUInt8] else []).length = (storedInteger (T.value v)).length :=
    List.length_append.symm
  rw [formatInteger, if_pos ((numeric_guard b).mpr havail)]
  simp only [formatLoop_eq_copyIn T hlow hbound, hdigits, Option.map_some, Option.bind_eq_bind,
    Option.bind_some, formatSign_eq_copyIn, T.lt_zero, hsign, Nat.add_assoc, hlength, hzero,
    hback, hreverse, Cells.terminated, Cells.add]
  rw [← htext, List.length_reverse]
  rfl

end

theorem convertHex_eq {data : List UInt8} {buf : Nat} (value : BitVec 64)
    (hroom : buf + (LogStream.convertHex value.toNat).length < data.length) :
    convertHex data buf value =
      some (data.take buf ++ LogStream.convertHex value.toNat ++
        0 :: data.drop (buf + (LogStream.convertHex value.toNat).length + 1),
          (LogStream.convertHex value.toNat).length) := by
  have hlength : (LogStream.convertHex value.toNat).length =
      (LogStream.hexLoop 16 value.toNat).length := List.length_reverse
  rw [hlength] at hroom ⊢
  have hcells := reverse_copyIn hroom
  simp only [Option.bind_eq_some_iff] at hcells
  obtain ⟨data₁, hdigits, data₂, hzero, hreverse⟩ := hcells
  have hback : ∀ n : Nat, buf + n - buf = n := by omega
  have hbound : value.toNat < 16 ^ (15 + 1) := value.isLt
  rw [convertHex]
  simp only [hexLoop_eq_copyIn hbound, hdigits, Option.map_some, Option.bind_eq_bind,
    Option.bind_some, hzero, hback, hreverse]
  rfl

/-! ## The numerals -/

theorem digitsHex_nodup : digitsHex.Nodup := by decide

/-- The digits of the loop of `convertHex`, in the order in which they are read. -/
theorem isNumeral_hexLoop {fuel n : Nat} (h : n < 16 ^ (fuel + 1)) :
    IsNumeral digitsHex n (LogStream.hexLoop (fuel + 1) n).reverse := by
  have hdigit : ∀ n : Nat, digitsHex[n % 16]? = some (digitsHex.getD (n % 16) 0) := by
    intro n
    have hlt : n % 16 < digitsHex.length := Nat.mod_lt _ (by decide)
    rw [List.getD_eq_getElem?_getD, List.getElem?_eq_getElem hlt, Option.getD_some]
  have hlast : ∀ fuel n : Nat, n / 16 = 0 →
      IsNumeral digitsHex n (LogStream.hexLoop (fuel + 1) n).reverse := by
    intro fuel n hzero
    have hn : n % 16 = n := by omega
    have hone := IsNumeral.digit (hdigit n)
    rw [hn] at hone
    rw [LogStream.hexLoop, if_neg (fun hne => hne hzero), hn]
    exact hone
  -- by the rounds: the rest of the loop has the numeral of n / 16
  induction fuel generalizing n with
  | zero => exact hlast 0 n (by omega)
  | succ fuel ih =>
    by_cases hzero : n / 16 = 0
    · exact hlast (fuel + 1) n hzero
    · have hbound : n / 16 < 16 ^ (fuel + 1) :=
        Nat.div_lt_of_lt_mul (by rwa [Nat.pow_succ, Nat.mul_comm] at h)
      have hsnoc := IsNumeral.snoc (Nat.pos_of_ne_zero hzero) (ih hbound) (hdigit n)
      have hvalue : n / 16 * digitsHex.length + n % 16 = n := by
        show n / 16 * 16 + n % 16 = n
        omega
      rw [hvalue] at hsnoc
      rw [LogStream.hexLoop, if_pos hzero, List.reverse_cons]
      exact hsnoc

theorem isNumeral_convertHex (value : BitVec 64) :
    IsNumeral digitsHex value.toNat (LogStream.convertHex value.toNat) :=
  isNumeral_hexLoop value.isLt

/-- A sign costs one character, and the longest signed number has one digit less. -/
theorem length_decimal_value_le (T : Signedness) {w : Nat} (hw : w ≤ 64) (v : BitVec w) :
    (decimal (T.value v)).length ≤ 20 := by
  have hpow : 2 ^ w ≤ 2 ^ 64 := Nat.pow_le_pow_right (by decide) hw
  by_cases hneg : T.value v < 0
  · have habs := T.two_mul_natAbs_value_le hneg
    exact length_decimal_le (k := 19) (by decide) (by omega)
  · have habs := T.natAbs_value_lt v
    rw [decimal, if_neg hneg, List.nil_append]
    exact length_numeral_le (by decide) (by omega)

/-- For every integer type of 32 or 64 bits and every value of it, `formatInteger` with enough
    room adds the canonical decimal numeral; and for every address `convertHex` writes the
    canonical hexadecimal numeral and returns its length. -/
theorem numerals_canonical (T : Signedness) {w : Nat} (hw : w = 32 ∨ w = 64) (v : BitVec w)
    {SIZE : Nat} {b : Cells} (hb : b.Wf SIZE) (havail : (kMaxNumericSize : Int) ≤ b.avail.toInt)
    (value : BitVec 64) {data : List UInt8} {buf : Nat} (hroom : buf + 17 ≤ data.length) :
    (∃ b' text, formatInteger T b v = some b' ∧ b.Wrote text b' ∧
      CanonicalDecimal (T.value v) text ∧ (T.value v = 0 → text = ['0'.toUInt8]) ∧
      parseDecimal text = some (T.value v) ∧ text.length ≤ 20) ∧
    (∃ data' text, convertHex data buf value = some (data', text.length) ∧
      Region.slice data' buf text.length = text ∧ Canonical digitsHex text ∧
      parseNumeral digitsHex text = some value.toNat ∧ text.length ≤ 16) := by
  constructor
  · have hlow : 32 ≤ w := by omega
    have hhigh : w ≤ 64 := by omega
    have hlen := length_decimal_value_le T hhigh v
    refine ⟨_, decimal (T.value v), formatInteger_eq_terminated T hlow hhigh v hb havail,
      ?_, canonicalDecimal_decimal _, ?_, parseDecimal_decimal _, hlen⟩
    · exact Cells.wrote_terminated (numeric_room hb havail (Nat.lt_of_le_of_lt hlen (by decide)))
    · intro hzero
      rw [hzero]
      decide
  · have hlen := length_convertHex_le value.toNat
    have hnum := isNumeral_convertHex value
    refine ⟨_, LogStream.convertHex value.toNat, convertHex_eq value (by omega), ?_,
      hnum.canonical digitsHex_nodup, hnum.parseNumeral_eq digitsHex_nodup, hlen⟩
    have hpos : (data.take buf).length = buf := by
      rw [List.length_take]
      omega
    rw [Region.slice, List.append_assoc, List.drop_left' hpos, List.take_left]

/-- The least `int` at the start of an empty buffer, and an address. -/
theorem numerals_canonical_least :
    ∃ b : Cells, b.Wf kSmallBuffer ∧
      (∃ b' text, formatInteger .signed b (BitVec.intMin 32) = some b' ∧ b.Wrote text b' ∧
        CanonicalDecimal (-2147483648) text ∧ parseDecimal text = some (-2147483648)) ∧
      ∃ data' text, convertHex b.data_ 2 0xdeadbeef#64 = some (data', text.length) ∧
        parseNumeral digitsHex text = some 0xdeadbeef := by
  have hb : Cells.Wf kSmallBuffer ⟨List.replicate kSmallBuffer 0, 0⟩ :=
    ⟨by decide, List.length_replicate, Nat.zero_le _⟩
  have havail := hb.toInt_avail
  have hroom : 2 + 17 ≤ (List.replicate kSmallBuffer (0 : UInt8)).length := by
    rw [List.length_replicate]
    decide
  have hnumerals := numerals_canonical .signed (Or.inl rfl) (BitVec.intMin 32) hb
    (by rw [havail]; decide) 0xdeadbeef#64 hroom
  obtain ⟨b', text, hformat, hwrote, hcanonical, _, hparse, _⟩ := hnumerals.1
  obtain ⟨data', hex, hconvert, _, _, hvalue, _⟩ := hnumerals.2
  exact ⟨_, hb, ⟨b', text, hformat, hwrote, hcanonical, hparse⟩, data', hex, hconvert, hvalue⟩

end LogStream.Cells
