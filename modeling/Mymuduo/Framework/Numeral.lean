import Mathlib.Algebra.Group.Int.Defs
import Mathlib.Algebra.Group.Nat.Defs
import Mathlib.Data.List.Basic
import Mathlib.Data.List.Nodup

/-! # Decimal numerals

    The digits of a number as bytes, as `%d` and `%u` print them.
-/

/-- The decimal digits of `n`, without leading zeros. -/
def numeral (n : Nat) : List UInt8 := (Nat.toDigits 10 n).map Char.toUInt8

theorem isDigit_of_mem {n : Nat} {c : Char} (h : c ∈ Nat.toDigits 10 n) : c.isDigit = true :=
  Nat.isDigit_of_mem_toDigits (by decide) (by decide) h

theorem toNat_toUInt8_of_isDigit {c : Char} (h : c.isDigit = true) :
    c.toUInt8.toNat = c.toNat ∧ 48 ≤ c.toNat ∧ c.toNat ≤ 57 := by
  simp only [Char.isDigit, Bool.and_eq_true, decide_eq_true_eq, ge_iff_le, UInt32.le_iff_toNat_le]
    at h
  have hlow : 48 ≤ c.toNat := h.1
  have hhigh : c.toNat ≤ 57 := h.2
  have hsmall : c.toUInt8.toNat = c.toNat := by
    show c.toNat % 256 = c.toNat
    exact Nat.mod_eq_of_lt (by omega)
  exact ⟨hsmall, hlow, hhigh⟩

/-- Every byte is a digit. -/
theorem mem_numeral {n : Nat} {b : UInt8} (h : b ∈ numeral n) : 48 ≤ b.toNat ∧ b.toNat ≤ 57 := by
  obtain ⟨c, hc, rfl⟩ := List.mem_map.mp h
  obtain ⟨heq, hlow, hhigh⟩ := toNat_toUInt8_of_isDigit (isDigit_of_mem hc)
  omega

theorem zero_notMem_numeral (n : Nat) : 0 ∉ numeral n := by
  intro h
  have := (mem_numeral h).1
  simp at this

/-- The digits can be read back. -/
theorem map_ofNat_numeral (n : Nat) :
    (numeral n).map (fun b => Char.ofNat b.toNat) = Nat.toDigits 10 n := by
  rw [numeral, List.map_map]
  apply List.map_congr_left (g := id) _ |>.trans (List.map_id _)
  intro c hc
  show Char.ofNat c.toUInt8.toNat = c
  rw [(toNat_toUInt8_of_isDigit (isDigit_of_mem hc)).1, Char.ofNat_toNat]

theorem numeral_injective : Function.Injective numeral := by
  intro m n h
  have hdigits : Nat.toDigits 10 m = Nat.toDigits 10 n := by
    rw [← map_ofNat_numeral m, ← map_ofNat_numeral n, h]
  rw [← Nat.ofDigitChars_ten_toDigits (n := m), hdigits, Nat.ofDigitChars_ten_toDigits]

theorem length_numeral_le {n k : Nat} (hk : 0 < k) (h : n < 10 ^ k) : (numeral n).length ≤ k := by
  rw [numeral, List.length_map]
  exact (Nat.length_toDigits_le_iff (by decide) hk).mpr h

/-! ## Digit by digit -/

/-- The byte of a digit. -/
def digitByte (d : Nat) : UInt8 := UInt8.ofNat (48 + d)

theorem numeral_of_lt {n : Nat} (h : n < 10) : numeral n = [digitByte n] := by
  rw [numeral, Nat.toDigits_of_lt_base h]
  have hdigit : ∀ d : Fin 10, [d.val.digitChar].map Char.toUInt8 = [digitByte d.val] := by decide
  exact hdigit ⟨n, h⟩

theorem numeral_of_ge {n : Nat} (h : 10 ≤ n) :
    numeral n = numeral (n / 10) ++ [digitByte (n % 10)] := by
  have hlast := numeral_of_lt (Nat.mod_lt n (by decide : 0 < 10))
  rw [numeral, Nat.toDigits_of_lt_base (Nat.mod_lt n (by decide))] at hlast
  rw [numeral, Nat.toDigits_of_base_le (by decide) h, List.map_append, hlast]
  rfl

/-! ## Signs -/

/-- The decimal numeral of an integer, with `-` before the digits of a negative one. -/
def decimal (v : Int) : List UInt8 :=
  (if v < 0 then ['-'.toUInt8] else []) ++ numeral v.natAbs

theorem decimal_ne_nil (v : Int) : decimal v ≠ [] := by
  have hdigits : numeral v.natAbs ≠ [] := by simp [numeral]
  simp [decimal, hdigits]

theorem length_decimal_le {v : Int} {k : Nat} (hk : 0 < k) (h : v.natAbs < 10 ^ k) :
    (decimal v).length ≤ k + 1 := by
  have hdigits := length_numeral_le hk h
  rw [decimal, List.length_append]
  split
  · rw [List.length_singleton]
    omega
  · rw [List.length_nil]
    omega

/-! ## Positional notation -/

/-- `text` is `n` written with the digits of `table`.  Only a number that is not zero gets a
    further digit behind it, so no numeral has leading zeros. -/
inductive IsNumeral (table : List UInt8) : Nat → List UInt8 → Prop
  | digit {d : Nat} {b : UInt8} (hdigit : table[d]? = some b) : IsNumeral table d [b]
  | snoc {n d : Nat} {text : List UInt8} {b : UInt8} (hpos : 0 < n)
      (hrest : IsNumeral table n text) (hdigit : table[d]? = some b) :
      IsNumeral table (n * table.length + d) (text ++ [b])

/-- The value of a text in the digits of `table`, behind digits with the value `n`. -/
def parseDigits (table : List UInt8) : Nat → List UInt8 → Option Nat
  | n, [] => some n
  | n, b :: text => do
    let d ← table.idxOf? b
    parseDigits table (n * table.length + d) text

/-- A number is at least one digit. -/
def parseNumeral (table text : List UInt8) : Option Nat :=
  if text = [] then none else parseDigits table 0 text

/-- Digits only, at least one, and a zero at the front only if it is the only digit. -/
def Canonical (table text : List UInt8) : Prop :=
  text ≠ [] ∧ (∀ b ∈ text, b ∈ table) ∧ (text.head? = table.head? → text.length = 1)

theorem parseDigits_append (table text more : List UInt8) (n : Nat) :
    parseDigits table n (text ++ more) =
      (parseDigits table n text).bind fun n => parseDigits table n more := by
  induction text generalizing n with
  | nil => rfl
  | cons b text ih =>
    rw [List.cons_append, parseDigits, parseDigits]
    cases table.idxOf? b with
    | none => rfl
    | some d => exact ih _

theorem idxOf?_of_nodup {table : List UInt8} (h : table.Nodup) {d : Nat} {b : UInt8}
    (hdigit : table[d]? = some b) : table.idxOf? b = some d := by
  obtain ⟨hlt, hget⟩ := List.getElem?_eq_some_iff.mp hdigit
  rw [List.idxOf?_eq_some_iff]
  refine ⟨hlt, hget, ?_⟩
  intro j hj heq
  have hdj := (List.Nodup.getElem_inj_iff h).mp (heq.trans hget.symm)
  omega

namespace IsNumeral

variable {table text : List UInt8} {n : Nat}

theorem ne_nil (h : IsNumeral table n text) : text ≠ [] := by
  cases h <;> simp

theorem mem (h : IsNumeral table n text) : ∀ b ∈ text, b ∈ table := by
  induction h with
  | digit hdigit =>
    intro c hc
    rw [List.mem_singleton.mp hc]
    exact List.mem_of_getElem? hdigit
  | snoc _ _ hdigit ih =>
    intro c hc
    rcases List.mem_append.mp hc with hc | hc
    · exact ih c hc
    · rw [List.mem_singleton.mp hc]
      exact List.mem_of_getElem? hdigit

theorem eq_zero_of_head (hnodup : table.Nodup) (h : IsNumeral table n text)
    (hhead : text.head? = table.head?) : n = 0 ∧ text.length = 1 := by
  induction h with
  | digit hdigit =>
    refine ⟨?_, rfl⟩
    rw [List.head?_cons, List.head?_eq_getElem?] at hhead
    obtain ⟨hlt, hget⟩ := List.getElem?_eq_some_iff.mp hdigit
    obtain ⟨hfirst, hzero⟩ := List.getElem?_eq_some_iff.mp hhead.symm
    exact (List.Nodup.getElem_inj_iff hnodup).mp (hget.trans hzero.symm)
  | snoc hpos hrest _ ih =>
    -- the first digit is that of the number before
    rw [List.head?_append_of_ne_nil _ hrest.ne_nil] at hhead
    have := (ih hhead).1
    omega

theorem canonical (hnodup : table.Nodup) (h : IsNumeral table n text) : Canonical table text :=
  ⟨h.ne_nil, h.mem, fun hhead => (h.eq_zero_of_head hnodup hhead).2⟩

theorem parseDigits_eq (hnodup : table.Nodup) (h : IsNumeral table n text) :
    parseDigits table 0 text = some n := by
  induction h with
  | digit hdigit =>
    rw [parseDigits, idxOf?_of_nodup hnodup hdigit]
    simp [parseDigits]
  | snoc _ _ hdigit ih =>
    rw [parseDigits_append, ih, Option.bind_some, parseDigits, idxOf?_of_nodup hnodup hdigit]
    rfl

theorem parseNumeral_eq (hnodup : table.Nodup) (h : IsNumeral table n text) :
    parseNumeral table text = some n := by
  rw [parseNumeral, if_neg h.ne_nil, h.parseDigits_eq hnodup]

end IsNumeral

/-! ## Decimal numerals in positional notation -/

def decimalDigits : List UInt8 := (List.range 10).map digitByte

theorem decimalDigits_nodup : decimalDigits.Nodup := by decide

theorem decimalDigits_getElem? {d : Nat} (h : d < 10) : decimalDigits[d]? = some (digitByte d) := by
  simp [decimalDigits, h]

theorem isNumeral_numeral (n : Nat) : IsNumeral decimalDigits n (numeral n) := by
  induction n using Nat.strongRecOn with
  | ind n ih =>
    by_cases hlt : n < 10
    · rw [numeral_of_lt hlt]
      exact IsNumeral.digit (decimalDigits_getElem? hlt)
    · have hpos : 0 < n / 10 := by omega
      have hrest := ih (n / 10) (by omega)
      have hdigit := decimalDigits_getElem? (Nat.mod_lt n (by decide : 0 < 10))
      have hsnoc := IsNumeral.snoc hpos hrest hdigit
      have hvalue : n / 10 * decimalDigits.length + n % 10 = n := by
        show n / 10 * 10 + n % 10 = n
        omega
      rw [hvalue] at hsnoc
      rw [numeral_of_ge (Nat.le_of_not_lt hlt)]
      exact hsnoc

/-- The value of a decimal numeral with an optional sign. -/
def parseDecimal : List UInt8 → Option Int
  | [] => none
  | b :: text =>
    if b = '-'.toUInt8 then (parseNumeral decimalDigits text).map fun n : Nat => -(n : Int)
    else (parseNumeral decimalDigits (b :: text)).map fun n : Nat => (n : Int)

/-- A sign for a negative number only, and the digits without leading zeros. -/
def CanonicalDecimal (v : Int) (text : List UInt8) : Prop :=
  ∃ digits, Canonical decimalDigits digits ∧
    text = if v < 0 then '-'.toUInt8 :: digits else digits

theorem canonicalDecimal_decimal (v : Int) : CanonicalDecimal v (decimal v) := by
  refine ⟨numeral v.natAbs, (isNumeral_numeral _).canonical decimalDigits_nodup, ?_⟩
  rw [decimal]
  split <;> rfl

theorem parseDecimal_decimal (v : Int) : parseDecimal (decimal v) = some v := by
  have hnum := isNumeral_numeral v.natAbs
  have hparse := hnum.parseNumeral_eq decimalDigits_nodup
  rw [decimal]
  by_cases hneg : v < 0
  · rw [if_pos hneg, List.singleton_append, parseDecimal, if_pos rfl, hparse, Option.map_some,
      Option.some.injEq]
    omega
  · rw [if_neg hneg, List.nil_append]
    -- the first byte is a digit, and so not the sign
    obtain ⟨b, text, htext⟩ := List.exists_cons_of_ne_nil hnum.ne_nil
    have hdigit : b ∈ decimalDigits := by
      apply hnum.mem b
      rw [htext]
      exact List.mem_cons_self
    have hb : b ≠ '-'.toUInt8 := by
      rintro rfl
      revert hdigit
      decide
    rw [htext, parseDecimal, if_neg hb, ← htext, hparse, Option.map_some, Option.some.injEq]
    omega
