import Mathlib.Algebra.Group.Int.Defs
import Mathlib.Algebra.Group.Nat.Defs
import Mathlib.Data.Int.Basic

/-! # Machine integers

    The integer types of C and C++ with `w` bits: a word, and whether it is read as a
    signed number (two's complement) or as an unsigned one.  Division rounds towards
    zero in both.
-/

inductive Signedness where
  | signed
  | unsigned
  deriving DecidableEq

namespace Signedness

variable {w : Nat}

/-- The number that the word is. -/
def value : Signedness → BitVec w → Int
  | .signed, v => v.toInt
  | .unsigned, v => v.toNat

def lt : Signedness → BitVec w → BitVec w → Bool
  | .signed, v, u => v.slt u
  | .unsigned, v, u => v.ult u

/-- `v % u`. -/
def rem : Signedness → BitVec w → BitVec w → BitVec w
  | .signed, v, u => v.srem u
  | .unsigned, v, u => v.umod u

/-- `v / u`. -/
def quot : Signedness → BitVec w → BitVec w → BitVec w
  | .signed, v, u => v.sdiv u
  | .unsigned, v, u => v.udiv u

variable (T : Signedness)

theorem value_eq_zero {v : BitVec w} : T.value v = 0 ↔ v = 0#w := by
  cases T with
  | signed =>
    show v.toInt = 0 ↔ v = 0#w
    rw [← BitVec.toInt_inj, BitVec.toInt_zero]
  | unsigned =>
    show (v.toNat : Int) = 0 ↔ v = 0#w
    rw [Int.natCast_eq_zero, BitVec.toNat_eq]
    simp

theorem lt_zero {v : BitVec w} : T.lt v 0#w = true ↔ T.value v < 0 := by
  cases T with
  | signed =>
    show v.slt 0#w = true ↔ v.toInt < 0
    rw [BitVec.slt_iff_toInt_lt, BitVec.toInt_zero]
  | unsigned =>
    show v.ult 0#w = true ↔ (v.toNat : Int) < 0
    simp [BitVec.ult]

/-- A number of the signed and of the unsigned type. -/
theorem value_ofNat {d : Nat} (h : 2 * d < 2 ^ w) : T.value (BitVec.ofNat w d) = d := by
  cases T with
  | signed =>
    show (BitVec.ofNat w d).toInt = d
    rw [BitVec.toInt_eq_toNat_of_lt (by rw [BitVec.toNat_ofNat, Nat.mod_eq_of_lt] <;> omega),
      BitVec.toNat_ofNat, Nat.mod_eq_of_lt (by omega)]
  | unsigned =>
    show ((BitVec.ofNat w d).toNat : Int) = d
    rw [BitVec.toNat_ofNat, Nat.mod_eq_of_lt (by omega)]

theorem value_rem (v u : BitVec w) : T.value (T.rem v u) = (T.value v).tmod (T.value u) := by
  cases T with
  | signed => exact BitVec.toInt_srem v u
  | unsigned =>
    show ((v % u).toNat : Int) = (v.toNat : Int).tmod u.toNat
    rw [BitVec.toNat_umod]
    exact Int.ofNat_tmod v.toNat u.toNat

/-- Only the quotient of the least number and -1 is not a number of the type. -/
theorem value_quot {v u : BitVec w} (h : 0 < T.value u) :
    T.value (T.quot v u) = (T.value v).tdiv (T.value u) := by
  cases T with
  | signed =>
    apply BitVec.toInt_sdiv_of_ne_or_ne
    right
    rintro rfl
    have hneg : (-1#w).toInt ≤ 0 := by
      rw [BitVec.neg_one_eq_allOnes, BitVec.toInt_allOnes]
      split <;> decide
    exact absurd h (Int.not_lt.mpr hneg)
  | unsigned =>
    show ((v / u).toNat : Int) = (v.toNat : Int).tdiv u.toNat
    rw [BitVec.toNat_udiv]
    exact Int.ofNat_tdiv v.toNat u.toNat

theorem natAbs_value_lt (v : BitVec w) : (T.value v).natAbs < 2 ^ w := by
  cases T with
  | signed =>
    have hlow := BitVec.le_two_mul_toInt (x := v)
    have hhigh := BitVec.two_mul_toInt_lt (x := v)
    have hpow : ((2 ^ w : Nat) : Int) = 2 ^ w := by simp
    have hpos := Nat.two_pow_pos w
    show v.toInt.natAbs < 2 ^ w
    omega
  | unsigned => exact v.isLt

/-- The least number of the signed type is the farthest from zero. -/
theorem two_mul_natAbs_value_le {v : BitVec w} (h : T.value v < 0) :
    2 * (T.value v).natAbs ≤ 2 ^ w := by
  cases T with
  | signed =>
    have hlow := BitVec.le_two_mul_toInt (x := v)
    have hpow : ((2 ^ w : Nat) : Int) = 2 ^ w := by simp
    show 2 * v.toInt.natAbs ≤ 2 ^ w
    have hneg : v.toInt < 0 := h
    omega
  | unsigned => exact absurd h (Int.not_lt.mpr (Int.natCast_nonneg _))

/-- The conversion to a narrower signed type keeps the numbers that this type has. -/
theorem toInt_setWidth_eq {u : Nat} (hu : 0 < u) (hle : u ≤ w) {v : BitVec w}
    (hlow : -2 ^ (u - 1) ≤ T.value v) (hhigh : T.value v < 2 ^ (u - 1)) :
    (v.setWidth u).toInt = T.value v := by
  rw [BitVec.toInt_setWidth]
  -- the number and the word are the same modulo 2 ^ u
  have hmod : (v.toNat : Int).bmod (2 ^ u) = (T.value v).bmod (2 ^ u) := by
    cases T with
    | signed =>
      show _ = v.toInt.bmod (2 ^ u)
      rw [BitVec.toInt_eq_toNat_bmod, Int.bmod_bmod_of_dvd (Nat.pow_dvd_pow 2 hle)]
    | unsigned => rfl
  rw [hmod]
  have hpow : (2 : Int) ^ u = 2 * 2 ^ (u - 1) := by
    rw [← Int.pow_succ', Nat.sub_add_cancel hu]
  have hcast : ((2 ^ u : Nat) : Int) = 2 ^ u := by simp
  apply Int.bmod_eq_of_le_mul_two <;> omega

end Signedness

/-! ## From `int` to `size_t` -/

theorem toNat_signExtend_of_nonneg {u v : Nat} (hle : u ≤ v) {x : BitVec u} (h : 0 ≤ x.toInt) :
    ((x.signExtend v).toNat : Int) = x.toInt := by
  rw [← BitVec.toInt_signExtend_of_le (x := x) hle] at h ⊢
  rw [BitVec.toInt_eq_toNat_cond] at h ⊢
  have hlt := (x.signExtend v).isLt
  split
  · rfl
  next hhalf =>
    rw [if_neg hhalf] at h
    omega

/-- A negative number becomes one that is near the end of the range. -/
theorem toNat_signExtend_of_neg {u v : Nat} (hle : u ≤ v) {x : BitVec u} (h : x.toInt < 0) :
    ((x.signExtend v).toNat : Int) = 2 ^ v + x.toInt := by
  rw [← BitVec.toInt_signExtend_of_le (x := x) hle] at h ⊢
  rw [BitVec.toInt_eq_toNat_cond] at h ⊢
  have hpow : ((2 ^ v : Nat) : Int) = 2 ^ v := by simp
  split
  next hhalf =>
    rw [if_pos hhalf] at h
    omega
  · omega
