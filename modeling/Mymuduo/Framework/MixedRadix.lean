import Mathlib.Algebra.BigOperators.Group.Finset.Basic
import Mathlib.Algebra.Order.BigOperators.Group.Finset
import Mathlib.Data.List.Basic

/-! # Mixed radix

    A number is cut into pieces of given sizes, the way a count of days is cut into years and
    the days of a year into months.  Index and rest keep the order of the numbers
    (`pieces_lt`), and texts that are made of blocks of equal length keep the order of the
    blocks (`append_lt_append`).
-/

/-! ## Pieces -/

/-- Cuts pieces of the sizes `size i`, `size (i + 1)`, .. off `n`, at most `fuel` of them: the
    index of the piece that `n` ends in, and the rest. -/
def pieces (size : Nat → Nat) : Nat → Nat → Nat → Nat × Nat
  | 0, i, n => (i, n)
  | fuel + 1, i, n =>
    if n < size i then (i, n) else pieces size fuel (i + 1) (n - size i)

section

variable {size : Nat → Nat}

theorem le_pieces_fst (fuel i n : Nat) : i ≤ (pieces size fuel i n).1 := by
  induction fuel generalizing i n with
  | zero => exact Nat.le_refl i
  | succ fuel ih =>
    rw [pieces]
    split
    · exact Nat.le_refl i
    · exact Nat.le_of_succ_le (ih (i + 1) (n - size i))

theorem pieces_fst_le (fuel i n : Nat) : (pieces size fuel i n).1 ≤ i + fuel := by
  induction fuel generalizing i n with
  | zero => exact Nat.le_refl i
  | succ fuel ih =>
    rw [pieces]
    split
    · exact Nat.le_add_right i _
    · have hle := ih (i + 1) (n - size i)
      omega

/-- With enough pieces the rest is less than the piece it lies in. -/
theorem pieces_snd_lt {fuel i n : Nat} (h : n < ∑ k ∈ Finset.range (fuel + 1), size (i + k)) :
    (pieces size fuel i n).2 < size (pieces size fuel i n).1 := by
  induction fuel generalizing i n with
  | zero => simpa [pieces] using h
  | succ fuel ih =>
    rw [pieces]
    split
    · assumption
    · refine ih ?_
      rw [Finset.sum_range_succ'] at h
      have hshift : ∑ k ∈ Finset.range (fuel + 1), size (i + 1 + k) =
          ∑ k ∈ Finset.range (fuel + 1), size (i + (k + 1)) := by
        refine Finset.sum_congr rfl ?_
        intro k _
        rw [Nat.add_assoc, Nat.add_comm 1 k]
      rw [hshift]
      simp only [Nat.add_zero] at h
      omega

/-- Where no piece is empty, `n` pieces are enough for `n`. -/
theorem pieces_fuel (hsize : ∀ i, 0 < size i) {fuel fuel' i n : Nat} (h : n ≤ fuel)
    (h' : n ≤ fuel') : pieces size fuel i n = pieces size fuel' i n := by
  induction fuel generalizing fuel' i n with
  | zero =>
    cases fuel' with
    | zero => rfl
    | succ fuel' =>
      obtain rfl : n = 0 := Nat.le_zero.mp h
      rw [pieces, pieces, if_pos (hsize i)]
  | succ fuel ih =>
    have hpos := hsize i
    cases fuel' with
    | zero =>
      obtain rfl : n = 0 := Nat.le_zero.mp h'
      rw [pieces, pieces, if_pos hpos]
    | succ fuel' =>
      rw [pieces, pieces]
      split
      · rfl
      · exact ih (by omega) (by omega)

/-- A larger number ends in a later piece, or further on in the same one. -/
theorem pieces_lt (size : Nat → Nat) (fuel i : Nat) {n m : Nat} (h : n < m) :
    (pieces size fuel i n).1 < (pieces size fuel i m).1 ∨
      (pieces size fuel i n).1 = (pieces size fuel i m).1 ∧
        (pieces size fuel i n).2 < (pieces size fuel i m).2 := by
  induction fuel generalizing i n m with
  | zero => exact Or.inr ⟨rfl, h⟩
  | succ fuel ih =>
    rw [pieces, pieces]
    by_cases hn : n < size i
    · rw [if_pos hn]
      by_cases hm : m < size i
      · rw [if_pos hm]
        exact Or.inr ⟨rfl, h⟩
      · rw [if_neg hm]
        exact Or.inl (le_pieces_fst fuel (i + 1) (m - size i))
    · rw [if_neg hn, if_neg (by omega)]
      exact ih (i + 1) (by omega)

end

/-! ## Texts of blocks -/

section

variable {α : Type} [LT α]

/-- The first block in which two texts differ decides. -/
theorem append_lt_append {a b x y : List α} (hlength : a.length = b.length) (h : a < b) :
    a ++ x < b ++ y := by
  induction a generalizing b with
  | nil =>
    rw [List.length_nil, eq_comm, List.length_eq_zero_iff] at hlength
    rw [hlength] at h
    exact absurd h (List.not_lt_nil _)
  | cons c a ih =>
    cases b with
    | nil => exact absurd h (List.not_lt_nil _)
    | cons d b =>
      rw [List.cons_lt_cons_iff] at h
      rw [List.cons_append, List.cons_append, List.cons_lt_cons_iff]
      rcases h with hlt | ⟨rfl, hlt⟩
      · exact Or.inl hlt
      · exact Or.inr ⟨rfl, ih (Nat.succ.inj hlength) hlt⟩

end
