import Mathlib.Algebra.Order.BigOperators.Group.Finset
import Mymuduo.Logger.LogFile

/-! # The write loop of FileUtil::append

    The loop calls `fwrite_unlocked` until all bytes are stored.  A short write with the
    error indicator set is reported on stderr, and the loop goes on; it has no way out
    but the last byte.
-/

namespace FileAppend

/-- What one call of `fwrite_unlocked` answers: how many bytes it would store, and the
    error indicator after it. -/
structure Fwrite where
  n : Nat
  err : Bool := false
  deriving DecidableEq

/-- The local variables, with the bytes stored so far. -/
structure Loop where
  written : Nat := 0
  stored : List UInt8 := []
  /-- The number of messages on stderr. -/
  reports : Nat := 0
  deriving DecidableEq

/-- The body of the loop; `fwrite_unlocked` stores no more than it is given. -/
def body (data : List UInt8) (r : Fwrite) (s : Loop) : Loop :=
  let remain := data.length - s.written
  let n := min r.n remain
  { written := s.written + n
    stored := s.stored ++ (data.drop s.written).take n
    reports := if n ≠ remain ∧ r.err = true then s.reports + 1 else s.reports }

/-- The state after `k` rounds; once the loop has ended nothing happens any more. -/
def rounds (data : List UInt8) (results : Nat → Fwrite) : Nat → Loop
  | 0 => {}
  | k + 1 =>
    let s := rounds data results k
    if s.written = data.length then s else body data (results k) s

/-- The loop ends within `k` rounds, in the state `s`. -/
def EndsIn (data : List UInt8) (results : Nat → Fwrite) (k : Nat) (s : Loop) : Prop :=
  rounds data results k = s ∧ s.written = data.length

instance (data : List UInt8) (results : Nat → Fwrite) (k : Nat) (s : Loop) :
    Decidable (EndsIn data results k s) :=
  inferInstanceAs (Decidable (_ ∧ _))

variable {data : List UInt8} {results : Nat → Fwrite}

/-! ## What has been stored -/

theorem body_stored {r : Fwrite} {s : Loop} (h : s.stored = data.take s.written) :
    (body data r s).stored = data.take (body data r s).written := by
  show s.stored ++ (data.drop s.written).take _ = data.take (s.written + _)
  rw [h, List.take_add]

theorem rounds_stored (k : Nat) :
    (rounds data results k).stored = data.take (rounds data results k).written := by
  induction k with
  | zero => rfl
  | succ k ih =>
    rw [rounds]
    split
    · exact ih
    · exact body_stored ih

/-- `written` is the sum of the results, up to the length of the data. -/
theorem rounds_written (k : Nat) :
    (rounds data results k).written = min data.length (∑ i ∈ Finset.range k, (results i).n) := by
  induction k with
  | zero => exact (Nat.min_zero _).symm
  | succ k ih =>
    rw [rounds, Finset.sum_range_succ]
    split
    next hend => omega
    next =>
      show (rounds data results k).written +
        min (results k).n (data.length - (rounds data results k).written) = _
      omega

/-! ## When the loop ends -/

/-- From some call on nothing is stored any more, though there is something left. -/
def Stuck (data : List UInt8) (results : Nat → Fwrite) : Prop :=
  ∃ k, ∑ i ∈ Finset.range k, (results i).n < data.length ∧ ∀ i, k ≤ i → (results i).n = 0

/-- What does not get stuck grows beyond every bound. -/
theorem exists_sum_of_not_stuck (h : ¬ Stuck data results) :
    ∃ k, data.length ≤ ∑ i ∈ Finset.range k, (results i).n := by
  by_contra hnot
  -- then every bound below the length can still be passed
  have hgrow : ∀ b, ∃ k, b ≤ ∑ i ∈ Finset.range k, (results i).n := by
    intro b
    induction b with
    | zero => exact ⟨0, Nat.zero_le _⟩
    | succ b ih =>
      obtain ⟨k, hk⟩ := ih
      have hshort : ∑ i ∈ Finset.range k, (results i).n < data.length := by
        by_contra hge
        exact hnot ⟨k, Nat.le_of_not_lt hge⟩
      have hnext : ∃ i, k ≤ i ∧ (results i).n ≠ 0 := by
        by_contra hzero
        apply h
        refine ⟨k, hshort, ?_⟩
        intro i hi
        by_contra hne
        exact hzero ⟨i, hi, hne⟩
      obtain ⟨i, hi, hne⟩ := hnext
      refine ⟨i + 1, ?_⟩
      have hmono : ∑ j ∈ Finset.range k, (results j).n ≤ ∑ j ∈ Finset.range i, (results j).n :=
        Finset.sum_le_sum_of_subset (Finset.range_mono hi)
      rw [Finset.sum_range_succ]
      omega
  exact hnot (hgrow data.length)

theorem sum_eq_of_stuck {k m : Nat} (hzero : ∀ i, k ≤ i → (results i).n = 0) (hm : k ≤ m) :
    ∑ i ∈ Finset.range m, (results i).n = ∑ i ∈ Finset.range k, (results i).n := by
  induction m, hm using Nat.le_induction with
  | base => rfl
  | succ m hm ih => rw [Finset.sum_range_succ, hzero m hm, ih, Nat.add_zero]

/-- Where the loop ends, the file has got all of the data. -/
theorem EndsIn.stored_eq {k : Nat} {s : Loop} (h : EndsIn data results k s) : s.stored = data := by
  obtain ⟨rfl, hwritten⟩ := h
  rw [rounds_stored, hwritten, List.take_length]

/-- The loop ends if and only if `fwrite_unlocked` does not fail for good with bytes
    left; and where it ends it has stored all of the data, in order. -/
theorem append_terminates_iff (data : List UInt8) (results : Nat → Fwrite) :
    (∃ k s, EndsIn data results k s ∧ s.stored <+: data ∧ (s.reports = 0 → s.stored = data)) ↔
      ¬ Stuck data results := by
  constructor
  · intro hend hstuck
    obtain ⟨k, s, ⟨rfl, hwritten⟩, _⟩ := hend
    obtain ⟨m, hshort, hzero⟩ := hstuck
    rw [rounds_written] at hwritten
    -- the sums do not pass their value at m
    have hle : ∑ i ∈ Finset.range k, (results i).n ≤ ∑ i ∈ Finset.range m, (results i).n := by
      rcases Nat.le_total k m with hkm | hmk
      · exact Finset.sum_le_sum_of_subset (Finset.range_mono hkm)
      · exact Nat.le_of_eq (sum_eq_of_stuck hzero hmk)
    omega
  · intro hnot
    obtain ⟨k, hk⟩ := exists_sum_of_not_stuck hnot
    have hend : EndsIn data results k (rounds data results k) := by
      refine ⟨rfl, ?_⟩
      rw [rounds_written]
      exact Nat.min_eq_left hk
    have hstored := hend.stored_eq
    exact ⟨k, _, hend, ⟨[], by rw [hstored, List.append_nil]⟩, fun _ => hstored⟩

/-- Every call stores nothing and leaves the error indicator set: a byte is left after any
    number of rounds. -/
theorem append_persistent_zero :
    ¬ ∃ k s, EndsIn [10] (fun _ => { n := 0, err := true }) k s ∧ s.stored <+: [10] ∧
      (s.reports = 0 → s.stored = [10]) := by
  intro hend
  obtain ⟨k, s, ⟨rfl, hwritten⟩, _⟩ := hend
  rw [rounds_written] at hwritten
  simp at hwritten

end FileAppend
