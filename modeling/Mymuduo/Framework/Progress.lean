import Mathlib.Algebra.BigOperators.Group.Finset.Basic
import Mathlib.Data.List.Rotate
import Mymuduo.Framework.Machine

/-! # Progress

    A goal that stays within reach.  The steps of a schedule are someone's choice, so the
    model cannot say that a goal is reached; it can say that from every state of a kind the
    goal can be reached by steps of a kind, so that no schedule so far has made it
    impossible.  The argument is a rank that some such step always lowers.

    Where every step of a kind lowers the rank and no other step raises it, a schedule holds
    only so many steps of the kind (`countP_add_rank_le`), or reaches its goal by then
    (`goal_or_countP_le`).  The rank of several threads is the sum of theirs (`sum_update`);
    the rank of one that waits in a list for its turn is its place (`idxOf_rotate`).
-/

universe u v

namespace Machine

variable {State : Type u} {Label : Type v} (m : Machine State Label)

/-- The goal can be reached from `s` by steps with `helps`. -/
def CanReach (helps : Label → Prop) (goal : State → Prop) (s : State) : Prop :=
  ∃ ls s', m.run s ls = some s' ∧ (∀ l ∈ ls, helps l) ∧ goal s'

variable {m}

theorem CanReach.of_goal {helps : Label → Prop} {goal : State → Prop} {s : State} (h : goal s) :
    m.CanReach helps goal s :=
  ⟨[], s, rfl, by simp, h⟩

theorem CanReach.step {helps : Label → Prop} {goal : State → Prop} {s s' : State} {l : Label}
    (hl : helps l) (hnext : m.next s l = some s') (h : m.CanReach helps goal s') :
    m.CanReach helps goal s := by
  obtain ⟨ls, t, hrun, hall, hgoal⟩ := h
  refine ⟨l :: ls, t, m.run_cons_some.mpr ⟨s', hnext, hrun⟩, ?_, hgoal⟩
  intro k hk
  rcases List.mem_cons.mp hk with rfl | hk
  · exact hl
  · exact hall k hk

/-- The rule: while `I` holds and the goal is not reached, some helpful step keeps `I` and
    lowers the rank. -/
theorem canReach_of_rank {helps : Label → Prop} {goal I : State → Prop} (rank : State → Nat)
    (hstep : ∀ s, I s → ¬ goal s →
      ∃ l s', helps l ∧ m.next s l = some s' ∧ I s' ∧ rank s' < rank s) {s : State} (hs : I s) :
    m.CanReach helps goal s := by
  -- induction on a bound of the rank, with the state general
  suffices h : ∀ k s, rank s ≤ k → I s → m.CanReach helps goal s from h _ s (Nat.le_refl _) hs
  intro k
  induction k with
  | zero =>
    intro s hk hs
    by_cases hgoal : goal s
    · exact CanReach.of_goal hgoal
    · obtain ⟨l, s', _, _, _, hlt⟩ := hstep s hs hgoal
      omega
  | succ k ih =>
    intro s hk hs
    by_cases hgoal : goal s
    · exact CanReach.of_goal hgoal
    · obtain ⟨l, s', hl, hnext, hs', hlt⟩ := hstep s hs hgoal
      exact CanReach.step hl hnext (ih s' (by omega) hs')

/-! ## Bounded work -/

/-- While `I` holds, the steps with `p` lower the rank and the other ones do not raise it. -/
theorem countP_add_rank_le {I : State → Prop} {p : Label → Bool} (rank : State → Nat)
    (hinv : ∀ s l s', I s → m.next s l = some s' → I s')
    (hstep : ∀ s l s', I s → m.next s l = some s' →
      rank s' + (if p l then 1 else 0) ≤ rank s) {s s' : State} {ls : List Label} (hs : I s)
    (hrun : m.run s ls = some s') : ls.countP p + rank s' ≤ rank s := by
  induction ls generalizing s with
  | nil =>
    obtain rfl : s = s' := by simpa using hrun
    rw [List.countP_nil, Nat.zero_add]
  | cons l ls ih =>
    obtain ⟨t, hnext, hrest⟩ := m.run_cons_some.mp hrun
    have hle := hstep s l t hs hnext
    have hrec := ih (hinv s l t hs hnext) hrest
    rw [List.countP_cons]
    omega

/-- While `I` holds, only the steps with `p` add to a count, by one at most. -/
theorem run_le_add_countP {I : State → Prop} {p : Label → Bool} (count : State → Nat)
    (hinv : ∀ s l s', I s → m.next s l = some s' → I s')
    (hstep : ∀ s l s', I s → m.next s l = some s' →
      count s' ≤ count s + (if p l then 1 else 0)) {s s' : State} {ls : List Label} (hs : I s)
    (hrun : m.run s ls = some s') : count s' ≤ count s + ls.countP p := by
  induction ls generalizing s with
  | nil =>
    obtain rfl : s = s' := by simpa using hrun
    rw [List.countP_nil, Nat.add_zero]
  | cons l ls ih =>
    obtain ⟨t, hnext, hrest⟩ := m.run_cons_some.mp hrun
    have hle := hstep s l t hs hnext
    have hrec := ih (hinv s l t hs hnext) hrest
    rw [List.countP_cons]
    omega

/-- While `I` holds, every step with `P` lowers the rank: a run of such steps is no longer than
    the rank it starts with. -/
theorem length_add_rank_le {I : State → Prop} {P : State → Label → Prop} (rank : State → Nat)
    (hstep : ∀ s l s', I s → P s l → m.next s l = some s' → I s' ∧ rank s' < rank s)
    {s s' : State} {ls : List Label} (hs : I s) (hP : m.Along P s ls)
    (hrun : m.run s ls = some s') : ls.length + rank s' ≤ rank s := by
  induction ls generalizing s with
  | nil =>
    obtain rfl : s = s' := by simpa using hrun
    rw [List.length_nil, Nat.zero_add]
  | cons l ls ih =>
    obtain ⟨t, hnext, hrest⟩ := m.run_cons_some.mp hrun
    obtain ⟨ht, hlt⟩ := hstep s l t hs hP.1 hnext
    have hrec := ih ht (hP.tail m hnext) hrest
    rw [List.length_cons]
    omega

/-- Bounded response: where the steps with `p` reach the goal `G` or lower the rank by `k`, and the
    other ones do not raise it, a run reaches the goal or has as few steps with `p` as the rank
    allows. -/
theorem goal_or_countP_le {I G : State → Prop} {P : State → Label → Prop} {p : Label → Bool}
    {k : Nat} (rank : State → Nat) (hinv : ∀ s l s', I s → m.next s l = some s' → I s')
    (hgoal : ∀ s l s', I s ∧ G s → m.next s l = some s' → I s' ∧ G s')
    (hstep : ∀ s l s', I s → P s l → m.next s l = some s' →
      G s' ∨ rank s' + (if p l then k else 0) ≤ rank s) {s s' : State} {ls : List Label}
    (hs : I s) (hP : m.Along P s ls) (hrun : m.run s ls = some s') :
    G s' ∨ k * ls.countP p + rank s' ≤ rank s := by
  induction ls generalizing s with
  | nil =>
    obtain rfl : s = s' := by simpa using hrun
    refine Or.inr ?_
    rw [List.countP_nil, Nat.mul_zero, Nat.zero_add]
  | cons l ls ih =>
    obtain ⟨t, hnext, hrest⟩ := m.run_cons_some.mp hrun
    have ht := hinv s l t hs hnext
    rcases hstep s l t hs hP.1 hnext with hreached | hle
    · exact Or.inl (m.run_invariant hgoal ⟨ht, hreached⟩ hrest).2
    · rcases ih ht (hP.tail m hnext) hrest with hreached | hrec
      · exact Or.inl hreached
      · refine Or.inr ?_
        rw [List.countP_cons, Nat.mul_add]
        split at hle
        · rename_i hp
          rw [if_pos hp, Nat.mul_one]
          omega
        · rename_i hp
          rw [if_neg hp, Nat.mul_zero]
          omega

end Machine

/-- One of several threads goes on. -/
theorem sum_update {ι α : Type*} [DecidableEq ι] (f : α → Nat) (g : ι → α) {t : Finset ι} {w : ι}
    (hw : w ∈ t) (a : α) :
    ∑ v ∈ t, f (Function.update g w a v) + f (g w) = ∑ v ∈ t, f (g v) + f a := by
  have hrest : ∑ v ∈ t.erase w, f (Function.update g w a v) = ∑ v ∈ t.erase w, f (g v) := by
    refine Finset.sum_congr rfl ?_
    intro v hv
    rw [Function.update_of_ne (Finset.ne_of_mem_erase hv)]
  have hnew := Finset.add_sum_erase _ (fun v => f (Function.update g w a v)) hw
  have hold := Finset.add_sum_erase _ (fun v => f (g v)) hw
  simp only [Function.update_self] at hnew hold
  omega

/-! ## Taking turns -/

section

variable {α : Type} [DecidableEq α]

/-- Removing others brings an element forward. -/
theorem idxOf_filter_le {p : α → Bool} {a : α} (ha : p a = true) (l : List α) :
    (l.filter p).idxOf a ≤ l.idxOf a := by
  induction l with
  | nil => exact Nat.le_refl _
  | cons b l ih =>
    by_cases hb : b = a
    · rw [hb, List.filter_cons_of_pos ha, List.idxOf_cons_self]
      exact Nat.zero_le _
    · rw [List.idxOf_cons_ne l hb]
      by_cases hp : p b = true
      · rw [List.filter_cons_of_pos hp, List.idxOf_cons_ne _ hb]
        exact Nat.succ_le_succ ih
      · rw [List.filter_cons_of_neg hp]
        exact Nat.le_succ_of_le ih

/-- An element behind the first `n` moves up by `n` when these go to the end. -/
theorem idxOf_rotate {n : Nat} {a : α} {l : List α} (ha : a ∈ l) (hn : a ∉ l.take n) :
    n < l.length ∧ l.idxOf a = n + (l.rotate n).idxOf a := by
  have hlt : n < l.length := by
    by_contra hle
    rw [List.take_of_length_le (Nat.not_lt.mp hle)] at hn
    exact hn ha
  have hsplit := List.take_append_drop n l
  have hdrop : a ∈ l.drop n := by
    rw [← hsplit] at ha
    exact (List.mem_append.mp ha).resolve_left hn
  refine ⟨hlt, ?_⟩
  calc l.idxOf a = (l.take n ++ l.drop n).idxOf a := by rw [hsplit]
    _ = n + (l.drop n).idxOf a := by
      rw [List.idxOf_append_of_notMem hn, List.length_take_of_le hlt.le]
    _ = n + (l.rotate n).idxOf a := by
      rw [List.rotate_eq_drop_append_take hlt.le, List.idxOf_append_of_mem hdrop]

end
