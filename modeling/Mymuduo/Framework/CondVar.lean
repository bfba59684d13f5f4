import Mathlib.Data.Finset.Card

/-! # Condition variables

    The threads blocked in `wait` on one condition variable.  A thread enters
    `waiting`; `notify_one` moves one thread of any choice to `notified`,
    `notify_all` all of them, and a thread may also wake up by itself (`awake`).  A
    thread that has left `waiting` resumes when it gets the mutex.

    The operations are meant to be parts of critical sections: between two of them
    the mutex is free.
-/

structure CondVar (Tid : Type*) where
  waiting : Finset Tid := ∅
  notified : Finset Tid := ∅
  /-- Woken spuriously. -/
  awake : Finset Tid := ∅
  disjoint : Disjoint waiting notified := by simp

namespace CondVar

variable {Tid : Type*} [DecidableEq Tid] {cv cv' : CondVar Tid} {t : Tid}

/-! ## Operations -/

/-- The thread blocks. -/
def wait (cv : CondVar Tid) (t : Tid) : CondVar Tid where
  waiting := insert t cv.waiting
  notified := cv.notified.erase t
  awake := cv.awake.erase t
  disjoint := by
    rw [Finset.disjoint_insert_left]
    exact ⟨Finset.notMem_erase t _, cv.disjoint.mono_right (Finset.erase_subset t _)⟩

def notify (cv : CondVar Tid) (t : Tid) : CondVar Tid where
  waiting := cv.waiting.erase t
  notified := insert t cv.notified
  awake := cv.awake
  disjoint := by
    rw [Finset.disjoint_insert_right]
    exact ⟨Finset.notMem_erase t _, cv.disjoint.mono_left (Finset.erase_subset t _)⟩

/-- `notify_one`, with the thread it picks; without a waiting thread it does
    nothing. -/
def notifyOne (cv : CondVar Tid) : Option Tid → Option (CondVar Tid)
  | some t => if t ∈ cv.waiting then some (cv.notify t) else none
  | none => if cv.waiting = ∅ then some cv else none

def notifyAll (cv : CondVar Tid) : CondVar Tid where
  waiting := ∅
  notified := cv.notified ∪ cv.waiting
  awake := cv.awake
  disjoint := Finset.disjoint_empty_left _

/-- A spurious wakeup. -/
def wake (cv : CondVar Tid) (t : Tid) : CondVar Tid where
  waiting := cv.waiting.erase t
  notified := cv.notified
  awake := insert t cv.awake
  disjoint := cv.disjoint.mono_left (Finset.erase_subset t _)

/-- The thread has got the mutex back. -/
def resume (cv : CondVar Tid) (t : Tid) : CondVar Tid where
  waiting := cv.waiting.erase t
  notified := cv.notified.erase t
  awake := cv.awake.erase t
  disjoint := cv.disjoint.mono (Finset.erase_subset t _) (Finset.erase_subset t _)

/-- The thread may resume. -/
def Woken (cv : CondVar Tid) (t : Tid) : Prop := t ∈ cv.notified ∨ t ∈ cv.awake

instance (cv : CondVar Tid) (t : Tid) : Decidable (cv.Woken t) :=
  inferInstanceAs (Decidable (_ ∨ _))

/-! ## What notify_one does -/

theorem notifyOne_cases {c : Option Tid} (h : cv.notifyOne c = some cv') :
    (cv.waiting = ∅ ∧ cv' = cv) ∨ ∃ t ∈ cv.waiting, cv' = cv.notify t := by
  cases c with
  | none =>
    simp only [notifyOne, Option.ite_none_right_eq_some, Option.some.injEq] at h
    exact Or.inl ⟨h.1, h.2.symm⟩
  | some t =>
    simp only [notifyOne, Option.ite_none_right_eq_some, Option.some.injEq] at h
    exact Or.inr ⟨t, h.1, h.2.symm⟩

theorem notifyOne_waiting {c : Option Tid} (h : cv.notifyOne c = some cv') :
    cv'.waiting ⊆ cv.waiting := by
  rcases notifyOne_cases h with ⟨_, rfl⟩ | ⟨t, _, rfl⟩
  · exact Finset.Subset.refl _
  · exact Finset.erase_subset t _

/-- A notification is never lost: if a thread still waits, one more has been
    notified. -/
theorem notifyOne_card {c : Option Tid} (h : cv.notifyOne c = some cv')
    (hwaiting : cv'.waiting ≠ ∅) :
    cv.waiting ≠ ∅ ∧ cv'.notified.card = cv.notified.card + 1 := by
  rcases notifyOne_cases h with ⟨hempty, rfl⟩ | ⟨t, ht, rfl⟩
  · exact absurd hempty hwaiting
  · refine ⟨Finset.ne_empty_of_mem ht, ?_⟩
    have hnot : t ∉ cv.notified := Finset.disjoint_left.mp cv.disjoint ht
    exact Finset.card_insert_of_notMem hnot

/-- A thread that resumes accounts for at most one notification. -/
theorem card_le_resume (cv : CondVar Tid) (t : Tid) :
    cv.notified.card ≤ (cv.resume t).notified.card + 1 := by
  have := Finset.pred_card_le_card_erase (s := cv.notified) (a := t)
  show cv.notified.card ≤ (cv.notified.erase t).card + 1
  omega

theorem resume_waiting (cv : CondVar Tid) (t : Tid) :
    (cv.resume t).waiting ⊆ cv.waiting :=
  Finset.erase_subset t _

/-! ## The threads in wait -/

/-- The threads that have not resumed. -/
def blocked (cv : CondVar Tid) : Finset Tid := cv.waiting ∪ cv.notified ∪ cv.awake

theorem mem_blocked_of_waiting (h : t ∈ cv.waiting) : t ∈ cv.blocked := by
  simp [blocked, h]

theorem mem_blocked_wait {u : Tid} : u ∈ (cv.wait t).blocked ↔ u = t ∨ u ∈ cv.blocked := by
  by_cases hu : u = t <;> simp [blocked, wait, hu]

theorem mem_blocked_resume {u : Tid} : u ∈ (cv.resume t).blocked ↔ u ≠ t ∧ u ∈ cv.blocked := by
  by_cases hu : u = t <;> simp [blocked, resume, hu]

/-- A thread that is notified or wakes up is still to resume. -/
theorem mem_blocked_notify {u : Tid} (ht : t ∈ cv.waiting) :
    u ∈ (cv.notify t).blocked ↔ u ∈ cv.blocked := by
  by_cases hu : u = t <;> simp [blocked, notify, hu, ht]

theorem mem_blocked_wake {u : Tid} (ht : t ∈ cv.waiting) :
    u ∈ (cv.wake t).blocked ↔ u ∈ cv.blocked := by
  by_cases hu : u = t <;> simp [blocked, wake, hu, ht]

theorem mem_blocked_notifyAll {u : Tid} : u ∈ cv.notifyAll.blocked ↔ u ∈ cv.blocked := by
  simp only [blocked, notifyAll, Finset.mem_union, Finset.notMem_empty, false_or]
  rw [or_comm (a := u ∈ cv.notified)]

theorem mem_blocked_notifyOne {c : Option Tid} {u : Tid} (h : cv.notifyOne c = some cv') :
    u ∈ cv'.blocked ↔ u ∈ cv.blocked := by
  rcases notifyOne_cases h with ⟨_, rfl⟩ | ⟨t, ht, rfl⟩
  · exact Iff.rfl
  · exact mem_blocked_notify ht

end CondVar
