import Mymuduo.Net.TimerApi
import Mymuduo.Net.TimerFrame

/-! # addTimer from other threads

    In a thread other than the loop's, `TimerQueue::addTimer` is three steps: it creates
    the timer, queues `addTimerInLoop` for the loop thread and reads `timer->sequence()` for
    the id it returns.  Once the functor is queued the loop thread owns the timer: it may add
    it, run it and delete it before the third step.

    The threads run in any order.  The loop thread runs the queued functors one after another
    and `handleRead` between them; its callbacks use the API at once.  A reading of the clock
    may be any positive time, also an earlier one than the last.
-/

namespace TimerQueue

variable {q q' : TimerQueue} {batch : List Entry} {id : TimerId}

/-- There is a timer with that id. -/
def Alive (q : TimerQueue) (id : TimerId) : Prop :=
  ∃ t, q.HasTimer id t

/-! ## The ids a queue notes -/

/-- Neither the noted ids nor the counter of the timers change. -/
structure SameIds (q q' : TimerQueue) : Prop where
  cancelingTimers_ : q'.cancelingTimers_ = q.cancelingTimers_
  numCreated : q'.numCreated = q.numCreated

theorem Inv.resetOne_sameIds {e : Entry} (h : Inv q (e :: batch)) (now : Int) :
    SameIds q (TimerQueue.resetOne now q e) := by
  obtain ⟨t, hheap, _⟩ := h.batch_idle e List.mem_cons_self
  by_cases hcond : t.repeat_ = true ∧ ⟨e.second, t.sequence_⟩ ∉ q.cancelingTimers_
  · rw [resetOne_restart hheap hcond.1 hcond.2, insert_eq (t := t.restart now) (by simp)]
    exact ⟨rfl, rfl⟩
  · rw [resetOne_delete hheap hcond, delete_eq hheap]
    exact ⟨rfl, rfl⟩

theorem Inv.foldl_resetOne_sameIds (h : Inv q batch) (now : Int) :
    SameIds q (batch.foldl (TimerQueue.resetOne now) q) := by
  induction batch generalizing q with
  | nil => exact ⟨rfl, rfl⟩
  | cons e batch ih =>
    have hhead := h.resetOne_sameIds now
    have htail := ih (h.resetOne now)
    rw [List.foldl_cons]
    exact ⟨htail.cancelingTimers_.trans hhead.cancelingTimers_,
      htail.numCreated.trans hhead.numCreated⟩

theorem Inv.endRead_sameIds (h : Inv q batch) (now tarm : Int) :
    SameIds q (q.endRead batch now tarm) := by
  have hloop := h.afterLoop tarm
  have hfold := hloop.foldl_resetOne_sameIds now
  obtain ⟨_, _, _, _, heq⟩ := (hloop.foldl_resetOne now).rearm_frame tarm
  rw [endRead_eq, heq]
  exact ⟨hfold.cancelingTimers_, hfold.numCreated⟩

/-- A cancel notes its own id at most. -/
theorem Inv.cancelInLoop_ids (h : Inv q batch) (id : TimerId) :
    (q.cancelInLoop id).cancelingTimers_ ⊆ Insert.insert id q.cancelingTimers_ ∧
      (q.cancelInLoop id).numCreated = q.numCreated := by
  by_cases hid : id ∈ q.activeTimers_
  · obtain ⟨t, hheap, _⟩ := h.hasTimer hid
    rw [cancelInLoop_active hid hheap, delete_eq (q := q.unlink id t) hheap]
    exact ⟨Finset.subset_insert _ _, rfl⟩
  · rw [cancelInLoop_not_active hid]
    split
    · exact ⟨Finset.Subset.refl _, rfl⟩
    · exact ⟨Finset.subset_insert _ _, rfl⟩

end TimerQueue

namespace TimerState

open TimerQueue

variable {s s' : TimerState} {l : Label} {id : TimerId}

/-- The counter does not go back, and an id is noted by a cancel of it only. -/
theorem ids_step (hgood : Good s) (hstep : next s l = some s') :
    s.queue.numCreated ≤ s'.queue.numCreated ∧
      ∀ id ∈ s'.queue.cancelingTimers_,
        id ∈ s.queue.cancelingTimers_ ∨ l = .call (.cancelInLoop id) := by
  rcases hgood.step_cases hstep with ⟨c, q, rfl, hcall, rfl⟩ | ⟨now, tread, rfl, _, _, hinv, rfl⟩ |
    ⟨now, expired, it, todo, u, rfl, _, _, _, _, rfl⟩ | ⟨now, expired, tarm, rfl, _, hinv, rfl⟩
  · rcases call_cases hcall with ⟨b, when, interval, rfl, _, _, _, rfl⟩ |
      ⟨b, now, u, rfl, hb, _, _, _, rfl⟩ | ⟨id', rfl, rfl⟩
    · exact ⟨Nat.le_succ _, fun id hmem => Or.inl hmem⟩
    · have hadded := startAdd_added hb now
      refine ⟨le_of_eq hadded.numCreated.symm, ?_⟩
      intro id hmem
      rw [hadded.canceling] at hmem
      exact Or.inl hmem
    · obtain ⟨hsub, hnum⟩ := (hgood.inv.record (.cancelled id')).cancelInLoop_ids id'
      refine ⟨le_of_eq hnum.symm, ?_⟩
      intro id hmem
      rcases Finset.mem_insert.mp (hsub hmem) with rfl | hmem
      · exact Or.inr rfl
      · exact Or.inl hmem
  · refine ⟨le_of_eq (hinv.began now tread).numCreated.symm, ?_⟩
    -- a new pass begins with no id noted
    intro id hmem
    exact absurd hmem (Finset.notMem_empty id)
  · exact ⟨Nat.le_refl _, fun id hmem => Or.inl hmem⟩
  · have hsame := hinv.endRead_sameIds now tarm
    refine ⟨le_of_eq hsame.numCreated.symm, ?_⟩
    intro id hmem
    rw [hsame.cancelingTimers_] at hmem
    exact Or.inl hmem

/-! ## What is left by reset -/

/-- `reset` leaves a timer alive that is not in the batch, or that repeats and is not noted. -/
theorem endRead_alive_iff {tarm : Int} (hgood : Good s) (hstep : next s (.endRead tarm) = some s')
    {t : Timer} (h : s.queue.HasTimer id t) (hnot : id ∉ s.queue.cancelingTimers_) :
    s'.queue.Alive id ↔ ((∃ e ∈ s.batch, e.second = id.timer_) → t.repeat_ = true) := by
  rcases hgood.step_cases hstep with ⟨_, _, hl, _⟩ | ⟨_, _, hl, _⟩ | ⟨_, _, _, _, _, hl, _⟩ |
    ⟨now, expired, tarm', hl, hpass, hinv, rfl⟩
  · cases hl
  · cases hl
  · cases hl
  · have hbatch : s.batch = expired := by
      rw [batch, hpass]
    rw [hbatch]
    by_cases hmem : ∃ e ∈ expired, e.second = id.timer_
    · obtain ⟨e, he, haddr⟩ := hmem
      have hheap : s.queue.heap e.second = some t := haddr ▸ h.1
      have hid : (⟨e.second, t.sequence_⟩ : TimerId) = id := by
        rw [haddr, h.2]
      have hreset := hinv.endRead_heap now tarm' he hheap
      rw [resetTimer, hid, haddr] at hreset
      constructor
      · intro halive _
        obtain ⟨u, hu, _⟩ := halive
        by_contra hone
        rw [hu, if_neg fun hcond => hone hcond.1] at hreset
        cases hreset
      · intro hrepeat
        rw [if_pos ⟨hrepeat ⟨e, he, haddr⟩, hnot⟩] at hreset
        exact ⟨t.restart now, hreset, (Timer.restart_sequence_ t now).trans h.2⟩
    · have hne : ∀ e ∈ expired, e.second ≠ id.timer_ := fun e he heq => hmem ⟨e, he, heq⟩
      refine ⟨fun _ hin => absurd hin hmem, fun _ => ⟨t, ?_, h.2⟩⟩
      exact (hinv.endRead_heap_of_ne now tarm' hne).trans h.1

/-! ## The clock -/

/-- The clock reads `now`, whatever it read before. -/
def setClock (s : TimerState) (now : Int) : TimerState :=
  { s with queue := { s.queue with clock := now } }

theorem Good.setClock (h : Good s) (now : Int) : Good (s.setClock now) :=
  ⟨h.inv.of_eq rfl rfl rfl (Finset.Subset.refl _) rfl rfl, h.todo_suffix, h.calling⟩

end TimerState

namespace AddTimer

open TimerQueue
open TimerApi (Functor)

/-! ## Model -/

/-- Where a thread is in `addTimer`.  The thread holds the pointer `id.timer_`; the number
    `id.sequence_` is what the constructor gave that timer, which the thread has not read. -/
inductive Pc where
  | idle
  /-- After `new Timer`. -/
  | allocated (id : TimerId)
  /-- After `runInLoop`. -/
  | queued (id : TimerId)
  deriving DecidableEq

/-- The timer of a call that has not returned. -/
def Pc.timer : Pc → Option TimerId
  | .idle => none
  | .allocated id | .queued id => some id

structure State (Tid : Type*) where
  timers : TimerState := {}
  pendingFunctors_ : List Functor := []
  threads : Tid → Pc := fun _ => .idle
  /-- The ids that calls of `addTimer` have returned. -/
  returned : List TimerId := []

inductive Label (Tid : Type*) where
  /-- `new Timer(cb, when, interval)` in `addTimer` returned `timer`. -/
  | allocate (tid : Tid) (timer : Addr) (when : Int) (interval : Seconds)
  /-- `loop_->runInLoop` in `addTimer`. -/
  | enqueue (tid : Tid)
  /-- `return TimerId(timer, timer->sequence())`. -/
  | readSequence (tid : Tid)
  /-- `cancel(timerId)` in a thread other than the loop's. -/
  | cancel (timerId : TimerId)
  /-- `addTimer` in the loop thread. -/
  | addTimer (timer : Addr) (when : Int) (interval : Seconds) (now : Int)
  /-- `cancel(timerId)` in the loop thread. -/
  | cancelInLoop (timerId : TimerId)
  /-- The loop thread runs the next queued functor. -/
  | runFunctor (now : Int)
  | beginRead (now tread : Int)
  | runNext
  | endRead (tarm : Int)

/-- The functor as a call of the queue, at time `now`. -/
def toCall (now : Int) : Functor → Call
  | .addTimerInLoop timer => .addTimerInLoop timer now
  | .cancelInLoop timerId => .cancelInLoop timerId

variable {Tid : Type*}

namespace State

/-- The ids there are to be cancelled: `TimerId()` and what `addTimer` returned. -/
def Held (s : State Tid) (id : TimerId) : Prop :=
  id = ⟨0, 0⟩ ∨ id ∈ s.returned

instance (s : State Tid) (id : TimerId) : Decidable (s.Held id) :=
  inferInstanceAs (Decidable (_ ∨ _))

/-- A call of `addTimer` in `tid` has created the timer `id` and not read it. -/
def InFlight (s : State Tid) (tid : Tid) (id : TimerId) : Prop :=
  (s.threads tid).timer = some id

end State

variable [DecidableEq Tid]

/-- `none` when the step cannot happen, or when it reads through a dangling pointer. -/
def next (s : State Tid) : Label Tid → Option (State Tid)
  | .allocate tid timer when interval =>
    match s.threads tid with
    | .idle =>
      (s.timers.next (.call (.newTimer timer when interval))).map fun timers =>
        let t := Timer.ctor when interval s.timers.queue.numCreated
        { s with
          timers := timers
          threads := Function.update s.threads tid (.allocated ⟨timer, t.sequence_⟩) }
    | _ => none
  | .enqueue tid =>
    match s.threads tid with
    | .allocated id =>
      some { s with
        pendingFunctors_ := s.pendingFunctors_ ++ [.addTimerInLoop id.timer_]
        threads := Function.update s.threads tid (.queued id) }
    | _ => none
  | .readSequence tid =>
    match s.threads tid with
    | .queued id =>
      -- whatever timer is at the address now
      (s.timers.queue.heap id.timer_).map fun t =>
        { s with
          threads := Function.update s.threads tid .idle
          returned := s.returned ++ [⟨id.timer_, t.sequence_⟩] }
    | _ => none
  | .cancel timerId =>
    if s.Held timerId then
      some { s with pendingFunctors_ := s.pendingFunctors_ ++ [.cancelInLoop timerId] }
    else none
  | .addTimer timer when interval now =>
    -- runInLoop calls addTimerInLoop at once
    (s.timers.next (.call (.newTimer timer when interval))).bind fun timers =>
      ((timers.setClock now).next (.call (.addTimerInLoop timer now))).bind fun timers =>
        (timers.queue.heap timer).map fun t =>
          { s with timers := timers, returned := s.returned ++ [⟨timer, t.sequence_⟩] }
  | .cancelInLoop timerId =>
    if s.Held timerId then
      (s.timers.next (.call (.cancelInLoop timerId))).map fun timers =>
        { s with timers := timers }
    else none
  | .runFunctor now =>
    match s.timers.pass, s.pendingFunctors_ with
    | none, cb :: functors =>
      ((s.timers.setClock now).next (.call (toCall now cb))).map fun timers =>
        { s with timers := timers, pendingFunctors_ := functors }
    -- handleRead is not interrupted by functors
    | _, _ => none
  | .beginRead now tread =>
    ((s.timers.setClock now).next (.beginRead now tread)).map fun timers =>
      { s with timers := timers }
  | .runNext => (s.timers.next .runNext).map fun timers => { s with timers := timers }
  | .endRead tarm =>
    ((s.timers.setClock tarm).next (.endRead tarm)).map fun timers => { s with timers := timers }

/-- No thread is in `addTimer`. -/
def machine : Machine (State Tid) (Label Tid) where
  init := fun s => s = {}
  next := next

/-! ## The invariant -/

/-- The ids that a cancel has or can have. -/
def State.Known (s : State Tid) (id : TimerId) : Prop :=
  s.Held id ∨ .cancelInLoop id ∈ s.pendingFunctors_ ∨ id ∈ s.timers.queue.cancelingTimers_

/-- The timers of the calls that have not returned are alive, and nobody else knows their
    ids. -/
structure Sound (s : State Tid) : Prop where
  good : s.timers.Good
  alive : ∀ tid id, s.InFlight tid id → s.timers.queue.Alive id
  distinct : ∀ tid tid' id, s.InFlight tid id → s.InFlight tid' id → tid = tid'
  secret : ∀ tid id, s.InFlight tid id → ¬ s.Known id
  old : ∀ id, s.Known id → id.sequence_ ≤ s.timers.queue.numCreated

variable {s s' : State Tid} {l : Label Tid} {tid : Tid} {id : TimerId}

omit [DecidableEq Tid] in
theorem sound_init : Sound ({} : State Tid) := by
  refine ⟨TimerState.good_init, ?_, ?_, ?_, ?_⟩
  · intro tid id hin
    cases hin
  · intro tid tid' id hin
    cases hin
  · intro tid id hin
    cases hin
  · intro id hknown
    rcases hknown with (rfl | hmem) | hmem | hmem
    · exact Nat.le_refl _
    · cases hmem
    · cases hmem
    · exact absurd hmem (Finset.notMem_empty id)

namespace Sound

omit [DecidableEq Tid]

/-- The timers created later have greater numbers. -/
theorem sequence_le (h : Sound s) (hin : s.InFlight tid id) :
    id.sequence_ ≤ s.timers.queue.numCreated := by
  obtain ⟨t, hheap, hseq⟩ := h.alive tid id hin
  rw [← hseq]
  exact (h.good.inv.range _ t hheap).2.2

/-! ## A step of the timers -/

section

variable {timers : TimerState} {k : TimerState.Label}

theorem known_of_step (h : Sound s) (now : Int)
    (hstep : (s.timers.setClock now).next k = some timers)
    (hcancel : ∀ id, k = .call (.cancelInLoop id) → s.Known id)
    (hknown : State.Known { s with timers := timers } id) : s.Known id := by
  rcases hknown with hheld | hmem | hmem
  · exact Or.inl hheld
  · exact Or.inr (Or.inl hmem)
  · rcases (TimerState.ids_step (h.good.setClock now) hstep).2 id hmem with hmem | hk
    · exact Or.inr (Or.inr hmem)
    · exact hcancel id hk

theorem of_step (h : Sound s) (now : Int)
    (hstep : (s.timers.setClock now).next k = some timers)
    (hcancel : ∀ id, k = .call (.cancelInLoop id) → s.Known id)
    (halive : ∀ tid id, s.InFlight tid id → timers.queue.Alive id) :
    Sound { s with timers := timers } := by
  have hgood := h.good.setClock now
  refine ⟨TimerState.good_step hgood hstep, halive, h.distinct, ?_, ?_⟩
  · intro tid id hin hknown
    exact h.secret tid id hin (h.known_of_step now hstep hcancel hknown)
  · intro id hknown
    exact le_trans (h.old id (h.known_of_step now hstep hcancel hknown))
      (TimerState.ids_step hgood hstep).1

/-- Apart from `reset`, what the loop thread does leaves the timers of others alone. -/
theorem timers_step (h : Sound s) (now : Int)
    (hstep : (s.timers.setClock now).next k = some timers)
    (hcancel : ∀ id, k = .call (.cancelInLoop id) → s.Known id) (hend : k.isEndRead = false) :
    Sound { s with timers := timers } := by
  apply h.of_step now hstep hcancel
  intro tid id hin
  obtain ⟨t, htimer⟩ := h.alive tid id hin
  refine ⟨t, TimerState.heap_step (h.good.setClock now) hstep htimer hend ?_⟩
  intro hk
  exact h.secret tid id hin (hcancel id hk)

/-- What `reset` does with the timer of a call that has not returned. -/
theorem endRead_alive_iff (h : Sound s) {tarm : Int}
    (hstep : (s.timers.setClock tarm).next (.endRead tarm) = some timers)
    (hin : s.InFlight tid id) {t : Timer} (htimer : s.timers.queue.HasTimer id t) :
    timers.queue.Alive id ↔
      ((∃ e ∈ s.timers.batch, e.second = id.timer_) → t.repeat_ = true) := by
  refine TimerState.endRead_alive_iff (h.good.setClock tarm) hstep htimer ?_
  -- the id is known to its call only, so no cancel of it is noted
  intro hnoted
  exact h.secret tid id hin (Or.inr (Or.inr hnoted))

end

/-! ## Functors, threads and ids -/

theorem of_pending (h : Sound s) {functors : List Functor}
    (hknown : ∀ id, .cancelInLoop id ∈ functors → s.Known id) :
    Sound { s with pendingFunctors_ := functors } := by
  have hback : ∀ id, State.Known { s with pendingFunctors_ := functors } id → s.Known id := by
    intro id hcases
    rcases hcases with hheld | hmem | hmem
    · exact Or.inl hheld
    · exact hknown id hmem
    · exact Or.inr (Or.inr hmem)
  refine ⟨h.good, h.alive, h.distinct, ?_, fun id hcases => h.old id (hback id hcases)⟩
  intro tid id hin hcases
  exact h.secret tid id hin (hback id hcases)

theorem of_threads (h : Sound s) {threads : Tid → Pc}
    (hin : ∀ tid id, (threads tid).timer = some id → s.InFlight tid id) :
    Sound { s with threads := threads } := by
  refine ⟨h.good, ?_, ?_, ?_, h.old⟩
  · intro tid id hid
    exact h.alive tid id (hin tid id hid)
  · intro tid tid' id hid hid'
    exact h.distinct tid tid' id (hin tid id hid) (hin tid' id hid')
  · intro tid id hid
    exact h.secret tid id (hin tid id hid)

theorem of_returned (h : Sound s) (hnot : ∀ tid, ¬ s.InFlight tid id)
    (hold : id.sequence_ ≤ s.timers.queue.numCreated) :
    Sound { s with returned := s.returned ++ [id] } := by
  have hback : ∀ other, State.Known { s with returned := s.returned ++ [id] } other →
      s.Known other ∨ other = id := by
    intro other hcases
    rcases hcases with (hnull | hmem) | hmem
    · exact Or.inl (Or.inl (Or.inl hnull))
    · rcases List.mem_append.mp hmem with hmem | hmem
      · exact Or.inl (Or.inl (Or.inr hmem))
      · exact Or.inr (List.mem_singleton.mp hmem)
    · exact Or.inl (Or.inr hmem)
  refine ⟨h.good, h.alive, h.distinct, ?_, ?_⟩
  · intro tid other hin hcases
    rcases hback other hcases with hknown | rfl
    · exact h.secret tid other hin hknown
    · exact hnot tid hin
  · intro other hcases
    rcases hback other hcases with hknown | rfl
    · exact h.old other hknown
    · exact hold

end Sound

/-! ## Step by step -/

/-- What `new Timer` leaves: one more timer, with the next number. -/
theorem newTimer_hasTimer {ts ts' : TimerState} {timer : Addr} {when : Int} {interval : Seconds}
    (hstep : ts.next (.call (.newTimer timer when interval)) = some ts') :
    ts'.queue.HasTimer ⟨timer, ts.queue.numCreated + 1⟩
      (Timer.ctor when interval ts.queue.numCreated) := by
  obtain ⟨q, hcall, rfl⟩ := Option.map_eq_some_iff.mp hstep
  simp only [TimerQueue.call, Option.ite_none_right_eq_some, Option.some.injEq] at hcall
  obtain ⟨_, rfl⟩ := hcall
  exact ⟨setHeap_self _ _ _, rfl⟩

/-- The calls that have not returned after `tid` has moved on. -/
theorem inFlight_update {pc : Pc} {tid' : Tid}
    (h : ((Function.update s.threads tid pc) tid').timer = some id) :
    (tid' = tid ∧ pc.timer = some id) ∨ (tid' ≠ tid ∧ s.InFlight tid' id) := by
  by_cases heq : tid' = tid
  · subst heq
    rw [Function.update_self] at h
    exact Or.inl ⟨rfl, h⟩
  · rw [Function.update_of_ne heq] at h
    exact Or.inr ⟨heq, h⟩

theorem Sound.of_allocated (h : Sound s) (halive : s.timers.queue.Alive id)
    (hnew : ∀ tid', ¬ s.InFlight tid' id) (hunknown : ¬ s.Known id) :
    Sound { s with threads := Function.update s.threads tid (.allocated id) } := by
  refine ⟨h.good, ?_, ?_, ?_, h.old⟩
  · intro tid' other hin
    rcases inFlight_update hin with ⟨_, hother⟩ | ⟨_, hin⟩
    · obtain rfl := Option.some.inj hother
      exact halive
    · exact h.alive tid' other hin
  · intro tid₁ tid₂ other hin₁ hin₂
    rcases inFlight_update hin₁ with ⟨rfl, hother⟩ | ⟨_, hin₁⟩
    · obtain rfl := Option.some.inj hother
      rcases inFlight_update hin₂ with ⟨rfl, _⟩ | ⟨_, hin₂⟩
      · rfl
      · exact absurd hin₂ (hnew tid₂)
    · rcases inFlight_update hin₂ with ⟨_, hother⟩ | ⟨_, hin₂⟩
      · obtain rfl := Option.some.inj hother
        exact absurd hin₁ (hnew tid₁)
      · exact h.distinct tid₁ tid₂ other hin₁ hin₂
  · intro tid' other hin
    rcases inFlight_update hin with ⟨_, hother⟩ | ⟨_, hin⟩
    · obtain rfl := Option.some.inj hother
      exact hunknown
    · exact h.secret tid' other hin

theorem Sound.allocate (h : Sound s) {timer : Addr} {when : Int} {interval : Seconds}
    (hstep : next s (.allocate tid timer when interval) = some s') : Sound s' := by
  simp only [next] at hstep
  split at hstep
  case h_2 => cases hstep
  obtain ⟨timers, hnew, rfl⟩ := Option.map_eq_some_iff.mp hstep
  have hcancel : ∀ id, TimerState.Label.call (.newTimer timer when interval) =
      .call (.cancelInLoop id) → s.Known id := by
    intro id hk
    cases hk
  have hsound := h.timers_step s.timers.queue.clock hnew hcancel rfl
  refine hsound.of_allocated ⟨_, newTimer_hasTimer hnew⟩ ?_ ?_
  -- the number of the new timer is greater than those of the others
  · intro tid' hin
    have hin' : s.InFlight tid' ⟨timer, s.timers.queue.numCreated + 1⟩ := hin
    have hle : s.timers.queue.numCreated + 1 ≤ _ := h.sequence_le hin'
    omega
  · intro hknown
    have hknown' := h.known_of_step s.timers.queue.clock hnew hcancel hknown
    have hle : s.timers.queue.numCreated + 1 ≤ _ := h.old _ hknown'
    omega

/-- The last step of `addTimer` reads the timer it created. -/
theorem Sound.readSequence_eq (h : Sound s) (hpc : s.threads tid = .queued id) :
    next s (.readSequence tid) =
      some { s with threads := Function.update s.threads tid .idle
                    returned := s.returned ++ [id] } := by
  obtain ⟨t, hheap, hseq⟩ := h.alive tid id (by rw [State.InFlight, hpc]; rfl)
  simp only [next, hpc, hheap, hseq, Option.map_some]

theorem Sound.readSequence (h : Sound s) (hstep : next s (.readSequence tid) = some s') :
    Sound s' := by
  cases hpc : s.threads tid with
  | idle =>
    simp only [next, hpc] at hstep
    cases hstep
  | allocated id =>
    simp only [next, hpc] at hstep
    cases hstep
  | queued id =>
    have hin : s.InFlight tid id := by
      rw [State.InFlight, hpc]
      rfl
    rw [h.readSequence_eq hpc] at hstep
    obtain rfl := Option.some.inj hstep
    have hback : ∀ tid' other, ((Function.update s.threads tid Pc.idle) tid').timer =
        some other → tid' ≠ tid ∧ s.InFlight tid' other := by
      intro tid' other hin'
      rcases inFlight_update hin' with ⟨_, hother⟩ | hin'
      · cases hother
      · exact hin'
    have hidle := h.of_threads fun tid' other hin' => (hback tid' other hin').2
    refine hidle.of_returned ?_ (h.sequence_le hin)
    -- no other call has that timer
    intro tid' hin'
    obtain ⟨hne, hin'⟩ := hback tid' id hin'
    exact hne (h.distinct tid' tid id hin' hin)

theorem Sound.enqueue (h : Sound s) (hstep : next s (.enqueue tid) = some s') : Sound s' := by
  simp only [next] at hstep
  split at hstep
  case h_2 => cases hstep
  rename_i id hpc
  obtain rfl := Option.some.inj hstep
  have hpending : Sound { s with
      pendingFunctors_ := s.pendingFunctors_ ++ [.addTimerInLoop id.timer_] } := by
    apply h.of_pending
    intro other hmem
    rcases List.mem_append.mp hmem with hmem | hmem
    · exact Or.inr (Or.inl hmem)
    · cases List.mem_singleton.mp hmem
  apply hpending.of_threads
  intro tid' other hin
  rcases inFlight_update hin with ⟨rfl, hother⟩ | ⟨_, hin⟩
  · rw [State.InFlight, hpc]
    exact hother
  · exact hin

theorem Sound.addTimer (h : Sound s) {timer : Addr} {when : Int} {interval : Seconds} {now : Int}
    (hstep : next s (.addTimer timer when interval now) = some s') : Sound s' := by
  obtain ⟨ts₁, hnew, hstep⟩ := Option.bind_eq_some_iff.mp hstep
  obtain ⟨ts₂, hadd, hstep⟩ := Option.bind_eq_some_iff.mp hstep
  obtain ⟨t, hheap, rfl⟩ := Option.map_eq_some_iff.mp hstep
  have hsound₁ := h.timers_step s.timers.queue.clock hnew (fun id hk => by cases hk) rfl
  have hsound₂ := hsound₁.timers_step now hadd (fun id hk => by cases hk) rfl
  -- the timer is still the new one
  have hcreated := newTimer_hasTimer hnew
  have hstart : (ts₁.setClock now).queue.HasTimer _ _ := hcreated
  have htimer := TimerState.heap_step (hsound₁.good.setClock now) hadd hstart rfl
    (fun hk => by cases hk)
  obtain rfl := Option.some.inj (htimer.1.symm.trans hheap)
  refine hsound₂.of_returned ?_ (hsound₂.good.inv.range _ _ hheap).2.2
  intro tid hin
  have hin' : s.InFlight tid ⟨timer, s.timers.queue.numCreated + 1⟩ := hin
  have hle : s.timers.queue.numCreated + 1 ≤ _ := h.sequence_le hin'
  omega

theorem Sound.runFunctor (h : Sound s) {now : Int} (hstep : next s (.runFunctor now) = some s') :
    Sound s' := by
  simp only [next] at hstep
  split at hstep
  case h_2 => cases hstep
  rename_i cb functors _ hpending
  obtain ⟨timers, hcall, rfl⟩ := Option.map_eq_some_iff.mp hstep
  have hmem : ∀ id, .cancelInLoop id ∈ cb :: functors → s.Known id := by
    intro id hmem
    rw [← hpending] at hmem
    exact Or.inr (Or.inl hmem)
  have hsound : Sound { s with timers := timers } := by
    refine h.timers_step now hcall ?_ rfl
    intro id hk
    apply hmem
    cases cb with
    | addTimerInLoop timer => cases hk
    | cancelInLoop timerId =>
      cases hk
      exact List.mem_cons_self
  apply hsound.of_pending
  intro id hid
  refine Or.inr (Or.inl ?_)
  rw [hpending]
  exact List.mem_cons_of_mem _ hid

/-- The calls whose timers have expired as one-shot timers have returned when `reset` is
    entered. -/
def InTime (s : State Tid) : Label Tid → Prop
  | .endRead _ =>
    s.timers.todo = [] → ∀ tid id t, s.InFlight tid id → s.timers.queue.HasTimer id t →
      (∃ e ∈ s.timers.batch, e.second = id.timer_) → t.repeat_ = true
  | _ => True

/-- The step leaves the timers of the calls that have not returned alive. -/
def LeavesAlive (s : State Tid) (l : Label Tid) : Prop :=
  ∀ s', machine.next s l = some s' →
    ∀ tid id, s'.InFlight tid id → s'.timers.queue.Alive id

/-- The last step of `addTimer` reads the timer that the call created, and returns its id. -/
def ReadsOwn (s : State Tid) : Label Tid → Prop
  | .readSequence tid =>
    ∀ id, s.threads tid = .queued id → s.timers.queue.Alive id ∧
      ∃ s', machine.next s (.readSequence tid) = some s' ∧ s'.returned = s.returned ++ [id]
  | _ => True

theorem endRead_todo {ts ts' : TimerState} {tarm : Int}
    (hstep : ts.next (.endRead tarm) = some ts') : ts.todo = [] := by
  rcases TimerState.next_cases hstep with ⟨_, _, hl, _⟩ | ⟨_, _, hl, _⟩ | ⟨_, _, _, _, hl, _⟩ |
    ⟨now, expired, _, _, hpass, _⟩
  · cases hl
  · cases hl
  · cases hl
  · rw [TimerState.todo, hpass]

theorem Sound.endRead (h : Sound s) {tarm : Int} (hin : InTime s (.endRead tarm))
    (hstep : next s (.endRead tarm) = some s') : Sound s' := by
  obtain ⟨timers, hend, rfl⟩ := Option.map_eq_some_iff.mp hstep
  apply h.of_step tarm hend (fun id hk => by cases hk)
  intro tid id hflight
  obtain ⟨t, htimer⟩ := h.alive tid id hflight
  have htodo := endRead_todo hend
  rw [h.endRead_alive_iff hend hflight htimer]
  exact hin htodo tid id t hflight htimer

theorem sound_step (h : Sound s) (hin : InTime s l) (hstep : next s l = some s') : Sound s' := by
  cases l with
  | allocate tid timer when interval => exact h.allocate hstep
  | enqueue tid => exact h.enqueue hstep
  | readSequence tid => exact h.readSequence hstep
  | cancel id =>
    obtain ⟨hheld, heq⟩ := Option.ite_none_right_eq_some.mp hstep
    obtain rfl := Option.some.inj heq
    apply h.of_pending
    intro other hmem
    rcases List.mem_append.mp hmem with hmem | hmem
    · exact Or.inr (Or.inl hmem)
    · obtain rfl := Functor.cancelInLoop.inj (List.mem_singleton.mp hmem)
      exact Or.inl hheld
  | addTimer timer when interval now => exact h.addTimer hstep
  | cancelInLoop id =>
    obtain ⟨hheld, heq⟩ := Option.ite_none_right_eq_some.mp hstep
    obtain ⟨timers, hcancel, rfl⟩ := Option.map_eq_some_iff.mp heq
    refine h.timers_step s.timers.queue.clock hcancel ?_ rfl
    intro other hk
    obtain rfl := Call.cancelInLoop.inj (TimerState.Label.call.inj hk)
    exact Or.inl hheld
  | runFunctor now => exact h.runFunctor hstep
  | beginRead now tread =>
    obtain ⟨timers, hbegin, rfl⟩ := Option.map_eq_some_iff.mp hstep
    exact h.timers_step now hbegin (fun id hk => by cases hk) rfl
  | runNext =>
    obtain ⟨timers, hrun, rfl⟩ := Option.map_eq_some_iff.mp hstep
    exact h.timers_step s.timers.queue.clock hrun (fun id hk => by cases hk) rfl
  | endRead tarm => exact h.endRead hin hstep

/-- A `reset` that comes too early deletes the timer under the call. -/
theorem Sound.inTime_of_leavesAlive (h : Sound s) (hleaves : LeavesAlive s l) : InTime s l := by
  cases l with
  | endRead tarm =>
    intro htodo tid id t hin htimer hbatch
    obtain ⟨p, hpass⟩ : ∃ p, s.timers.pass = some p := by
      cases hpass : s.timers.pass with
      | none =>
        obtain ⟨e, he, _⟩ := hbatch
        rw [TimerState.batch, hpass] at he
        cases he
      | some p => exact ⟨p, rfl⟩
    obtain ⟨now, expired, todo⟩ := p
    obtain rfl : todo = [] := by
      rw [TimerState.todo, hpass] at htodo
      exact htodo
    have hend : (s.timers.setClock tarm).next (.endRead tarm) =
        some { queue := (s.timers.setClock tarm).queue.endRead expired now tarm, pass := none } := by
      have hpass' : (s.timers.setClock tarm).pass = some ⟨now, expired, []⟩ := hpass
      simp only [TimerState.next, hpass']
      exact if_pos (Int.le_refl tarm)
    have halive := hleaves _ (Option.map_eq_some_iff.mpr ⟨_, hend, rfl⟩) tid id hin
    exact (h.endRead_alive_iff hend hin htimer).mp halive hbatch
  | _ => trivial

theorem Sound.readsOwn (h : Sound s) (l : Label Tid) : ReadsOwn s l := by
  cases l with
  | readSequence tid =>
    intro id hpc
    have hin : s.InFlight tid id := by
      rw [State.InFlight, hpc]
      rfl
    exact ⟨h.alive tid id hin, _, h.readSequence_eq hpc, rfl⟩
  | _ => trivial

/-! ## Every order of steps -/

/-- In every run in which each call of `addTimer` reads its timer before a `reset` that would
    delete it, all calls read the timer they created and return its id.  These are exactly the
    runs in which no step deletes the timer of a call that has not returned. -/
theorem addTimer_reads_own_iff {s₀ : State Tid} (hinit : machine.init s₀)
    (ls : List (Label Tid)) :
    (machine.Along InTime s₀ ls ↔ machine.Along LeavesAlive s₀ ls) ∧
      (machine.Along InTime s₀ ls → machine.Along ReadsOwn s₀ ls) := by
  have hsound : Sound s₀ := by
    obtain rfl : s₀ = {} := hinit
    exact sound_init
  refine ⟨⟨?_, ?_⟩, ?_⟩
  · refine Machine.Along.imp machine ?_ hsound
    intro s l h hin
    exact ⟨fun s' hstep => (sound_step h hin hstep).alive, fun s' hstep => sound_step h hin hstep⟩
  · refine Machine.Along.imp machine ?_ hsound
    intro s l h hleaves
    have hin := h.inTime_of_leavesAlive hleaves
    exact ⟨hin, fun s' hstep => sound_step h hin hstep⟩
  · refine Machine.Along.imp machine ?_ hsound
    intro s l h hin
    exact ⟨h.readsOwn l, fun s' hstep => sound_step h hin hstep⟩

/-- The timer expires while the call is still running; the call returns during the pass. -/
theorem addTimer_reads_own_iff_in_time :
    ∃ ls : List (Label Unit), (machine.run {} ls).isSome ∧ .readSequence () ∈ ls ∧
      machine.Along ReadsOwn {} ls := by
  have hin : machine.Along InTime ({} : State Unit)
      [.allocate () 8 10 TimerApi.noInterval, .enqueue (), .runFunctor 20, .beginRead 130 130,
       .runNext, .readSequence (), .endRead 130] := by
    refine ⟨trivial, trivial, trivial, trivial, trivial, trivial, ?_, trivial⟩
    intro _ tid id t hflight
    cases hflight
  exact ⟨_, rfl, by simp, (addTimer_reads_own_iff rfl _).2 hin⟩

/-- `handleRead` runs and deletes a timer that was due when it was added, and the call reads
    through a dangling pointer.  When the address has been given to another timer by then, the
    call returns the id of that one. -/
theorem addTimer_reads_deleted :
    ∃ s s' : State Unit,
      machine.run {} [.allocate () 8 10 TimerApi.noInterval, .enqueue (), .runFunctor 20,
        .beginRead 130 130, .runNext, .endRead 130] = some s ∧
      s.threads () = .queued ⟨8, 1⟩ ∧ s.timers.queue.heap 8 = none ∧
      machine.next s (.readSequence ()) = none ∧ ¬ ReadsOwn s (.readSequence ()) ∧
      machine.run s [.addTimer 8 500 TimerApi.noInterval 140, .readSequence ()] = some s' ∧
      s'.returned = [⟨8, 2⟩, ⟨8, 2⟩] := by
  refine ⟨_, _, rfl, rfl, rfl, rfl, ?_, rfl, rfl⟩
  intro h
  obtain ⟨⟨t, hheap, _⟩, _⟩ := h ⟨8, 1⟩ rfl
  cases hheap

/-- A cancel in the loop thread that comes before the queued `addTimerInLoop` of its timer
    leaves the timer alive, and it runs. -/
theorem cancel_before_add :
    ∃ s s' u : State Unit,
      machine.run {} [.allocate () 8 10 TimerApi.noInterval, .enqueue (), .readSequence ()] =
        some s ∧
      ⟨8, 1⟩ ∈ s.returned ∧ machine.next s (.cancelInLoop ⟨8, 1⟩) = some s' ∧
      s'.timers.queue.Alive ⟨8, 1⟩ ∧
      machine.run s' [.runFunctor 20, .beginRead 130 130, .runNext] = some u ∧
      .started ⟨8, 1⟩ ∈ u.timers.queue.log := by
  have hheld : (⟨8, 1⟩ : TimerId) ∈ [⟨8, 1⟩] := List.mem_singleton_self _
  refine ⟨_, _, _, rfl, hheld, rfl, ⟨_, rfl, rfl⟩, rfl, ?_⟩
  decide

end AddTimer
