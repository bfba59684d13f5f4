import Mymuduo.Net.TimerPass

/-! # What happens to one timer

    A timer is known by its address and its sequence number.  The address is used again
    after the timer was deleted, the number is not.  Step by step:

    * outside of `reset` only a cancel of its own id touches a timer;
    * `reset` restarts or deletes the timers of the batch and touches no other.
-/

namespace TimerQueue

variable {q q' : TimerQueue} {batch : List Entry} {a : Addr} {t : Timer} {id other : TimerId}

/-! ## cancelInLoop -/

/-- The live timer with that id. -/
def HasTimer (q : TimerQueue) (id : TimerId) (t : Timer) : Prop :=
  q.heap id.timer_ = some t ∧ t.sequence_ = id.sequence_

/-- `other` is set, alive and noted in `q'` as it is in `q`. -/
structure SameTimer (q q' : TimerQueue) (other : TimerId) : Prop where
  heap : q'.heap other.timer_ = q.heap other.timer_
  timers_ : ∀ e, e.second = other.timer_ → (e ∈ q'.timers_ ↔ e ∈ q.timers_)
  activeTimers_ : other ∈ q'.activeTimers_ ↔ other ∈ q.activeTimers_
  cancelingTimers_ : other ∈ q'.cancelingTimers_ ↔ other ∈ q.cancelingTimers_

/-- Two live timers at one address are one timer. -/
theorem HasTimer.timer_ne (h : q.HasTimer other t) {u : Timer} (hu : q.HasTimer id u)
    (hne : other ≠ id) : other.timer_ ≠ id.timer_ := by
  intro haddr
  obtain ⟨hheap, hseq⟩ := h
  obtain ⟨hheap', hseq'⟩ := hu
  rw [haddr, hheap'] at hheap
  obtain rfl := Option.some.inj hheap
  apply hne
  cases other
  cases id
  simp_all

theorem Inv.hasTimer (h : Inv q batch) (hid : id ∈ q.activeTimers_) : ∃ t, q.HasTimer id t := by
  obtain ⟨t, hheap, hseq, _⟩ := h.active id hid
  exact ⟨t, hheap, hseq⟩

theorem Inv.cancelInLoop_sameTimer (h : Inv q batch) (hother : q.HasTimer other t)
    (hne : other ≠ id) : SameTimer q (q.cancelInLoop id) other := by
  by_cases hid : id ∈ q.activeTimers_
  · obtain ⟨u, hheap, hseq⟩ := h.hasTimer hid
    have haddr := hother.timer_ne ⟨hheap, hseq⟩ hne
    rw [cancelInLoop_active hid hheap, delete_eq (q := q.unlink id u) hheap]
    constructor
    · exact setHeap_of_ne haddr _
    · intro e he
      show e ∈ q.timers_.erase _ ↔ _
      rw [OrderedSet.mem_erase]
      constructor
      · exact And.left
      · intro hmem
        refine ⟨hmem, ?_⟩
        rintro rfl
        exact haddr he.symm
    · show other ∈ q.activeTimers_.erase id ↔ _
      rw [Finset.mem_erase]
      exact ⟨And.right, fun hmem => ⟨hne, hmem⟩⟩
    · exact Iff.rfl
  · rw [cancelInLoop_not_active hid]
    split
    · refine ⟨rfl, fun _ _ => Iff.rfl, Iff.rfl, ?_⟩
      show other ∈ Insert.insert id q.cancelingTimers_ ↔ _
      rw [Finset.mem_insert]
      exact ⟨fun hmem => hmem.resolve_left hne, Or.inr⟩
    · exact ⟨rfl, fun _ _ => Iff.rfl, Iff.rfl, Iff.rfl⟩

/-! ## reset -/

/-- What `reset` makes of a timer of the batch. -/
def resetTimer (q : TimerQueue) (now : Int) (a : Addr) (t : Timer) : Option Timer :=
  if t.repeat_ = true ∧ ⟨a, t.sequence_⟩ ∉ q.cancelingTimers_ then some (t.restart now) else none

theorem resetOne_heap {e : Entry} (hheap : q.heap e.second = some t) (now : Int) :
    (resetOne now q e).heap = Function.update q.heap e.second (q.resetTimer now e.second t) := by
  unfold resetTimer
  by_cases hcond : t.repeat_ = true ∧ ⟨e.second, t.sequence_⟩ ∉ q.cancelingTimers_
  · rw [resetOne_restart hheap hcond.1 hcond.2, insert_eq (t := t.restart now) (by simp),
      if_pos hcond]
    rfl
  · rw [resetOne_delete hheap hcond, delete_eq hheap, if_neg hcond]
    rfl

theorem Inv.foldl_resetOne_heap_of_ne (h : Inv q batch) (now : Int)
    (ha : ∀ e ∈ batch, e.second ≠ a) :
    (batch.foldl (TimerQueue.resetOne now) q).heap a = q.heap a := by
  induction batch generalizing q with
  | nil => rfl
  | cons e batch ih =>
    obtain ⟨u, hheap, _⟩ := h.batch_idle e List.mem_cons_self
    obtain ⟨hhead, htail⟩ := List.forall_mem_cons.mp ha
    rw [List.foldl_cons, ih (h.resetOne now) htail, resetOne_heap hheap,
      Function.update_of_ne hhead.symm]

/-- Each timer of the batch has its own round. -/
theorem Inv.foldl_resetOne_heap (h : Inv q batch) (now : Int) {e : Entry} (he : e ∈ batch)
    (hheap : q.heap e.second = some t) :
    (batch.foldl (TimerQueue.resetOne now) q).heap e.second = q.resetTimer now e.second t := by
  induction batch generalizing q with
  | nil => cases he
  | cons f batch ih =>
    have hinv := h.resetOne now
    rw [List.foldl_cons]
    rcases List.mem_cons.mp he with rfl | he
    · obtain ⟨_, hb, _⟩ := h.head_elsewhere
      rw [hinv.foldl_resetOne_heap_of_ne now hb, resetOne_heap hheap, Function.update_self]
    · obtain ⟨_, _, hkept, hcanceling⟩ := resetOne_spec h now
      rw [ih hinv he ((hkept e he).trans hheap), resetTimer, hcanceling, ← resetTimer]

theorem Inv.endRead_heap_of_ne (h : Inv q batch) (now tarm : Int)
    (ha : ∀ e ∈ batch, e.second ≠ a) : (q.endRead batch now tarm).heap a = q.heap a := by
  have hloop := h.afterLoop tarm
  obtain ⟨_, _, _, _, heq⟩ := (hloop.foldl_resetOne now).rearm_frame tarm
  rw [endRead_eq, heq]
  exact hloop.foldl_resetOne_heap_of_ne now ha

theorem Inv.endRead_heap (h : Inv q batch) (now tarm : Int) {e : Entry} (he : e ∈ batch)
    (hheap : q.heap e.second = some t) :
    (q.endRead batch now tarm).heap e.second = q.resetTimer now e.second t := by
  have hloop := h.afterLoop tarm
  obtain ⟨_, _, _, _, heq⟩ := (hloop.foldl_resetOne now).rearm_frame tarm
  rw [endRead_eq, heq]
  exact hloop.foldl_resetOne_heap now he hheap

end TimerQueue

/-! ## One step -/

namespace TimerState

open TimerQueue

variable {s s' : TimerState} {l : Label} {id : TimerId} {t : Timer}

/-- The end of a pass. -/
def Label.isEndRead : Label → Bool
  | .endRead _ => true
  | _ => false

/-- Apart from `reset` and a cancel of its own id, a step leaves a timer alone.  Whether it is
    noted changes where a pass begins only, with nothing noted. -/
theorem timer_step (hgood : Good s) (hstep : next s l = some s') (h : s.queue.HasTimer id t)
    (hend : l.isEndRead = false) (hcancel : l ≠ .call (.cancelInLoop id)) :
    s'.queue.heap id.timer_ = s.queue.heap id.timer_ ∧
      (s.pass = none ∨ (id ∈ s'.queue.cancelingTimers_ ↔ id ∈ s.queue.cancelingTimers_)) := by
  rcases hgood.step_cases hstep with ⟨c, q, rfl, hcall, rfl⟩ |
    ⟨now, tread, rfl, hnone, _, hinv, rfl⟩ |
    ⟨now, expired, it, todo, u, rfl, _, _, _, _, rfl⟩ | ⟨now, expired, tarm, rfl, _⟩
  · rcases call_cases hcall with ⟨b, when, interval, rfl, hnone, _, _, rfl⟩ |
      ⟨b, now, u, rfl, hb, _, _, _, rfl⟩ | ⟨id', rfl, rfl⟩
    · -- the allocator gives a free address
      have hne : id.timer_ ≠ b := by
        rintro rfl
        rw [h.1] at hnone
        cases hnone
      exact ⟨setHeap_of_ne hne _, Or.inr Iff.rfl⟩
    · have hadded := startAdd_added hb now
      rw [hadded.heap, hadded.canceling]
      exact ⟨rfl, Or.inr Iff.rfl⟩
    · have hne : id ≠ id' := by
        rintro rfl
        exact hcancel rfl
      have hother : (s.queue.record (.cancelled id')).HasTimer id t := h
      have hsame := (hgood.inv.record (.cancelled id')).cancelInLoop_sameTimer hother hne
      exact ⟨hsame.heap, Or.inr hsame.cancelingTimers_⟩
  · rw [(hinv.began now tread).heap]
    exact ⟨rfl, Or.inl hnone⟩
  · exact ⟨rfl, Or.inr Iff.rfl⟩
  · cases hend

theorem heap_step (hgood : Good s) (hstep : next s l = some s') (h : s.queue.HasTimer id t)
    (hend : l.isEndRead = false) (hcancel : l ≠ .call (.cancelInLoop id)) :
    s'.queue.HasTimer id t :=
  ⟨(timer_step hgood hstep h hend hcancel).1.trans h.1, h.2⟩

/-! ## The rest of a pass -/

variable {p : TimerPass}

theorem pass_step (hpass : s.pass = some p) (hstep : next s l = some s')
    (hend : l.isEndRead = false) : ∃ todo, s'.pass = some { p with todo := todo } := by
  rcases next_cases hstep with ⟨c, q, rfl, _, rfl⟩ | ⟨now, tread, _, hnone, _⟩ |
    ⟨now, expired, it, todo, rfl, hsome, rfl⟩ | ⟨now, expired, tarm, rfl, _⟩
  · exact ⟨p.todo, hpass⟩
  · rw [hpass] at hnone
    cases hnone
  · obtain rfl := Option.some.inj (hpass.symm.trans hsome)
    exact ⟨todo, rfl⟩
  · cases hend

theorem canceling_step (hgood : Good s) (hpass : s.pass = some p) (hstep : next s l = some s')
    (hend : l.isEndRead = false) (h : s.queue.HasTimer id t)
    (hcancel : l ≠ .call (.cancelInLoop id)) :
    id ∈ s'.queue.cancelingTimers_ ↔ id ∈ s.queue.cancelingTimers_ := by
  rcases (timer_step hgood hstep h hend hcancel).2 with hnone | hiff
  · rw [hpass] at hnone
    cases hnone
  · exact hiff

theorem cancel_batch (hgood : Good s) (hpass : s.pass = some p)
    (hstep : next s (.call (.cancelInLoop id)) = some s') (h : s.queue.HasTimer id t)
    (hbatch : ∃ e ∈ p.expired, e.second = id.timer_) :
    s'.queue.HasTimer id t ∧ id ∈ s'.queue.cancelingTimers_ := by
  obtain ⟨e, he, haddr⟩ := hbatch
  have hmem : e ∈ s.batch := by
    rw [batch, hpass]
    exact he
  -- the timers of the batch are not active
  have hnot : id ∉ s.queue.activeTimers_ := by
    intro hid
    exact hgood.inv.active_ne (hgood.inv.batch_idle e hmem) hid haddr.symm
  have hcalling : s.queue.callingExpiredTimers_ = true := by
    rw [hgood.calling, hpass]
    rfl
  have hqueue : s'.queue = { s.queue.record (.cancelled id) with
      cancelingTimers_ := Insert.insert id s.queue.cancelingTimers_ } := by
    have hs : some s' = some _ := hstep.symm
    rw [Option.some.inj hs]
    show (s.queue.record (.cancelled id)).cancelInLoop id = _
    rw [cancelInLoop_not_active (q := s.queue.record (.cancelled id)) hnot]
    exact if_pos hcalling
  rw [hqueue]
  exact ⟨h, Finset.mem_insert_self _ _⟩

/-- A timer of the batch stays as it is, and a cancel of it is noted. -/
theorem batch_step (hgood : Good s) (hpass : s.pass = some p) (hstep : next s l = some s')
    (hend : l.isEndRead = false) (h : s.queue.HasTimer id t)
    (hbatch : ∃ e ∈ p.expired, e.second = id.timer_) :
    s'.queue.HasTimer id t ∧
      (id ∈ s'.queue.cancelingTimers_ ↔
        id ∈ s.queue.cancelingTimers_ ∨ .call (.cancelInLoop id) = l) := by
  by_cases hcancel : l = .call (.cancelInLoop id)
  · subst hcancel
    obtain ⟨hkept, hnoted⟩ := cancel_batch hgood hpass hstep h hbatch
    exact ⟨hkept, fun _ => Or.inr rfl, fun _ => hnoted⟩
  · refine ⟨heap_step hgood hstep h hend hcancel, ?_⟩
    rw [canceling_step hgood hpass hstep hend h hcancel]
    exact ⟨Or.inl, fun hcases => hcases.resolve_right fun heq => hcancel heq.symm⟩

theorem batch_run {ls : List Label} (hgood : Good s) (hpass : s.pass = some p)
    (hrun : machine.run s ls = some s') (hend : ∀ l ∈ ls, l.isEndRead = false)
    (h : s.queue.HasTimer id t) (hbatch : ∃ e ∈ p.expired, e.second = id.timer_) :
    Good s' ∧ (∃ todo, s'.pass = some { p with todo := todo }) ∧ s'.queue.HasTimer id t ∧
      (id ∈ s'.queue.cancelingTimers_ ↔
        id ∈ s.queue.cancelingTimers_ ∨ .call (.cancelInLoop id) ∈ ls) := by
  induction ls generalizing s p with
  | nil =>
    obtain rfl : s = s' := by simpa using hrun
    exact ⟨hgood, ⟨p.todo, hpass⟩, h, by simp⟩
  | cons l ls ih =>
    obtain ⟨t', hnext, hrest⟩ := machine.run_cons_some.mp hrun
    obtain ⟨hhead, htail⟩ := List.forall_mem_cons.mp hend
    obtain ⟨todo, hpass'⟩ := pass_step hpass hnext hhead
    obtain ⟨hkept, hnoted⟩ := batch_step hgood hpass hnext hhead h hbatch
    obtain ⟨hgood', hpass'', hkept', hnoted'⟩ :=
      ih (good_step hgood hnext) hpass' hrest htail hkept hbatch
    refine ⟨hgood', hpass'', hkept', ?_⟩
    rw [hnoted', hnoted, List.mem_cons, or_assoc]

/-- At the end of the pass the timer is set again if it repeats and no cancel of its own id
    was executed since the pass began; else it is deleted. -/
theorem batch_fate {ls : List Label} {tarm : Int} {s₁ s₂ : TimerState} (hgood : Good s)
    (hpass : s.pass = some p) (hrun : machine.run s ls = some s₁)
    (hend : ∀ l ∈ ls, l.isEndRead = false) (hreset : next s₁ (.endRead tarm) = some s₂)
    (h : s.queue.HasTimer id t) (hbatch : ∃ e ∈ p.expired, e.second = id.timer_) :
    if t.repeat_ = true ∧ id ∉ s.queue.cancelingTimers_ ∧ .call (.cancelInLoop id) ∉ ls then
      (id, t.restart p.now) ∈ s₂.queue.timerSet
    else s₂.queue.heap id.timer_ = none := by
  obtain ⟨hgood₁, ⟨todo, hpass₁⟩, hkept, hnoted⟩ := batch_run hgood hpass hrun hend h hbatch
  obtain ⟨e, he, haddr⟩ := hbatch
  rcases hgood₁.step_cases hreset with ⟨_, _, hl, _⟩ | ⟨_, _, hl, _⟩ | ⟨_, _, _, _, _, hl, _⟩ |
    ⟨now, expired, tarm', hl, hsome, hinv, rfl⟩
  · cases hl
  · cases hl
  · cases hl
  · obtain ⟨rfl, rfl, _⟩ := TimerPass.mk.inj (Option.some.inj (hpass₁.symm.trans hsome))
    have hheap : s₁.queue.heap e.second = some t := haddr ▸ hkept.1
    have hid : id = ⟨e.second, t.sequence_⟩ := by
      rw [haddr, hkept.2]
    split
    next hagain =>
      obtain ⟨hrepeat, hnot, hcancel⟩ := hagain
      rw [(endRead_spec hinv _ _).2]
      right
      refine ⟨e, he, t, hheap, hrepeat, ?_, by rw [hid]⟩
      rw [hnoted]
      exact fun hcases => hcases.elim hnot hcancel
    next hgone =>
      rw [← haddr, hinv.endRead_heap _ _ he hheap]
      apply if_neg
      rw [← hid, hnoted]
      intro hcases
      exact hgone ⟨hcases.1, fun hmem => hcases.2 (Or.inl hmem), fun hmem => hcases.2 (Or.inr hmem)⟩

/-! ## A cancel and the other timers -/

/-- From `s` on to the end of its pass, in which `id` may be cancelled again: the timer is
    deleted. -/
def DeletedByReset (s : TimerState) (id : TimerId) : Prop :=
  ∀ ls s₁ tarm s₂, (∀ l ∈ ls, Label.isEndRead l = false) → machine.run s ls = some s₁ →
    machine.next s₁ (.endRead tarm) = some s₂ → s₂.queue.heap id.timer_ = none

/-- From `s` on to the end of its pass at `now`, in which `id` is not cancelled: the timer is
    set again. -/
def SetAgainByReset (s : TimerState) (now : Int) (id : TimerId) (t : Timer) : Prop :=
  ∀ ls s₁ tarm s₂, (∀ l ∈ ls, Label.isEndRead l = false ∧ l ≠ .call (.cancelInLoop id)) →
    machine.run s ls = some s₁ → machine.next s₁ (.endRead tarm) = some s₂ →
      (id, t.restart now) ∈ s₂.queue.timerSet

/-- What a cancel of `id` does with the timer of that id. -/
structure CancelsOwn (s s' : TimerState) (id : TimerId) : Prop where
  /-- A timer that is set is taken out of both sets and deleted. -/
  active : id ∈ s.queue.activeTimers_ →
    (∀ e ∈ s'.queue.timers_, e.second ≠ id.timer_) ∧ id ∉ s'.queue.activeTimers_ ∧
      s'.queue.heap id.timer_ = none
  /-- One of the running batch is noted, and deleted at the end of the pass. -/
  batch : (∃ t, s.queue.HasTimer id t) → (∃ e ∈ s.batch, e.second = id.timer_) →
    id ∈ s'.queue.cancelingTimers_ ∧ DeletedByReset s' id
  /-- In all other cases no timer changes. -/
  otherwise : id ∉ s.queue.activeTimers_ →
    s'.queue.heap = s.queue.heap ∧ s'.queue.timers_ = s.queue.timers_ ∧
      s'.queue.activeTimers_ = s.queue.activeTimers_

/-- What it leaves of every other timer. -/
structure KeepsOther (s s' : TimerState) (other : TimerId) (t : Timer) : Prop where
  same : SameTimer s.queue s'.queue other
  /-- A repeating timer of the running batch that was to be set again still is. -/
  again : ∀ p, s.pass = some p → (∃ e ∈ p.expired, e.second = other.timer_) → t.repeat_ = true →
    other ∉ s.queue.cancelingTimers_ → SetAgainByReset s' p.now other t

theorem cancel_queue (hstep : next s (.call (.cancelInLoop id)) = some s') :
    s' = { s with queue := (s.queue.record (.cancelled id)).cancelInLoop id } := by
  have hs : some s' = some _ := hstep.symm
  exact Option.some.inj hs

theorem cancelsOwn (hgood : Good s) (hstep : next s (.call (.cancelInLoop id)) = some s') :
    CancelsOwn s s' id := by
  have hinv := hgood.inv.record (.cancelled id)
  have hqueue := cancel_queue hstep
  constructor
  · intro hid
    obtain ⟨t, hheap, _⟩ := hgood.inv.hasTimer hid
    have herased := hinv.cancelInLoop id
    have hnone : ((s.queue.record (.cancelled id)).cancelInLoop id).heap id.timer_ = none := by
      rw [cancelInLoop_active (q := s.queue.record (.cancelled id)) hid hheap,
        delete_eq (q := (s.queue.record (.cancelled id)).unlink id t) hheap]
      exact setHeap_self _ _ _
    -- whatever is set is alive
    obtain ⟨hactive, hentry, _, _⟩ := herased.ne_of_free hnone
    rw [hqueue]
    exact ⟨hentry, fun hmem => hactive id hmem rfl, hnone⟩
  · intro ⟨t, h⟩ ⟨e, he, haddr⟩
    obtain ⟨p, hpass⟩ : ∃ p, s.pass = some p := by
      cases hpass : s.pass with
      | none =>
        rw [batch, hpass] at he
        cases he
      | some p => exact ⟨p, rfl⟩
    have hmem : e ∈ p.expired := by
      rw [batch, hpass] at he
      exact he
    refine ⟨(cancel_batch hgood hpass hstep h ⟨e, hmem, haddr⟩).2, ?_⟩
    intro ls s₁ tarm s₂ hend hrun hreset
    have hall : machine.run s (.call (.cancelInLoop id) :: ls) = some s₁ :=
      machine.run_cons_some.mpr ⟨s', hstep, hrun⟩
    have hfate := batch_fate hgood hpass hall (List.forall_mem_cons.mpr ⟨rfl, hend⟩) hreset h
      ⟨e, hmem, haddr⟩
    rw [if_neg (fun hcond => hcond.2.2 List.mem_cons_self)] at hfate
    exact hfate
  · intro hid
    rw [hqueue, cancelInLoop_not_active (q := s.queue.record (.cancelled id)) hid]
    split <;> exact ⟨rfl, rfl, rfl⟩

theorem keepsOther (hgood : Good s) (hstep : next s (.call (.cancelInLoop id)) = some s')
    {other : TimerId} (hother : s.queue.HasTimer other t) (hne : other ≠ id) :
    KeepsOther s s' other t := by
  have hinv := hgood.inv.record (.cancelled id)
  have hrecord : (s.queue.record (.cancelled id)).HasTimer other t := hother
  constructor
  · rw [cancel_queue hstep]
    have hsame := hinv.cancelInLoop_sameTimer hrecord hne
    exact ⟨hsame.heap, hsame.timers_, hsame.activeTimers_, hsame.cancelingTimers_⟩
  · intro p hpass hbatch hrepeat hnot ls s₁ tarm s₂ hls hrun hreset
    have hall : machine.run s (.call (.cancelInLoop id) :: ls) = some s₁ :=
      machine.run_cons_some.mpr ⟨s', hstep, hrun⟩
    have hfate := batch_fate hgood hpass hall
      (List.forall_mem_cons.mpr ⟨rfl, fun l hl => (hls l hl).1⟩) hreset hother hbatch
    have hnone : Label.call (.cancelInLoop other) ∉ Label.call (.cancelInLoop id) :: ls := by
      rw [List.mem_cons, not_or]
      refine ⟨?_, fun hmem => (hls _ hmem).2 rfl⟩
      intro heq
      exact hne (Call.cancelInLoop.inj (Label.call.inj heq))
    rw [if_pos ⟨hrepeat, hnot, hnone⟩] at hfate
    exact hfate

/-- In every reachable state and for every id, a cancel deals with the timer of that id and
    leaves every other one as it is. -/
theorem cancel_touches_only_its_timer (h : machine.Reachable s) (id : TimerId)
    (hstep : machine.next s (.call (.cancelInLoop id)) = some s') :
    CancelsOwn s s' id ∧
      ∀ other t, s.queue.HasTimer other t → other ≠ id → KeepsOther s s' other t := by
  have hgood := good_reachable h
  refine ⟨cancelsOwn hgood hstep, ?_⟩
  intro other t hother hne
  exact keepsOther hgood hstep hother hne

/-- The id of a deleted timer is cancelled while a repeating timer at the same address has
    expired in the running pass. -/
theorem cancel_touches_only_its_timer_reused :
    ∃ s s' t, machine.Reachable s ∧ machine.next s (.call (.cancelInLoop ⟨8, 1⟩)) = some s' ∧
      s.queue.HasTimer ⟨8, 2⟩ t ∧ t.repeat_ = true ∧ (∃ e ∈ s.batch, e.second = 8) ∧
      KeepsOther s s' ⟨8, 2⟩ t := by
  have hrun : machine.run {}
      [.call (.newTimer 8 50 ⟨false, 0, by decide, by decide⟩), .call (.addTimerInLoop 8 5),
       .call (.cancelInLoop ⟨8, 1⟩),
       .call (.newTimer 8 10 ⟨true, 7, by decide, by decide⟩), .call (.addTimerInLoop 8 6),
       .beginRead 20 20, .runNext] = some _ := rfl
  obtain ⟨s, t, hreach, htimer, hrepeat, hbatch⟩ : ∃ s t, machine.Reachable s ∧
      s.queue.HasTimer ⟨8, 2⟩ t ∧ t.repeat_ = true ∧ ∃ e ∈ s.batch, e.second = 8 :=
    ⟨_, _, ⟨_, _, rfl, hrun⟩, ⟨rfl, rfl⟩, rfl, ⟨10, 8⟩, List.mem_singleton_self _, rfl⟩
  have hcancel := cancel_touches_only_its_timer hreach ⟨8, 1⟩ rfl
  exact ⟨s, _, t, hreach, rfl, htimer, hrepeat, hbatch,
    hcancel.2 ⟨8, 2⟩ t htimer (by decide)⟩

end TimerState
