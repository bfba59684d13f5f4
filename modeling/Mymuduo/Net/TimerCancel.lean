import Mymuduo.Net.TimerInvariant

/-! # cancel

    `cancelInLoop` takes an active timer out of the queue and deletes it; a timer
    of the running batch it only notes in `cancelingTimers_`, which `reset`
    consults at the end of the pass.  The loop of `handleRead` does not, so a
    timer that another callback of the same batch cancels before its turn is
    still run (`cancelled_timer_still_runs`).  When no cancel hits a timer that
    waits for its turn, a cancelled timer is never started again
    (`cancel_effective`).
-/

namespace TimerQueue

/-! ## Cancelled timers in a log -/

/-- `cancelInLoop(id)` was executed after the timer had been inserted. -/
def Cancelled (log : List TimerEvent) (id : TimerId) : Prop :=
  ∃ pre post, log = pre ++ .cancelled id :: post ∧ ∃ t, .added id t ∈ pre

/-- No timer is started after it was cancelled. -/
def CancelEffective (log : List TimerEvent) : Prop :=
  ∀ pre post id, log = pre ++ .cancelled id :: post → (∃ t, .added id t ∈ pre) →
    .started id ∉ post

theorem cancelled_append {log : List TimerEvent} {ev : TimerEvent} {id : TimerId} :
    Cancelled (log ++ [ev]) id ↔
      Cancelled log id ∨ (ev = .cancelled id ∧ ∃ t, .added id t ∈ log) := by
  constructor
  · intro ⟨pre, post, hlog, hadded⟩
    rcases append_singleton_split hlog with ⟨_, hev, hpre⟩ | ⟨post', _, hpre⟩
    · exact Or.inr ⟨hev, hpre ▸ hadded⟩
    · exact Or.inl ⟨pre, post', hpre, hadded⟩
  · intro hcases
    rcases hcases with ⟨pre, post, hlog, hadded⟩ | ⟨hev, hadded⟩
    · exact ⟨pre, post ++ [ev], by rw [hlog]; simp, hadded⟩
    · exact ⟨log, [], by rw [hev], hadded⟩

theorem CancelEffective.append {log : List TimerEvent} {ev : TimerEvent}
    (h : CancelEffective log) (hev : ∀ id, ev = .started id → ¬ Cancelled log id) :
    CancelEffective (log ++ [ev]) := by
  intro pre post id hlog hadded hmem
  rcases append_singleton_split hlog with ⟨hpost, _, _⟩ | ⟨post', hpost, hpre⟩
  · rw [hpost] at hmem
    cases hmem
  · rw [hpost, List.mem_append, List.mem_singleton] at hmem
    rcases hmem with hmem | hmem
    · -- the start is in the old log
      exact h pre post' id hpre hadded hmem
    · -- the start is the new event
      exact hev id hmem.symm ⟨pre, post', hpre, hadded⟩

/-- Events that add, cancel or start no timer. -/
def TimerEvent.Quiet : TimerEvent → Prop
  | .added _ _ | .cancelled _ | .started _ => False
  | .restarted _ | .deleted _ => True

theorem cancelled_append_other {log : List TimerEvent} {ev : TimerEvent} {id : TimerId}
    (hev : ∀ id, ev ≠ .cancelled id) : Cancelled (log ++ [ev]) id ↔ Cancelled log id := by
  rw [cancelled_append]
  constructor
  · intro hcases
    rcases hcases with h | ⟨h, _⟩
    · exact h
    · exact absurd h (hev id)
  · exact Or.inl

/-- What a log says about cancelled timers does not change with quiet events. -/
theorem append_quiet (log evs : List TimerEvent)
    (hquiet : ∀ ev ∈ evs, TimerEvent.Quiet ev) :
    (∀ id, Cancelled (log ++ evs) id ↔ Cancelled log id) ∧
      (CancelEffective log → CancelEffective (log ++ evs)) ∧
      (∀ id t, .added id t ∈ log ++ evs ↔ .added id t ∈ log) := by
  induction evs generalizing log with
  | nil => simp
  | cons ev evs ih =>
    obtain ⟨hev, hrest⟩ := List.forall_mem_cons.mp hquiet
    obtain ⟨h1, h2, h3⟩ := ih (log ++ [ev]) hrest
    -- one event at a time, so that each fact is about a single append
    rw [show log ++ ev :: evs = log ++ [ev] ++ evs by simp]
    refine ⟨?_, ?_, ?_⟩
    · intro id
      rw [h1, cancelled_append_other]
      intro id' heq
      subst heq
      exact hev
    · intro h
      refine h2 (h.append ?_)
      intro id' heq
      subst heq
      exact hev.elim
    · intro id t
      rw [h3, List.mem_append, List.mem_singleton]
      constructor
      · intro hcases
        rcases hcases with h | rfl
        · exact h
        · exact hev.elim
      · exact Or.inl

/-! ## The invariant -/

/-- The id of the timer of an entry. -/
def idOf (q : TimerQueue) (e : Entry) : Option TimerId :=
  (q.heap e.second).map fun t => ⟨e.second, t.sequence_⟩

/-- A cancelled timer is gone, or in the batch, past its turn and noted. -/
structure Dead (q : TimerQueue) (batch todo : List Entry) : Prop where
  effective : CancelEffective q.log
  inactive : ∀ id, Cancelled q.log id → id ∉ q.activeTimers_
  not_waiting : ∀ id, Cancelled q.log id → ∀ e ∈ todo, q.idOf e ≠ some id
  noted : ∀ id, Cancelled q.log id → ∀ e ∈ batch, q.idOf e = some id →
    id ∈ q.cancelingTimers_
  added_seq : ∀ id t, .added id t ∈ q.log → id.sequence_ ≤ q.numCreated
  fresh_new : ∀ a ∈ q.fresh, ∀ t, q.heap a = some t → ∀ t', .added ⟨a, t.sequence_⟩ t' ∉ q.log

variable {q q' : TimerQueue} {batch todo : List Entry} {e : Entry}

theorem idOf_eq {t : Timer} (h : q.heap e.second = some t) :
    q.idOf e = some ⟨e.second, t.sequence_⟩ := by
  simp only [idOf, h, Option.map_some]

theorem idOf_congr (h : q'.heap e.second = q.heap e.second) :
    q'.idOf e = q.idOf e := by
  unfold idOf
  rw [h]

/-! ## Calls -/

theorem Dead.newTimer (h : Dead q batch todo) (hinv : Inv q batch) (htodo : todo ⊆ batch)
    {a : Addr} (hnone : q.heap a = none) (when : Int) (interval : Seconds) :
    Dead { q.setHeap a (some (Timer.ctor when interval q.numCreated)) with
      numCreated := q.numCreated + 1
      fresh := Insert.insert a q.fresh } batch todo := by
  obtain ⟨_, _, hb, hf⟩ := hinv.ne_of_free hnone
  have hid : ∀ e ∈ batch, idOf { q.setHeap a (some (Timer.ctor when interval q.numCreated)) with
      numCreated := q.numCreated + 1
      fresh := Insert.insert a q.fresh } e = q.idOf e := by
    intro e he
    exact idOf_congr (setHeap_of_ne (hb e he) _)
  refine ⟨h.effective, h.inactive, ?_, ?_, ?_, ?_⟩
  · intro id hc e he
    rw [hid e (htodo he)]
    exact h.not_waiting id hc e he
  · intro id hc e he
    rw [hid e he]
    exact h.noted id hc e he
  · intro id t hadded
    exact Nat.le_succ_of_le (h.added_seq id t hadded)
  · intro b hmem t hheap t' hadded
    rcases Finset.mem_insert.mp hmem with rfl | hmem
    · -- the new sequence number is above those in the log
      obtain rfl : Timer.ctor when interval q.numCreated = t :=
        Option.some.inj ((setHeap_self q b _).symm.trans hheap)
      have := h.added_seq _ _ hadded
      simp only [Timer.ctor] at this
      omega
    · have hne : b ≠ a := fun heq => hf (heq ▸ hmem)
      have hheap' : (q.setHeap a (some (Timer.ctor when interval q.numCreated))).heap b = some t :=
        hheap
      rw [setHeap_of_ne hne] at hheap'
      exact h.fresh_new b hmem t hheap' t' hadded

theorem Dead.addTimerInLoop (h : Dead q batch todo) (hinv : Inv q batch) {a : Addr} {t : Timer}
    (hheap : q.heap a = some t) (hfresh : a ∈ q.fresh) (now : Int) :
    Dead ((q.startAdd a t now).addTimerInLoop a now) batch todo := by
  have hadded := startAdd_added hheap now
  generalize (q.startAdd a t now).addTimerInLoop a now = q₁ at hadded ⊢
  obtain ⟨hlog, hheap₁, hactive, hcanceling, hnum, hfresh₁⟩ := hadded
  -- adding records no cancel, so the cancelled timers stay the same
  have hc : ∀ id, Cancelled q₁.log id ↔ Cancelled q.log id := by
    intro id
    rw [hlog]
    exact cancelled_append_other (by simp)
  have hid : ∀ e, q₁.idOf e = q.idOf e := fun e => idOf_congr (by rw [hheap₁])
  refine ⟨?_, ?_, ?_, ?_, ?_, ?_⟩
  · rw [hlog]
    exact h.effective.append (by simp)
  · intro id hcan hmem
    rw [hc] at hcan
    rw [hactive] at hmem
    rcases Finset.mem_insert.mp hmem with rfl | hmem
    · -- the timer is added for the first time
      obtain ⟨pre, post, hpre, t', hadded⟩ := hcan
      refine h.fresh_new a hfresh t hheap t' ?_
      rw [hpre]
      exact List.mem_append_left _ hadded
    · exact h.inactive id hcan hmem
  · intro id hcan e he
    rw [hid]
    exact h.not_waiting id ((hc id).mp hcan) e he
  · intro id hcan e he hide
    rw [hid] at hide
    rw [hcanceling]
    exact h.noted id ((hc id).mp hcan) e he hide
  · intro id t' hadded
    rw [hlog, List.mem_append, List.mem_singleton] at hadded
    rw [hnum]
    rcases hadded with hadded | heq
    · exact h.added_seq id t' hadded
    · obtain ⟨rfl, _⟩ := TimerEvent.added.inj heq
      exact (hinv.range a t hheap).2.2
  · intro b hmem t' hheap' t'' hadded
    rw [hfresh₁] at hmem
    obtain ⟨hne, hmem⟩ := Finset.mem_erase.mp hmem
    rw [hheap₁] at hheap'
    rw [hlog, List.mem_append, List.mem_singleton] at hadded
    rcases hadded with hadded | heq
    · exact h.fresh_new b hmem t' hheap' t'' hadded
    · obtain ⟨heq, _⟩ := TimerEvent.added.inj heq
      exact hne (TimerId.mk.inj heq).1

/-- What a cancel records, and what it leaves alone. -/
theorem cancelInLoop_events (hinv : Inv q batch) (id : TimerId) :
    ∃ evs, (∀ ev ∈ evs, TimerEvent.Quiet ev) ∧
      ((q.record (.cancelled id)).cancelInLoop id).log = q.log ++ [.cancelled id] ++ evs ∧
      ((q.record (.cancelled id)).cancelInLoop id).fresh = q.fresh ∧
      ∀ a, q.Idle a → ((q.record (.cancelled id)).cancelInLoop id).heap a = q.heap a := by
  by_cases hid : id ∈ q.activeTimers_
  · obtain ⟨t, hheap, _⟩ := hinv.active id hid
    rw [cancelInLoop_active (q := q.record (.cancelled id)) hid hheap,
      delete_eq (q := (q.record (.cancelled id)).unlink id t) hheap]
    refine ⟨[.deleted ⟨id.timer_, t.sequence_⟩], by simp [TimerEvent.Quiet], rfl, rfl, ?_⟩
    -- the deleted timer was active, so it is none of the idle ones
    intro a ha
    exact setHeap_of_ne (hinv.active_ne ha hid).symm _
  · rw [cancelInLoop_not_active (q := q.record (.cancelled id)) hid]
    refine ⟨[], by simp, ?_, ?_, ?_⟩
    · rw [List.append_nil]
      split <;> rfl
    · split <;> rfl
    · intro a _
      split <;> rfl

/-- A cancel takes the timer out of the active set; if it is in the batch it is
    noted.  It must not be waiting for its turn. -/
theorem Dead.of_cancel (h : Dead q batch todo) {id : TimerId} {q₁ : TimerQueue}
    (evs : List TimerEvent) (hlog : q₁.log = q.log ++ [.cancelled id] ++ evs)
    (hquiet : ∀ ev ∈ evs, TimerEvent.Quiet ev)
    (hactive : q₁.activeTimers_ = q.activeTimers_.erase id)
    (hcanceling : q.cancelingTimers_ ⊆ q₁.cancelingTimers_)
    (hnum : q₁.numCreated = q.numCreated) (hfresh : q₁.fresh = q.fresh)
    (hheap : ∀ e ∈ batch, q₁.heap e.second = q.heap e.second)
    (hheapf : ∀ a ∈ q.fresh, q₁.heap a = q.heap a) (htodo : todo ⊆ batch)
    (hself : ∀ e ∈ batch, q.idOf e = some id → id ∈ q₁.cancelingTimers_)
    (hwait : ∀ e ∈ todo, q.idOf e ≠ some id) : Dead q₁ batch todo := by
  obtain ⟨hquiet1, hquiet2, hquiet3⟩ := append_quiet (q.log ++ [.cancelled id]) evs hquiet
  -- the only timer that becomes cancelled is id
  have hc : ∀ id', Cancelled q₁.log id' → Cancelled q.log id' ∨ id' = id := by
    intro id' hcan
    rw [hlog, hquiet1, cancelled_append] at hcan
    rcases hcan with hcan | ⟨heq, _⟩
    · exact Or.inl hcan
    · exact Or.inr (TimerEvent.cancelled.inj heq).symm
  have hadd : ∀ id' t, .added id' t ∈ q₁.log → .added id' t ∈ q.log := by
    intro id' t hadded
    rw [hlog, hquiet3, List.mem_append, List.mem_singleton] at hadded
    rcases hadded with hadded | heq
    · exact hadded
    · cases heq
  have hid : ∀ e ∈ batch, q₁.idOf e = q.idOf e := fun e he => idOf_congr (hheap e he)
  refine ⟨?_, ?_, ?_, ?_, ?_, ?_⟩
  · rw [hlog]
    exact hquiet2 (h.effective.append (by simp))
  · intro id' hcan hmem
    rw [hactive] at hmem
    obtain ⟨hne, hmem⟩ := Finset.mem_erase.mp hmem
    rcases hc id' hcan with hcan | heq
    · exact h.inactive id' hcan hmem
    · exact hne heq
  · intro id' hcan e he
    rw [hid e (htodo he)]
    rcases hc id' hcan with hcan | rfl
    · exact h.not_waiting id' hcan e he
    · exact hwait e he
  · intro id' hcan e he hide
    rw [hid e he] at hide
    rcases hc id' hcan with hcan | rfl
    · exact hcanceling (h.noted id' hcan e he hide)
    · exact hself e he hide
  · intro id' t hadded
    rw [hnum]
    exact h.added_seq id' t (hadd id' t hadded)
  · intro a ha t hheap' t' hadded
    rw [hfresh] at ha
    rw [hheapf a ha] at hheap'
    exact h.fresh_new a ha t hheap' t' (hadd _ _ hadded)

theorem Dead.cancelInLoop (h : Dead q batch todo) (hinv : Inv q batch) (htodo : todo ⊆ batch)
    (hcalling : batch ≠ [] → q.callingExpiredTimers_ = true) {id : TimerId}
    (hwait : ∀ e ∈ todo, q.idOf e ≠ some id) :
    Dead ((q.record (.cancelled id)).cancelInLoop id) batch todo := by
  by_cases hid : id ∈ q.activeTimers_
  · obtain ⟨t, hheap, _⟩ := hinv.active id hid
    obtain ⟨hb, hf⟩ := hinv.active_elsewhere hid
    rw [cancelInLoop_active (q := q.record (.cancelled id)) hid hheap,
      delete_eq (q := (q.record (.cancelled id)).unlink id t) hheap]
    refine h.of_cancel [.deleted ⟨id.timer_, t.sequence_⟩] rfl ?_ rfl
      (Finset.Subset.refl _) rfl rfl ?_ ?_ htodo ?_ hwait
    · intro ev hev
      rw [List.mem_singleton.mp hev]
      trivial
    · intro e he
      exact setHeap_of_ne (hb e he) _
    · intro a ha
      have hne : a ≠ id.timer_ := fun heq => hf (heq ▸ ha)
      exact setHeap_of_ne hne _
    · intro e he hide
      -- the batch has no active timer
      obtain ⟨t', hheap', hnot⟩ := hinv.batch_idle e he
      rw [idOf_eq hheap'] at hide
      rw [Option.some.inj hide] at hnot
      exact absurd hid hnot
  · have herase : q.activeTimers_ = q.activeTimers_.erase id :=
      (Finset.erase_eq_of_notMem hid).symm
    rw [cancelInLoop_not_active (q := q.record (.cancelled id)) hid]
    split
    · -- in a pass the id is noted, whether or not it is in the batch
      refine h.of_cancel [] (by simp [record]) (by simp) herase
        (Finset.subset_insert _ _) rfl rfl (fun _ _ => rfl) (fun _ _ => rfl) htodo ?_ hwait
      intro e he hide
      exact Finset.mem_insert_self _ _
    · -- outside a pass there is no batch
      rename_i hnot
      refine h.of_cancel [] (by simp [record]) (by simp) herase
        (Finset.Subset.refl _) rfl rfl (fun _ _ => rfl) (fun _ _ => rfl) htodo ?_ hwait
      intro e he _
      exact absurd (hcalling (List.ne_nil_of_mem he)) hnot

/-! ## A pass -/

theorem Dead.beginRead (h : Dead q [] []) (hinv : Inv q []) (now tread : Int) :
    Dead (q.beginRead now tread).1 (q.expiredAt now) (q.expiredAt now) := by
  have hbegan := hinv.began now tread
  generalize (q.beginRead now tread).1 = q₁ at hbegan ⊢
  obtain ⟨hlog, hheap, hactive, hnum, hfresh, _⟩ := hbegan
  -- the batch consists of timers that were active
  have hnotid : ∀ id, Cancelled q.log id → ∀ e ∈ q.expiredAt now, q₁.idOf e ≠ some id := by
    intro id hcan e he hide
    obtain ⟨t, hheap', _, hact⟩ := hinv.entry e (hinv.mem_expiredAt.mp he).1
    rw [idOf_eq (by rw [hheap]; exact hheap')] at hide
    rw [Option.some.inj hide] at hact
    exact h.inactive id hcan hact
  refine ⟨?_, ?_, ?_, ?_, ?_, ?_⟩
  · rw [hlog]
    exact h.effective
  · intro id hcan hmem
    rw [hlog] at hcan
    exact h.inactive id hcan (hactive id hmem)
  · rw [hlog]
    exact hnotid
  · intro id hcan e he hide
    rw [hlog] at hcan
    exact absurd hide (hnotid id hcan e he)
  · rw [hlog, hnum]
    exact h.added_seq
  · rw [hfresh, hheap, hlog]
    exact h.fresh_new

theorem Dead.run (h : Dead q batch (e :: todo)) (hinv : Inv q batch) (he : e ∈ batch) :
    Dead (q.run e) batch todo := by
  obtain ⟨t, hheap, _⟩ := hinv.batch_idle e he
  have hrun := run_eq hheap
  have hc : ∀ id, Cancelled (q.run e).log id ↔ Cancelled q.log id := by
    intro id
    rw [hrun]
    exact cancelled_append_other (by simp)
  have hid : ∀ f, (q.run e).idOf f = q.idOf f := by
    intro f
    rw [hrun]
    rfl
  have hadd : ∀ id t', .added id t' ∈ (q.run e).log → .added id t' ∈ q.log := by
    intro id t' hadded
    rw [hrun] at hadded
    rcases List.mem_append.mp hadded with hadded | heq
    · exact hadded
    · cases List.mem_singleton.mp heq
  refine ⟨?_, ?_, ?_, ?_, ?_, ?_⟩
  · rw [hrun]
    refine h.effective.append ?_
    -- the timer whose turn it is was waiting, hence not cancelled
    intro id heq hcan
    obtain rfl := TimerEvent.started.inj heq
    exact h.not_waiting _ hcan e List.mem_cons_self (idOf_eq hheap)
  · intro id hcan
    rw [hrun]
    exact h.inactive id ((hc id).mp hcan)
  · intro id hcan f hf
    rw [hid]
    exact h.not_waiting id ((hc id).mp hcan) f (List.mem_cons_of_mem e hf)
  · intro id hcan f hf hide
    rw [hid] at hide
    rw [hrun]
    exact h.noted id ((hc id).mp hcan) f hf hide
  · intro id t' hadded
    rw [hrun]
    exact h.added_seq id t' (hadd id t' hadded)
  · intro a ha t' hheap' t'' hadded
    rw [hrun] at ha hheap'
    exact h.fresh_new a ha t' hheap' t'' (hadd _ _ hadded)

/-- Outside the loop of callbacks: the log gets quiet events, the active set no
    cancelled timer, and the batch may shrink. -/
theorem Dead.of_quiet (h : Dead q batch []) {q₁ : TimerQueue} {batch' : List Entry}
    (hsub : batch' ⊆ batch) (evs : List TimerEvent) (hlog : q₁.log = q.log ++ evs)
    (hquiet : ∀ ev ∈ evs, TimerEvent.Quiet ev)
    (hactive : ∀ id, Cancelled q.log id → id ∉ q₁.activeTimers_)
    (hcanceling : q₁.cancelingTimers_ = q.cancelingTimers_)
    (hnum : q₁.numCreated = q.numCreated) (hfresh : q₁.fresh = q.fresh)
    (hheap : ∀ e ∈ batch', q₁.heap e.second = q.heap e.second)
    (hheapf : ∀ a ∈ q.fresh, q₁.heap a = q.heap a) : Dead q₁ batch' [] := by
  obtain ⟨hquiet1, hquiet2, hquiet3⟩ := append_quiet q.log evs hquiet
  rw [← hlog] at hquiet1 hquiet2 hquiet3
  refine ⟨hquiet2 h.effective, ?_, ?_, ?_, ?_, ?_⟩
  · intro id hcan
    exact hactive id ((hquiet1 id).mp hcan)
  · intro id _ e he
    cases he
  · intro id hcan e he hide
    rw [idOf_congr (hheap e he)] at hide
    rw [hcanceling]
    exact h.noted id ((hquiet1 id).mp hcan) e (hsub he) hide
  · intro id t hadded
    rw [hnum]
    exact h.added_seq id t ((hquiet3 id t).mp hadded)
  · intro a ha t hheap' t' hadded
    rw [hfresh] at ha
    rw [hheapf a ha] at hheap'
    exact h.fresh_new a ha t hheap' t' ((hquiet3 _ _).mp hadded)

theorem Dead.resetOne (h : Dead q (e :: batch) []) (hinv : Inv q (e :: batch)) (now : Int) :
    Dead (resetOne now q e) batch [] := by
  obtain ⟨hidle, hb, hf⟩ := hinv.head_elsewhere
  obtain ⟨t, hheap, _⟩ := hidle
  have hother : ∀ a ∈ q.fresh, a ≠ e.second := fun a ha heq => hf (heq ▸ ha)
  by_cases hcond : t.repeat_ = true ∧ ⟨e.second, t.sequence_⟩ ∉ q.cancelingTimers_
  · rw [resetOne_restart hheap hcond.1 hcond.2, insert_eq (t := t.restart now) (by simp)]
    refine h.of_quiet (List.subset_cons_self e batch) [.restarted ⟨e.second, t.sequence_⟩] rfl
      (by simp [TimerEvent.Quiet]) ?_ rfl rfl rfl (fun f hf => setHeap_of_ne (hb f hf) _)
      (fun a ha => setHeap_of_ne (hother a ha) _)
    intro id hcan hmem
    rcases Finset.mem_insert.mp hmem with rfl | hmem
    · -- a cancelled timer of the batch is noted, and is not put back
      rw [Timer.restart_sequence_] at hcan
      exact hcond.2 (h.noted _ hcan e List.mem_cons_self (idOf_eq hheap))
    · exact h.inactive id hcan hmem
  · rw [resetOne_delete hheap hcond, delete_eq hheap]
    exact h.of_quiet (List.subset_cons_self e batch) [.deleted ⟨e.second, t.sequence_⟩] rfl
      (by simp [TimerEvent.Quiet]) h.inactive rfl rfl rfl
      (fun f hf => setHeap_of_ne (hb f hf) _) (fun a ha => setHeap_of_ne (hother a ha) _)

theorem Dead.foldl_resetOne (h : Dead q batch []) (hinv : Inv q batch) (now : Int) :
    Dead (batch.foldl (TimerQueue.resetOne now) q) [] [] := by
  induction batch generalizing q with
  | nil => exact h
  | cons e batch ih => exact ih (h.resetOne hinv now) (hinv.resetOne now)

theorem Dead.endRead (h : Dead q batch []) (hinv : Inv q batch) (now tarm : Int) :
    Dead (q.endRead batch now tarm) [] [] := by
  have hloop := hinv.afterLoop tarm
  have hdead : Dead (q.afterLoop tarm) batch [] :=
    ⟨h.effective, h.inactive, h.not_waiting, h.noted, h.added_seq, h.fresh_new⟩
  -- the rounds of reset keep Dead; rearm does not touch what it looks at
  have hfold := hdead.foldl_resetOne hloop now
  obtain ⟨_, _, _, _, heq⟩ := (hloop.foldl_resetOne now).rearm_frame tarm
  rw [endRead_eq, heq]
  exact ⟨hfold.effective, hfold.inactive, hfold.not_waiting, hfold.noted, hfold.added_seq,
    hfold.fresh_new⟩

end TimerQueue

/-! ## Runs -/

namespace TimerState

open TimerQueue

/-- The timers of the batch whose callbacks are still to be run. -/
def waiting (s : TimerState) : List TimerId := s.todo.filterMap s.queue.idOf

/-- The step is not a cancel of a timer that waits for its turn in the batch. -/
def NotWaiting (s : TimerState) : Label → Prop
  | .call (.cancelInLoop id) => id ∉ s.waiting
  | _ => True

instance (s : TimerState) : (l : Label) → Decidable (NotWaiting s l)
  | .call (.cancelInLoop _) => inferInstanceAs (Decidable (¬ _))
  | .call (.newTimer _ _ _) | .call (.addTimerInLoop _ _) | .beginRead _ _ | .runNext
  | .endRead _ => isTrue trivial

/-- Two timers expire together; the callback of the first cancels the second,
    and the second is started all the same. -/
theorem cancelled_timer_still_runs :
    ∃ s, machine.run {}
        [.call (.newTimer 8 10 ⟨false, 0, by decide, by decide⟩), .call (.addTimerInLoop 8 5),
         .call (.newTimer 16 10 ⟨false, 0, by decide, by decide⟩), .call (.addTimerInLoop 16 5),
         .beginRead 20 20, .runNext, .call (.cancelInLoop ⟨16, 2⟩), .runNext] = some s ∧
      s.queue.log = [.added ⟨8, 1⟩ ⟨10, ⟨false, 0, by decide, by decide⟩, 1⟩,
        .added ⟨16, 2⟩ ⟨10, ⟨false, 0, by decide, by decide⟩, 2⟩,
        .started ⟨8, 1⟩, .cancelled ⟨16, 2⟩, .started ⟨16, 2⟩] ∧
      ¬ CancelEffective s.queue.log := by
  refine ⟨_, rfl, rfl, ?_⟩
  intro h
  -- the cancel of timer 2 stands between its addition and its start
  exact h [.added ⟨8, 1⟩ ⟨10, ⟨false, 0, by decide, by decide⟩, 1⟩,
    .added ⟨16, 2⟩ ⟨10, ⟨false, 0, by decide, by decide⟩, 2⟩, .started ⟨8, 1⟩]
    [.started ⟨16, 2⟩] ⟨16, 2⟩ rfl ⟨⟨10, ⟨false, 0, by decide, by decide⟩, 2⟩, by simp⟩ (by simp)

theorem dead_init : Dead {} [] [] := by
  have hnone : ∀ id, ¬ Cancelled [] id := by
    intro id ⟨pre, post, hlog, _⟩
    simp at hlog
  refine ⟨?_, ?_, ?_, ?_, ?_, ?_⟩
  · intro pre post id hlog
    simp at hlog
  · intro id hcan
    exact absurd hcan (hnone id)
  · intro id hcan
    exact absurd hcan (hnone id)
  · intro id hcan
    exact absurd hcan (hnone id)
  · intro id t hadded
    cases hadded
  · intro a ha
    exact absurd ha (Finset.notMem_empty a)

theorem dead_step {s s' : TimerState} {l : Label} (hgood : Good s)
    (h : Dead s.queue s.batch s.todo) (hwait : NotWaiting s l) (hstep : next s l = some s') :
    Dead s'.queue s'.batch s'.todo := by
  rcases hgood.step_cases hstep with ⟨c, q, rfl, hcall, rfl⟩ |
    ⟨now, tread, rfl, hpass, _, hinv, rfl⟩ |
    ⟨now, expired, it, todo, t, rfl, hpass, hinv, hsuffix, hheap, rfl⟩ |
    ⟨now, expired, tarm, rfl, hpass, hinv, rfl⟩
  · have htodo : s.todo ⊆ s.batch := hgood.todo_suffix.subset
    show Dead q s.batch s.todo
    rcases call_cases hcall with ⟨a, when, interval, rfl, hnone, _, _, rfl⟩ |
      ⟨a, now, t, rfl, hheap, hfresh, _, _, rfl⟩ | ⟨id, rfl, rfl⟩
    · exact h.newTimer hgood.inv htodo hnone when interval
    · exact h.addTimerInLoop hgood.inv hheap hfresh now
    · refine h.cancelInLoop hgood.inv htodo ?_ ?_
      · -- there is a batch in a pass only
        intro hne
        rw [hgood.calling]
        cases hp : s.pass with
        | none => simp [batch, hp] at hne
        | some pass => rfl
      · intro e he hide
        exact hwait (List.mem_filterMap.mpr ⟨e, he, hide⟩)
  · simp only [batch, TimerState.todo, hpass] at h
    exact h.beginRead hinv now tread
  · simp only [batch, TimerState.todo, hpass] at h
    have hrun := h.run hinv (hsuffix.subset List.mem_cons_self)
    rw [run_eq hheap] at hrun
    exact hrun
  · simp only [batch, TimerState.todo, hpass] at h
    exact h.endRead hinv now tarm

/-- In a run in which no cancel hits a timer that waits for its turn in the
    expired batch, no timer is started after it was cancelled. -/
theorem cancel_effective {s : TimerState} {ls : List Label} (hrun : machine.run {} ls = some s)
    (hwait : machine.Along NotWaiting {} ls) : CancelEffective s.queue.log := by
  have hboth : Good s ∧ Dead s.queue s.batch s.todo :=
    machine.run_invariant_along (I := fun s => Good s ∧ Dead s.queue s.batch s.todo)
      (fun _ _ _ h hl hstep => ⟨good_step h.1 hstep, dead_step h.1 h.2 hl hstep⟩)
      ⟨good_init, dead_init⟩ hwait hrun
  exact hboth.2.effective

/-- A repeating timer cancels itself in its callback and is deleted at the end of
    the pass. -/
theorem cancel_effective_self :
    ∃ s ls, machine.run {} ls = some s ∧ machine.Along NotWaiting {} ls ∧
      Cancelled s.queue.log ⟨8, 1⟩ ∧ CancelEffective s.queue.log := by
  have hrun : machine.run {}
      [.call (.newTimer 8 10 ⟨true, 7, by decide, by decide⟩), .call (.addTimerInLoop 8 5),
       .beginRead 20 20, .runNext, .call (.cancelInLoop ⟨8, 1⟩), .endRead 20] = some _ := rfl
  have hwait : machine.Along NotWaiting {}
      [.call (.newTimer 8 10 ⟨true, 7, by decide, by decide⟩), .call (.addTimerInLoop 8 5),
       .beginRead 20 20, .runNext, .call (.cancelInLoop ⟨8, 1⟩), .endRead 20] := by
    decide +kernel
  exact ⟨_, _, hrun, hwait,
    ⟨[.added ⟨8, 1⟩ ⟨10, ⟨true, 7, by decide, by decide⟩, 1⟩, .started ⟨8, 1⟩],
      [.deleted ⟨8, 1⟩], rfl, _, List.mem_cons_self⟩, cancel_effective hrun hwait⟩

end TimerState
