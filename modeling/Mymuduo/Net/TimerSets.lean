import Mathlib.Data.Finset.Card
import Mymuduo.Net.TimerCancel

/-! # The two sets of timers

    `timers_` and `activeTimers_` are two indices of the same live timers: by
    (expiration, address) and by (address, sequence).  The first key is a copy of
    a field that `Timer::restart` changes, which is sound since `restart` is
    called while the timer is in neither set.

    The addresses of deleted timers are used again, so a deleted timer is known
    by its id: its sequence number does not come back (`Buried`).
-/

namespace TimerQueue

/-! ## Deleted timers -/

/-- A timer is deleted at most once, and no live timer has the id of a deleted
    one. -/
structure Buried (q : TimerQueue) : Prop where
  once : ∀ id, q.log.count (.deleted id) ≤ 1
  /-- Its number has been given out, and will not be given out again. -/
  created : ∀ id, .deleted id ∈ q.log → id.sequence_ ≤ q.numCreated
  /-- Its address may hold another timer by now. -/
  gone : ∀ id, .deleted id ∈ q.log → ∀ t, q.heap id.timer_ = some t →
    t.sequence_ ≠ id.sequence_

/-- Every timer of `q'` is a timer of `q` or was created later. -/
def Newer (q q' : TimerQueue) : Prop :=
  ∀ a t', q'.heap a = some t' →
    (∃ t, q.heap a = some t ∧ t.sequence_ = t'.sequence_) ∨ q.numCreated < t'.sequence_

variable {q q' : TimerQueue} {batch : List Entry} {a : Addr} {t : Timer}

theorem newer_of_heap_eq (h : q'.heap = q.heap) : Newer q q' := by
  intro a t' hheap
  rw [h] at hheap
  exact Or.inl ⟨t', hheap, rfl⟩

/-- A change that deletes no timer. -/
theorem Buried.of_events (h : Buried q) (evs : List TimerEvent) (hlog : q'.log = q.log ++ evs)
    (hev : ∀ id, .deleted id ∉ evs) (hnum : q.numCreated ≤ q'.numCreated)
    (hheap : Newer q q') : Buried q' := by
  have hmem : ∀ id, .deleted id ∈ q'.log → .deleted id ∈ q.log := by
    intro id hid
    rw [hlog, List.mem_append] at hid
    rcases hid with hid | hid
    · exact hid
    · exact absurd hid (hev id)
  constructor
  · intro id
    rw [hlog, List.count_append, List.count_eq_zero.mpr (hev id)]
    exact h.once id
  · intro id hid
    exact le_trans (h.created id (hmem id hid)) hnum
  · intro id hid t' hheap' heq
    rcases hheap _ t' hheap' with ⟨t, ht, hseq⟩ | hnew
    · exact h.gone id (hmem id hid) t ht (hseq.trans heq)
    · -- sequence numbers above numCreated have not been deleted
      have := h.created id (hmem id hid)
      omega

/-- A change of the sets or of the timerfd. -/
theorem Buried.of_heap_eq (h : Buried q) (hlog : q'.log = q.log) (hheap : q'.heap = q.heap)
    (hnum : q'.numCreated = q.numCreated) : Buried q' := by
  apply h.of_events [] (by rw [hlog, List.append_nil]) (by simp) (le_of_eq hnum.symm)
  exact newer_of_heap_eq hheap

/-- The timer that is deleted is alive, so this is the first time. -/
theorem Buried.delete (h : Buried q) (hinv : Inv q batch) (hheap : q.heap a = some t) :
    Buried (q.delete a) := by
  rw [delete_eq hheap]
  -- a live timer has not been deleted before
  have hfirst : TimerEvent.deleted ⟨a, t.sequence_⟩ ∉ q.log := by
    intro hmem
    exact h.gone _ hmem t hheap rfl
  have hmem : ∀ id, TimerEvent.deleted id ∈ q.log ++ [.deleted ⟨a, t.sequence_⟩] →
      .deleted id ∈ q.log ∨ id = ⟨a, t.sequence_⟩ := by
    intro id hid
    rw [List.mem_append, List.mem_singleton] at hid
    rcases hid with hid | hid
    · exact Or.inl hid
    · exact Or.inr (TimerEvent.deleted.inj hid)
  constructor
  · intro id
    show (q.log ++ [TimerEvent.deleted ⟨a, t.sequence_⟩]).count (.deleted id) ≤ 1
    rw [List.count_append, List.count_singleton]
    split
    · rename_i heq
      obtain rfl := TimerEvent.deleted.inj (beq_iff_eq.mp heq)
      rw [List.count_eq_zero.mpr hfirst]
    · exact h.once id
  · intro id hid
    rcases hmem id hid with hid | rfl
    · exact h.created id hid
    · exact (hinv.range a t hheap).2.2
  · intro id hid t' hheap'
    by_cases ha : id.timer_ = a
    · -- the address is free now
      rw [ha] at hheap'
      cases (setHeap_self q a none).symm.trans hheap'
    · have hlive : q.heap id.timer_ = some t' := (setHeap_of_ne ha none).symm.trans hheap'
      rcases hmem id hid with hid | rfl
      · exact h.gone id hid t' hlive
      · exact absurd rfl ha

/-! ## Operations -/

/-- A new timer, `addTimerInLoop` and `cancelInLoop`. -/
theorem Buried.call (h : Buried q) (hinv : Inv q batch) {c : Call} (hcall : q.call c = some q') :
    Buried q' := by
  rcases call_cases hcall with ⟨a, when, interval, rfl, hnone, _, _, rfl⟩ |
    ⟨a, now, t, rfl, hheap, _, _, _, rfl⟩ | ⟨id, rfl, rfl⟩
  · refine h.of_events [] (List.append_nil _).symm (by simp) (Nat.le_succ _) ?_
    intro b t' hheap'
    by_cases hb : b = a
    · -- the new timer has the next sequence number
      subst hb
      obtain rfl := Option.some.inj ((setHeap_self q b _).symm.trans hheap')
      exact Or.inr (Nat.lt_succ_self _)
    · exact Or.inl ⟨t', (setHeap_of_ne hb _).symm.trans hheap', rfl⟩
  · have hadded := startAdd_added hheap now
    apply h.of_events _ hadded.log (by simp) (le_of_eq hadded.numCreated.symm)
    exact newer_of_heap_eq hadded.heap
  · have hrec : Buried (q.record (.cancelled id)) :=
      h.of_events [.cancelled id] rfl (by simp) le_rfl (newer_of_heap_eq rfl)
    have hinvRec := hinv.record (.cancelled id)
    by_cases hid : id ∈ q.activeTimers_
    · obtain ⟨t, hheap, _⟩ := hinv.active id hid
      obtain ⟨hunlinked, _⟩ := Inv.unlink (q := q.record (.cancelled id)) hinvRec hid hheap
      have hburied : Buried ((q.record (.cancelled id)).unlink id t) :=
        hrec.of_heap_eq rfl rfl rfl
      rw [cancelInLoop_active (q := q.record (.cancelled id)) hid hheap]
      exact hburied.delete hunlinked hheap
    · rw [cancelInLoop_not_active (q := q.record (.cancelled id)) hid]
      split
      · exact hrec.of_heap_eq rfl rfl rfl
      · exact hrec

/-- A timer of the batch is restarted or deleted. -/
theorem Buried.resetOne {e : Entry} (h : Buried q) (hinv : Inv q (e :: batch)) (now : Int) :
    Buried (resetOne now q e) := by
  obtain ⟨t, hheap, _⟩ := hinv.batch_idle e List.mem_cons_self
  by_cases hcond : t.repeat_ = true ∧ ⟨e.second, t.sequence_⟩ ∉ q.cancelingTimers_
  · rw [resetOne_restart hheap hcond.1 hcond.2, insert_eq (t := t.restart now) (by simp)]
    refine h.of_events [.restarted ⟨e.second, t.sequence_⟩] rfl (by simp) le_rfl ?_
    intro b t' hheap'
    by_cases hb : b = e.second
    · -- restart keeps the sequence number
      subst hb
      obtain rfl := Option.some.inj ((setHeap_self q e.second _).symm.trans hheap')
      exact Or.inl ⟨t, hheap, (Timer.restart_sequence_ t now).symm⟩
    · exact Or.inl ⟨t', (setHeap_of_ne hb _).symm.trans hheap', rfl⟩
  · rw [resetOne_delete hheap hcond]
    exact h.delete hinv hheap

/-- By induction on the batch; each round keeps the invariant for the timers that are left. -/
theorem Buried.foldl_resetOne (h : Buried q) (hinv : Inv q batch) (now : Int) :
    Buried (batch.foldl (TimerQueue.resetOne now) q) := by
  induction batch generalizing q with
  | nil => exact h
  | cons e batch ih => exact ih (h.resetOne hinv now) (hinv.resetOne now)

/-- Behind the loop of `reset` only the timerfd is armed. -/
theorem Buried.endRead (h : Buried q) (hinv : Inv q batch) (now tarm : Int) :
    Buried (q.endRead batch now tarm) := by
  have hloop := hinv.afterLoop tarm
  have hburied : Buried (q.afterLoop tarm) := h.of_heap_eq rfl rfl rfl
  obtain ⟨_, _, _, _, heq⟩ := (hloop.foldl_resetOne now).rearm_frame tarm
  rw [endRead_eq, heq]
  exact (hburied.foldl_resetOne hloop now).of_heap_eq rfl rfl rfl

/-! ## What a cancel erases -/

/-- A cancel of an active timer erases its entry from `timers_` and its id from
    `activeTimers_`, and both were there. -/
theorem Inv.cancelInLoop_erases (h : Inv q batch) {id : TimerId} (hid : id ∈ q.activeTimers_) :
    ∃ e ∈ q.timers_, q.idOf e = some id ∧
      (q.cancelInLoop id).timers_ = q.timers_.erase e ∧
      (q.cancelInLoop id).activeTimers_ = q.activeTimers_.erase id := by
  obtain ⟨t, hheap, hseq, hmem⟩ := h.active id hid
  refine ⟨⟨t.expiration_, id.timer_⟩, hmem, ?_, ?_⟩
  · rw [idOf_eq hheap, hseq]
  · rw [cancelInLoop_active hid hheap, delete_eq (q := q.unlink id t) hheap]
    exact ⟨rfl, rfl⟩

end TimerQueue

/-! ## Runs -/

namespace TimerState

open TimerQueue

theorem buried_init : Buried {} := by
  constructor
  · intro id
    exact Nat.zero_le 1
  · intro id hid
    cases hid
  · intro id hid
    cases hid

theorem buried_step {s s' : TimerState} {l : Label} (hgood : Good s) (h : Buried s.queue)
    (hstep : next s l = some s') : Buried s'.queue := by
  rcases hgood.step_cases hstep with ⟨c, q, rfl, hcall, rfl⟩ |
    ⟨now, tread, rfl, _, _, hinv, rfl⟩ |
    ⟨now, expired, it, todo, t, rfl, _, _, _, _, rfl⟩ |
    ⟨now, expired, tarm, rfl, _, hinv, rfl⟩
  · exact h.call hgood.inv hcall
  · -- getExpired moves timers out of the sets and deletes none
    have hbegan := hinv.began now tread
    exact h.of_heap_eq hbegan.log hbegan.heap hbegan.numCreated
  · exact h.of_events [.started ⟨it.second, t.sequence_⟩] rfl (by simp) le_rfl
      (newer_of_heap_eq rfl)
  · exact h.endRead hinv now tarm

theorem buried_reachable {s : TimerState} (h : machine.Reachable s) : Buried s.queue := by
  have hboth : Good s ∧ Buried s.queue :=
    h.invariant machine (I := fun s => Good s ∧ Buried s.queue)
      (fun _ hinit => hinit ▸ ⟨good_init, buried_init⟩)
      (fun _ _ _ hs hstep => ⟨good_step hs.1 hstep, buried_step hs.1 hs.2 hstep⟩)
  exact hboth.2

/-- In every reachable state both sets hold live timers only and the same ones,
    each under its current expiration.  A cancel of an active timer takes exactly
    one entry out of each set.  A timer is deleted at most once, no access goes
    through its pointer after that (a second `delete` would be one), and it is in
    neither set. -/
theorem timer_sets_agree {s : TimerState} (h : machine.Reachable s) :
    (∀ e t, s.queue.heap e.second = some t →
      (e ∈ s.queue.timers_ ↔
        ⟨e.second, t.sequence_⟩ ∈ s.queue.activeTimers_ ∧ e.first = t.expiration_)) ∧
    (∀ e ∈ s.queue.timers_, ∃ t, s.queue.heap e.second = some t) ∧
    (∀ id ∈ s.queue.activeTimers_, ∃ t, s.queue.heap id.timer_ = some t ∧
      t.sequence_ = id.sequence_) ∧
    (∀ id ∈ s.queue.activeTimers_, ∃ e ∈ s.queue.timers_, s.queue.idOf e = some id ∧
      (s.queue.cancelInLoop id).timers_ = s.queue.timers_.erase e ∧
      (s.queue.cancelInLoop id).timers_.elems.length + 1 = s.queue.timers_.elems.length ∧
      (s.queue.cancelInLoop id).activeTimers_ = s.queue.activeTimers_.erase id ∧
      (s.queue.cancelInLoop id).activeTimers_.card + 1 = s.queue.activeTimers_.card) ∧
    (∀ id, s.queue.log.count (.deleted id) ≤ 1) ∧ s.queue.fault = false ∧
    ∀ id, .deleted id ∈ s.queue.log →
      id ∉ s.queue.activeTimers_ ∧ ∀ e ∈ s.queue.timers_, s.queue.idOf e ≠ some id := by
  have hinv := (good_reachable h).inv
  have hburied := buried_reachable h
  have hgone : ∀ id, .deleted id ∈ s.queue.log → id ∉ s.queue.activeTimers_ := by
    intro id hdel hid
    obtain ⟨t, hheap, hseq, _⟩ := hinv.active id hid
    exact hburied.gone id hdel t hheap hseq
  refine ⟨?_, ?_, ?_, ?_, hburied.once, no_dangling_timer h, ?_⟩
  · intro e t hheap
    constructor
    -- each set has what the other has, by the two halves of the invariant
    · intro he
      obtain ⟨t', hheap', hexp, hact⟩ := hinv.entry e he
      obtain rfl : t = t' := Option.some.inj (hheap.symm.trans hheap')
      exact ⟨hact, hexp.symm⟩
    · intro ⟨hact, hfirst⟩
      obtain ⟨t', hheap', _, hmem⟩ := hinv.active _ hact
      obtain rfl : t = t' := Option.some.inj (hheap.symm.trans hheap')
      rw [← hfirst] at hmem
      exact hmem
  · intro e he
    obtain ⟨t, hheap, _⟩ := hinv.entry e he
    exact ⟨t, hheap⟩
  · intro id hid
    obtain ⟨t, hheap, hseq, _⟩ := hinv.active id hid
    exact ⟨t, hheap, hseq⟩
  · intro id hid
    obtain ⟨e, he, hide, htimers, hactive⟩ := hinv.cancelInLoop_erases hid
    refine ⟨e, he, hide, htimers, ?_, hactive, ?_⟩
    · rw [htimers]
      exact OrderedSet.length_erase_add_one he
    · rw [hactive]
      exact Finset.card_erase_add_one hid
  · intro id hdel
    refine ⟨hgone id hdel, ?_⟩
    intro e he hide
    obtain ⟨t, hheap, _, hact⟩ := hinv.entry e he
    rw [idOf_eq hheap] at hide
    rw [Option.some.inj hide] at hact
    exact hgone id hdel hact

/-- A repeating timer is put back at the end of its pass and then cancelled; its
    address is used again by the next timer. -/
theorem timer_sets_agree_reused :
    ∃ s, machine.Reachable s ∧
      .deleted ⟨8, 1⟩ ∈ s.queue.log ∧ s.queue.log.count (.deleted ⟨8, 1⟩) ≤ 1 ∧
      s.queue.fault = false ∧
      ⟨8, 1⟩ ∉ s.queue.activeTimers_ ∧ (⟨50, 8⟩ : Entry) ∈ s.queue.timers_ := by
  have hrun : machine.run {}
      [.call (.newTimer 8 10 ⟨true, 7, by decide, by decide⟩), .call (.addTimerInLoop 8 5),
       .beginRead 20 20, .runNext, .endRead 20, .call (.cancelInLoop ⟨8, 1⟩),
       .call (.newTimer 8 50 ⟨false, 0, by decide, by decide⟩),
       .call (.addTimerInLoop 8 21)] = some _ := rfl
  have hreach : machine.Reachable _ := ⟨_, _, rfl, hrun⟩
  obtain ⟨hsame, _, _, _, honce, hfault, hgone⟩ := timer_sets_agree hreach
  exact ⟨_, hreach, by decide +kernel, honce _, hfault, (hgone ⟨8, 1⟩ (by decide +kernel)).1,
    (hsame ⟨50, 8⟩ _ rfl).mpr ⟨Finset.mem_insert_self _ _, rfl⟩⟩

end TimerState
