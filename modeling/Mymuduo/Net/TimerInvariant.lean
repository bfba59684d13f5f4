import Mymuduo.Net.TimerQueue

/-! # The invariant of the timer queue

    `timers_` and `activeTimers_` hold the same timers, all alive; the timers of
    the running batch and the timers still to be added are alive and in neither
    set.  Every function of `TimerQueue` keeps this (`Inv`), so that no access
    goes through a dangling pointer.  `timerSet` is the queue seen from outside:
    the timers that are set, by id.
-/

namespace TimerQueue

/-- The timers that are set. -/
def timerSet (q : TimerQueue) : Set (TimerId × Timer) :=
  { p | q.heap p.1.timer_ = some p.2 ∧ p.2.sequence_ = p.1.sequence_ ∧
    ⟨p.2.expiration_, p.1.timer_⟩ ∈ q.timers_ }

/-- A live timer that is in neither set. -/
def Idle (q : TimerQueue) (a : Addr) : Prop :=
  ∃ t, q.heap a = some t ∧ ⟨a, t.sequence_⟩ ∉ q.activeTimers_

/-- `batch` is the expired batch of the running pass. -/
structure Inv (q : TimerQueue) (batch : List Entry) : Prop where
  entry : ∀ e ∈ q.timers_, ∃ t, q.heap e.second = some t ∧ t.expiration_ = e.first ∧
    ⟨e.second, t.sequence_⟩ ∈ q.activeTimers_
  active : ∀ id ∈ q.activeTimers_, ∃ t, q.heap id.timer_ = some t ∧
    t.sequence_ = id.sequence_ ∧ ⟨t.expiration_, id.timer_⟩ ∈ q.timers_
  batch_idle : ∀ e ∈ batch, q.Idle e.second
  batch_nodup : (batch.map Entry.second).Nodup
  batch_fresh : ∀ e ∈ batch, e.second ∉ q.fresh
  fresh_idle : ∀ a ∈ q.fresh, q.Idle a
  range : ∀ a t, q.heap a = some t → 0 < a ∧ a < UINTPTR_MAX ∧ t.sequence_ ≤ q.numCreated
  no_fault : q.fault = false

namespace Inv

variable {q q' : TimerQueue} {batch : List Entry} {a : Addr} {t : Timer} {id : TimerId}

/-- The invariant looks at the sets, the heap and the batch only. -/
theorem of_eq (h : Inv q batch) (htimers : q'.timers_ = q.timers_)
    (hactive : q'.activeTimers_ = q.activeTimers_) (hheap : q'.heap = q.heap)
    (hfresh : q'.fresh ⊆ q.fresh) (hnum : q'.numCreated = q.numCreated)
    (hfault : q'.fault = q.fault) : Inv q' batch := by
  refine ⟨?_, ?_, ?_, h.batch_nodup, ?_, ?_, ?_, ?_⟩
  · rw [htimers, hheap, hactive]
    exact h.entry
  · rw [htimers, hheap, hactive]
    exact h.active
  · unfold Idle
    rw [hheap, hactive]
    exact h.batch_idle
  · intro e he hmem
    exact h.batch_fresh e he (hfresh hmem)
  · unfold Idle
    rw [hheap, hactive]
    intro a ha
    exact h.fresh_idle a (hfresh ha)
  · rw [hheap, hnum]
    exact h.range
  · rw [hfault]
    exact h.no_fault

/-- The log does not matter. -/
theorem record (h : Inv q batch) (ev : TimerEvent) : Inv (q.record ev) batch :=
  h.of_eq rfl rfl rfl (Finset.Subset.refl _) rfl rfl

theorem of_batch (h : Inv q batch) {batch' : List Entry} (hsub : batch'.Sublist batch) :
    Inv q batch' :=
  ⟨h.entry, h.active, fun e he => h.batch_idle e (hsub.subset he),
    h.batch_nodup.sublist (hsub.map _), fun e he => h.batch_fresh e (hsub.subset he),
    h.fresh_idle, h.range, h.no_fault⟩

theorem mem_timerSet (h : Inv q batch) :
    (id, t) ∈ q.timerSet ↔ id ∈ q.activeTimers_ ∧ q.heap id.timer_ = some t := by
  constructor
  · intro ⟨hheap, hseq, hmem⟩
    obtain ⟨t', hheap', _, hact⟩ := h.entry _ hmem
    obtain rfl : t = t' := Option.some.inj (hheap.symm.trans hheap')
    have hid : id = ⟨id.timer_, t.sequence_⟩ := by
      rw [show t.sequence_ = id.sequence_ from hseq]
    exact ⟨hid ▸ hact, hheap⟩
  · intro ⟨hact, hheap⟩
    obtain ⟨t', hheap', hseq, hmem⟩ := h.active id hact
    obtain rfl : t = t' := Option.some.inj (hheap.symm.trans hheap')
    exact ⟨hheap, hseq, hmem⟩

/-- No active timer has the address of an idle one. -/
theorem active_ne (h : Inv q batch) (ha : q.Idle a) (hid : id ∈ q.activeTimers_) :
    id.timer_ ≠ a := by
  intro heq
  subst heq
  obtain ⟨t, hheap, hnot⟩ := ha
  obtain ⟨t', hheap', hseq, _⟩ := h.active id hid
  obtain rfl : t = t' := Option.some.inj (hheap.symm.trans hheap')
  rw [hseq] at hnot
  exact hnot hid

theorem entry_ne (h : Inv q batch) (ha : q.Idle a) {e : Entry} (he : e ∈ q.timers_) :
    e.second ≠ a := by
  obtain ⟨t, _, _, hact⟩ := h.entry e he
  exact h.active_ne ha hact

/-! ## Changes to the heap -/

/-- A change of the heap at an address that is not in use elsewhere. -/
theorem of_update (h : Inv q batch) {v : Option Timer}
    (hactive : ∀ id ∈ q.activeTimers_, id.timer_ ≠ a)
    (hentry : ∀ e ∈ q.timers_, e.second ≠ a) (hb : ∀ e ∈ batch, e.second ≠ a)
    (hf : a ∉ q.fresh) (hrange : ∀ t, v = some t → 0 < a ∧ a < UINTPTR_MAX ∧
      t.sequence_ ≤ q.numCreated) :
    Inv (q.setHeap a v) batch := by
  have hidle : ∀ b, b ≠ a → q.Idle b → (q.setHeap a v).Idle b := by
    intro b hne ⟨t, hheap, hnot⟩
    exact ⟨t, by rwa [setHeap_of_ne hne], hnot⟩
  refine ⟨?_, ?_, ?_, h.batch_nodup, h.batch_fresh, ?_, ?_, h.no_fault⟩
  · -- addresses in use differ from a, so the lookup there is unchanged
    intro e he
    obtain ⟨t, hheap, hrest⟩ := h.entry e he
    exact ⟨t, by rwa [setHeap_of_ne (hentry e he)], hrest⟩
  · intro id hid
    obtain ⟨t, hheap, hrest⟩ := h.active id hid
    exact ⟨t, by rwa [setHeap_of_ne (hactive id hid)], hrest⟩
  · intro e he
    exact hidle _ (hb e he) (h.batch_idle e he)
  · intro b hb
    exact hidle b (fun hba => hf (hba ▸ hb)) (h.fresh_idle b hb)
  · intro b t hheap
    -- only the written address needs the new bound
    by_cases hba : b = a
    · subst hba
      rw [setHeap_self] at hheap
      exact hrange t hheap
    · rw [setHeap_of_ne hba] at hheap
      exact h.range b t hheap

end Inv

/-- Elsewhere the set of timers does not see a change of the heap. -/
theorem timerSet_update {q : TimerQueue} {a : Addr} {v : Option Timer}
    (hentry : ∀ e ∈ q.timers_, e.second ≠ a) :
    (q.setHeap a v).timerSet = q.timerSet := by
  ext ⟨id, t⟩
  constructor
  · intro ⟨hheap, hrest⟩
    rw [setHeap_of_ne (hentry _ hrest.2)] at hheap
    exact ⟨hheap, hrest⟩
  · intro ⟨hheap, hrest⟩
    refine ⟨?_, hrest⟩
    rw [setHeap_of_ne (hentry _ hrest.2)]
    exact hheap

/-! ## insert and delete -/

section

variable {q : TimerQueue} {batch : List Entry} {a : Addr} {t : Timer}

theorem insert_eq (hheap : q.heap a = some t) :
    (q.insert a).1 = { q with
      timers_ := q.timers_.insert ⟨t.expiration_, a⟩
      activeTimers_ := Insert.insert ⟨a, t.sequence_⟩ q.activeTimers_ } := by
  simp only [insert, hheap]

theorem delete_eq (hheap : q.heap a = some t) :
    q.delete a =
      (q.setHeap a none).record (.deleted ⟨a, t.sequence_⟩) := by
  simp only [delete, hheap]

theorem Inv.insert (h : Inv q batch) (hheap : q.heap a = some t)
    (hb : ∀ e ∈ batch, e.second ≠ a) (hf : a ∉ q.fresh) : Inv (q.insert a).1 batch := by
  rw [insert_eq hheap]
  have hkeep : ∀ b, b ≠ a → q.Idle b → Idle { q with
      timers_ := q.timers_.insert ⟨t.expiration_, a⟩
      activeTimers_ := Insert.insert ⟨a, t.sequence_⟩ q.activeTimers_ } b := by
    intro b hne ⟨t', hheap', hnot⟩
    refine ⟨t', hheap', ?_⟩
    rw [Finset.mem_insert, not_or]
    exact ⟨fun heq => hne (congrArg TimerId.timer_ heq), hnot⟩
  -- each set gains exactly the new timer; the idle ones have other addresses
  refine ⟨?_, ?_, ?_, h.batch_nodup, h.batch_fresh, ?_, h.range, h.no_fault⟩
  · intro e he
    rcases OrderedSet.mem_insert.mp he with rfl | he
    · exact ⟨t, hheap, rfl, Finset.mem_insert_self _ _⟩
    · obtain ⟨t', hheap', hexp, hact⟩ := h.entry e he
      exact ⟨t', hheap', hexp, Finset.mem_insert_of_mem hact⟩
  · intro id hid
    rcases Finset.mem_insert.mp hid with rfl | hid
    · exact ⟨t, hheap, rfl, OrderedSet.mem_insert.mpr (Or.inl rfl)⟩
    · obtain ⟨t', hheap', hseq, hmem⟩ := h.active id hid
      exact ⟨t', hheap', hseq, OrderedSet.mem_insert.mpr (Or.inr hmem)⟩
  · intro e he
    exact hkeep _ (hb e he) (h.batch_idle e he)
  · intro b hb
    exact hkeep b (fun hba => hf (hba ▸ hb)) (h.fresh_idle b hb)

theorem timerSet_insert (hheap : q.heap a = some t) :
    (q.insert a).1.timerSet = Insert.insert (⟨a, t.sequence_⟩, t) q.timerSet := by
  rw [insert_eq hheap]
  ext ⟨id, t'⟩
  constructor
  · intro ⟨hheap', hseq, hmem⟩
    rcases OrderedSet.mem_insert.mp hmem with heq | hmem
    · left
      -- the entry just inserted: its timer is the one the heap has at a
      obtain ⟨_, haddr⟩ := Entry.mk.inj heq
      simp only at hheap' hseq haddr
      rw [haddr, hheap] at hheap'
      obtain rfl := Option.some.inj hheap'
      obtain ⟨b, n⟩ := id
      simp only at hseq haddr
      rw [hseq, haddr]
    · exact Or.inr ⟨hheap', hseq, hmem⟩
  · intro hcases
    rcases hcases with heq | ⟨hheap', hseq, hmem⟩
    · obtain ⟨rfl, rfl⟩ := Prod.mk.inj heq
      exact ⟨hheap, rfl, OrderedSet.mem_insert.mpr (Or.inl rfl)⟩
    · exact ⟨hheap', hseq, OrderedSet.mem_insert.mpr (Or.inr hmem)⟩

theorem Inv.delete (h : Inv q batch) (hidle : q.Idle a) (hb : ∀ e ∈ batch, e.second ≠ a)
    (hf : a ∉ q.fresh) : Inv (q.delete a) batch := by
  obtain ⟨t, hheap, _⟩ := id hidle
  rw [delete_eq hheap]
  have hinv := h.of_update (v := none) (fun _ => h.active_ne hidle) (fun _ => h.entry_ne hidle)
    hb hf (by simp)
  exact hinv.record _

theorem timerSet_delete (h : Inv q batch) (hidle : q.Idle a) :
    (q.delete a).timerSet = q.timerSet := by
  obtain ⟨t, hheap, _⟩ := id hidle
  rw [delete_eq hheap]
  exact timerSet_update (fun _ => h.entry_ne hidle)

end

/-! ## cancelInLoop -/

section

variable {q : TimerQueue} {batch : List Entry} {id : TimerId} {t : Timer}

/-- Take a timer out of both sets. -/
def unlink (q : TimerQueue) (id : TimerId) (t : Timer) : TimerQueue :=
  { q with
    timers_ := q.timers_.erase ⟨t.expiration_, id.timer_⟩
    activeTimers_ := q.activeTimers_.erase id }

theorem cancelInLoop_active (hid : id ∈ q.activeTimers_) (hheap : q.heap id.timer_ = some t) :
    q.cancelInLoop id = (q.unlink id t).delete id.timer_ := by
  simp only [cancelInLoop, hid, if_true, hheap, delete, unlink]
  rfl

theorem cancelInLoop_not_active (hid : id ∉ q.activeTimers_) :
    q.cancelInLoop id =
      if q.callingExpiredTimers_ then
        { q with cancelingTimers_ := Insert.insert id q.cancelingTimers_ }
      else q := by
  simp only [cancelInLoop, hid, if_false]

theorem Inv.unlink (h : Inv q batch) (hid : id ∈ q.activeTimers_)
    (hheap : q.heap id.timer_ = some t) :
    Inv (q.unlink id t) batch ∧ (q.unlink id t).Idle id.timer_ := by
  have hself : id = ⟨id.timer_, t.sequence_⟩ := by
    obtain ⟨t', hheap', hseq, _⟩ := h.active id hid
    obtain rfl : t = t' := Option.some.inj (hheap.symm.trans hheap')
    rw [hseq]
  have hkeep : ∀ b, q.Idle b → (q.unlink id t).Idle b := by
    intro b ⟨t', hheap', hnot⟩
    exact ⟨t', hheap', fun hmem => hnot (Finset.mem_of_mem_erase hmem)⟩
  refine ⟨⟨?_, ?_, ?_, h.batch_nodup, h.batch_fresh, ?_, h.range, h.no_fault⟩, ?_⟩
  · intro e he
    obtain ⟨he, hne⟩ := OrderedSet.mem_erase.mp he
    obtain ⟨t', hheap', hexp, hact⟩ := h.entry e he
    refine ⟨t', hheap', hexp, Finset.mem_erase.mpr ⟨?_, hact⟩⟩
    -- an entry with the erased id would be the erased entry
    intro heq
    subst heq
    obtain rfl : t = t' := Option.some.inj (hheap.symm.trans hheap')
    exact hne (by rw [hexp])
  · intro id' hid'
    obtain ⟨hne, hid'⟩ := Finset.mem_erase.mp hid'
    obtain ⟨t', hheap', hseq', hmem⟩ := h.active id' hid'
    refine ⟨t', hheap', hseq', OrderedSet.mem_erase.mpr ⟨hmem, ?_⟩⟩
    -- the same address means the same timer, hence the same id
    intro heq
    obtain ⟨_, haddr⟩ := Entry.mk.inj heq
    rw [haddr] at hheap'
    obtain rfl : t = t' := Option.some.inj (hheap.symm.trans hheap')
    refine hne ?_
    rw [hself, ← haddr, hseq']
  · intro e he
    exact hkeep _ (h.batch_idle e he)
  · intro b hb
    exact hkeep b (h.fresh_idle b hb)
  · refine ⟨t, hheap, ?_⟩
    show _ ∉ q.activeTimers_.erase id
    rw [← hself]
    exact Finset.notMem_erase _ _

/-- An active timer is neither in the batch nor still to be added. -/
theorem Inv.active_elsewhere (h : Inv q batch) (hid : id ∈ q.activeTimers_) :
    (∀ e ∈ batch, e.second ≠ id.timer_) ∧ id.timer_ ∉ q.fresh := by
  constructor
  · intro e he heq
    exact h.active_ne (h.batch_idle e he) hid heq.symm
  · intro hmem
    exact h.active_ne (h.fresh_idle _ hmem) hid rfl

theorem Inv.cancelInLoop (h : Inv q batch) (id : TimerId) : Inv (q.cancelInLoop id) batch := by
  by_cases hid : id ∈ q.activeTimers_
  · obtain ⟨t, hheap, _⟩ := h.active id hid
    obtain ⟨hinv, hidle⟩ := h.unlink hid hheap
    obtain ⟨hb, hf⟩ := h.active_elsewhere hid
    rw [cancelInLoop_active hid hheap]
    exact hinv.delete hidle hb hf
  · rw [cancelInLoop_not_active hid]
    split
    · exact h.of_eq rfl rfl rfl (Finset.Subset.refl _) rfl rfl
    · exact h

theorem timerSet_cancelInLoop (h : Inv q batch) (id : TimerId) :
    (q.cancelInLoop id).timerSet = { p ∈ q.timerSet | p.1 ≠ id } := by
  by_cases hid : id ∈ q.activeTimers_
  · obtain ⟨t, hheap, _⟩ := h.active id hid
    obtain ⟨hinv, hidle⟩ := h.unlink hid hheap
    rw [cancelInLoop_active hid hheap, timerSet_delete hinv hidle]
    ext ⟨id', t'⟩
    rw [hinv.mem_timerSet, Set.mem_sep_iff, h.mem_timerSet]
    show id' ∈ q.activeTimers_.erase id ∧ _ ↔ _
    rw [Finset.mem_erase]
    tauto
  · -- not set: the id can at most be noted in cancelingTimers_
    have hsame : (q.cancelInLoop id).timerSet = q.timerSet := by
      rw [cancelInLoop_not_active hid]
      split <;> rfl
    rw [hsame]
    ext ⟨id', t'⟩
    rw [Set.mem_sep_iff, h.mem_timerSet]
    constructor
    · intro ⟨hact, hheap⟩
      exact ⟨⟨hact, hheap⟩, fun heq => hid (heq ▸ hact)⟩
    · exact And.left

end

/-! ## Calls

    The flag `callingExpiredTimers_` changes at the ends of a pass only. -/

section

variable {q q' : TimerQueue} {batch : List Entry} {a : Addr} {t : Timer}

theorem addTimerInLoop_eq (hheap : q.heap a = some t) (now : Int) :
    q.addTimerInLoop a now =
      if (q.insert a).2 then (q.insert a).1.resetTimerfd t.expiration_ now
      else (q.insert a).1 := by
  have hsame : (q.insert a).1.heap a = some t := by
    rw [insert_eq hheap]
    exact hheap
  simp only [addTimerInLoop, hsame]

theorem Inv.addTimerInLoop (h : Inv q batch) (hheap : q.heap a = some t)
    (hb : ∀ e ∈ batch, e.second ≠ a) (hf : a ∉ q.fresh) (now : Int) :
    Inv (q.addTimerInLoop a now) batch := by
  have hinv := h.insert hheap hb hf
  rw [addTimerInLoop_eq hheap]
  split
  · exact hinv.of_eq rfl rfl rfl (Finset.Subset.refl _) rfl rfl
  · exact hinv

/-- What a call of `addTimerInLoop(timer)` changes in the two sets, the heap and
    the log. -/
structure Added (q q' : TimerQueue) (a : Addr) (t : Timer) : Prop where
  log : q'.log = q.log ++ [.added ⟨a, t.sequence_⟩ t]
  heap : q'.heap = q.heap
  active : q'.activeTimers_ = Insert.insert ⟨a, t.sequence_⟩ q.activeTimers_
  canceling : q'.cancelingTimers_ = q.cancelingTimers_
  numCreated : q'.numCreated = q.numCreated
  fresh : q'.fresh = q.fresh.erase a

theorem startAdd_added (hheap : q.heap a = some t) (now : Int) :
    Added q ((q.startAdd a t now).addTimerInLoop a now) a t := by
  rw [addTimerInLoop_eq (q := q.startAdd a t now) hheap,
    insert_eq (q := q.startAdd a t now) hheap]
  split <;> exact ⟨rfl, rfl, rfl, rfl, rfl, rfl⟩

theorem timerSet_addTimerInLoop (hheap : q.heap a = some t) (now : Int) :
    (q.addTimerInLoop a now).timerSet = Insert.insert (⟨a, t.sequence_⟩, t) q.timerSet := by
  rw [← timerSet_insert hheap, addTimerInLoop_eq hheap]
  split <;> rfl

/-- What a call can do, with the guards under which it happens. -/
theorem call_cases {c : Call} (h : q.call c = some q') :
    (∃ a when interval, c = .newTimer a when interval ∧ q.heap a = none ∧ 0 < a ∧
      a < UINTPTR_MAX ∧
      q' = { q.setHeap a (some (Timer.ctor when interval q.numCreated)) with
        numCreated := q.numCreated + 1
        fresh := Insert.insert a q.fresh }) ∨
    (∃ a now t, c = .addTimerInLoop a now ∧ q.heap a = some t ∧ a ∈ q.fresh ∧ q.clock ≤ now ∧
      0 < now ∧
      q' = (q.startAdd a t now).addTimerInLoop a now) ∨
    (∃ id, c = .cancelInLoop id ∧ q' = (q.record (.cancelled id)).cancelInLoop id) := by
  cases c with
  | newTimer a when interval =>
    simp only [call, Option.ite_none_right_eq_some, Option.some.injEq] at h
    obtain ⟨⟨hnone, hpos, hmax⟩, rfl⟩ := h
    exact Or.inl ⟨a, when, interval, rfl, hnone, hpos, hmax, rfl⟩
  | addTimerInLoop a now =>
    simp only [call] at h
    split at h
    · rename_i t hheap
      simp only [Option.ite_none_right_eq_some, Option.some.injEq] at h
      obtain ⟨⟨hfresh, hclock, hpos⟩, rfl⟩ := h
      exact Or.inr (Or.inl ⟨a, now, t, rfl, hheap, hfresh, hclock, hpos, rfl⟩)
    · cases h
  | cancelInLoop id =>
    exact Or.inr (Or.inr ⟨id, rfl, (Option.some.inj h).symm⟩)

/-- No timer in use has an address that is free. -/
theorem Inv.ne_of_free (h : Inv q batch) (hnone : q.heap a = none) :
    (∀ id ∈ q.activeTimers_, id.timer_ ≠ a) ∧ (∀ e ∈ q.timers_, e.second ≠ a) ∧
      (∀ e ∈ batch, e.second ≠ a) ∧ a ∉ q.fresh := by
  refine ⟨?_, ?_, ?_, ?_⟩
  · intro id hid heq
    subst heq
    obtain ⟨t, hheap, _⟩ := h.active id hid
    rw [hnone] at hheap
    cases hheap
  · intro e he heq
    subst heq
    obtain ⟨t, hheap, _⟩ := h.entry e he
    rw [hnone] at hheap
    cases hheap
  · intro e he heq
    subst heq
    obtain ⟨t, hheap, _⟩ := h.batch_idle e he
    rw [hnone] at hheap
    cases hheap
  · intro hmem
    obtain ⟨t, hheap, _⟩ := h.fresh_idle a hmem
    rw [hnone] at hheap
    cases hheap

theorem Inv.newTimer (h : Inv q batch) (hnone : q.heap a = none) (hpos : 0 < a)
    (hmax : a < UINTPTR_MAX) (when : Int) (interval : Seconds) :
    Inv { q.setHeap a (some (Timer.ctor when interval q.numCreated)) with
      numCreated := q.numCreated + 1
      fresh := Insert.insert a q.fresh } batch := by
  obtain ⟨hactive, hentry, hb, hf⟩ := h.ne_of_free hnone
  -- raise the bound on the sequence numbers first, then store the timer
  have hmore : Inv { q with numCreated := q.numCreated + 1 } batch :=
    ⟨h.entry, h.active, h.batch_idle, h.batch_nodup, h.batch_fresh, h.fresh_idle,
      fun b t hheap => by
        obtain ⟨h1, h2, h3⟩ := h.range b t hheap
        exact ⟨h1, h2, Nat.le_succ_of_le h3⟩,
      h.no_fault⟩
  have hset := hmore.of_update (a := a) (v := some (Timer.ctor when interval q.numCreated))
    hactive hentry hb hf (by
      intro t ht
      obtain rfl := Option.some.inj ht
      exact ⟨hpos, hmax, Nat.le_refl _⟩)
  refine ⟨hset.entry, hset.active, hset.batch_idle, hset.batch_nodup, ?_, ?_, hset.range,
    hset.no_fault⟩
  · intro e he hmem
    rcases Finset.mem_insert.mp hmem with heq | hmem
    · exact hb e he heq
    · exact h.batch_fresh e he hmem
  · intro b hmem
    rcases Finset.mem_insert.mp hmem with rfl | hmem
    · -- the new timer: nothing active has its address, which was free
      refine ⟨_, setHeap_self q b _, ?_⟩
      intro hact
      exact hactive _ hact rfl
    · exact hset.fresh_idle b hmem

/-- Before `addTimerInLoop` runs, the timer is not in use elsewhere. -/
theorem Inv.fresh_elsewhere (h : Inv q batch) (hf : a ∈ q.fresh) :
    ∀ e ∈ batch, e.second ≠ a := by
  intro e he heq
  subst heq
  exact h.batch_fresh e he hf

theorem addTimerInLoop_calling (hheap : q.heap a = some t) (now : Int) :
    (q.addTimerInLoop a now).callingExpiredTimers_ = q.callingExpiredTimers_ := by
  rw [addTimerInLoop_eq hheap, insert_eq hheap]
  split <;> rfl

theorem delete_calling (q : TimerQueue) (a : Addr) :
    (q.delete a).callingExpiredTimers_ = q.callingExpiredTimers_ := by
  unfold TimerQueue.delete
  split <;> rfl

theorem cancelInLoop_calling (q : TimerQueue) (id : TimerId) :
    (q.cancelInLoop id).callingExpiredTimers_ = q.callingExpiredTimers_ := by
  unfold TimerQueue.cancelInLoop
  split
  · split
    · exact delete_calling _ _
    · rfl
  · split <;> rfl

theorem call_calling {c : Call} (hcall : q.call c = some q') :
    q'.callingExpiredTimers_ = q.callingExpiredTimers_ := by
  rcases call_cases hcall with ⟨a, when, interval, rfl, _, _, _, rfl⟩ |
    ⟨a, now, t, rfl, hheap, _, _, _, rfl⟩ | ⟨id, rfl, rfl⟩
  · rfl
  · exact addTimerInLoop_calling (q := q.startAdd a t now) hheap now
  · rw [cancelInLoop_calling]
    rfl

theorem Inv.call (h : Inv q batch) {c : Call} (hcall : q.call c = some q') : Inv q' batch := by
  rcases call_cases hcall with ⟨a, when, interval, rfl, hnone, hpos, hmax, rfl⟩ |
    ⟨a, now, t, rfl, hheap, hfresh, _, _, rfl⟩ | ⟨id, rfl, rfl⟩
  · exact h.newTimer hnone hpos hmax when interval
  · have hrec : Inv (q.startAdd a t now) batch :=
      h.of_eq rfl rfl rfl (Finset.erase_subset _ _) rfl rfl
    exact hrec.addTimerInLoop hheap (h.fresh_elsewhere hfresh) (Finset.notMem_erase _ _) now
  · exact (h.record _).cancelInLoop id

end

/-! ## getExpired -/

section

variable {q : TimerQueue} {batch : List Entry} {now : Int}

/-- The sentry takes in the entries with expiration `now`. -/
theorem Inv.lt_sentry (h : Inv q batch) {e : Entry} (he : e ∈ q.timers_) :
    e < ⟨now, UINTPTR_MAX⟩ ↔ e.first ≤ now := by
  obtain ⟨t, hheap, _⟩ := h.entry e he
  obtain ⟨_, hmax, _⟩ := h.range _ t hheap
  rw [Entry.lt_iff]
  constructor
  · intro hcases
    rcases hcases with hlt | ⟨heq, _⟩
    · exact le_of_lt hlt
    · exact le_of_eq heq
  · intro hle
    rcases lt_or_eq_of_le hle with hlt | heq
    · exact Or.inl hlt
    · exact Or.inr ⟨heq, hmax⟩

theorem Inv.mem_expiredAt (h : Inv q batch) {e : Entry} :
    e ∈ q.expiredAt now ↔ e ∈ q.timers_ ∧ e.first ≤ now := by
  unfold expiredAt
  rw [OrderedSet.mem_below]
  exact and_congr_right fun he => h.lt_sentry he

theorem Inv.mem_eraseBelow (h : Inv q batch) {e : Entry} :
    e ∈ q.timers_.eraseBelow ⟨now, UINTPTR_MAX⟩ ↔ e ∈ q.timers_ ∧ now < e.first := by
  rw [OrderedSet.mem_eraseBelow]
  refine and_congr_right fun he => ?_
  rw [← not_lt, h.lt_sentry he, not_le]

/-- Two entries of one timer are the same entry. -/
theorem Inv.entry_unique (h : Inv q batch) {e f : Entry} (he : e ∈ q.timers_)
    (hf : f ∈ q.timers_) (heq : e.second = f.second) : e = f := by
  obtain ⟨t, hheap, hexp, _⟩ := h.entry e he
  obtain ⟨t', hheap', hexp', _⟩ := h.entry f hf
  rw [heq] at hheap
  obtain rfl : t = t' := Option.some.inj (hheap.symm.trans hheap')
  obtain ⟨a, b⟩ := e
  obtain ⟨c, d⟩ := f
  simp only at heq hexp hexp'
  rw [← hexp, ← hexp', heq]

theorem foldl_eraseActive {q : TimerQueue} {l : List Entry}
    (hlive : ∀ e ∈ l, ∃ t, q.heap e.second = some t) :
    ∃ A : Finset TimerId, l.foldl eraseActive q = { q with activeTimers_ := A } ∧
      ∀ id, id ∈ A ↔ id ∈ q.activeTimers_ ∧
        ∀ e ∈ l, ∀ t, q.heap e.second = some t → id ≠ ⟨e.second, t.sequence_⟩ := by
  induction l generalizing q with
  | nil => exact ⟨q.activeTimers_, rfl, by simp⟩
  -- the heap does not change along the loop, so the ids can be read off at the start
  | cons e l ih =>
    obtain ⟨t, hheap⟩ := hlive e List.mem_cons_self
    have hstep : q.eraseActive e =
        { q with activeTimers_ := q.activeTimers_.erase ⟨e.second, t.sequence_⟩ } := by
      simp only [eraseActive, hheap]
    rw [List.foldl_cons, hstep]
    obtain ⟨A, hA, hmem⟩ := ih
      (q := { q with activeTimers_ := q.activeTimers_.erase ⟨e.second, t.sequence_⟩ })
      (fun f hf => hlive f (List.mem_cons_of_mem e hf))
    refine ⟨A, hA, ?_⟩
    intro id
    rw [hmem]
    simp only [Finset.mem_erase, List.forall_mem_cons]
    constructor
    · intro ⟨⟨hne, hid⟩, hall⟩
      refine ⟨hid, ?_, hall⟩
      intro t' hheap'
      obtain rfl : t = t' := Option.some.inj (hheap.symm.trans hheap')
      exact hne
    · intro ⟨hid, hne, hall⟩
      exact ⟨⟨hne t hheap, hid⟩, hall⟩

/-- `getExpired` only takes the expired timers out of the two sets. -/
theorem Inv.getExpired_eq (h : Inv q batch) (now : Int) :
    ∃ A : Finset TimerId, (q.getExpired now).1 =
        { q with timers_ := q.timers_.eraseBelow ⟨now, UINTPTR_MAX⟩, activeTimers_ := A } ∧
      ∀ id, id ∈ A ↔ id ∈ q.activeTimers_ ∧ ∀ e ∈ q.expiredAt now, ∀ t,
        q.heap e.second = some t → id ≠ ⟨e.second, t.sequence_⟩ := by
  refine foldl_eraseActive
    (q := { q with timers_ := q.timers_.eraseBelow ⟨now, UINTPTR_MAX⟩ }) ?_
  intro e he
  obtain ⟨t, hheap, _⟩ := h.entry e (h.mem_expiredAt.mp he).1
  exact ⟨t, hheap⟩

theorem Inv.getExpired (h : Inv q []) (now : Int) :
    Inv (q.getExpired now).1 (q.expiredAt now) := by
  obtain ⟨A, hq, hA⟩ := h.getExpired_eq now
  rw [hq]
  have hsub : ∀ id ∈ A, id ∈ q.activeTimers_ := fun id hid => ((hA id).mp hid).1
  refine ⟨?_, ?_, ?_, ?_, ?_, ?_, h.range, h.no_fault⟩
  · intro e he
    obtain ⟨he, hlate⟩ := h.mem_eraseBelow.mp he
    obtain ⟨t, hheap, hexp, hact⟩ := h.entry e he
    refine ⟨t, hheap, hexp, (hA _).mpr ⟨hact, ?_⟩⟩
    -- a kept entry and an expired one of the same timer would be one entry
    intro f hf t' _ heq
    obtain ⟨hf, hearly⟩ := h.mem_expiredAt.mp hf
    obtain rfl := h.entry_unique he hf (TimerId.mk.inj heq).1
    omega
  · intro id hid
    obtain ⟨hact, hkept⟩ := (hA id).mp hid
    obtain ⟨t, hheap, hseq, hmem⟩ := h.active id hact
    refine ⟨t, hheap, hseq, h.mem_eraseBelow.mpr ⟨hmem, ?_⟩⟩
    -- an active timer that has expired would have been erased
    by_contra hearly
    refine hkept _ (h.mem_expiredAt.mpr ⟨hmem, not_lt.mp hearly⟩) t hheap ?_
    rw [hseq]
  · intro e he
    obtain ⟨t, hheap, _⟩ := h.entry e (h.mem_expiredAt.mp he).1
    exact ⟨t, hheap, fun hmem => ((hA _).mp hmem).2 e he t hheap rfl⟩
  · -- distinct entries of timers_ have distinct addresses
    have hnodup : (q.expiredAt now).Nodup :=
      (q.timers_.below_sorted _).imp fun hlt => ne_of_lt hlt
    refine hnodup.map_on ?_
    intro e he f hf heq
    exact h.entry_unique (h.mem_expiredAt.mp he).1 (h.mem_expiredAt.mp hf).1 heq
  · intro e he hfresh
    exact h.entry_ne (h.fresh_idle _ hfresh) (h.mem_expiredAt.mp he).1 rfl
  · intro a ha
    obtain ⟨t, hheap, hnot⟩ := h.fresh_idle a ha
    exact ⟨t, hheap, fun hmem => hnot (hsub _ hmem)⟩

theorem timerSet_getExpired (h : Inv q []) (now : Int) :
    (q.getExpired now).1.timerSet = { p ∈ q.timerSet | now < p.2.expiration_ } := by
  obtain ⟨A, hq, _⟩ := h.getExpired_eq now
  rw [hq]
  ext ⟨id, t⟩
  show q.heap id.timer_ = some t ∧ t.sequence_ = id.sequence_ ∧ _ ∈ q.timers_.eraseBelow _ ↔
    (q.heap id.timer_ = some t ∧ t.sequence_ = id.sequence_ ∧ _ ∈ q.timers_) ∧ _
  rw [h.mem_eraseBelow]
  tauto

end

/-! ## reset -/

section

variable {q : TimerQueue} {batch : List Entry} {e : Entry} {t : Timer} {now : Int}

/-- One round of `reset`: the timer is put back or deleted. -/
theorem resetOne_restart (hheap : q.heap e.second = some t) (hrep : t.repeat_ = true)
    (hcancel : ⟨e.second, t.sequence_⟩ ∉ q.cancelingTimers_) :
    resetOne now q e = (((q.setHeap e.second (some (t.restart now))).record
      (.restarted ⟨e.second, t.sequence_⟩)).insert e.second).1 := by
  simp only [resetOne, hheap]
  exact if_pos ⟨hrep, hcancel⟩

theorem resetOne_delete (hheap : q.heap e.second = some t)
    (hnot : ¬ (t.repeat_ = true ∧ ⟨e.second, t.sequence_⟩ ∉ q.cancelingTimers_)) :
    resetOne now q e = q.delete e.second := by
  simp only [resetOne, hheap]
  exact if_neg hnot

/-- The first timer of the batch is idle and not in use elsewhere. -/
theorem Inv.head_elsewhere (h : Inv q (e :: batch)) :
    q.Idle e.second ∧ (∀ f ∈ batch, f.second ≠ e.second) ∧ e.second ∉ q.fresh := by
  refine ⟨h.batch_idle e List.mem_cons_self, ?_, h.batch_fresh e List.mem_cons_self⟩
  intro f hf heq
  have hnodup := h.batch_nodup
  rw [List.map_cons, List.nodup_cons] at hnodup
  exact hnodup.1 (heq ▸ List.mem_map_of_mem hf)

theorem Inv.restart (h : Inv q (e :: batch)) (hheap : q.heap e.second = some t) :
    Inv ((q.setHeap e.second (some (t.restart now))).record
      (.restarted ⟨e.second, t.sequence_⟩)) batch := by
  obtain ⟨hidle, hb, hf⟩ := h.head_elsewhere
  have hrange := h.range _ t hheap
  have hset := (h.of_batch (List.sublist_cons_self e batch)).of_update
    (v := some (t.restart now)) (fun _ => h.active_ne hidle) (fun _ => h.entry_ne hidle) hb hf (by
      intro t' ht
      obtain rfl := Option.some.inj ht
      rw [Timer.restart_sequence_]
      exact hrange)
  exact hset.record _

theorem Inv.resetOne (h : Inv q (e :: batch)) (now : Int) :
    Inv (resetOne now q e) batch := by
  obtain ⟨hidle, hb, hf⟩ := h.head_elsewhere
  obtain ⟨t, hheap, _⟩ := id hidle
  by_cases hcond : t.repeat_ = true ∧ ⟨e.second, t.sequence_⟩ ∉ q.cancelingTimers_
  · -- put back: it leaves the batch and enters both sets
    rw [resetOne_restart hheap hcond.1 hcond.2]
    exact (h.restart hheap).insert (setHeap_self _ _ _) hb hf
  · -- deleted: it leaves the batch and the heap
    rw [resetOne_delete hheap hcond]
    exact (h.of_batch (List.sublist_cons_self e batch)).delete hidle hb hf

theorem Inv.resetOne_calling (h : Inv q (e :: batch)) (now : Int) :
    (TimerQueue.resetOne now q e).callingExpiredTimers_ = q.callingExpiredTimers_ := by
  obtain ⟨t, hheap, _⟩ := h.batch_idle e List.mem_cons_self
  by_cases hcond : t.repeat_ = true ∧ ⟨e.second, t.sequence_⟩ ∉ q.cancelingTimers_
  · rw [resetOne_restart hheap hcond.1 hcond.2, insert_eq (t := t.restart now) (by simp)]
    rfl
  · rw [resetOne_delete hheap hcond, delete_calling]

theorem Inv.foldl_resetOne_calling (h : Inv q batch) (now : Int) :
    (batch.foldl (TimerQueue.resetOne now) q).callingExpiredTimers_ =
      q.callingExpiredTimers_ := by
  induction batch generalizing q with
  | nil => rfl
  | cons e batch ih => exact (ih (h.resetOne now)).trans (h.resetOne_calling now)

/-- The batch is empty after the loop of `reset`. -/
theorem Inv.foldl_resetOne (h : Inv q batch) (now : Int) :
    Inv (batch.foldl (TimerQueue.resetOne now) q) [] := by
  induction batch generalizing q with
  | nil => exact h
  | cons e batch ih => exact ih (h.resetOne now)

/-- `rearm` for a queue whose earliest timer is known. -/
theorem Inv.rearm_eq (h : Inv q batch) (tarm : Int) :
    q.rearm tarm =
      match q.timers_.first with
      | some it => if Timestamp.valid it.first then q.resetTimerfd it.first tarm else q
      | none => q := by
  unfold rearm
  cases hfirst : q.timers_.first with
  | none => rfl
  | some it =>
    -- the timer of the first entry is alive and expires when the entry says
    obtain ⟨t, hheap, hexp, _⟩ := h.entry it (OrderedSet.first_mem hfirst)
    simp only [hheap, hexp]

/-- `rearm` touches the timerfd and the clock only. -/
theorem Inv.rearm_frame (h : Inv q batch) (tarm : Int) :
    ∃ timerfd lastArm settimes clock, q.rearm tarm =
      { q with timerfd := timerfd, lastArm := lastArm, settimes := settimes, clock := clock } := by
  rw [h.rearm_eq]
  split
  · split
    · exact ⟨_, _, _, _, rfl⟩
    · exact ⟨_, _, _, _, rfl⟩
  · exact ⟨_, _, _, _, rfl⟩

theorem Inv.rearm (h : Inv q batch) (tarm : Int) : Inv (q.rearm tarm) batch := by
  obtain ⟨_, _, _, _, heq⟩ := h.rearm_frame tarm
  rw [heq]
  exact h.of_eq rfl rfl rfl (Finset.Subset.refl _) rfl rfl

/-- The queue when `handleRead` leaves its loop and calls `reset`. -/
def afterLoop (q : TimerQueue) (tarm : Int) : TimerQueue :=
  { q with callingExpiredTimers_ := false, clock := tarm }

theorem endRead_eq (q : TimerQueue) (batch : List Entry) (now tarm : Int) :
    q.endRead batch now tarm =
      (batch.foldl (TimerQueue.resetOne now) (q.afterLoop tarm)).rearm tarm :=
  rfl

theorem Inv.afterLoop (h : Inv q batch) (tarm : Int) : Inv (q.afterLoop tarm) batch :=
  h.of_eq rfl rfl rfl (Finset.Subset.refl _) rfl rfl

theorem Inv.endRead_calling (h : Inv q batch) (now tarm : Int) :
    (q.endRead batch now tarm).callingExpiredTimers_ = false := by
  have hloop := h.afterLoop tarm
  obtain ⟨_, _, _, _, heq⟩ := (hloop.foldl_resetOne now).rearm_frame tarm
  rw [endRead_eq, heq]
  exact hloop.foldl_resetOne_calling now

theorem Inv.endRead (h : Inv q batch) (now tarm : Int) :
    Inv (q.endRead batch now tarm) [] := by
  rw [endRead_eq]
  exact ((h.afterLoop tarm).foldl_resetOne now).rearm tarm

end

/-! ## handleRead up to its loop -/

section

variable {q : TimerQueue} {batch : List Entry}

theorem readTimerfd_frame (q : TimerQueue) (tread : Int) :
    ∃ timerfd, q.readTimerfd tread = { q with timerfd := timerfd } := by
  unfold readTimerfd
  split
  · split
    · exact ⟨none, rfl⟩
    · exact ⟨_, rfl⟩
  · exact ⟨_, rfl⟩

/-- The queue after `readTimerfd`. -/
theorem Inv.read (h : Inv q batch) (tread : Int) :
    Inv ({ q with clock := tread }.readTimerfd tread) batch := by
  obtain ⟨timerfd, hread⟩ := readTimerfd_frame { q with clock := tread } tread
  rw [hread]
  exact h.of_eq rfl rfl rfl (Finset.Subset.refl _) rfl rfl

/-- What the part of `handleRead` before its loop leaves alone. -/
structure Began (q q' : TimerQueue) : Prop where
  log : q'.log = q.log
  heap : q'.heap = q.heap
  active : ∀ id ∈ q'.activeTimers_, id ∈ q.activeTimers_
  numCreated : q'.numCreated = q.numCreated
  fresh : q'.fresh = q.fresh
  settimes : q'.settimes = q.settimes

theorem Inv.began (h : Inv q []) (now tread : Int) : Began q (q.beginRead now tread).1 := by
  obtain ⟨A, hq, hA⟩ := (h.read tread).getExpired_eq now
  obtain ⟨timerfd, hread⟩ := readTimerfd_frame { q with clock := tread } tread
  simp only [TimerQueue.beginRead, hq]
  rw [hread] at hA ⊢
  exact ⟨rfl, rfl, fun id hid => ((hA id).mp hid).1, rfl, rfl, rfl⟩

theorem Inv.beginRead (h : Inv q []) (now tread : Int) :
    Inv (q.beginRead now tread).1 (q.expiredAt now) := by
  have hexp := beginRead_expired q now tread
  have hinv := (h.read tread).getExpired now
  rw [← hexp]
  -- setting the flag and clearing cancelingTimers_ does not matter to Inv
  exact hinv.of_eq rfl rfl rfl (Finset.Subset.refl _) rfl rfl

theorem run_eq {e : Entry} {t : Timer} (hheap : q.heap e.second = some t) :
    q.run e = q.record (.started ⟨e.second, t.sequence_⟩) := by
  simp only [TimerQueue.run, hheap]

theorem Inv.run (h : Inv q batch) (e : Entry) (he : e ∈ batch) : Inv (q.run e) batch := by
  obtain ⟨t, hheap, _⟩ := h.batch_idle e he
  rw [run_eq hheap]
  exact h.record _

end

end TimerQueue

/-! ## Reachable states -/

namespace TimerState

open TimerQueue

/-- The batch of the running pass. -/
def batch (s : TimerState) : List Entry :=
  match s.pass with
  | some pass => pass.expired
  | none => []

/-- The entries whose callbacks are still to be run. -/
def todo (s : TimerState) : List Entry :=
  match s.pass with
  | some pass => pass.todo
  | none => []

structure Good (s : TimerState) : Prop where
  inv : Inv s.queue s.batch
  todo_suffix : s.todo <:+ s.batch
  calling : s.queue.callingExpiredTimers_ = s.pass.isSome

/-- What a step can do. -/
theorem next_cases {s s' : TimerState} {l : Label} (h : next s l = some s') :
    (∃ c q, l = .call c ∧ s.queue.call c = some q ∧ s' = { s with queue := q }) ∨
    (∃ now tread, l = .beginRead now tread ∧ s.pass = none ∧ s.queue.clock ≤ now ∧ 0 < now ∧
      now ≤ tread ∧
      s' = { queue := (s.queue.beginRead now tread).1
             pass := some { now := now, expired := s.queue.expiredAt now,
                            todo := s.queue.expiredAt now } }) ∨
    (∃ now expired it todo, l = .runNext ∧
      s.pass = some { now := now, expired := expired, todo := it :: todo } ∧
      s' = { queue := s.queue.run it,
             pass := some { now := now, expired := expired, todo := todo } }) ∨
    (∃ now expired tarm, l = .endRead tarm ∧
      s.pass = some { now := now, expired := expired, todo := [] } ∧ s.queue.clock ≤ tarm ∧
      s' = { queue := s.queue.endRead expired now tarm, pass := none }) := by
  cases l with
  | call c =>
    simp only [next, Option.map_eq_some_iff] at h
    obtain ⟨q, hcall, rfl⟩ := h
    exact Or.inl ⟨c, q, rfl, hcall, rfl⟩
  | beginRead now tread =>
    simp only [next] at h
    split at h
    · rename_i hpass
      simp only [Option.ite_none_right_eq_some, Option.some.injEq] at h
      obtain ⟨⟨h1, h2, h3⟩, rfl⟩ := h
      rw [beginRead_expired]
      exact Or.inr (Or.inl ⟨now, tread, rfl, hpass, h1, h2, h3, rfl⟩)
    · cases h
  | runNext =>
    simp only [next] at h
    split at h
    · rename_i now expired it todo hpass
      obtain rfl := Option.some.inj h
      exact Or.inr (Or.inr (Or.inl ⟨now, expired, it, todo, rfl, hpass, rfl⟩))
    · cases h
  | endRead tarm =>
    simp only [next] at h
    split at h
    · rename_i now expired hpass
      simp only [Option.ite_none_right_eq_some, Option.some.injEq] at h
      obtain ⟨hclock, rfl⟩ := h
      exact Or.inr (Or.inr (Or.inr ⟨now, expired, tarm, rfl, hpass, hclock, rfl⟩))
    · cases h

/-- What a step can do in a good state: the same cases, with the invariant for the
    batch at hand. -/
theorem Good.step_cases {s s' : TimerState} {l : Label} (hgood : Good s)
    (h : next s l = some s') :
    (∃ c q, l = .call c ∧ s.queue.call c = some q ∧ s' = { s with queue := q }) ∨
    (∃ now tread, l = .beginRead now tread ∧ s.pass = none ∧ 0 < now ∧ Inv s.queue [] ∧
      s' = { queue := (s.queue.beginRead now tread).1
             pass := some { now := now, expired := s.queue.expiredAt now,
                            todo := s.queue.expiredAt now } }) ∨
    (∃ now expired it todo t, l = .runNext ∧
      s.pass = some { now := now, expired := expired, todo := it :: todo } ∧
      Inv s.queue expired ∧ it :: todo <:+ expired ∧ s.queue.heap it.second = some t ∧
      s' = { queue := s.queue.record (.started ⟨it.second, t.sequence_⟩),
             pass := some { now := now, expired := expired, todo := todo } }) ∨
    (∃ now expired tarm, l = .endRead tarm ∧
      s.pass = some { now := now, expired := expired, todo := [] } ∧ Inv s.queue expired ∧
      s' = { queue := s.queue.endRead expired now tarm, pass := none }) := by
  obtain ⟨hinv, hsuffix, _⟩ := hgood
  rcases next_cases h with ⟨c, q, rfl, hcall, rfl⟩ |
    ⟨now, tread, rfl, hpass, _, hpos, _, rfl⟩ | ⟨now, expired, it, todo, rfl, hpass, rfl⟩ |
    ⟨now, expired, tarm, rfl, hpass, _, rfl⟩
  · exact Or.inl ⟨c, q, rfl, hcall, rfl⟩
  · simp only [batch, hpass] at hinv
    exact Or.inr (Or.inl ⟨now, tread, rfl, hpass, hpos, hinv, rfl⟩)
  · simp only [batch, TimerState.todo, hpass] at hinv hsuffix
    -- the timer whose turn it is belongs to the batch, so it is alive
    obtain ⟨t, hheap, _⟩ := hinv.batch_idle it (hsuffix.subset List.mem_cons_self)
    rw [run_eq hheap]
    exact Or.inr (Or.inr (Or.inl ⟨now, expired, it, todo, t, rfl, hpass, hinv, hsuffix, hheap,
      rfl⟩))
  · simp only [batch, hpass] at hinv
    exact Or.inr (Or.inr (Or.inr ⟨now, expired, tarm, rfl, hpass, hinv, rfl⟩))

theorem good_init : Good {} := by
  refine ⟨⟨?_, ?_, ?_, ?_, ?_, ?_, ?_, rfl⟩, List.suffix_refl _, rfl⟩
  · intro e he
    exact absurd he (OrderedSet.not_mem_empty e)
  · intro id hid
    exact absurd hid (Finset.notMem_empty id)
  · intro e he
    cases he
  · exact List.nodup_nil
  · intro e he
    cases he
  · intro a ha
    exact absurd ha (Finset.notMem_empty a)
  · intro a t hheap
    cases hheap

theorem good_step {s s' : TimerState} {l : Label} (h : Good s) (hstep : next s l = some s') :
    Good s' := by
  rcases h.step_cases hstep with ⟨c, q, rfl, hcall, rfl⟩ |
    ⟨now, tread, rfl, _, _, hinv, rfl⟩ |
    ⟨now, expired, it, todo, t, rfl, hpass, hinv, hsuffix, hheap, rfl⟩ |
    ⟨now, expired, tarm, rfl, _, hinv, rfl⟩
  · exact ⟨h.inv.call hcall, h.todo_suffix, (call_calling hcall).trans h.calling⟩
  · -- the whole batch is still to be run
    exact ⟨hinv.beginRead now tread, List.suffix_refl _, rfl⟩
  · have hrun := hinv.run it (hsuffix.subset List.mem_cons_self)
    rw [run_eq hheap] at hrun
    refine ⟨hrun, (List.suffix_cons it todo).trans hsuffix, ?_⟩
    have hcalling := h.calling
    rw [hpass] at hcalling
    exact hcalling
  · -- reset consumes the batch
    exact ⟨hinv.endRead now tarm, List.suffix_refl _, hinv.endRead_calling now tarm⟩

theorem good_reachable {s : TimerState} (h : machine.Reachable s) : Good s :=
  h.invariant machine (fun _ hinit => hinit ▸ good_init) (fun _ _ _ hs hstep => good_step hs hstep)

/-- No step of the loop thread goes through a dangling `Timer*`. -/
theorem no_dangling_timer {s : TimerState} (h : machine.Reachable s) : s.queue.fault = false :=
  (good_reachable h).inv.no_fault

end TimerState
