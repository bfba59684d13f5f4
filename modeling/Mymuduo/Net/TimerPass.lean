import Mymuduo.Net.TimerCancel

/-! # handleRead against a reference timer set

    A call of `handleRead` seen from outside: which callbacks it starts, and
    which timers are set afterwards, given what the callbacks added and
    cancelled.  The reference (`Pass`) is stated over the events of the call and
    the timers set before it; it knows neither the two sets of the queue nor
    `cancelingTimers_`.

    The proof follows the three parts of the function: `getExpired`, the loop of
    callbacks (`Loop`, with one lemma per call), and the loop of `reset`.
-/

namespace TimerQueue

/-! ## The reference -/

/-- The timer was added, and not cancelled after that. -/
def AddedKept (evs : List TimerEvent) (id : TimerId) (t : Timer) : Prop :=
  ∃ pre post, evs = pre ++ .added id t :: post ∧ .cancelled id ∉ post

/-- The timers that are set after `evs`, when `base` were set before. -/
def setAfter (base : Set (TimerId × Timer)) (evs : List TimerEvent) : Set (TimerId × Timer) :=
  { p | (p ∈ base ∧ .cancelled p.1 ∉ evs) ∨ AddedKept evs p.1 p.2 }

/-- The expired repeating timers that are put back: those that no callback of the
    pass cancelled, with expiration `now` plus their interval. -/
def putBack (base : Set (TimerId × Timer)) (now : Int) (evs : List TimerEvent) :
    Set (TimerId × Timer) :=
  { p | ∃ t, (p.1, t) ∈ base ∧ t.expiration_ ≤ now ∧ t.repeat_ = true ∧ .cancelled p.1 ∉ evs ∧
    p.2 = { t with expiration_ := now + t.interval_.micros } }

/-- The callbacks that were started, in order. -/
def startedIds (evs : List TimerEvent) : List TimerId :=
  evs.filterMap fun ev =>
    match ev with
    | .started id => some id
    | _ => none

/-- The addresses of the timers that were added, in order. -/
def addedTimers (evs : List TimerEvent) : List Addr :=
  evs.filterMap fun ev =>
    match ev with
    | .added id _ => some id.timer_
    | _ => none

/-- The timers that a list of calls adds. -/
def addCalls (cs : List Call) : List Addr :=
  cs.filterMap fun c =>
    match c with
    | .addTimerInLoop timer _ => some timer
    | _ => none

/-- What a call of `handleRead` does.  `expired` are the entries that are due at
    `now`; `evs` are the events of the call. -/
structure Pass (q q' : TimerQueue) (now : Int) (callbacks : Entry → List Call)
    (expired : List Entry) (evs : List TimerEvent) : Prop where
  log : q'.log = q.log ++ evs
  mem_expired : ∀ e, e ∈ expired ↔ e ∈ q.timers_ ∧ e.first ≤ now
  sorted : expired.Pairwise (· < ·)
  /-- The callbacks of the expired timers are started once each, in order, and no
      others. -/
  started : (startedIds evs).map some = expired.map q.idOf
  /-- The cancels and additions of the pass are those of its callbacks. -/
  cancels : ∀ id, .cancelled id ∈ evs ↔ .cancelInLoop id ∈ expired.flatMap callbacks
  adds : addedTimers evs = addCalls (expired.flatMap callbacks)
  timers : q'.timerSet =
    setAfter { p ∈ q.timerSet | now < p.2.expiration_ } evs ∪ putBack q.timerSet now evs
  /-- No access of the call goes through the pointer of a deleted timer, and no timer is
      deleted again: a second `delete` would set `fault` and be no event. -/
  no_fault : q'.fault = false
  /-- An expired timer is put back once, or deleted once. -/
  ended : ∀ p ∈ q.timerSet, p.2.expiration_ ≤ now →
    if p.2.repeat_ = true ∧ .cancelled p.1 ∉ evs then
      evs.count (.restarted p.1) = 1 ∧ .deleted p.1 ∉ evs
    else evs.count (.deleted p.1) = 1 ∧ .restarted p.1 ∉ evs

/-! ## Events and the reference set -/

theorem addedKept_append {evs : List TimerEvent} {ev : TimerEvent} {id : TimerId} {t : Timer} :
    AddedKept (evs ++ [ev]) id t ↔
      (AddedKept evs id t ∧ ev ≠ .cancelled id) ∨ ev = .added id t := by
  constructor
  · intro ⟨pre, post, hevs, hpost⟩
    rcases append_singleton_split hevs with ⟨_, hev, _⟩ | ⟨post', rfl, hpre⟩
    · exact Or.inr hev
    · rw [List.mem_append, List.mem_singleton, not_or] at hpost
      exact Or.inl ⟨⟨pre, post', hpre, hpost.1⟩, fun h => hpost.2 h.symm⟩
  · intro hcases
    rcases hcases with ⟨⟨pre, post, hevs, hpost⟩, hne⟩ | hev
    · refine ⟨pre, post ++ [ev], by rw [hevs]; simp, ?_⟩
      rw [List.mem_append, List.mem_singleton, not_or]
      exact ⟨hpost, fun h => hne h.symm⟩
    · exact ⟨evs, [], by rw [hev], List.not_mem_nil⟩

variable {base : Set (TimerId × Timer)} {evs : List TimerEvent}

theorem setAfter_nil : setAfter base [] = base := by
  ext p
  constructor
  · intro hcases
    rcases hcases with ⟨hp, _⟩ | ⟨pre, post, hevs, _⟩
    · exact hp
    · -- nothing is added by an empty list of events
      simp at hevs
  · intro hp
    exact Or.inl ⟨hp, List.not_mem_nil⟩

theorem setAfter_added (id : TimerId) (t : Timer) :
    setAfter base (evs ++ [.added id t]) = Insert.insert (id, t) (setAfter base evs) := by
  ext ⟨id', t'⟩
  simp only [setAfter, Set.mem_ofPred_eq, Set.mem_insert_iff, addedKept_append, List.mem_append,
    List.mem_singleton, TimerEvent.added.injEq, Prod.mk.injEq, reduceCtorEq, or_false, ne_eq,
    not_false_eq_true, and_true]
  tauto

theorem setAfter_cancelled (id : TimerId) :
    setAfter base (evs ++ [.cancelled id]) = { p ∈ setAfter base evs | p.1 ≠ id } := by
  ext ⟨id', t'⟩
  simp only [setAfter, Set.mem_ofPred_eq, addedKept_append, List.mem_append,
    List.mem_singleton, TimerEvent.cancelled.injEq, reduceCtorEq, or_false, ne_eq, not_or]
  tauto

theorem setAfter_other {ev : TimerEvent} (hadd : ∀ id t, ev ≠ .added id t)
    (hcancel : ∀ id, ev ≠ .cancelled id) : setAfter base (evs ++ [ev]) = setAfter base evs := by
  ext ⟨id', t'⟩
  have h1 := hadd id' t'
  have h2 := hcancel id'
  simp only [setAfter, Set.mem_ofPred_eq, addedKept_append, List.mem_append, List.mem_singleton,
    h1, h2, Ne.symm h2, or_false, ne_eq, not_false_eq_true, and_true]

/-! ## The loop of callbacks -/

/-- The state `q` in the loop of callbacks over `batch` that was entered in `q₁`,
    after the events `evs`. -/
structure Loop (q₁ : TimerQueue) (batch : List Entry) (q : TimerQueue)
    (evs : List TimerEvent) : Prop where
  inv : Inv q batch
  calling : q.callingExpiredTimers_ = true
  log : q.log = q₁.log ++ evs
  timers : q.timerSet = setAfter q₁.timerSet evs
  heap : ∀ e ∈ batch, q.heap e.second = q₁.heap e.second
  noted : ∀ e ∈ batch, ∀ id, q₁.idOf e = some id → (id ∈ q.cancelingTimers_ ↔ .cancelled id ∈ evs)
  alive : ∀ e ∈ batch, ∀ id, q₁.idOf e = some id → .deleted id ∉ evs
  not_restarted : ∀ id, .restarted id ∉ evs

variable {q₁ q q' : TimerQueue} {batch : List Entry}

theorem timerSet_record (q : TimerQueue) (ev : TimerEvent) : (q.record ev).timerSet = q.timerSet :=
  rfl

/-- What the steps of the loop have in common. -/
theorem Loop.extend (h : Loop q₁ batch q evs) {new : List TimerEvent} (hinv : Inv q' batch)
    (hcalling : q'.callingExpiredTimers_ = q.callingExpiredTimers_)
    (hlog : q'.log = q.log ++ new)
    (htimers : q'.timerSet = setAfter q₁.timerSet (evs ++ new))
    (hheap : ∀ e ∈ batch, q'.heap e.second = q.heap e.second)
    (hnoted : ∀ e ∈ batch, ∀ id, q₁.idOf e = some id →
      (id ∈ q'.cancelingTimers_ ↔ id ∈ q.cancelingTimers_ ∨ .cancelled id ∈ new))
    (halive : ∀ e ∈ batch, ∀ id, q₁.idOf e = some id → .deleted id ∉ new)
    (hrestarted : ∀ id, .restarted id ∉ new) : Loop q₁ batch q' (evs ++ new) := by
  refine ⟨hinv, hcalling.trans h.calling, ?_, htimers, ?_, ?_, ?_, ?_⟩
  · rw [hlog, h.log, List.append_assoc]
  · intro e he
    rw [hheap e he, h.heap e he]
  · intro e he id hid
    rw [hnoted e he id hid, h.noted e he id hid, List.mem_append]
  · intro e he id hid
    rw [List.mem_append, not_or]
    exact ⟨h.alive e he id hid, halive e he id hid⟩
  · intro id
    rw [List.mem_append, not_or]
    exact ⟨h.not_restarted id, hrestarted id⟩

theorem Loop.newTimer (h : Loop q₁ batch q evs) {a : Addr} (hnone : q.heap a = none)
    (hpos : 0 < a) (hmax : a < UINTPTR_MAX) (when : Int) (interval : Seconds) :
    Loop q₁ batch { q.setHeap a (some (Timer.ctor when interval q.numCreated)) with
      numCreated := q.numCreated + 1
      fresh := Insert.insert a q.fresh } evs := by
  obtain ⟨_, hentry, hb, _⟩ := h.inv.ne_of_free hnone
  have hset : timerSet { q.setHeap a (some (Timer.ctor when interval q.numCreated)) with
      numCreated := q.numCreated + 1
      fresh := Insert.insert a q.fresh } = q.timerSet := timerSet_update hentry
  -- creating a timer records nothing
  rw [show evs = evs ++ [] by simp]
  refine h.extend (h.inv.newTimer hnone hpos hmax when interval) rfl (by simp [setHeap]) ?_ ?_ ?_
    (by simp) (by simp)
  · rw [hset, h.timers, List.append_nil]
  · intro e he
    exact setHeap_of_ne (hb e he) _
  · intro e he id _
    simp [setHeap]

theorem Loop.addTimerInLoop (h : Loop q₁ batch q evs) {a : Addr} {t : Timer}
    (hheap : q.heap a = some t) (hfresh : a ∈ q.fresh) {now : Int} (hclock : q.clock ≤ now)
    (hpos : 0 < now) :
    Loop q₁ batch ((q.startAdd a t now).addTimerInLoop a now)
      (evs ++ [.added ⟨a, t.sequence_⟩ t]) := by
  have hcall : q.call (.addTimerInLoop a now) =
      some ((q.startAdd a t now).addTimerInLoop a now) := by
    simp [call, hheap, hfresh, hclock, hpos]
  have hadded := startAdd_added hheap now
  refine h.extend (h.inv.call hcall) (call_calling hcall) hadded.log ?_ ?_ ?_ (by simp) (by simp)
  · rw [timerSet_addTimerInLoop (q := q.startAdd a t now) hheap, setAfter_added, ← h.timers]
    rfl
  · intro e _
    rw [hadded.heap]
  · intro e _ id _
    rw [hadded.canceling]
    simp

theorem Loop.cancelInLoop (h : Loop q₁ batch q evs) (id : TimerId) :
    ∃ new, Loop q₁ batch ((q.record (.cancelled id)).cancelInLoop id) (evs ++ new) ∧
      (∀ id', .cancelled id' ∈ new ↔ id' = id) ∧ startedIds new = [] ∧ addedTimers new = [] := by
  have hcall : q.call (.cancelInLoop id) = some ((q.record (.cancelled id)).cancelInLoop id) := rfl
  have hset : ((q.record (.cancelled id)).cancelInLoop id).timerSet =
      setAfter q₁.timerSet (evs ++ [.cancelled id]) := by
    rw [timerSet_cancelInLoop (h.inv.record _), setAfter_cancelled, ← h.timers]
    rfl
  have hinv := h.inv.call hcall
  have hcalling := call_calling hcall
  -- an active timer is deleted at once; any other id is noted for reset
  by_cases hid : id ∈ q.activeTimers_
  · obtain ⟨t, hheap, hseq, _⟩ := h.inv.active id hid
    obtain ⟨hb, _⟩ := h.inv.active_elsewhere hid
    refine ⟨[.cancelled id, .deleted ⟨id.timer_, t.sequence_⟩], ?_, by simp, rfl, rfl⟩
    -- the timers of the batch are not active
    have hne : ∀ e ∈ batch, ∀ id', q₁.idOf e = some id' → id' ≠ id := by
      intro e he id' hide heq
      subst heq
      obtain ⟨t', hheap', hnot⟩ := h.inv.batch_idle e he
      rw [← idOf_congr (h.heap e he), idOf_eq hheap'] at hide
      rw [Option.some.inj hide] at hnot
      exact hnot hid
    have hout : (q.record (.cancelled id)).cancelInLoop id =
        (((q.record (.cancelled id)).unlink id t).setHeap id.timer_ none).record
          (.deleted ⟨id.timer_, t.sequence_⟩) := by
      rw [cancelInLoop_active (q := q.record (.cancelled id)) hid hheap,
        delete_eq (q := (q.record (.cancelled id)).unlink id t) hheap]
    refine h.extend hinv hcalling ?_ ?_ ?_ ?_ ?_ (by simp)
    · rw [hout]
      simp [record, unlink, setHeap]
    · have hassoc : evs ++ [.cancelled id, .deleted ⟨id.timer_, t.sequence_⟩] =
          evs ++ [.cancelled id] ++ [.deleted ⟨id.timer_, t.sequence_⟩] := by simp
      rw [hassoc, hset]
      exact (setAfter_other (by simp) (by simp)).symm
    · intro e he
      rw [hout]
      exact setHeap_of_ne (hb e he) _
    · intro e he id' hide
      rw [hout]
      simp [record, unlink, setHeap, hne e he id' hide]
    · intro e he id' hide hmem
      refine hne e he id' hide ?_
      simp only [List.mem_cons, reduceCtorEq, TimerEvent.deleted.injEq, List.not_mem_nil,
        or_false, false_or] at hmem
      rw [hmem, hseq]
  · refine ⟨[.cancelled id], ?_, by simp, rfl, rfl⟩
    have hout : (q.record (.cancelled id)).cancelInLoop id =
        { q.record (.cancelled id) with
          cancelingTimers_ := Insert.insert id q.cancelingTimers_ } := by
      rw [cancelInLoop_not_active (q := q.record (.cancelled id)) hid]
      exact if_pos h.calling
    refine h.extend hinv hcalling ?_ hset ?_ ?_ (by simp) (by simp)
    · rw [hout]
      rfl
    · intro e _
      rw [hout]
      rfl
    · intro e _ id' _
      rw [hout]
      simp only [Finset.mem_insert, List.mem_singleton, TimerEvent.cancelled.injEq]
      exact or_comm

/-- One call of a callback: its events are the cancel or the addition it makes. -/
theorem Loop.call (h : Loop q₁ batch q evs) {c : Call} (hcall : q.call c = some q') :
    ∃ new, Loop q₁ batch q' (evs ++ new) ∧ (∀ id, .cancelled id ∈ new ↔ c = .cancelInLoop id) ∧
      startedIds new = [] ∧ addedTimers new = addCalls [c] := by
  rcases call_cases hcall with ⟨a, when, interval, rfl, hnone, hpos, hmax, rfl⟩ |
    ⟨a, now, t, rfl, hheap, hfresh, hclock, hpos, rfl⟩ | ⟨id, rfl, rfl⟩
  · refine ⟨[], ?_, by simp, rfl, rfl⟩
    rw [List.append_nil]
    exact h.newTimer hnone hpos hmax when interval
  · exact ⟨_, h.addTimerInLoop hheap hfresh hclock hpos, by simp, rfl, rfl⟩
  · obtain ⟨new, hloop, hcancel, hstarted, hadded⟩ := h.cancelInLoop id
    refine ⟨new, hloop, ?_, hstarted, hadded⟩
    intro id'
    rw [hcancel]
    constructor
    · intro heq
      subst heq
      rfl
    · intro heq
      exact (Call.cancelInLoop.inj heq).symm

theorem startedIds_append (es fs : List TimerEvent) :
    startedIds (es ++ fs) = startedIds es ++ startedIds fs :=
  List.filterMap_append

theorem addedTimers_append (es fs : List TimerEvent) :
    addedTimers (es ++ fs) = addedTimers es ++ addedTimers fs :=
  List.filterMap_append

theorem addCalls_append (cs ds : List Call) : addCalls (cs ++ ds) = addCalls cs ++ addCalls ds :=
  List.filterMap_append

/-- The calls of one callback. -/
theorem Loop.calls (h : Loop q₁ batch q evs) {cs : List Call} (hcalls : q.calls cs = some q') :
    ∃ new, Loop q₁ batch q' (evs ++ new) ∧ (∀ id, .cancelled id ∈ new ↔ .cancelInLoop id ∈ cs) ∧
      startedIds new = [] ∧ addedTimers new = addCalls cs := by
  induction cs generalizing q evs with
  | nil =>
    obtain rfl : q = q' := by simpa [TimerQueue.calls] using hcalls
    exact ⟨[], by simpa using h, by simp, rfl, rfl⟩
  | cons c cs ih =>
    simp only [TimerQueue.calls, List.foldlM_cons, Option.bind_eq_bind,
      Option.bind_eq_some_iff] at hcalls
    obtain ⟨q₂, hc, hrest⟩ := hcalls
    -- the events of the first call, then those of the rest
    obtain ⟨new, hloop, hcancel, hstarted, hadded⟩ := h.call hc
    obtain ⟨new', hloop', hcancel', hstarted', hadded'⟩ := ih hloop hrest
    refine ⟨new ++ new', by rw [← List.append_assoc]; exact hloop', ?_, ?_, ?_⟩
    · intro id
      rw [List.mem_append, hcancel, hcancel', List.mem_cons]
      exact or_congr_left eq_comm
    · rw [startedIds_append, hstarted, hstarted', List.append_nil]
    · rw [addedTimers_append, hadded, hadded', ← addCalls_append]
      rfl

theorem Loop.run (h : Loop q₁ batch q evs) {e : Entry} (he : e ∈ batch) {t : Timer}
    (hheap : q₁.heap e.second = some t) :
    Loop q₁ batch (q.run e) (evs ++ [.started ⟨e.second, t.sequence_⟩]) := by
  have hrun : q.run e = q.record (.started ⟨e.second, t.sequence_⟩) :=
    run_eq ((h.heap e he).trans hheap)
  refine h.extend (h.inv.run e he) ?_ ?_ ?_ ?_ ?_ (by simp) (by simp)
  · rw [hrun]
    rfl
  · rw [hrun]
    rfl
  · rw [hrun, setAfter_other (by simp) (by simp), ← h.timers]
    rfl
  · intro f _
    rw [hrun]
    rfl
  · intro f _ id _
    rw [hrun]
    simp [record]

/-- The whole loop of `handleRead`. -/
theorem Loop.runExpired (h : Loop q₁ batch q evs) {callbacks : Entry → List Call}
    {todo : List Entry} (htodo : todo ⊆ batch)
    (hrun : q.runExpired callbacks todo = some q') :
    ∃ new, Loop q₁ batch q' (evs ++ new) ∧
      (∀ id, .cancelled id ∈ new ↔ .cancelInLoop id ∈ todo.flatMap callbacks) ∧
      (startedIds new).map some = todo.map q₁.idOf ∧
      addedTimers new = addCalls (todo.flatMap callbacks) := by
  induction todo generalizing q evs with
  | nil =>
    obtain rfl : q = q' := by simpa [TimerQueue.runExpired] using hrun
    exact ⟨[], by simpa using h, by simp, rfl, rfl⟩
  | cons e todo ih =>
    simp only [TimerQueue.runExpired, List.foldlM_cons, Option.bind_eq_bind,
      Option.bind_eq_some_iff] at hrun
    obtain ⟨q₂, hcalls, hrest⟩ := hrun
    obtain ⟨he, htodo⟩ := List.cons_subset.mp htodo
    obtain ⟨t, hheap, _⟩ := h.inv.batch_idle e he
    rw [h.heap e he] at hheap
    obtain ⟨new, hloop, hcancel, hstarted, hadded⟩ := (h.run he hheap).calls hcalls
    obtain ⟨new', hloop', hcancel', hstarted', hadded'⟩ := ih hloop htodo hrest
    refine ⟨.started ⟨e.second, t.sequence_⟩ :: (new ++ new'), ?_, ?_, ?_, ?_⟩
    · have hassoc : evs ++ .started ⟨e.second, t.sequence_⟩ :: (new ++ new') =
          evs ++ [.started ⟨e.second, t.sequence_⟩] ++ new ++ new' := by simp
      rw [hassoc]
      exact hloop'
    · intro id
      simp only [List.mem_cons, reduceCtorEq, false_or, List.mem_append, hcancel, hcancel',
        List.flatMap_cons]
    · have hcons : startedIds (.started ⟨e.second, t.sequence_⟩ :: (new ++ new')) =
          ⟨e.second, t.sequence_⟩ :: startedIds (new ++ new') := rfl
      rw [hcons, startedIds_append, hstarted, List.nil_append, List.map_cons, hstarted',
        List.map_cons, idOf_eq hheap]
    · have hcons : addedTimers (.started ⟨e.second, t.sequence_⟩ :: (new ++ new')) =
          addedTimers (new ++ new') := rfl
      rw [hcons, addedTimers_append, hadded, hadded', List.flatMap_cons, addCalls_append]

/-! ## The loop of reset -/

/-- The event of one round of `reset`. -/
def resetEvent (q : TimerQueue) (e : Entry) : TimerEvent :=
  match q.heap e.second with
  | some t =>
    if t.repeat_ ∧ ⟨e.second, t.sequence_⟩ ∉ q.cancelingTimers_ then
      .restarted ⟨e.second, t.sequence_⟩
    else .deleted ⟨e.second, t.sequence_⟩
  | none => .deleted ⟨e.second, 0⟩

/-- The timers of the batch that `reset` puts back. -/
def resetSet (q : TimerQueue) (batch : List Entry) (now : Int) : Set (TimerId × Timer) :=
  { p | ∃ e ∈ batch, ∃ t, q.heap e.second = some t ∧ t.repeat_ = true ∧ p.1 ∉ q.cancelingTimers_ ∧
    p = (⟨e.second, t.sequence_⟩, t.restart now) }

theorem resetOne_spec {e : Entry} (h : Inv q (e :: batch)) (now : Int) :
    (resetOne now q e).log = q.log ++ [q.resetEvent e] ∧
      (resetOne now q e).timerSet = q.timerSet ∪ q.resetSet [e] now ∧
      (∀ f ∈ batch, (resetOne now q e).heap f.second = q.heap f.second) ∧
      (resetOne now q e).cancelingTimers_ = q.cancelingTimers_ := by
  obtain ⟨hidle, hb, hf⟩ := h.head_elsewhere
  obtain ⟨t, hheap, _⟩ := id hidle
  by_cases hcond : t.repeat_ = true ∧ ⟨e.second, t.sequence_⟩ ∉ q.cancelingTimers_
  · have hset : (resetOne now q e).timerSet =
        Insert.insert (⟨e.second, t.sequence_⟩, t.restart now) q.timerSet := by
      rw [resetOne_restart hheap hcond.1 hcond.2, timerSet_insert (t := t.restart now) (by simp),
        timerSet_record, timerSet_update (fun _ => h.entry_ne hidle), Timer.restart_sequence_]
    have hevent : q.resetEvent e = .restarted ⟨e.second, t.sequence_⟩ := by
      simp only [resetEvent, hheap]
      exact if_pos hcond
    refine ⟨?_, ?_, ?_, ?_⟩
    · rw [resetOne_restart hheap hcond.1 hcond.2, insert_eq (t := t.restart now) (by simp), hevent]
      rfl
    · rw [hset]
      ext p
      simp only [Set.mem_insert_iff, Set.mem_union, resetSet, Set.mem_ofPred_eq,
        List.mem_singleton, exists_eq_left, hheap, Option.some.injEq]
      constructor
      · intro hcases
        rcases hcases with rfl | hp
        · exact Or.inr ⟨t, rfl, hcond.1, hcond.2, rfl⟩
        · exact Or.inl hp
      · intro hcases
        rcases hcases with hp | ⟨t', rfl, _, _, hp⟩
        · exact Or.inr hp
        · exact Or.inl hp
    · intro f hf
      rw [resetOne_restart hheap hcond.1 hcond.2, insert_eq (t := t.restart now) (by simp)]
      exact setHeap_of_ne (hb f hf) _
    · rw [resetOne_restart hheap hcond.1 hcond.2, insert_eq (t := t.restart now) (by simp)]
      rfl
  · have hevent : q.resetEvent e = .deleted ⟨e.second, t.sequence_⟩ := by
      simp only [resetEvent, hheap]
      exact if_neg hcond
    have hnone : q.resetSet [e] now = ∅ := by
      ext p
      simp only [resetSet, Set.mem_ofPred_eq, List.mem_singleton, exists_eq_left, hheap,
        Option.some.injEq, Set.mem_empty_iff_false, iff_false]
      intro hcases
      obtain ⟨t', rfl, hrep, hnot, rfl⟩ := hcases
      exact hcond ⟨hrep, hnot⟩
    rw [hnone, Set.union_empty, resetOne_delete hheap hcond, timerSet_delete h hidle, hevent,
      delete_eq hheap]
    exact ⟨rfl, rfl, fun f hf => setHeap_of_ne (hb f hf) _, rfl⟩

theorem foldl_resetOne_spec (h : Inv q batch) (now : Int) :
    (batch.foldl (resetOne now) q).log = q.log ++ batch.map q.resetEvent ∧
      (batch.foldl (resetOne now) q).timerSet = q.timerSet ∪ q.resetSet batch now := by
  induction batch generalizing q with
  | nil =>
    refine ⟨by simp, ?_⟩
    ext p
    simp [resetSet]
  | cons e batch ih =>
    obtain ⟨hlog, hset, hheap, hcanceling⟩ := resetOne_spec h now
    obtain ⟨hlog', hset'⟩ := ih (h.resetOne now)
    -- the rounds that follow see the same heap and the same cancelled timers
    have hevents : batch.map (resetOne now q e).resetEvent = batch.map q.resetEvent := by
      refine List.map_congr_left ?_
      intro f hf
      simp only [resetEvent, hheap f hf, hcanceling]
    have hrest : (resetOne now q e).resetSet batch now = q.resetSet batch now := by
      ext p
      simp only [resetSet, Set.mem_ofPred_eq, hcanceling]
      refine exists_congr fun f => and_congr_right fun hf => ?_
      rw [hheap f hf]
    constructor
    · rw [List.foldl_cons, hlog', hlog, hevents, List.map_cons, List.append_assoc,
        List.singleton_append]
    · rw [List.foldl_cons, hset', hset, hrest, Set.union_assoc]
      -- the set put back splits over the head and the tail of the batch
      congr 1
      ext p
      simp [resetSet, or_and_right, exists_or]

/-! ## The whole call -/

/-- The address an event is about. -/
def TimerEvent.timer : TimerEvent → Addr
  | .added id _ | .cancelled id | .started id | .restarted id | .deleted id => id.timer_

theorem resetEvent_timer (q : TimerQueue) (e : Entry) :
    TimerEvent.timer (q.resetEvent e) = e.second := by
  unfold resetEvent
  split
  · split <;> rfl
  · rfl

theorem resetEvent_quiet (q : TimerQueue) (e : Entry) : TimerEvent.Quiet (q.resetEvent e) := by
  unfold resetEvent
  split
  · split <;> trivial
  · trivial

theorem Quiet.not_seen {evs : List TimerEvent} (hquiet : ∀ ev ∈ evs, TimerEvent.Quiet ev) :
    startedIds evs = [] ∧ addedTimers evs = [] ∧ (∀ id, .cancelled id ∉ evs) := by
  refine ⟨?_, ?_, ?_⟩
  · refine List.filterMap_eq_nil_iff.mpr ?_
    intro ev hev
    cases ev with
    | started id => exact (hquiet _ hev).elim
    | _ => rfl
  · refine List.filterMap_eq_nil_iff.mpr ?_
    intro ev hev
    cases ev with
    | added id t => exact (hquiet _ hev).elim
    | _ => rfl
  · intro id hmem
    exact hquiet _ hmem

theorem setAfter_quiet {new : List TimerEvent} (hquiet : ∀ ev ∈ new, TimerEvent.Quiet ev) :
    setAfter base (evs ++ new) = setAfter base evs := by
  induction new generalizing evs with
  | nil => rw [List.append_nil]
  | cons ev new ih =>
    obtain ⟨hev, hnew⟩ := List.forall_mem_cons.mp hquiet
    rw [List.append_cons, ih hnew]
    refine setAfter_other ?_ ?_
    · intro id t heq
      subst heq
      exact hev
    · intro id heq
      subst heq
      exact hev

/-- The loop of callbacks starts with the timers that are not due. -/
theorem loop_start (h : Inv q []) (now tread : Int) :
    Loop (q.beginRead now tread).1 (q.expiredAt now) (q.beginRead now tread).1 [] := by
  refine ⟨h.beginRead now tread, rfl, by simp, by rw [setAfter_nil], fun _ _ => rfl, ?_, ?_, ?_⟩
  · intro e _ id _
    -- cancelingTimers_ has just been cleared
    simp [TimerQueue.beginRead]
  · simp
  · simp

theorem timerSet_beginRead (h : Inv q []) (now tread : Int) :
    (q.beginRead now tread).1.timerSet = { p ∈ q.timerSet | now < p.2.expiration_ } := by
  have hread : ({ q with clock := tread }.readTimerfd tread).timerSet = q.timerSet := by
    obtain ⟨timerfd, heq⟩ := readTimerfd_frame { q with clock := tread } tread
    rw [heq]
    rfl
  rw [← hread, ← timerSet_getExpired (h.read tread)]
  rfl

theorem endRead_spec (h : Inv q batch) (now tarm : Int) :
    (q.endRead batch now tarm).log = q.log ++ batch.map q.resetEvent ∧
      (q.endRead batch now tarm).timerSet = q.timerSet ∪ q.resetSet batch now := by
  have hloop := h.afterLoop tarm
  obtain ⟨_, _, _, _, heq⟩ := (hloop.foldl_resetOne now).rearm_frame tarm
  rw [endRead_eq, heq]
  exact foldl_resetOne_spec hloop now

/-- A timer that is set and due is in the batch. -/
theorem Inv.due_mem (h : Inv q []) {now : Int} {id : TimerId} {t : Timer}
    (hp : (id, t) ∈ q.timerSet) (hdue : t.expiration_ ≤ now) :
    ⟨t.expiration_, id.timer_⟩ ∈ q.expiredAt now ∧ id = ⟨id.timer_, t.sequence_⟩ := by
  obtain ⟨_, hseq, hmem⟩ := hp
  refine ⟨h.mem_expiredAt.mpr ⟨hmem, hdue⟩, ?_⟩
  rw [show t.sequence_ = id.sequence_ from hseq]

/-- What `reset` puts back is what the reference puts back. -/
theorem Loop.resetSet_eq (hinv : Inv q []) {now : Int} {q₂ : TimerQueue}
    (hheap : q₁.heap = q.heap) (h : Loop q₁ (q.expiredAt now) q₂ evs) :
    q₂.resetSet (q.expiredAt now) now = putBack q.timerSet now evs := by
  have hid : ∀ e ∈ q.expiredAt now, ∀ t, q.heap e.second = some t →
      q₁.idOf e = some ⟨e.second, t.sequence_⟩ := by
    intro e _ t ht
    exact idOf_eq (by rw [hheap]; exact ht)
  ext ⟨id, t'⟩
  constructor
  · -- reset works on the batch after the callbacks: its timers are as they were
    intro ⟨e, he, t, ht, hrep, hnot, heq⟩
    obtain ⟨rfl, rfl⟩ := Prod.mk.inj heq
    rw [h.heap e he, hheap] at ht
    obtain ⟨hmem, hdue⟩ := hinv.mem_expiredAt.mp he
    obtain ⟨t₀, ht₀, hexp, _⟩ := hinv.entry e hmem
    obtain rfl : t = t₀ := Option.some.inj (ht.symm.trans ht₀)
    refine ⟨t, ⟨ht, rfl, by rw [hexp]; exact hmem⟩, by rw [hexp]; exact hdue, hrep, ?_, ?_⟩
    · rw [← h.noted e he _ (hid e he t ht)]
      exact hnot
    · simp only [Timer.restart, hrep, if_true, addTime]
  · -- conversely, a due timer is in the batch, and its cancel would be noted
    intro ⟨t, hp, hdue, hrep, hnot, heq⟩
    obtain ⟨he, hself⟩ := hinv.due_mem hp hdue
    refine ⟨_, he, t, ?_, hrep, ?_, ?_⟩
    · rw [h.heap _ he, hheap]
      exact hp.1
    · have hnoted := h.noted _ he _ (hid _ he t hp.1)
      rw [← hself] at hnoted
      exact fun hmem => hnot (hnoted.mp hmem)
    · have hval : t' = { t with expiration_ := now + t.interval_.micros } := heq
      rw [hval, Prod.mk.injEq]
      refine ⟨hself, ?_⟩
      simp only [Timer.restart, hrep, if_true, addTime]

/-- The rounds of `reset` have different events. -/
theorem resetEvents_nodup (h : Inv q batch) : (batch.map q.resetEvent).Nodup := by
  have hnodup := h.batch_nodup
  refine (List.Nodup.of_map _ hnodup).map_on ?_
  -- an event names its timer, and the batch has each timer once
  intro e he f hf heq
  refine List.inj_on_of_nodup_map hnodup he hf ?_
  rw [← resetEvent_timer q e, ← resetEvent_timer q f, heq]

theorem resetEvents_quiet (q : TimerQueue) (batch : List Entry) :
    ∀ ev ∈ batch.map q.resetEvent, TimerEvent.Quiet ev := by
  intro ev hev
  obtain ⟨f, _, rfl⟩ := List.mem_map.mp hev
  exact resetEvent_quiet q f

/-- A timer of the batch has no other event in the loop of `reset`. -/
theorem eq_resetEvent_of_timer (h : Inv q batch) {e : Entry} (he : e ∈ batch) {ev : TimerEvent}
    (hev : ev ∈ batch.map q.resetEvent) (htimer : TimerEvent.timer ev = e.second) :
    ev = q.resetEvent e := by
  obtain ⟨f, hf, rfl⟩ := List.mem_map.mp hev
  rw [resetEvent_timer] at htimer
  rw [List.inj_on_of_nodup_map h.batch_nodup hf he htimer]

theorem count_resetEvent (h : Inv q batch) {e : Entry} (he : e ∈ batch)
    (evs : List TimerEvent) (hnot : q.resetEvent e ∉ evs) :
    (evs ++ batch.map q.resetEvent).count (q.resetEvent e) = 1 := by
  rw [List.count_append, List.count_eq_zero_of_not_mem hnot, Nat.zero_add]
  exact List.count_eq_one_of_mem (resetEvents_nodup h) (List.mem_map_of_mem he)

theorem not_mem_resetEvents (h : Inv q batch) {e : Entry} (he : e ∈ batch) {ev : TimerEvent}
    (hnot : ev ∉ evs) (htimer : TimerEvent.timer ev = e.second) (hne : ev ≠ q.resetEvent e) :
    ev ∉ evs ++ batch.map q.resetEvent := by
  intro hmem
  rcases List.mem_append.mp hmem with hmem | hmem
  · exact hnot hmem
  · exact hne (eq_resetEvent_of_timer h he hmem htimer)

/-- An expired timer has one event in `reset`. -/
theorem Loop.ended (hinv : Inv q []) {now : Int} {q₂ : TimerQueue} (hheap : q₁.heap = q.heap)
    (h : Loop q₁ (q.expiredAt now) q₂ evs) {id : TimerId} {t : Timer} (hp : (id, t) ∈ q.timerSet)
    (hdue : t.expiration_ ≤ now) :
    if t.repeat_ = true ∧ .cancelled id ∉ evs ++ (q.expiredAt now).map q₂.resetEvent then
      (evs ++ (q.expiredAt now).map q₂.resetEvent).count (.restarted id) = 1 ∧
        .deleted id ∉ evs ++ (q.expiredAt now).map q₂.resetEvent
    else
      (evs ++ (q.expiredAt now).map q₂.resetEvent).count (.deleted id) = 1 ∧
        .restarted id ∉ evs ++ (q.expiredAt now).map q₂.resetEvent := by
  obtain ⟨he, hself⟩ := hinv.due_mem hp hdue
  have hid : q₁.idOf ⟨t.expiration_, id.timer_⟩ = some id := by
    rw [idOf_eq (t := t) (by rw [hheap]; exact hp.1)]
    exact congrArg some hself.symm
  -- what `reset` looks up in `cancelingTimers_` is what the events say
  have hcancel : .cancelled id ∉ evs ++ (q.expiredAt now).map q₂.resetEvent ↔
      id ∉ q₂.cancelingTimers_ := by
    rw [List.mem_append, h.noted _ he id hid]
    have := (Quiet.not_seen (resetEvents_quiet q₂ (q.expiredAt now))).2.2 id
    tauto
  have hevent : q₂.resetEvent ⟨t.expiration_, id.timer_⟩ =
      if t.repeat_ = true ∧ id ∉ q₂.cancelingTimers_ then .restarted id else .deleted id := by
    have hheap₂ : q₂.heap id.timer_ = some t := by
      rw [h.heap _ he, hheap]
      exact hp.1
    simp only [resetEvent, hheap₂]
    rw [← hself]
  by_cases hcond : t.repeat_ = true ∧ .cancelled id ∉ evs ++ (q.expiredAt now).map q₂.resetEvent
  · rw [if_pos ⟨hcond.1, hcancel.mp hcond.2⟩] at hevent
    have hcount := count_resetEvent h.inv he evs
    have hother := not_mem_resetEvents h.inv he (h.alive _ he id hid) rfl
    rw [hevent] at hcount hother
    rw [if_pos hcond]
    exact ⟨hcount (h.not_restarted id), hother (by simp)⟩
  · rw [if_neg fun hc => hcond ⟨hc.1, hcancel.mpr hc.2⟩] at hevent
    have hcount := count_resetEvent h.inv he evs
    have hother := not_mem_resetEvents h.inv he (h.not_restarted id) rfl
    rw [hevent] at hcount hother
    rw [if_neg hcond]
    exact ⟨hcount (h.alive _ he id hid), hother (by simp)⟩

theorem Inv.handleRead (h : Inv q []) {now tread tarm : Int} {callbacks : Entry → List Call}
    (hread : q.handleRead now tread tarm callbacks = some q') :
    ∃ expired evs, Pass q q' now callbacks expired evs := by
  simp only [TimerQueue.handleRead, Option.ite_none_right_eq_some, Option.bind_eq_some_iff,
    Option.some.injEq, beginRead_expired] at hread
  obtain ⟨_, q₂, hrun, _, rfl⟩ := hread
  have hbegan := h.began now tread
  have hset₁ := timerSet_beginRead h now tread
  obtain ⟨new, hloop, hcancels, hstarted, hadds⟩ :=
    (loop_start h now tread).runExpired (List.Subset.refl _) hrun
  rw [List.nil_append] at hloop
  obtain ⟨hlog, hset⟩ := endRead_spec hloop.inv now tarm
  have hquiet := resetEvents_quiet q₂ (q.expiredAt now)
  obtain ⟨hq1, hq2, hq3⟩ := Quiet.not_seen hquiet
  -- reset cancels nothing, so only the callbacks count
  have hcancel : ∀ id, .cancelled id ∈ new ++ (q.expiredAt now).map q₂.resetEvent ↔
      .cancelled id ∈ new := by
    intro id
    rw [List.mem_append]
    exact or_iff_left (hq3 id)
  refine ⟨q.expiredAt now, new ++ (q.expiredAt now).map q₂.resetEvent, ?_, ?_, ?_, ?_, ?_, ?_, ?_,
    (hloop.inv.endRead now tarm).no_fault, ?_⟩
  · rw [hlog, hloop.log, hbegan.log, List.append_assoc]
  · intro e
    exact h.mem_expiredAt
  · exact q.timers_.below_sorted _
  · -- started: the ids read in the loop are those of the entries before the call
    rw [startedIds_append, hq1, List.append_nil, hstarted]
    exact List.map_congr_left fun e _ => idOf_congr (by rw [hbegan.heap])
  · intro id
    rw [hcancel, hcancels]
  · rw [addedTimers_append, hq2, List.append_nil, hadds]
  · -- timers: what the callbacks leave, and what reset puts back
    rw [hset, hloop.timers, hset₁, setAfter_quiet hquiet, hloop.resetSet_eq h hbegan.heap]
    congr 1
    ext p
    simp only [putBack, Set.mem_ofPred_eq, hcancel]
  · intro p hp hdue
    exact hloop.ended h hbegan.heap hp hdue

end TimerQueue

namespace TimerState

open TimerQueue

end TimerState
