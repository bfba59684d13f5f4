import Mymuduo.Net.EventLoop
import Mymuduo.Net.TimerPass

/-! # The timer API of EventLoop

    `runAt`, `runAfter`, `runEvery` and `cancel` go through the member
    `timerQueue_` to `TimerQueue::addTimer` and `TimerQueue::cancel`, which run
    `addTimerInLoop` and `cancelInLoop` in the loop thread.

    The constructor of `EventLoop` does not set `timerQueue_`, so it is a null
    pointer and the first call of the API goes through it
    (`ctor_timer_api_iff`).  With a constructed `TimerQueue` behind the pointer
    the API does what it says (`timer_api_constructed`).
-/

namespace TimerApi

open TimerQueue

/-! ## State -/

/-- The functors the API hands to the loop. -/
inductive Functor where
  | addTimerInLoop (timer : Addr)
  | cancelInLoop (timerId : TimerId)
  deriving DecidableEq

/-- An `EventLoop` with its timers. -/
structure State where
  loop : EventLoop Functor := {}
  /-- The `unique_ptr`; `none` is the null pointer. -/
  timerQueue_ : Option TimerQueue := none
  /-- The timers asked for, with the ids that were returned. -/
  requested : List (TimerId × Timer) := []
  /-- A member function was called through a null `timerQueue_`. -/
  fault : Bool := false

/-- `EventLoop::EventLoop()`: neither the initialisers nor the body mention
    `timerQueue_`. -/
def ctor : State := {}

/-! ## The API -/

/-- The interval 0.0. -/
def noInterval : Seconds := ⟨false, 0, by decide, by decide⟩

/-- Run a functor in the loop thread at time `now`. -/
def runFunctor (q : TimerQueue) (now : Int) : Functor → Option TimerQueue
  | .addTimerInLoop timer => q.call (.addTimerInLoop timer now)
  | .cancelInLoop timerId => q.call (.cancelInLoop timerId)

/-- `runInLoop(cb)`: at once in the loop thread, else through the queue. -/
def runInLoop (s : State) (q : TimerQueue) (isInLoopThread : Bool) (now : Int) (cb : Functor) :
    Option State :=
  if isInLoopThread then
    (runFunctor q now cb).map fun q => { s with timerQueue_ := some q }
  else
    some { s with timerQueue_ := some q, loop := s.loop.queueInLoop false cb }

/-- `timerQueue_->addTimer(cb, when, interval)`, with `timer` the address that
    `new` returns. -/
def addTimer (s : State) (isInLoopThread : Bool) (when : Int) (interval : Seconds)
    (timer : Addr) (now : Int) : Option State :=
  match s.timerQueue_ with
  | none => some { s with fault := true }
  | some q =>
    (q.call (.newTimer timer when interval)).bind fun q' =>
      -- the id is taken from the timer, not from what addTimerInLoop does later
      let t := Timer.ctor when interval q.numCreated
      let s := { s with requested := s.requested ++ [(⟨timer, t.sequence_⟩, t)] }
      runInLoop s q' isInLoopThread now (.addTimerInLoop timer)

def runAt (s : State) (isInLoopThread : Bool) (time : Int) (timer : Addr) (now : Int) :
    Option State :=
  addTimer s isInLoopThread time noInterval timer now

/-- `runAfter(delay, cb)` with `tnow` the clock reading it takes. -/
def runAfter (s : State) (isInLoopThread : Bool) (delay : Seconds) (tnow : Int) (timer : Addr)
    (now : Int) : Option State :=
  runAt s isInLoopThread (addTime tnow delay) timer now

def runEvery (s : State) (isInLoopThread : Bool) (interval : Seconds) (tnow : Int)
    (timer : Addr) (now : Int) : Option State :=
  addTimer s isInLoopThread (addTime tnow interval) interval timer now

def cancel (s : State) (isInLoopThread : Bool) (timerId : TimerId) (now : Int) : Option State :=
  match s.timerQueue_ with
  | none => some { s with fault := true }
  | some q => runInLoop s q isInLoopThread now (.cancelInLoop timerId)

inductive Label where
  | runAt (isInLoopThread : Bool) (time : Int) (timer : Addr) (now : Int)
  | runAfter (isInLoopThread : Bool) (delay : Seconds) (tnow : Int) (timer : Addr) (now : Int)
  | runEvery (isInLoopThread : Bool) (interval : Seconds) (tnow : Int) (timer : Addr) (now : Int)
  | cancel (isInLoopThread : Bool) (timerId : TimerId) (now : Int)
  /-- The loop thread runs one of the queued functors. -/
  | runFunctor (i : Nat) (now : Int)

/-- Nothing happens after a call through the null pointer. -/
def next (s : State) (l : Label) : Option State :=
  if s.fault then none
  else
    match l with
    | .runAt inLoop time timer now => runAt s inLoop time timer now
    | .runAfter inLoop delay tnow timer now => runAfter s inLoop delay tnow timer now
    | .runEvery inLoop interval tnow timer now => runEvery s inLoop interval tnow timer now
    | .cancel inLoop timerId now => cancel s inLoop timerId now
    | .runFunctor i now =>
      -- any of the queued functors, so that every order of execution is covered
      match s.loop.pendingFunctors_[i]?, s.timerQueue_ with
      | some cb, some q =>
        (runFunctor q now cb).map fun q =>
          { s with
            timerQueue_ := some q
            loop := { s.loop with pendingFunctors_ := s.loop.pendingFunctors_.eraseIdx i } }
      | _, _ => none

/-- Starts with a loop as its constructor leaves it. -/
def machine : Machine State Label where
  init := fun s => s = ctor
  next := next

/-- A call of the API. -/
def Label.isTimerCall : Label → Bool
  | .runFunctor _ _ => false
  | .runAt _ _ _ _ | .runAfter _ _ _ _ _ | .runEvery _ _ _ _ _ | .cancel _ _ _ => true

/-! ## What the API promises -/

/-- The timers that are set in the loop's queue. -/
def State.timerSet (s : State) : Set (TimerId × Timer) :=
  match s.timerQueue_ with
  | some q => q.timerSet
  | none => ∅

/-- The timer was cancelled by a cancel executed after its insertion. -/
def State.wasCancelled (s : State) (id : TimerId) : Prop :=
  match s.timerQueue_ with
  | some q => Cancelled q.log id
  | none => False

/-- Every call reached a constructed queue, and when no functor is queued the
    timers that are set are the requested ones less the cancelled ones. -/
def ApiOk (s : State) : Prop :=
  s.fault = false ∧
    (s.loop.pendingFunctors_ = [] →
      s.timerSet = { p | p ∈ s.requested ∧ ¬ s.wasCancelled p.1 })

/-! ## With the constructor of EventLoop -/

theorem timer_call_faults {s : State} {l : Label} {s' : State} (hnull : s.timerQueue_ = none)
    (hstep : next s l = some s') : l.isTimerCall = true ∧ s'.fault = true := by
  unfold next at hstep
  split at hstep
  · cases hstep
  · cases l with
    | runAt inLoop time timer now =>
      simp only [runAt, addTimer, hnull, Option.some.injEq] at hstep
      exact ⟨rfl, by rw [← hstep]⟩
    | runAfter inLoop delay tnow timer now =>
      simp only [runAfter, runAt, addTimer, hnull, Option.some.injEq] at hstep
      exact ⟨rfl, by rw [← hstep]⟩
    | runEvery inLoop interval tnow timer now =>
      simp only [runEvery, addTimer, hnull, Option.some.injEq] at hstep
      exact ⟨rfl, by rw [← hstep]⟩
    | cancel inLoop timerId now =>
      simp only [cancel, hnull, Option.some.injEq] at hstep
      exact ⟨rfl, by rw [← hstep]⟩
    -- without a queue there is no functor to run
    | runFunctor i now =>
      simp only [hnull] at hstep
      split at hstep
      · rename_i hq
        cases hq
      · cases hstep

theorem fault_stuck {s s' : State} {l : Label} (hfault : s.fault = true) :
    next s l ≠ some s' := by
  simp [next, hfault]

/-- For a loop built by its constructor, the API keeps its promise exactly in the
    runs in which it is not called. -/
theorem ctor_timer_api_iff {s : State} {ls : List Label} (hrun : machine.run ctor ls = some s) :
    ApiOk s ↔ ∀ l ∈ ls, l.isTimerCall = false := by
  cases ls with
  | nil =>
    obtain rfl : ctor = s := by simpa using hrun
    simp [ApiOk, ctor, State.timerSet]
  -- the first step is a call of the API, and it goes through the null pointer
  | cons l ls =>
    obtain ⟨t, hstep, hrest⟩ := machine.run_cons_some.mp hrun
    obtain ⟨hcall, hfault⟩ := timer_call_faults (s := ctor) rfl hstep
    -- the fault is the end of the run
    have hs : s.fault = true := by
      cases ls with
      | nil =>
        obtain rfl : t = s := by simpa using hrest
        exact hfault
      | cons k ks =>
        obtain ⟨u, hnext, _⟩ := machine.run_cons_some.mp hrest
        exact absurd hnext (fault_stuck hfault)
    constructor
    · intro hok
      rw [hok.1] at hs
      cases hs
    · intro hno
      rw [hno l List.mem_cons_self] at hcall
      cases hcall

/-- One `runAfter` from the loop thread. -/
theorem ctor_runAfter_faults :
    ∃ s, machine.run ctor [.runAfter true ⟨true, 1500000, by decide, by decide⟩ 10 8 11] = some s ∧
      s.fault = true ∧ ¬ ApiOk s := by
  refine ⟨_, rfl, rfl, ?_⟩
  intro h
  cases h.1

theorem ctor_timer_api_iff_runAfter :
    ∃ s ls, machine.run ctor ls = some s ∧
      (ApiOk s ↔ ∀ l ∈ ls, l.isTimerCall = false) ∧ ls.length = 1 := by
  have hrun : machine.run ctor [.runAfter true ⟨true, 1500000, by decide, by decide⟩ 10 8 11] =
      some _ := rfl
  exact ⟨_, _, hrun, ctor_timer_api_iff hrun, rfl⟩

/-! ## With a constructed TimerQueue

    The part of the argument that the constructor would have to provide is the
    queue itself.  `Core` relates the requests to the queue; a request is either
    in the log or still to be added. -/

structure Core (requested : List (TimerId × Timer)) (q : TimerQueue) : Prop where
  inv : Inv q []
  dead : Dead q [] []
  timers : q.timerSet = setAfter ∅ q.log
  kept : ∀ id t, AddedKept q.log id t ↔ .added id t ∈ q.log ∧ ¬ Cancelled q.log id
  requested : ∀ id t, (id, t) ∈ requested ↔ .added id t ∈ q.log ∨
    (id.timer_ ∈ q.fresh ∧ q.heap id.timer_ = some t ∧ t.sequence_ = id.sequence_)

variable {requested : List (TimerId × Timer)} {q q' : TimerQueue}

theorem Core.newTimer (h : Core requested q) {a : Addr} {when : Int} {interval : Seconds}
    (hcall : q.call (.newTimer a when interval) = some q') :
    Core (requested ++ [(⟨a, (Timer.ctor when interval q.numCreated).sequence_⟩,
      Timer.ctor when interval q.numCreated)]) q' := by
  have hinv := h.inv.call hcall
  simp only [TimerQueue.call, Option.ite_none_right_eq_some, Option.some.injEq] at hcall
  obtain ⟨⟨hnone, _, _⟩, rfl⟩ := hcall
  obtain ⟨_, hentry, _, hf⟩ := h.inv.ne_of_free hnone
  refine ⟨hinv, h.dead.newTimer h.inv (List.Subset.refl _) hnone when interval, ?_, h.kept, ?_⟩
  · exact (timerSet_update hentry).trans h.timers
  · intro id t
    rw [List.mem_append, List.mem_singleton, h.requested]
    by_cases haddr : id.timer_ = a
    · -- the address was free, so the new timer is the only one there
      subst haddr
      simp only [hf, false_and, or_false, Finset.mem_insert, true_and, setHeap_self,
        Option.some.injEq, Prod.mk.injEq]
      refine or_congr_right ?_
      constructor
      · intro hcases
        obtain ⟨hid, rfl⟩ := hcases
        exact ⟨rfl, by rw [hid]⟩
      · intro hcases
        obtain ⟨rfl, hseq⟩ := hcases
        exact ⟨by rw [hseq], rfl⟩
    · have hheap : (q.setHeap a (some (Timer.ctor when interval q.numCreated))).heap id.timer_ =
          q.heap id.timer_ := setHeap_of_ne haddr _
      simp only [Finset.mem_insert, haddr, false_or, hheap, Prod.mk.injEq]
      constructor
      · intro hcases
        rcases hcases with hreq | ⟨hid, _⟩
        · exact hreq
        · exact absurd (by rw [hid]) haddr
      · exact Or.inl

/-- An id that is added for the first time has not been cancelled. -/
theorem kept_added {log : List TimerEvent} {id₀ : TimerId} {t₀ : Timer}
    (hkept : ∀ id t, AddedKept log id t ↔ TimerEvent.added id t ∈ log ∧ ¬ Cancelled log id)
    (hnew : ∀ t, TimerEvent.added id₀ t ∉ log) (id : TimerId) (t : Timer) :
    AddedKept (log ++ [TimerEvent.added id₀ t₀]) id t ↔
      TimerEvent.added id t ∈ log ++ [TimerEvent.added id₀ t₀] ∧
        ¬ Cancelled (log ++ [TimerEvent.added id₀ t₀]) id := by
  have hnot : ¬ Cancelled log id₀ := by
    intro ⟨pre, post, hlog, t, hadded⟩
    refine hnew t ?_
    rw [hlog]
    exact List.mem_append_left _ hadded
  rw [addedKept_append, cancelled_append_other (by simp), hkept, List.mem_append,
    List.mem_singleton]
  constructor
  · intro hcases
    rcases hcases with ⟨⟨hmem, hcan⟩, _⟩ | heq
    · exact ⟨Or.inl hmem, hcan⟩
    · obtain ⟨rfl, rfl⟩ := TimerEvent.added.inj heq
      exact ⟨Or.inr rfl, hnot⟩
  · intro hcases
    rcases hcases with ⟨hmem | heq, hcan⟩
    · exact Or.inl ⟨⟨hmem, hcan⟩, by simp⟩
    · exact Or.inr heq.symm

theorem kept_cancelled {log : List TimerEvent} {id₀ : TimerId}
    (hkept : ∀ id t, AddedKept log id t ↔ TimerEvent.added id t ∈ log ∧ ¬ Cancelled log id)
    (id : TimerId) (t : Timer) :
    AddedKept (log ++ [TimerEvent.cancelled id₀]) id t ↔
      TimerEvent.added id t ∈ log ++ [TimerEvent.cancelled id₀] ∧
        ¬ Cancelled (log ++ [TimerEvent.cancelled id₀]) id := by
  rw [addedKept_append, cancelled_append, hkept, List.mem_append, List.mem_singleton]
  simp only [ne_eq, TimerEvent.cancelled.injEq, reduceCtorEq, or_false, not_or, not_and,
    not_exists]
  constructor
  · intro ⟨⟨hmem, hcan⟩, hne⟩
    exact ⟨hmem, hcan, fun heq => absurd heq hne⟩
  · intro ⟨hmem, hcan, hne⟩
    exact ⟨⟨hmem, hcan⟩, fun heq => hne heq t hmem⟩

theorem Core.addTimerInLoop (h : Core requested q) {a : Addr} {now : Int}
    (hcall : q.call (.addTimerInLoop a now) = some q') :
    Core requested q' ∧ q'.fresh = q.fresh.erase a := by
  have hinv := h.inv.call hcall
  rcases call_cases hcall with ⟨_, _, _, hc, _⟩ | ⟨b, tadd, t, hc, hheap, hfresh, _, _, rfl⟩ |
    ⟨_, hc, _⟩
  · cases hc
  · obtain ⟨rfl, rfl⟩ := Call.addTimerInLoop.inj hc
    obtain ⟨hlog, hheap', _, _, _, hfresh'⟩ := startAdd_added hheap now
    refine ⟨⟨hinv, h.dead.addTimerInLoop h.inv hheap hfresh now, ?_, ?_, ?_⟩, hfresh'⟩
    · rw [timerSet_addTimerInLoop (q := q.startAdd a t now) hheap, hlog, setAfter_added,
        ← h.timers]
      rfl
    · -- the id is new to the log, so no earlier cancel counts against it
      rw [hlog]
      exact kept_added h.kept (h.dead.fresh_new a hfresh t hheap)
    · intro id t'
      rw [h.requested, hlog, hheap', hfresh', List.mem_append, List.mem_singleton,
        Finset.mem_erase]
      constructor
      · intro hcases
        rcases hcases with hmem | ⟨hmem, hheap'', hseq⟩
        · exact Or.inl (Or.inl hmem)
        · by_cases haddr : id.timer_ = a
          · -- the request whose turn it is
            rw [haddr, hheap] at hheap''
            obtain rfl := Option.some.inj hheap''
            left
            right
            rw [← haddr, hseq]
          · exact Or.inr ⟨⟨haddr, hmem⟩, hheap'', hseq⟩
      · intro hcases
        rcases hcases with (hmem | heq) | ⟨⟨_, hmem⟩, hrest⟩
        · exact Or.inl hmem
        · obtain ⟨rfl, rfl⟩ := TimerEvent.added.inj heq
          exact Or.inr ⟨hfresh, hheap, rfl⟩
        · exact Or.inr ⟨hmem, hrest⟩
  · cases hc

theorem mem_setAfter_empty {log : List TimerEvent} {id : TimerId} {t : Timer} :
    (id, t) ∈ setAfter ∅ log ↔ AddedKept log id t := by
  constructor
  · intro hcases
    rcases hcases with ⟨hp, _⟩ | hkept
    · exact absurd hp (Set.notMem_empty _)
    · exact hkept
  · exact Or.inr

theorem Core.cancelInLoop (h : Core requested q) {id : TimerId}
    (hcall : q.call (.cancelInLoop id) = some q') : Core requested q' ∧ q'.fresh = q.fresh := by
  have hinv := h.inv.call hcall
  obtain rfl := Option.some.inj hcall
  obtain ⟨evs, hquiet, hlog, hfresh, hheap⟩ := cancelInLoop_events h.inv id
  obtain ⟨hquiet1, _, hquiet3⟩ := append_quiet (q.log ++ [.cancelled id]) evs hquiet
  -- no pass is running, so nothing waits for its turn
  have hwait : ∀ e ∈ ([] : List Entry), q.idOf e ≠ some id := by simp
  have hdead := h.dead.cancelInLoop h.inv (List.Subset.refl _) (fun hne => absurd rfl hne) hwait
  have hset : ((q.record (.cancelled id)).cancelInLoop id).timerSet =
      setAfter ∅ (q.log ++ [.cancelled id]) := by
    rw [timerSet_cancelInLoop (h.inv.record _) id, setAfter_cancelled, ← h.timers]
    rfl
  refine ⟨⟨hinv, hdead, ?_, ?_, ?_⟩, hfresh⟩
  · rw [hlog, setAfter_quiet hquiet, hset]
  · intro id' t
    rw [hlog, hquiet1, hquiet3, ← mem_setAfter_empty, setAfter_quiet hquiet, mem_setAfter_empty]
    exact kept_cancelled h.kept id' t
  · intro id' t
    have hadded : .added id' t ∈ q.log ++ [.cancelled id] ↔ .added id' t ∈ q.log := by simp
    rw [h.requested, hlog, hquiet3, hadded, hfresh]
    refine or_congr_right (and_congr_right fun hmem => ?_)
    rw [hheap _ (h.inv.fresh_idle _ hmem)]

/-- The timers still to be added are those with a functor in the queue. -/
structure ApiInv (s : State) : Prop where
  fault : s.fault = false
  queue : ∃ q, s.timerQueue_ = some q ∧ Core s.requested q ∧
    ∀ a ∈ q.fresh, .addTimerInLoop a ∈ s.loop.pendingFunctors_

theorem ApiInv.ok {s : State} (h : ApiInv s) : ApiOk s := by
  obtain ⟨q, hq, hcore, hpending⟩ := h.queue
  refine ⟨h.fault, ?_⟩
  intro hempty
  -- with no functor queued every requested timer has been inserted
  have hfresh : ∀ a, a ∉ q.fresh := by
    intro a ha
    have := hpending a ha
    rw [hempty] at this
    cases this
  ext ⟨id, t⟩
  have hcancelled : s.wasCancelled id ↔ Cancelled q.log id := by
    simp only [State.wasCancelled, hq]
  have hreq := hcore.requested id t
  simp only [hfresh, false_and, or_false] at hreq
  simp only [State.timerSet, hq, hcore.timers, mem_setAfter_empty, hcore.kept, Set.mem_ofPred_eq,
    hreq, hcancelled]

theorem runInLoop_inv {s s' : State} {inLoop : Bool} {now : Int} {cb : Functor}
    (hrun : runInLoop s q inLoop now cb = some s') (hfault : s.fault = false)
    (hcore : Core s.requested q)
    (hpending : ∀ a ∈ q.fresh, .addTimerInLoop a ∈ s.loop.pendingFunctors_ ∨
      cb = .addTimerInLoop a) : ApiInv s' := by
  unfold runInLoop at hrun
  split at hrun
  · -- in the loop thread: the functor runs at once
    obtain ⟨q₁, hcb, rfl⟩ := Option.map_eq_some_iff.mp hrun
    cases cb with
    | addTimerInLoop a =>
      obtain ⟨hcore₁, hfresh⟩ := hcore.addTimerInLoop hcb
      refine ⟨hfault, q₁, rfl, hcore₁, ?_⟩
      intro b hb
      rw [hfresh] at hb
      obtain ⟨hne, hb⟩ := Finset.mem_erase.mp hb
      rcases hpending b hb with hmem | heq
      · exact hmem
      · exact absurd (Functor.addTimerInLoop.inj heq).symm hne
    | cancelInLoop id =>
      obtain ⟨hcore₁, hfresh⟩ := hcore.cancelInLoop hcb
      refine ⟨hfault, q₁, rfl, hcore₁, ?_⟩
      intro b hb
      rw [hfresh] at hb
      rcases hpending b hb with hmem | heq
      · exact hmem
      · cases heq
  · -- from another thread: the functor is queued
    obtain rfl := Option.some.inj hrun
    refine ⟨hfault, q, rfl, hcore, ?_⟩
    intro b hb
    rw [EventLoop.queueInLoop_pendingFunctors_, List.mem_append, List.mem_singleton]
    rcases hpending b hb with hmem | heq
    · exact Or.inl hmem
    · exact Or.inr heq.symm

theorem addTimer_inv {s s' : State} {inLoop : Bool} {when now : Int} {interval : Seconds}
    {timer : Addr} (h : ApiInv s) (hadd : addTimer s inLoop when interval timer now = some s') :
    ApiInv s' := by
  obtain ⟨q, hq, hcore, hpending⟩ := h.queue
  simp only [addTimer, hq, Option.bind_eq_some_iff] at hadd
  obtain ⟨q₁, hnew, hrun⟩ := hadd
  have hpending₁ : ∀ a ∈ q₁.fresh, .addTimerInLoop a ∈ s.loop.pendingFunctors_ ∨
      Functor.addTimerInLoop timer = .addTimerInLoop a := by
    intro a ha
    simp only [TimerQueue.call, Option.ite_none_right_eq_some, Option.some.injEq] at hnew
    obtain ⟨_, rfl⟩ := hnew
    rcases Finset.mem_insert.mp ha with rfl | ha
    · exact Or.inr rfl
    · exact Or.inl (hpending a ha)
  exact runInLoop_inv hrun h.fault (hcore.newTimer hnew) hpending₁

theorem cancel_inv {s s' : State} {inLoop : Bool} {id : TimerId} {now : Int} (h : ApiInv s)
    (hcancel : cancel s inLoop id now = some s') : ApiInv s' := by
  obtain ⟨q, hq, hcore, hpending⟩ := h.queue
  simp only [cancel, hq] at hcancel
  exact runInLoop_inv hcancel h.fault hcore (fun a ha => Or.inl (hpending a ha))

/-- Taking one functor off the queue leaves the others. -/
theorem mem_eraseIdx_of_ne {l : List Functor} {i : Nat} {x y : Functor} (hy : l[i]? = some y)
    (hx : x ∈ l) (hne : x ≠ y) : x ∈ l.eraseIdx i := by
  rw [List.mem_eraseIdx_iff_getElem?]
  obtain ⟨j, hj⟩ := List.mem_iff_getElem?.mp hx
  refine ⟨j, ?_, hj⟩
  intro heq
  subst heq
  exact hne (Option.some.inj (hj.symm.trans hy))

theorem runFunctor_inv {s s' : State} {i : Nat} {now : Int} (h : ApiInv s)
    (hstep : next s (.runFunctor i now) = some s') : ApiInv s' := by
  obtain ⟨q, hq, hcore, hpending⟩ := h.queue
  simp only [next, h.fault, Bool.false_eq_true, if_false, hq] at hstep
  split at hstep
  · rename_i cb q₀ hcb hq₀
    obtain rfl := Option.some.inj hq₀
    obtain ⟨q₁, hrun, rfl⟩ := Option.map_eq_some_iff.mp hstep
    cases cb with
    | addTimerInLoop a =>
      obtain ⟨hcore₁, hfresh⟩ := hcore.addTimerInLoop hrun
      refine ⟨rfl, q₁, rfl, hcore₁, ?_⟩
      intro b hb
      rw [hfresh] at hb
      obtain ⟨hne, hb⟩ := Finset.mem_erase.mp hb
      refine mem_eraseIdx_of_ne hcb (hpending b hb) ?_
      simpa using hne
    | cancelInLoop id =>
      obtain ⟨hcore₁, hfresh⟩ := hcore.cancelInLoop hrun
      refine ⟨rfl, q₁, rfl, hcore₁, ?_⟩
      intro b hb
      rw [hfresh] at hb
      exact mem_eraseIdx_of_ne hcb (hpending b hb) (by simp)
  · cases hstep

theorem next_inv {s s' : State} {l : Label} (h : ApiInv s) (hstep : next s l = some s') :
    ApiInv s' := by
  cases l with
  | runFunctor i now => exact runFunctor_inv h hstep
  | runAt inLoop time timer now =>
    simp only [next, h.fault, Bool.false_eq_true, if_false] at hstep
    exact addTimer_inv h hstep
  | runAfter inLoop delay tnow timer now =>
    simp only [next, h.fault, Bool.false_eq_true, if_false] at hstep
    exact addTimer_inv h hstep
  | runEvery inLoop interval tnow timer now =>
    simp only [next, h.fault, Bool.false_eq_true, if_false] at hstep
    exact addTimer_inv h hstep
  | cancel inLoop timerId now =>
    simp only [next, h.fault, Bool.false_eq_true, if_false] at hstep
    exact cancel_inv h hstep

/-- With a constructed `TimerQueue`, every sequence of calls, from any threads and
    with the queued functors run in any order, leaves the requested timers less
    the cancelled ones. -/
theorem timer_api_constructed {s : State} {ls : List Label}
    (hrun : machine.run { timerQueue_ := some {} } ls = some s) : ApiOk s := by
  have hinit : ApiInv { timerQueue_ := some {} } := by
    refine ⟨rfl, {}, rfl, ⟨TimerState.good_init.inv, TimerState.dead_init, ?_, ?_, ?_⟩, ?_⟩
    · rw [setAfter_nil]
      ext ⟨id, t⟩
      rw [TimerState.good_init.inv.mem_timerSet]
      simp
    · intro id t
      rw [← mem_setAfter_empty, setAfter_nil]
      simp
    · simp
    · simp
  exact (machine.run_invariant (fun _ _ _ h hstep => next_inv h hstep) hinit hrun).ok

end TimerApi
