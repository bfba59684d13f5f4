import Mathlib.Logic.Function.Basic
import Mathlib.Data.List.Infix
import Mymuduo.Framework.BatchQueue
import Mymuduo.Net.EventLoop

/-! # EventLoop under any number of threads

    One event loop, its own thread and any other threads, at the granularity
    of single accesses: `queueInLoop` is a push under the mutex, the wake test
    and the eventfd write; `loop` is the `while` test, `poll`, the event
    handlers (among them `EventLoop::handleRead`), and `doPendingFunctors` is
    flag set, swap, one functor after the other, flag clear.

    Other threads call `queueInLoop` at any time, the loop thread from event
    handlers, from running functors and outside `loop()`.

    * `no_lost_wakeup`: the loop never sits in `poll` with queued work and no
      wakeup on its way, provided the loop thread itself queues work from
      handlers and functors only.
    * `functor_queue_fifo`: functors run in the order of their pushes, each
      once, and never in the batch during which they were queued.
-/

namespace EventLoopThreads

/-! ## State -/

/-- Where the loop thread is. -/
inductive LoopPc where
  /-- Not inside `loop()`. -/
  | outside
  /-- At the test of `while (!quit_)`. -/
  | test
  /-- At or blocked in `poller_->poll`. -/
  | poll
  /-- In `for (Channel *channel : activeChannels_)`. -/
  | handlers
  /-- In `doPendingFunctors`, flag set, before the swap. -/
  | calling
  /-- In `doPendingFunctors`, after the swap. -/
  | running
  deriving DecidableEq, Repr

/-- Where a thread is inside `queueInLoop` or `quit`. -/
inductive CallPc where
  | idle
  /-- The functor is pushed, the wake test is still to come. -/
  | pushed
  /-- The wake test said yes, `wakeup()` is still to come. -/
  | waking
  /-- In `quit`, `quit_` is set, `wakeup()` is still to come. -/
  | quitting
  deriving DecidableEq, Repr

/-- A queued functor.  The thread is ghost data (no code reads it): it says
    whose program order the functor belongs to. -/
structure Queued (Tid F : Type) where
  thread : Tid
  functor : F
  deriving DecidableEq, Repr

structure State (Tid F : Type) where
  loop : EventLoop (Queued Tid F) := {}
  pc : LoopPc := .outside
  call : Tid → CallPc := fun _ => .idle
  /-- Ghost: the functors executed so far. -/
  executed : List (Queued Tid F) := []

inductive Label (Tid F : Type) where
  | push (t : Tid) (cb : F)
  | test (t : Tid)
  | wakeup (t : Tid)
  | quit (t : Tid)
  | enter
  | whileTest
  | poll
  | handleRead
  | flagSet
  | swap
  | runFunctor
  | flagClear
  deriving DecidableEq, Repr

section
variable {Tid F : Type} [DecidableEq Tid]

/-! ## Steps -/

/-- A thread may enter `queueInLoop` or `quit` when it is not inside one; the
    loop thread runs user code in event handlers, in functors and outside
    `loop()`. -/
def State.mayCall (threadId_ : Tid) (s : State Tid F) (t : Tid) : Prop :=
  s.call t = .idle ∧
    (t = threadId_ → s.pc = .outside ∨ s.pc = .handlers ∨ s.pc = .running)

instance (threadId_ : Tid) (s : State Tid F) (t : Tid) : Decidable (s.mayCall threadId_ t) :=
  inferInstanceAs (Decidable (_ ∧ (_ → _)))

/-- The loop thread moves on from `pc`; it is not inside a call then. -/
def State.at (threadId_ : Tid) (s : State Tid F) (pc : LoopPc) : Prop :=
  s.pc = pc ∧ s.call threadId_ = .idle

instance (threadId_ : Tid) (s : State Tid F) (pc : LoopPc) : Decidable (s.at threadId_ pc) :=
  inferInstanceAs (Decidable (_ ∧ _))

def next (threadId_ : Tid) (s : State Tid F) : Label Tid F → Option (State Tid F)
  | .push t cb =>
    if s.mayCall threadId_ t then
      some { s with
        loop := s.loop.push ⟨t, cb⟩
        call := Function.update s.call t .pushed }
    else none
  | .test t =>
    if s.call t = .pushed then
      some { s with
        call := Function.update s.call t
          (if s.loop.mustWake (decide (t = threadId_)) then .waking else .idle) }
    else none
  | .wakeup t =>
    if s.call t = .waking ∨ s.call t = .quitting then
      some { s with loop := s.loop.wakeup, call := Function.update s.call t .idle }
    else none
  | .quit t =>
    if s.mayCall threadId_ t then
      some { s with
        loop := s.loop.quit
        call := Function.update s.call t (if t = threadId_ then .idle else .quitting) }
    else none
  | .enter =>
    if s.at threadId_ .outside then some { s with loop := s.loop.loopEntry, pc := .test }
    else none
  | .whileTest =>
    if s.at threadId_ .test then
      if s.loop.quit_ then some { s with loop := s.loop.loopExit, pc := .outside }
      else some { s with pc := .poll }
    else none
  | .poll =>
    if s.at threadId_ .poll then some { s with pc := .handlers } else none
  | .handleRead =>
    if s.at threadId_ .handlers then some { s with loop := s.loop.handleRead } else none
  | .flagSet =>
    if s.at threadId_ .handlers then
      some { s with loop := s.loop.beginPending, pc := .calling }
    else none
  | .swap =>
    if s.at threadId_ .calling then some { s with loop := s.loop.swapFunctors, pc := .running }
    else none
  | .runFunctor =>
    if s.at threadId_ .running then
      match s.loop.functors with
      | [] => none
      | f :: rest =>
        some { s with loop := { s.loop with functors := rest }, executed := s.executed ++ [f] }
    else none
  | .flagClear =>
    if s.at threadId_ .running ∧ s.loop.functors = [] then
      some { s with loop := s.loop.endPending, pc := .test }
    else none

/-- The loop with its threads, from the state its constructor leaves. -/
def machine (threadId_ : Tid) : Machine (State Tid F) (Label Tid F) where
  init := fun s => s = {}
  next := next threadId_

/-- What each step needs and does. -/
inductive Step (threadId_ : Tid) (s : State Tid F) : Label Tid F → State Tid F → Prop where
  | push (t : Tid) (cb : F) (hmay : s.mayCall threadId_ t) :
    Step threadId_ s (.push t cb)
      { s with loop := s.loop.push ⟨t, cb⟩, call := Function.update s.call t .pushed }
  | test (t : Tid) (hpushed : s.call t = .pushed) :
    Step threadId_ s (.test t)
      { s with
        call := Function.update s.call t
          (if s.loop.mustWake (decide (t = threadId_)) then .waking else .idle) }
  | wakeup (t : Tid) (hcall : s.call t = .waking ∨ s.call t = .quitting) :
    Step threadId_ s (.wakeup t)
      { s with loop := s.loop.wakeup, call := Function.update s.call t .idle }
  | quit (t : Tid) (hmay : s.mayCall threadId_ t) :
    Step threadId_ s (.quit t)
      { s with
        loop := s.loop.quit
        call := Function.update s.call t (if t = threadId_ then .idle else .quitting) }
  | enter (hat : s.at threadId_ .outside) :
    Step threadId_ s .enter { s with loop := s.loop.loopEntry, pc := .test }
  | leave (hat : s.at threadId_ .test) (hquit : s.loop.quit_ = true) :
    Step threadId_ s .whileTest { s with loop := s.loop.loopExit, pc := .outside }
  | proceed (hat : s.at threadId_ .test) (hquit : s.loop.quit_ = false) :
    Step threadId_ s .whileTest { s with pc := .poll }
  | poll (hat : s.at threadId_ .poll) : Step threadId_ s .poll { s with pc := .handlers }
  | handleRead (hat : s.at threadId_ .handlers) :
    Step threadId_ s .handleRead { s with loop := s.loop.handleRead }
  | flagSet (hat : s.at threadId_ .handlers) :
    Step threadId_ s .flagSet { s with loop := s.loop.beginPending, pc := .calling }
  | swap (hat : s.at threadId_ .calling) :
    Step threadId_ s .swap { s with loop := s.loop.swapFunctors, pc := .running }
  | runFunctor (f : Queued Tid F) (rest : List (Queued Tid F)) (hat : s.at threadId_ .running)
    (hfunctors : s.loop.functors = f :: rest) :
    Step threadId_ s .runFunctor
      { s with loop := { s.loop with functors := rest }, executed := s.executed ++ [f] }
  | flagClear (hat : s.at threadId_ .running) (hempty : s.loop.functors = []) :
    Step threadId_ s .flagClear { s with loop := s.loop.endPending, pc := .test }

theorem next_step {threadId_ : Tid} {s s' : State Tid F} {l : Label Tid F}
    (h : next threadId_ s l = some s') : Step threadId_ s l s' := by
  cases l with
  | push t cb =>
    simp only [next, Option.ite_none_right_eq_some, Option.some.injEq] at h
    obtain ⟨hmay, rfl⟩ := h
    exact .push t cb hmay
  | test t =>
    simp only [next, Option.ite_none_right_eq_some, Option.some.injEq] at h
    obtain ⟨hpushed, rfl⟩ := h
    exact .test t hpushed
  | wakeup t =>
    simp only [next, Option.ite_none_right_eq_some, Option.some.injEq] at h
    obtain ⟨hcall, rfl⟩ := h
    exact .wakeup t hcall
  | quit t =>
    simp only [next, Option.ite_none_right_eq_some, Option.some.injEq] at h
    obtain ⟨hmay, rfl⟩ := h
    exact .quit t hmay
  | enter =>
    simp only [next, Option.ite_none_right_eq_some, Option.some.injEq] at h
    obtain ⟨hat, rfl⟩ := h
    exact .enter hat
  | whileTest =>
    simp only [next, Option.ite_none_right_eq_some] at h
    obtain ⟨hat, h⟩ := h
    split at h
    · rename_i hquit
      obtain rfl := Option.some.inj h
      exact .leave hat hquit
    · rename_i hquit
      obtain rfl := Option.some.inj h
      exact .proceed hat (Bool.eq_false_iff.mpr hquit)
  | poll =>
    simp only [next, Option.ite_none_right_eq_some, Option.some.injEq] at h
    obtain ⟨hat, rfl⟩ := h
    exact .poll hat
  | handleRead =>
    simp only [next, Option.ite_none_right_eq_some, Option.some.injEq] at h
    obtain ⟨hat, rfl⟩ := h
    exact .handleRead hat
  | flagSet =>
    simp only [next, Option.ite_none_right_eq_some, Option.some.injEq] at h
    obtain ⟨hat, rfl⟩ := h
    exact .flagSet hat
  | swap =>
    simp only [next, Option.ite_none_right_eq_some, Option.some.injEq] at h
    obtain ⟨hat, rfl⟩ := h
    exact .swap hat
  | runFunctor =>
    simp only [next, Option.ite_none_right_eq_some] at h
    obtain ⟨hat, h⟩ := h
    split at h
    · cases h
    · rename_i f rest hfunctors
      obtain rfl := Option.some.inj h
      exact .runFunctor f rest hat hfunctors
  | flagClear =>
    simp only [next, Option.ite_none_right_eq_some, Option.some.injEq] at h
    obtain ⟨⟨hat, hempty⟩, rfl⟩ := h
    exact .flagClear hat hempty

/-! ## No lost wakeup -/

/-- A wakeup is there or on its way: the eventfd is readable, or a thread has
    pushed and has not yet performed its `wakeup()`. -/
def State.wakePending (s : State Tid F) : Prop :=
  0 < s.loop.wakeupCount ∨ ∃ t, s.call t = .pushed ∨ s.call t = .waking

/-- The loop thread queues work from event handlers and from functors. -/
def QueuesInside (threadId_ : Tid) (s : State Tid F) : Label Tid F → Prop
  | .push t _ => t = threadId_ → s.pc ≠ .outside
  | _ => True

instance (threadId_ : Tid) (s : State Tid F) :
    (l : Label Tid F) → Decidable (QueuesInside threadId_ s l)
  | .push _ _ => inferInstanceAs (Decidable (_ → _))
  | .test _ | .wakeup _ | .quit _ | .enter | .whileTest | .poll | .handleRead | .flagSet
  | .swap | .runFunctor | .flagClear => isTrue trivial

/-- Queued work is either still ahead of this iteration's swap or covered by a
    wakeup. -/
structure WakeInv (threadId_ : Tid) (s : State Tid F) : Prop where
  covered : s.loop.pendingFunctors_ ≠ [] →
    s.pc = .handlers ∨ s.pc = .calling ∨ s.wakePending
  flag : s.loop.callingPendingFunctors_ = true ↔ s.pc = .calling ∨ s.pc = .running
  in_call : s.call threadId_ ≠ .idle → s.pc = .handlers ∨ s.pc = .running

omit [DecidableEq Tid] in
theorem wakeInv_init (threadId_ : Tid) : WakeInv threadId_ ({} : State Tid F) where
  covered := fun h => absurd rfl h
  flag := by simp
  in_call := fun h => absurd rfl h

omit [DecidableEq Tid] in
/-- Outside the stretch from `poll`'s return to the swap, queued work has a
    wakeup pending. -/
theorem WakeInv.wakePending {threadId_ : Tid} {s : State Tid F} (h : WakeInv threadId_ s)
    (hh : s.pc ≠ .handlers) (hc : s.pc ≠ .calling) (hne : s.loop.pendingFunctors_ ≠ []) :
    s.wakePending := by
  rcases h.covered hne with h | h | h
  · exact absurd h hh
  · exact absurd h hc
  · exact h

/-- Where the loop thread's call counter is written only for thread `t`, the
    loop thread is still only inside calls from handlers and functors. -/
theorem WakeInv.in_call_update {threadId_ : Tid} {s : State Tid F} (h : WakeInv threadId_ s)
    {t : Tid} {c : CallPc}
    (ht : t = threadId_ → c ≠ .idle → s.pc = .handlers ∨ s.pc = .running)
    (hne : Function.update s.call t c threadId_ ≠ .idle) :
    s.pc = .handlers ∨ s.pc = .running := by
  by_cases heq : t = threadId_
  · -- the loop thread itself
    subst heq
    exact ht rfl (by simpa using hne)
  · rw [Function.update_of_ne (Ne.symm heq)] at hne
    exact h.in_call hne

theorem wakeInv_push {threadId_ : Tid} {s s' : State Tid F} {t : Tid} {cb : F}
    (hinv : WakeInv threadId_ s) (hin : QueuesInside threadId_ s (.push t cb))
    (hstep : next threadId_ s (.push t cb) = some s') : WakeInv threadId_ s' := by
  cases next_step hstep
  rename_i hmay
  -- the pusher itself now covers the queue
  refine ⟨fun _ => Or.inr (Or.inr (Or.inr ⟨t, Or.inl (by simp)⟩)), hinv.flag,
    hinv.in_call_update ?_⟩
  intro ht _
  subst ht
  exact (hmay.2 rfl).resolve_left (hin rfl)

theorem wakeInv_test {threadId_ : Tid} {s s' : State Tid F} {t : Tid}
    (hinv : WakeInv threadId_ s) (hstep : next threadId_ s (.test t) = some s') :
    WakeInv threadId_ s' := by
  cases next_step hstep
  rename_i hpushed
  have hpc : t = threadId_ → s.pc = .handlers ∨ s.pc = .running := by
    intro ht
    apply hinv.in_call
    rw [← ht, hpushed]
    decide
  refine ⟨fun _ => ?_, hinv.flag, hinv.in_call_update fun ht _ => hpc ht⟩
  by_cases hw : s.loop.mustWake (decide (t = threadId_)) = true
  · exact Or.inr (Or.inr (Or.inr ⟨t, Or.inr (by simp [hw])⟩))
  · -- only the loop thread outside `doPendingFunctors` is let off the wakeup
    have hloop : t = threadId_ ∧ s.loop.callingPendingFunctors_ = false := by
      simpa [EventLoop.mustWake] using hw
    rcases hpc hloop.1 with hpc | hpc
    · exact Or.inl hpc
    · have hset := hinv.flag.mpr (Or.inr hpc)
      rw [hloop.2] at hset
      cases hset

theorem wakeInv_wakeup {threadId_ : Tid} {s s' : State Tid F} {t : Tid}
    (hinv : WakeInv threadId_ s) (hstep : next threadId_ s (.wakeup t) = some s') :
    WakeInv threadId_ s' := by
  cases next_step hstep
  exact ⟨fun _ => Or.inr (Or.inr (Or.inl s.loop.wakeup_count_pos)), by simpa using hinv.flag,
    hinv.in_call_update fun _ hne => absurd rfl hne⟩

theorem wakeInv_quit {threadId_ : Tid} {s s' : State Tid F} {t : Tid}
    (hinv : WakeInv threadId_ s) (hstep : next threadId_ s (.quit t) = some s') :
    WakeInv threadId_ s' := by
  cases next_step hstep
  rename_i hmay
  refine ⟨fun hne => ?_, hinv.flag, hinv.in_call_update fun ht hne => ?_⟩
  swap
  · -- in its own thread `quit` performs no wakeup
    exact absurd (if_pos ht) hne
  -- the wakeup that was pending still is: `t` was in no call
  rcases hinv.covered hne with h | h | h | ⟨u, hu⟩
  · exact Or.inl h
  · exact Or.inr (Or.inl h)
  · exact Or.inr (Or.inr (Or.inl h))
  · have hut : u ≠ t := by
      intro heq
      subst heq
      rw [hmay.1] at hu
      simp at hu
    exact Or.inr (Or.inr (Or.inr ⟨u, by simpa [Function.update_of_ne hut] using hu⟩))

theorem wakeInv_step {threadId_ : Tid} (s : State Tid F) (l : Label Tid F) (s' : State Tid F)
    (hinv : WakeInv threadId_ s) (hin : QueuesInside threadId_ s l)
    (hstep : next threadId_ s l = some s') : WakeInv threadId_ s' := by
  have hflag := hinv.flag
  cases next_step hstep with
  | push t cb _ => exact wakeInv_push hinv hin hstep
  | test t _ => exact wakeInv_test hinv hstep
  | wakeup t _ => exact wakeInv_wakeup hinv hstep
  | quit t _ => exact wakeInv_quit hinv hstep
  | enter hat =>
    obtain ⟨hpc, hidle⟩ := hat
    have hw := hinv.wakePending (by simp [hpc]) (by simp [hpc])
    refine ⟨fun hne => Or.inr (Or.inr (hw hne)), ?_, fun hne => absurd hidle hne⟩
    simpa [EventLoop.loopEntry, hpc] using hflag
  | leave hat _ | proceed hat _ =>
    obtain ⟨hpc, hidle⟩ := hat
    have hw := hinv.wakePending (by simp [hpc]) (by simp [hpc])
    refine ⟨fun hne => Or.inr (Or.inr (hw hne)), ?_, fun hne => absurd hidle hne⟩
    simpa [EventLoop.loopExit, hpc] using hflag
  -- `poll` returns: the swap of this iteration is ahead
  | poll hat =>
    obtain ⟨hpc, hidle⟩ := hat
    refine ⟨fun _ => Or.inl rfl, ?_, fun hne => absurd hidle hne⟩
    simpa [hpc] using hflag
  | handleRead hat =>
    -- the counter is reset, but this iteration's swap is still ahead
    exact ⟨fun _ => Or.inl hat.1, hflag, hinv.in_call⟩
  | flagSet hat =>
    exact ⟨fun _ => Or.inr (Or.inl rfl), by simp [EventLoop.beginPending],
      fun hne => absurd hat.2 hne⟩
  | swap hat =>
    obtain ⟨hpc, hidle⟩ := hat
    refine ⟨fun hne => absurd rfl hne, ?_, fun _ => Or.inr rfl⟩
    simpa [EventLoop.swapFunctors, hpc] using hflag
  | runFunctor f rest _ _ => exact ⟨hinv.covered, hflag, hinv.in_call⟩
  -- what was queued since the swap has its wakeup, for the flag was set
  | flagClear hat _ =>
    obtain ⟨hpc, hidle⟩ := hat
    have hw := hinv.wakePending (by simp [hpc]) (by simp [hpc])
    exact ⟨fun hne => Or.inr (Or.inr (hw hne)), by simp [EventLoop.endPending],
      fun hne => absurd hidle hne⟩

/-- Run lemma for the wakeup invariant. -/
theorem wakeInv_run {threadId_ : Tid} {s : State Tid F} {ls : List (Label Tid F)}
    (hrun : (machine threadId_).run {} ls = some s)
    (hin : (machine threadId_).Along (QueuesInside threadId_) {} ls) :
    WakeInv threadId_ s :=
  (machine threadId_).run_invariant_along wakeInv_step (wakeInv_init threadId_) hin hrun

/-- In every interleaving in which the loop thread queues work from handlers and
    functors: whenever the loop thread is at or in `poll` with functors queued,
    the eventfd counter is positive or some thread has pushed and not yet
    performed its `wakeup()`. -/
theorem no_lost_wakeup {threadId_ : Tid} {s : State Tid F} {ls : List (Label Tid F)}
    (hrun : (machine threadId_).run {} ls = some s)
    (hin : (machine threadId_).Along (QueuesInside threadId_) {} ls)
    (hpoll : s.pc = .poll) (hne : s.loop.pendingFunctors_ ≠ []) :
    0 < s.loop.wakeupCount ∨ ∃ t, s.call t = .pushed ∨ s.call t = .waking :=
  (wakeInv_run hrun hin).wakePending (by simp [hpoll]) (by simp [hpoll]) hne

/-- A functor queues another one while it runs: the loop is back in `poll` with
    that functor pending, and a wakeup is there. -/
theorem no_lost_wakeup_requeue :
    ∃ (ls : List (Label Nat Unit)) (s : State Nat Unit), (machine 0).run {} ls = some s ∧
      s.pc = .poll ∧ s.loop.pendingFunctors_ = [⟨0, ()⟩] ∧
      (0 < s.loop.wakeupCount ∨ ∃ t, s.call t = .pushed ∨ s.call t = .waking) := by
  have hrun : (machine 0).run {} [.push 1 (), .test 1, .enter, .whileTest, .wakeup 1, .poll,
      .handleRead, .flagSet, .swap, .runFunctor, .push 0 (), .test 0, .wakeup 0, .flagClear,
      .whileTest] = some _ := rfl
  refine ⟨_, _, hrun, rfl, rfl, no_lost_wakeup hrun (by decide) rfl (by decide)⟩

/-! ## The functor queue -/

/-- What a step does to the functor queue. -/
def Label.op : Label Tid F → BatchQueue.Op (Queued Tid F)
  | .push t cb => .push ⟨t, cb⟩
  | .swap => .swap
  | .runFunctor => .pop
  | _ => .skip

/-- The functors a schedule pushes, in the order of the critical sections. -/
def pushes (ls : List (Label Tid F)) : List (Queued Tid F) :=
  BatchQueue.pushed (ls.map Label.op)

/-- The queue as a queue drained in batches. -/
def State.queue (s : State Tid F) : BatchQueue (Queued Tid F) :=
  ⟨s.executed, s.loop.functors, s.loop.pendingFunctors_⟩

/-- Outside the loop of `doPendingFunctors` there is no local batch. -/
def BatchInv (s : State Tid F) : Prop :=
  s.pc ≠ .running → s.loop.functors = []

/-- Every step of the loop and its threads is a step of the batch queue. -/
theorem queue_step {threadId_ : Tid} {s s' : State Tid F} {l : Label Tid F}
    (hinv : BatchInv s) (hstep : next threadId_ s l = some s') :
    s.queue.next l.op = some s'.queue ∧ BatchInv s' := by
  cases next_step hstep with
  | push t cb _ => exact ⟨rfl, hinv⟩
  | test t _ => exact ⟨rfl, hinv⟩
  | wakeup t _ =>
    refine ⟨by simp [Label.op, BatchQueue.next, State.queue], ?_⟩
    intro hpc
    simpa using hinv hpc
  | quit t _ => exact ⟨rfl, hinv⟩
  | handleRead _ => exact ⟨rfl, hinv⟩
  | enter hat | leave hat _ | proceed hat _ | poll hat | flagSet hat =>
    -- there is no batch before the step either
    exact ⟨rfl, fun _ => hinv (by simp [hat.1])⟩
  | swap hat =>
    -- the swapped-in vector is the fresh local one
    have hempty := hinv (by simp [hat.1])
    refine ⟨?_, fun hne => absurd rfl hne⟩
    simp [Label.op, BatchQueue.next, State.queue, EventLoop.swapFunctors, hempty]
  | runFunctor f rest hat hfunctors =>
    refine ⟨?_, fun hne => absurd hat.1 hne⟩
    simp [Label.op, BatchQueue.next, State.queue, hfunctors]
  | flagClear _ hempty => exact ⟨rfl, fun _ => hempty⟩

theorem batchInv_run {threadId_ : Tid} {s s' : State Tid F} {ls : List (Label Tid F)}
    (hinv : BatchInv s) (hrun : (machine threadId_).run s ls = some s') : BatchInv s' :=
  (machine threadId_).run_invariant (fun _ _ _ h hstep => (queue_step h hstep).2) hinv hrun

/-- Run lemma: a run of the loop and its threads is a run of the batch queue. -/
theorem queue_run {threadId_ : Tid} {s s' : State Tid F} {ls : List (Label Tid F)}
    (hinv : BatchInv s) (hrun : (machine threadId_).run s ls = some s') :
    BatchQueue.machine.run s.queue (ls.map Label.op) = some s'.queue :=
  Machine.run_map (m := machine threadId_) (n := BatchQueue.machine) State.queue Label.op
    (fun _ _ _ h hstep => (queue_step h hstep).2)
    (fun _ _ _ h hstep => (queue_step h hstep).1) hinv hrun

omit [DecidableEq Tid] in
theorem batchInv_init : BatchInv ({} : State Tid F) := fun _ => rfl

theorem queue_history {threadId_ : Tid} {s : State Tid F} {ls : List (Label Tid F)}
    (hrun : (machine threadId_).run {} ls = some s) :
    s.executed ++ s.loop.functors ++ s.loop.pendingFunctors_ = pushes ls := by
  have hhist := BatchQueue.history_run (queue_run batchInv_init hrun)
  simpa [BatchQueue.history, State.queue, pushes] using hhist

omit [DecidableEq Tid] in
theorem Label.op_eq_swap {l : Label Tid F} : l.op = .swap ↔ l = .swap := by
  cases l <;> simp [Label.op]

/-- What runs between a swap and the next one was pushed before the swap. -/
theorem batch_committed {threadId_ : Tid} {s s₁ s₂ : State Tid F}
    {ls ks : List (Label Tid F)} (hrun : (machine threadId_).run {} ls = some s)
    (hswap : next threadId_ s .swap = some s₁) (hks : Label.swap ∉ ks)
    (hrun₂ : (machine threadId_).run s₁ ks = some s₂) :
    s₂.executed ++ s₂.loop.functors = pushes ls := by
  have hinv := batchInv_run batchInv_init hrun
  have hq := queue_step hinv hswap
  have hnot : BatchQueue.Op.swap ∉ ks.map Label.op := by
    intro hmem
    obtain ⟨l, hl, hop⟩ := List.mem_map.mp hmem
    rw [Label.op_eq_swap] at hop
    exact hks (hop ▸ hl)
  have hstart := BatchQueue.committed_swap hq.1
  have hend := BatchQueue.committed_run (queue_run hq.2 hrun₂) hnot
  calc s₂.executed ++ s₂.loop.functors
      = s₁.executed ++ s₁.loop.functors := hend
    _ = s.executed ++ s.loop.functors ++ s.loop.pendingFunctors_ := hstart
    _ = pushes ls := queue_history hrun

/-- The functor queue is FIFO and exactly-once.  In the state a schedule `ls`
    leads to: executed functors, the rest of the batch and `pendingFunctors_`
    are the pushes in the order of the critical sections; so the functors of
    each thread have run in that thread's program order, none has run more
    often than it was pushed, and between a swap and the next one only functors
    pushed before the swap run. -/
theorem functor_queue_fifo [DecidableEq F] {threadId_ : Tid} {s : State Tid F}
    {ls : List (Label Tid F)} (hrun : (machine threadId_).run {} ls = some s) :
    s.executed ++ s.loop.functors ++ s.loop.pendingFunctors_ = pushes ls ∧
    (∀ t, (s.executed.filter (·.thread = t)) <+: ((pushes ls).filter (·.thread = t))) ∧
    (∀ f, s.executed.count f ≤ (pushes ls).count f) ∧
    (∀ s₁ ks s₂, next threadId_ s .swap = some s₁ → Label.swap ∉ ks →
      (machine threadId_).run s₁ ks = some s₂ → s₂.executed <+: pushes ls) := by
  have hhist := queue_history hrun
  -- executed functors are a prefix of the pushes; the rest follows from that
  have hprefix : s.executed <+: pushes ls :=
    ⟨s.loop.functors ++ s.loop.pendingFunctors_, by rw [← hhist, List.append_assoc]⟩
  refine ⟨hhist, ?_, ?_, ?_⟩
  · intro t
    exact hprefix.filter _
  · intro f
    exact hprefix.sublist.count_le f
  · intro s₁ ks s₂ hswap hks hrun₂
    exact ⟨s₂.loop.functors, batch_committed hrun hswap hks hrun₂⟩

/-- Thread 1 queues two functors, and the first of them queues a third while it
    runs: the third waits for the next batch. -/
theorem functor_queue_fifo_requeue :
    ∃ (ls : List (Label Nat Nat)) (s : State Nat Nat), (machine 0).run {} ls = some s ∧
      s.executed = [⟨1, 10⟩, ⟨2, 30⟩] ∧ s.loop.functors = [⟨1, 20⟩] ∧
      s.loop.pendingFunctors_ = [⟨0, 40⟩] ∧
      s.executed ++ s.loop.functors ++ s.loop.pendingFunctors_ = pushes ls := by
  have hrun : (machine 0).run {} [.push 1 10, .test 1, .push 2 30, .wakeup 1, .push 1 20,
      .enter, .whileTest, .poll, .flagSet, .swap, .runFunctor, .push 0 40, .test 0, .wakeup 0,
      .runFunctor] = some _ := rfl
  exact ⟨_, _, hrun, rfl, rfl, rfl, (functor_queue_fifo hrun).1⟩

end

end EventLoopThreads
