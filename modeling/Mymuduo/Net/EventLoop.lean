import Mathlib.Algebra.Group.Nat.Defs
import Mathlib.Data.List.Basic

/-! # EventLoop: the functor queue and the wakeup descriptor

    The members of `EventLoop` that `queueInLoop`, `quit`, `loop` and
    `doPendingFunctors` work on, and those functions cut at the points where
    another thread can run: each definition below is one critical section,
    one atomic access or one system call of the source.

    The model is generic in what a functor is; the systems built on it choose
    their own functor type.
-/

/-- The largest value an eventfd counter holds. -/
def eventfdMax : Nat := 2 ^ 64 - 2

/-- `EventLoop`: the flags, the pending functors, the local `functors` vector
    of `doPendingFunctors` (what is left of it to run) and the counter of
    `wakeupFd_`. -/
structure EventLoop (Functor : Type) where
  looping_ : Bool := false
  quit_ : Bool := false
  callingPendingFunctors_ : Bool := false
  pendingFunctors_ : List Functor := []
  functors : List Functor := []
  wakeupCount : Nat := 0
  deriving DecidableEq

namespace EventLoop

variable {Functor : Type}

/-! ## The wakeup descriptor -/

/-- `wakeup`: write 1 to the nonblocking eventfd.  A write that would take the
    counter past its maximum fails with EAGAIN, which is only logged. -/
def wakeup (l : EventLoop Functor) : EventLoop Functor :=
  if l.wakeupCount + 1 ≤ eventfdMax then { l with wakeupCount := l.wakeupCount + 1 } else l

/-- `EventLoop::handleRead`: the read returns the counter and resets it. -/
def handleRead (l : EventLoop Functor) : EventLoop Functor :=
  { l with wakeupCount := 0 }

theorem wakeup_count_pos (l : EventLoop Functor) : 0 < l.wakeup.wakeupCount := by
  unfold wakeup
  split
  · exact Nat.succ_pos _
  · -- a failed write means that the counter is at its maximum
    rename_i h
    have : 0 < eventfdMax := by decide
    omega

@[simp] theorem wakeup_pendingFunctors_ (l : EventLoop Functor) :
    l.wakeup.pendingFunctors_ = l.pendingFunctors_ := by
  unfold wakeup
  split <;> rfl

@[simp] theorem wakeup_functors (l : EventLoop Functor) :
    l.wakeup.functors = l.functors := by
  unfold wakeup
  split <;> rfl

@[simp] theorem wakeup_callingPendingFunctors_ (l : EventLoop Functor) :
    l.wakeup.callingPendingFunctors_ = l.callingPendingFunctors_ := by
  unfold wakeup
  split <;> rfl

/-! ## queueInLoop and runInLoop -/

/-- The critical section of `queueInLoop`: `pendingFunctors_.emplace_back(cb)`. -/
def push (l : EventLoop Functor) (cb : Functor) : EventLoop Functor :=
  { l with pendingFunctors_ := l.pendingFunctors_ ++ [cb] }

/-- The test `!isInLoopThread() || callingPendingFunctors_` of `queueInLoop`. -/
def mustWake (l : EventLoop Functor) (isInLoopThread : Bool) : Bool :=
  !isInLoopThread || l.callingPendingFunctors_

/-- `queueInLoop` run in one go, for systems that need not see inside it. -/
def queueInLoop (l : EventLoop Functor) (isInLoopThread : Bool) (cb : Functor) :
    EventLoop Functor :=
  if (l.push cb).mustWake isInLoopThread then (l.push cb).wakeup else l.push cb

@[simp] theorem push_pendingFunctors_ (l : EventLoop Functor) (cb : Functor) :
    (l.push cb).pendingFunctors_ = l.pendingFunctors_ ++ [cb] := rfl

@[simp] theorem push_functors (l : EventLoop Functor) (cb : Functor) :
    (l.push cb).functors = l.functors := rfl

@[simp] theorem queueInLoop_pendingFunctors_ (l : EventLoop Functor) (b : Bool) (cb : Functor) :
    (l.queueInLoop b cb).pendingFunctors_ = l.pendingFunctors_ ++ [cb] := by
  unfold queueInLoop
  split <;> simp

@[simp] theorem queueInLoop_functors (l : EventLoop Functor) (b : Bool) (cb : Functor) :
    (l.queueInLoop b cb).functors = l.functors := by
  unfold queueInLoop
  split <;> simp

/-! ## loop, quit and doPendingFunctors -/

/-- The entry of `loop`: `looping_ = true; quit_ = false`. -/
def loopEntry (l : EventLoop Functor) : EventLoop Functor :=
  { l with looping_ := true, quit_ := false }

/-- The end of `loop`: `looping_ = false`. -/
def loopExit (l : EventLoop Functor) : EventLoop Functor :=
  { l with looping_ := false }

/-- The store of `quit`. -/
def quit (l : EventLoop Functor) : EventLoop Functor :=
  { l with quit_ := true }

/-- `callingPendingFunctors_ = true`. -/
def beginPending (l : EventLoop Functor) : EventLoop Functor :=
  { l with callingPendingFunctors_ := true }

/-- The critical section of `doPendingFunctors`: `functors.swap(pendingFunctors_)`,
    with `functors` empty before it. -/
def swapFunctors (l : EventLoop Functor) : EventLoop Functor :=
  { l with functors := l.pendingFunctors_, pendingFunctors_ := [] }

/-- `callingPendingFunctors_ = false`. -/
def endPending (l : EventLoop Functor) : EventLoop Functor :=
  { l with callingPendingFunctors_ := false }

end EventLoop
