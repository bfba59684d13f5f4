import Mathlib.Algebra.Group.Nat.Defs
import Mathlib.Data.Finset.Basic
import Mathlib.Data.Prod.Lex
import Mymuduo.Framework.Machine
import Mymuduo.Framework.OrderedSet

/-! # TimerQueue

    The timer queue of a loop with the heap its `Timer*` point into, the timerfd
    and the clock.  `timers_` orders the timers by (expiration, address);
    `activeTimers_` holds the same timers by (address, sequence).

    Every access through a `Timer*` goes to `heap`; an access or a `delete`
    through a dangling pointer sets `fault`.  `log` records what happens, for the
    statements about whole runs; no function reads it.

    A `Timestamp` is its number of microseconds since the epoch, which is taken
    not to overflow.
-/

/-! ## Timestamp -/

namespace Timestamp

def kMicroSecondsPerSecond : Int := 1000 * 1000

def invalid : Int := 0

def valid (t : Int) : Bool := 0 < t

end Timestamp

/-- A `double` number of seconds as the timers look at it: the test against 0.0
    and the truncation to whole microseconds.  A positive interval below one
    microsecond has `micros = 0`. -/
structure Seconds where
  positive : Bool
  micros : Int
  micros_nonneg : positive = true → 0 ≤ micros
  micros_nonpos : positive = false → micros ≤ 0
  deriving DecidableEq

def addTime (timestamp : Int) (seconds : Seconds) : Int :=
  timestamp + seconds.micros

/-! ## Timer -/

/-- The value of a `Timer*`. -/
abbrev Addr := Nat

/-- The greatest value of a pointer. -/
def UINTPTR_MAX : Addr := 2 ^ 64 - 1

/-- `Timer`; what its callback does is given step by step. -/
structure Timer where
  expiration_ : Int
  interval_ : Seconds
  sequence_ : Nat
  deriving DecidableEq

namespace Timer

/-- `s_numCreated_` counts without wrapping: 2^63 timers are out of reach. -/
def ctor (when : Int) (interval : Seconds) (numCreated : Nat) : Timer :=
  { expiration_ := when, interval_ := interval, sequence_ := numCreated + 1 }

/-- `repeat_`, which the constructor sets to `interval > 0.0`. -/
def repeat_ (timer : Timer) : Bool := timer.interval_.positive

def restart (timer : Timer) (now : Int) : Timer :=
  if timer.repeat_ then { timer with expiration_ := addTime now timer.interval_ }
  -- a timer that does not repeat is left with an invalid expiration
  else { timer with expiration_ := Timestamp.invalid }

@[simp] theorem restart_sequence_ (timer : Timer) (now : Int) :
    (timer.restart now).sequence_ = timer.sequence_ := by
  unfold restart
  split <;> rfl

end Timer

/-- `TimerId`, and the `ActiveTimer` pairs of the queue. -/
structure TimerId where
  timer_ : Addr
  sequence_ : Nat
  deriving DecidableEq, Repr

/-- `std::pair<Timestamp, Timer*>`. -/
structure Entry where
  first : Int
  second : Addr
  deriving DecidableEq, Repr

instance : LinearOrder Entry :=
  LinearOrder.lift' (fun e => toLex (e.first, e.second)) (by
    intro ⟨a, b⟩ ⟨c, d⟩ h
    cases h
    rfl)

theorem Entry.lt_iff {e f : Entry} :
    e < f ↔ e.first < f.first ∨ e.first = f.first ∧ e.second < f.second :=
  Prod.Lex.toLex_lt_toLex

theorem Entry.first_le_of_le {e f : Entry} (h : e ≤ f) : e.first ≤ f.first := by
  rcases lt_or_eq_of_le h with hlt | rfl
  · rcases Entry.lt_iff.mp hlt with h1 | ⟨h1, _⟩
    · exact le_of_lt h1
    · -- equal expirations, ordered by address
      exact le_of_eq h1
  · exact le_rfl

/-- `struct timespec`. -/
structure Timespec where
  tv_sec : Int
  tv_nsec : Int
  deriving DecidableEq, Repr

/-- What is recorded. -/
inductive TimerEvent where
  /-- `addTimerInLoop` inserted the timer. -/
  | added (id : TimerId) (timer : Timer)
  /-- `cancelInLoop` was executed. -/
  | cancelled (id : TimerId)
  /-- The callback was started. -/
  | started (id : TimerId)
  /-- `reset` put the timer back. -/
  | restarted (id : TimerId)
  | deleted (id : TimerId)
  deriving DecidableEq

structure TimerQueue where
  timers_ : OrderedSet Entry := .empty
  activeTimers_ : Finset TimerId := ∅
  callingExpiredTimers_ : Bool := false
  cancelingTimers_ : Finset TimerId := ∅
  /-- The timers that have been created and not deleted. -/
  heap : Addr → Option Timer := fun _ => none
  /-- `Timer::s_numCreated_`. -/
  numCreated : Nat := 0
  /-- The timers whose `addTimerInLoop` has not run yet. -/
  fresh : Finset Addr := ∅
  /-- The time for which the timerfd is armed, until its event is read. -/
  timerfd : Option Int := none
  /-- The time of the last `timerfd_settime`. -/
  lastArm : Int := 0
  /-- The values passed to `timerfd_settime`. -/
  settimes : List Timespec := []
  /-- The last clock reading. -/
  clock : Int := 0
  fault : Bool := false
  log : List TimerEvent := []

/-! ## The timerfd -/

/-- `howMuchTimeFromNow(when)` at clock reading `now`. -/
def howMuchTimeFromNow (when now : Int) : Timespec :=
  let microseconds := when - now
  let microseconds := if microseconds < 100 then 100 else microseconds
  -- C++ division rounds towards zero
  { tv_sec := microseconds.tdiv Timestamp.kMicroSecondsPerSecond
    tv_nsec := microseconds.tmod Timestamp.kMicroSecondsPerSecond * 1000 }

/-- The microseconds of a timespec. -/
def Timespec.micros (ts : Timespec) : Int :=
  ts.tv_sec * Timestamp.kMicroSecondsPerSecond + ts.tv_nsec / 1000

namespace TimerQueue

def record (q : TimerQueue) (e : TimerEvent) : TimerQueue := { q with log := q.log ++ [e] }

@[simp] theorem record_heap (q : TimerQueue) (e : TimerEvent) : (q.record e).heap = q.heap := rfl

/-- Store at an address of the heap. -/
def setHeap (q : TimerQueue) (timer : Addr) (v : Option Timer) : TimerQueue :=
  { q with heap := Function.update q.heap timer v }

@[simp] theorem setHeap_self (q : TimerQueue) (timer : Addr) (v : Option Timer) :
    (q.setHeap timer v).heap timer = v :=
  Function.update_self _ _ _

theorem setHeap_of_ne {q : TimerQueue} {timer a : Addr} (h : a ≠ timer) (v : Option Timer) :
    (q.setHeap timer v).heap a = q.heap a :=
  Function.update_of_ne h _ _

/-- `resetTimerfd`: the call arms the timerfd at `now` plus the relative value.  The clock is
    read and `timerfd_settime` is called at one instant. -/
def resetTimerfd (q : TimerQueue) (expiration now : Int) : TimerQueue :=
  let newValue := howMuchTimeFromNow expiration now
  { q with
    timerfd := some (now + newValue.micros)
    lastArm := now
    settimes := q.settimes ++ [newValue]
    clock := now }

/-- `readTimerfd` at time `now`: the read succeeds, and clears the event, when
    the timerfd has fired. -/
def readTimerfd (q : TimerQueue) (now : Int) : TimerQueue :=
  match q.timerfd with
  | some fire => if fire ≤ now then { q with timerfd := none } else q
  | none => q

/-! ## The member functions -/

/-- `delete` of a `Timer*`. -/
def delete (q : TimerQueue) (timer : Addr) : TimerQueue :=
  match q.heap timer with
  | some t =>
    (q.setHeap timer none).record (.deleted ⟨timer, t.sequence_⟩)
  | none => { q with fault := true }

/-- `insert`, and whether the earliest expiration changed. -/
def insert (q : TimerQueue) (timer : Addr) : TimerQueue × Bool :=
  match q.heap timer with
  | some t =>
    -- compared before the insertion, so an equal expiration does not count
    let earliestChanged :=
      match q.timers_.first with
      | none => true
      | some it => decide (t.expiration_ < it.first)
    ({ q with
        timers_ := q.timers_.insert ⟨t.expiration_, timer⟩
        activeTimers_ := Insert.insert ⟨timer, t.sequence_⟩ q.activeTimers_ },
      earliestChanged)
  | none => ({ q with fault := true }, false)

/-- `addTimerInLoop(timer)`; `now` is the clock when `resetTimerfd` reads it. -/
def addTimerInLoop (q : TimerQueue) (timer : Addr) (now : Int) : TimerQueue :=
  let (q, earliestChanged) := q.insert timer
  if earliestChanged then
    match q.heap timer with
    | some t => q.resetTimerfd t.expiration_ now
    | none => { q with fault := true }
  else q

def cancelInLoop (q : TimerQueue) (timerId : TimerId) : TimerQueue :=
  if timerId ∈ q.activeTimers_ then
    match q.heap timerId.timer_ with
    | some t =>
      let q := { q with timers_ := q.timers_.erase ⟨t.expiration_, timerId.timer_⟩ }
      let q := q.delete timerId.timer_
      { q with activeTimers_ := q.activeTimers_.erase timerId }
    | none => { q with fault := true }
  -- not set: it may be a timer of the running batch, which reset looks up
  else if q.callingExpiredTimers_ then
    { q with cancelingTimers_ := Insert.insert timerId q.cancelingTimers_ }
  else q

/-- `activeTimers_.erase` for one entry of the expired batch. -/
def eraseActive (q : TimerQueue) (it : Entry) : TimerQueue :=
  match q.heap it.second with
  | some t => { q with activeTimers_ := q.activeTimers_.erase ⟨it.second, t.sequence_⟩ }
  | none => { q with fault := true }

/-- The entries `getExpired` takes: those before the lower bound of
    (`now`, UINTPTR_MAX). -/
def expiredAt (q : TimerQueue) (now : Int) : List Entry :=
  q.timers_.below ⟨now, UINTPTR_MAX⟩

def getExpired (q : TimerQueue) (now : Int) : TimerQueue × List Entry :=
  let expired := q.expiredAt now
  -- the range is erased before the sequence numbers are read
  let q := { q with timers_ := q.timers_.eraseBelow ⟨now, UINTPTR_MAX⟩ }
  (expired.foldl eraseActive q, expired)

/-- `it.second->run()`: the callback is started. -/
def run (q : TimerQueue) (it : Entry) : TimerQueue :=
  match q.heap it.second with
  | some t => q.record (.started ⟨it.second, t.sequence_⟩)
  | none => { q with fault := true }

/-- One round of the loop in `reset`. -/
def resetOne (now : Int) (q : TimerQueue) (it : Entry) : TimerQueue :=
  match q.heap it.second with
  | some t =>
    let timer : TimerId := ⟨it.second, t.sequence_⟩
    -- run again only if it repeats and was not cancelled during the pass
    if t.repeat_ ∧ timer ∉ q.cancelingTimers_ then
      let q := q.setHeap it.second (some (t.restart now))
      (q.record (.restarted timer)).insert it.second |>.1
    else q.delete it.second
  | none => { q with fault := true }

/-- The second half of `reset`: arm the timerfd for the earliest timer. -/
def rearm (q : TimerQueue) (now : Int) : TimerQueue :=
  let nextExpire :=
    match q.timers_.first with
    | some it =>
      match q.heap it.second with
      | some t => some t.expiration_
      | none => none
    -- the default constructor of nextExpire
    | none => some Timestamp.invalid
  match nextExpire with
  | some nextExpire => if Timestamp.valid nextExpire then q.resetTimerfd nextExpire now else q
  | none => { q with fault := true }

/-- `reset(expired, now)`; `tarm` is the clock when `resetTimerfd` reads it. -/
def reset (q : TimerQueue) (expired : List Entry) (now tarm : Int) : TimerQueue :=
  (expired.foldl (resetOne now) q).rearm tarm

/-- `handleRead` up to its loop; `tread` is the time of the `read`. -/
def beginRead (q : TimerQueue) (now tread : Int) : TimerQueue × List Entry :=
  let q := { q with clock := tread }
  let q := q.readTimerfd tread
  let (q, expired) := q.getExpired now
  -- ids cancelled in an earlier pass are forgotten here
  ({ q with callingExpiredTimers_ := true, cancelingTimers_ := ∅ }, expired)

@[simp] theorem readTimerfd_timers_ (q : TimerQueue) (now : Int) :
    (q.readTimerfd now).timers_ = q.timers_ := by
  unfold readTimerfd
  split
  · split <;> rfl
  · rfl

theorem beginRead_expired (q : TimerQueue) (now tread : Int) :
    (q.beginRead now tread).2 = q.expiredAt now := by
  simp [beginRead, getExpired, expiredAt]

/-- `handleRead` after its loop. -/
def endRead (q : TimerQueue) (expired : List Entry) (now tarm : Int) : TimerQueue :=
  { q with callingExpiredTimers_ := false, clock := tarm }.reset expired now tarm

/-! ## Calls from outside -/

/-- What a callback, a functor of the loop or another thread does to the queue. -/
inductive Call where
  /-- `new Timer(cb, when, interval)` returned `timer`, in any thread. -/
  | newTimer (timer : Addr) (when : Int) (interval : Seconds)
  /-- `addTimerInLoop(timer)` at time `now`, in the loop thread. -/
  | addTimerInLoop (timer : Addr) (now : Int)
  /-- `cancelInLoop(timerId)` in the loop thread, with any id. -/
  | cancelInLoop (timerId : TimerId)
  deriving DecidableEq

/-- The queue when `addTimerInLoop(timer)` is entered. -/
def startAdd (q : TimerQueue) (timer : Addr) (t : Timer) (now : Int) : TimerQueue :=
  { q with fresh := q.fresh.erase timer, clock := now }.record (.added ⟨timer, t.sequence_⟩ t)

/-- Carry out one call.  `none` when it cannot happen: the allocator does not
    return an address in use, each timer is added once, time does not go back. -/
def call (q : TimerQueue) : Call → Option TimerQueue
  | .newTimer timer when interval =>
    if q.heap timer = none ∧ 0 < timer ∧ timer < UINTPTR_MAX then
      some { q.setHeap timer (some (Timer.ctor when interval q.numCreated)) with
        numCreated := q.numCreated + 1
        fresh := Insert.insert timer q.fresh }
    else none
  | .addTimerInLoop timer now =>
    match q.heap timer with
    | some t =>
      if timer ∈ q.fresh ∧ q.clock ≤ now ∧ 0 < now then
        some ((q.startAdd timer t now).addTimerInLoop timer now)
      else none
    | none => none
  | .cancelInLoop timerId =>
    some ((q.record (.cancelled timerId)).cancelInLoop timerId)

def calls (q : TimerQueue) (cs : List Call) : Option TimerQueue := cs.foldlM call q

/-- The loop of `handleRead`; `callbacks` says what each callback calls. -/
def runExpired (q : TimerQueue) (callbacks : Entry → List Call) (expired : List Entry) :
    Option TimerQueue :=
  expired.foldlM (fun q it => (q.run it).calls (callbacks it)) q

/-- `handleRead` with clock reading `now`. -/
def handleRead (q : TimerQueue) (now tread tarm : Int) (callbacks : Entry → List Call) :
    Option TimerQueue :=
  if q.clock ≤ now ∧ 0 < now ∧ now ≤ tread then
    let (q, expired) := q.beginRead now tread
    (q.runExpired callbacks expired).bind fun q =>
      if q.clock ≤ tarm then some (q.endRead expired now tarm) else none
  else none

end TimerQueue

/-! ## The loop thread step by step -/

/-- The locals of a running `handleRead`. -/
structure TimerPass where
  now : Int
  expired : List Entry
  /-- The entries whose callbacks are still to be run. -/
  todo : List Entry

structure TimerState where
  queue : TimerQueue := {}
  /-- The pass the loop thread is in. -/
  pass : Option TimerPass := none

namespace TimerState

open TimerQueue

inductive Label where
  | call (c : Call)
  | beginRead (now tread : Int)
  /-- The next callback of the batch is started. -/
  | runNext
  | endRead (tarm : Int)
  deriving DecidableEq

def next (s : TimerState) : Label → Option TimerState
  | .call c => (s.queue.call c).map fun q => { s with queue := q }
  | .beginRead now tread =>
    match s.pass with
    | none =>
      if s.queue.clock ≤ now ∧ 0 < now ∧ now ≤ tread then
        let (q, expired) := s.queue.beginRead now tread
        some { queue := q, pass := some { now := now, expired := expired, todo := expired } }
      else none
    | some _ => none
  | .runNext =>
    match s.pass with
    | some { now, expired, todo := it :: todo } =>
      some { queue := s.queue.run it
             pass := some { now := now, expired := expired, todo := todo } }
    | _ => none
  | .endRead tarm =>
    match s.pass with
    | some { now, expired, todo := [] } =>
      if s.queue.clock ≤ tarm then
        some { queue := s.queue.endRead expired now tarm, pass := none }
      else none
    | _ => none

/-- Starts with the state the constructor leaves. -/
def machine : Machine TimerState Label where
  init := fun s => s = {}
  next := next

/-! ## handleRead is a run of steps -/

theorem run_calls {s : TimerState} {cs : List Call} {q : TimerQueue}
    (h : s.queue.calls cs = some q) :
    machine.run s (cs.map .call) = some { s with queue := q } := by
  induction cs generalizing s with
  | nil =>
    obtain rfl : s.queue = q := by simpa [calls] using h
    rfl
  | cons c cs ih =>
    simp only [calls, List.foldlM_cons, Option.bind_eq_bind, Option.bind_eq_some_iff] at h
    obtain ⟨q', hc, hrest⟩ := h
    have hnext : machine.next s (.call c) = some { s with queue := q' } := by
      show (s.queue.call c).map _ = _
      rw [hc]
      rfl
    -- the rest runs from the queue the first call leaves
    exact machine.run_cons_some.mpr ⟨_, hnext, ih hrest⟩

/-- The labels of the loop of `handleRead`. -/
def passLabels (callbacks : Entry → List Call) (expired : List Entry) : List Label :=
  expired.flatMap fun it => .runNext :: (callbacks it).map .call

theorem run_runExpired {q q' : TimerQueue} {callbacks : Entry → List Call} {todo : List Entry}
    (now : Int) (expired : List Entry) (h : q.runExpired callbacks todo = some q') :
    machine.run { queue := q, pass := some { now := now, expired := expired, todo := todo } }
        (passLabels callbacks todo) =
      some { queue := q', pass := some { now := now, expired := expired, todo := [] } } := by
  induction todo generalizing q with
  | nil =>
    obtain rfl : q = q' := by simpa [runExpired] using h
    rfl
  | cons it todo ih =>
    simp only [runExpired, List.foldlM_cons, Option.bind_eq_bind, Option.bind_eq_some_iff] at h
    obtain ⟨q₁, hcalls, hrest⟩ := h
    have hrun := run_calls (s := { queue := q.run it
                                   pass := some { now := now, expired := expired, todo := todo } })
      hcalls
    -- one round: start the callback, then carry out its calls
    show machine.run _ ((.runNext :: (callbacks it).map .call) ++ passLabels callbacks todo) = _
    refine machine.run_append_some.mpr ⟨_, machine.run_cons_some.mpr ⟨_, rfl, hrun⟩, ?_⟩
    exact ih hrest

/-- A call of `handleRead` is a run of the steps of the loop thread. -/
theorem run_handleRead {q q' : TimerQueue} {now tread tarm : Int}
    {callbacks : Entry → List Call}
    (h : q.handleRead now tread tarm callbacks = some q') :
    machine.run { queue := q }
        (.beginRead now tread :: passLabels callbacks (q.expiredAt now) ++ [.endRead tarm]) =
      some { queue := q' } := by
  simp only [handleRead, Option.ite_none_right_eq_some, Option.bind_eq_some_iff,
    Option.some.injEq] at h
  obtain ⟨hclock, q₁, hpass, harm, rfl⟩ := h
  have hpass' := run_runExpired now (q.beginRead now tread).2 hpass
  have hbegin : machine.next { queue := q } (.beginRead now tread) =
      some { queue := (q.beginRead now tread).1,
             pass := some { now := now, expired := (q.beginRead now tread).2,
                            todo := (q.beginRead now tread).2 } } :=
    if_pos hclock
  have hend : machine.next
      { queue := q₁, pass := some { now := now, expired := (q.beginRead now tread).2, todo := [] } }
      (.endRead tarm) = some { queue := q₁.endRead (q.beginRead now tread).2 now tarm } :=
    if_pos harm
  -- the batch of the labels is the one beginRead returns
  rw [← beginRead_expired q now tread]
  refine machine.run_append_some.mpr ⟨_, machine.run_cons_some.mpr ⟨_, hbegin, hpass'⟩, ?_⟩
  rw [machine.run_singleton]
  exact hend

end TimerState
