import Mathlib.Algebra.Group.Int.Defs
import Mathlib.Data.Option.Basic
import Mymuduo.Framework.Machine
import Mymuduo.Logger.FixedBuffer
import Mymuduo.Logger.LogFile

/-! # AsyncLogging

    The front end appends lines to `currentBuffer_` under the mutex; the back-end
    thread swaps the buffers out under the mutex and writes them to its `LogFile`
    outside of it.  A critical section is one step, and so is everything the
    back end does between two of them that another thread cannot see.

    A `unique_ptr` is an `Option`; using a null one, or `back()` of an empty
    vector, sets `fault`.  `lines` and `written` record the lines of the appends
    and the arguments of the calls of `LogFile::append`; no function reads them.
-/

namespace AsyncLogging

/-! ## State -/

abbrev Buffer := FixedBuffer kLargeBuffer

abbrev BufferPtr := Option Buffer

/-- Where the back-end thread is in `threadFunc`. -/
inductive BackPc where
  /-- `thread_` has not been started. -/
  | unstarted
  /-- Before the loop, the locals not yet constructed. -/
  | begin
  /-- At the test of `while(running_)`. -/
  | test
  /-- The test has succeeded, the lock is still to be taken. -/
  | lock
  /-- In `cond_.wait_for`, without the lock. -/
  | waiting
  /-- In the loop over `buffersToWrite`, with the buffers it has not reached. -/
  | writing (todo : List BufferPtr)
  /-- At `output.flush()` at the end of the round. -/
  | flushing
  /-- Behind the loop, before the last `output.flush()`. -/
  | exiting
  | finished
  deriving DecidableEq

/-- Where the call of `stop` is. -/
inductive StopPc where
  | notCalled
  /-- `running_` is cleared, `thread_.join()` has not returned. -/
  | joining
  | returned
  deriving DecidableEq

structure State where
  rollSize_ : Int
  running_ : Bool := false
  currentBuffer_ : BufferPtr := some .ctor
  nextBuffer_ : BufferPtr := some .ctor
  buffers_ : List BufferPtr := []
  /-- The locals of `threadFunc`. -/
  output : Option LogFile := none
  newBuffer1 : BufferPtr := none
  newBuffer2 : BufferPtr := none
  buffersToWrite : List BufferPtr := []
  pc : BackPc := .unstarted
  stopPc : StopPc := .notCalled
  lines : List (List UInt8) := []
  written : List (List UInt8) := []
  fault : Bool := false

/-! ## The front end -/

/-- The conversion of an `int` to `size_t`. -/
def toSizeT (len : Int) : Nat := (len % 2 ^ 64).toNat

/-- `append(logline, len)`; `logline` are the bytes readable at the pointer. -/
def append (s : State) (logline : List UInt8) (len : Int) : State :=
  match s.currentBuffer_ with
  | some current =>
    if len < current.avail then
      { s with currentBuffer_ := some (current.append logline (toSizeT len)) }
    else
      -- nextBuffer_ if it has not been used yet, else a new buffer
      let next := s.nextBuffer_.getD .ctor
      { s with
        buffers_ := s.buffers_ ++ [s.currentBuffer_]
        nextBuffer_ := none
        currentBuffer_ := some (next.append logline (toSizeT len)) }
  | none => { s with fault := true }

/-- An append touches the buffers of the front end only. -/
theorem append_frame (s : State) (logline : List UInt8) (len : Int) :
    ∃ currentBuffer_ nextBuffer_ buffers_ fault, append s logline len =
      { s with
        currentBuffer_ := currentBuffer_
        nextBuffer_ := nextBuffer_
        buffers_ := buffers_
        fault := fault } := by
  unfold append
  split
  · split
    · exact ⟨_, _, _, _, rfl⟩
    · exact ⟨_, _, _, _, rfl⟩
  · exact ⟨_, _, _, _, rfl⟩

/-! ## The back end -/

/-- The locals of `threadFunc`, with the `LogFile` its constructor gives. -/
def enter (s : State) (output : LogFile) : State :=
  { s with
    output := some output
    newBuffer1 := some .ctor
    newBuffer2 := some .ctor
    pc := .test }

/-- The critical section of the loop behind the wait. -/
def swap (s : State) : State :=
  let s := { s with buffers_ := s.buffers_ ++ [s.currentBuffer_] }
  let s := { s with currentBuffer_ := s.newBuffer1, newBuffer1 := none }
  let s := { s with buffersToWrite := s.buffers_, buffers_ := s.buffersToWrite }
  let s :=
    match s.nextBuffer_ with
    | some _ => s
    | none => { s with nextBuffer_ := s.newBuffer2, newBuffer2 := none }
  { s with pc := .writing s.buffersToWrite }

/-- One round of the loop over `buffersToWrite`. -/
def write (s : State) (buffer : BufferPtr) (todo : List BufferPtr) (now troll : Int) : State :=
  match buffer with
  | some buffer =>
    { s with
      output := s.output.map fun output => output.append buffer.data now troll
      written := s.written ++ [buffer.data]
      pc := .writing todo }
  | none => { s with fault := true }

/-- A spare that was given away is replaced by the last buffer of the vector,
    which is reset. -/
def giveBack (spare : BufferPtr) (buffers : List BufferPtr) :
    Option (BufferPtr × List BufferPtr) :=
  match spare with
  | some buffer => some (some buffer, buffers)
  | none =>
    match buffers.getLast? with
    | some (some buffer) => some (some buffer.reset, buffers.dropLast)
    | _ => none

/-- From the end of the writing loop to `buffersToWrite.clear()`. -/
def recycle (s : State) : State :=
  -- resize(2) destroys the buffers from the third one on
  let buffers := if 2 < s.buffersToWrite.length then s.buffersToWrite.take 2
    else s.buffersToWrite
  let spares := (giveBack s.newBuffer1 buffers).bind fun (newBuffer1, buffers) =>
    (giveBack s.newBuffer2 buffers).map fun (newBuffer2, _) => (newBuffer1, newBuffer2)
  match spares with
  | some (newBuffer1, newBuffer2) =>
    { s with
      newBuffer1 := newBuffer1
      newBuffer2 := newBuffer2
      buffersToWrite := []
      pc := .flushing }
  | none => { s with fault := true }

def flushOutput (s : State) (pc : BackPc) : State :=
  { s with output := s.output.map LogFile.flush, pc := pc }

/-! ## Steps -/

inductive Label where
  /-- `append(logline, len)` by any thread. -/
  | append (logline : List UInt8) (len : Int)
  /-- `start()`: set `running_`, then start the thread. -/
  | start
  /-- `stop()` is called and clears `running_`. -/
  | stop
  /-- `thread_.join()` and with it `stop()` returns. -/
  | join
  /-- `threadFunc` up to its loop; `now` is the clock in the constructor of
      `LogFile`. -/
  | enter (now : Int)
  | test
  /-- The lock is taken: wait if there is no full buffer, else swap. -/
  | lock
  /-- `wait_for` returns (notified, timed out or spuriously). -/
  | wake
  /-- `output.append` for the next buffer, with its clock readings. -/
  | write (now troll : Int)
  | recycle
  | flush
  | finish

def next (s : State) : Label → Option State
  | .append logline len =>
    -- the caller passes len readable bytes
    if len ≤ logline.length then
      some { append s logline len with lines := s.lines ++ [logline.take len.toNat] }
    else none
  | .start =>
    if s.pc = .unstarted then some { s with running_ := true, pc := .begin } else none
  | .stop =>
    if s.pc ≠ .unstarted ∧ s.stopPc = .notCalled then
      some { s with running_ := false, stopPc := .joining }
    else none
  | .join =>
    if s.stopPc = .joining ∧ s.pc = .finished then some { s with stopPc := .returned } else none
  | .enter now =>
    if s.pc = .begin then
      -- threadSafe = false, the other arguments by default
      (LogFile.ctor s.rollSize_ 3 1024 now).map (enter s)
    else none
  | .test =>
    if s.pc = .test then some { s with pc := if s.running_ then .lock else .exiting } else none
  | .lock =>
    if s.pc = .lock then
      some (if s.buffers_.isEmpty then { s with pc := .waiting } else swap s)
    else none
  | .wake => if s.pc = .waiting then some (swap s) else none
  | .write now troll =>
    match s.pc with
    | .writing (buffer :: todo) => some (write s buffer todo now troll)
    | _ => none
  | .recycle => if s.pc = .writing [] then some (recycle s) else none
  | .flush => if s.pc = .flushing then some (flushOutput s .test) else none
  | .finish => if s.pc = .exiting then some (flushOutput s .finished) else none

/-- Starts with the state the constructor leaves. -/
def machine : Machine State Label where
  init := fun s => ∃ rollSize, s = { rollSize_ := rollSize }
  next := next

/-- What a step can do. -/
inductive Step (s : State) : Label → State → Prop where
  | append (logline : List UInt8) (len : Int) (hlen : len ≤ logline.length) :
    Step s (.append logline len)
      { AsyncLogging.append s logline len with lines := s.lines ++ [logline.take len.toNat] }
  | start (hpc : s.pc = .unstarted) : Step s .start { s with running_ := true, pc := .begin }
  | stop (hpc : s.pc ≠ .unstarted) (hstop : s.stopPc = .notCalled) :
    Step s .stop { s with running_ := false, stopPc := .joining }
  | join (hstop : s.stopPc = .joining) (hpc : s.pc = .finished) :
    Step s .join { s with stopPc := .returned }
  | enter (now : Int) (output : LogFile) (hpc : s.pc = .begin)
    (hctor : LogFile.ctor s.rollSize_ 3 1024 now = some output) :
    Step s (.enter now) (AsyncLogging.enter s output)
  | proceed (hpc : s.pc = .test) (hrunning : s.running_ = true) :
    Step s .test { s with pc := .lock }
  | leave (hpc : s.pc = .test) (hrunning : s.running_ = false) :
    Step s .test { s with pc := .exiting }
  | wait (hpc : s.pc = .lock) (hempty : s.buffers_ = []) :
    Step s .lock { s with pc := .waiting }
  /-- The swap, with or without a wait before it. -/
  | swap (l : Label) (hpc : s.pc = .lock ∨ s.pc = .waiting) : Step s l (AsyncLogging.swap s)
  | write (now troll : Int) (buffer : BufferPtr) (todo : List BufferPtr)
    (hpc : s.pc = .writing (buffer :: todo)) :
    Step s (.write now troll) (AsyncLogging.write s buffer todo now troll)
  | recycle (hpc : s.pc = .writing []) : Step s .recycle (AsyncLogging.recycle s)
  | flush (hpc : s.pc = .flushing) : Step s .flush (flushOutput s .test)
  | finish (hpc : s.pc = .exiting) : Step s .finish (flushOutput s .finished)

theorem next_step {s s' : State} {l : Label} (h : next s l = some s') : Step s l s' := by
  cases l with
  | append logline len =>
    simp only [next, Option.ite_none_right_eq_some, Option.some.injEq] at h
    obtain ⟨hlen, rfl⟩ := h
    exact .append logline len hlen
  | start =>
    simp only [next, Option.ite_none_right_eq_some, Option.some.injEq] at h
    obtain ⟨hpc, rfl⟩ := h
    exact .start hpc
  | stop =>
    simp only [next, Option.ite_none_right_eq_some, Option.some.injEq] at h
    obtain ⟨⟨hpc, hstop⟩, rfl⟩ := h
    exact .stop hpc hstop
  | join =>
    simp only [next, Option.ite_none_right_eq_some, Option.some.injEq] at h
    obtain ⟨⟨hstop, hpc⟩, rfl⟩ := h
    exact .join hstop hpc
  | enter now =>
    simp only [next, Option.ite_none_right_eq_some, Option.map_eq_some_iff] at h
    obtain ⟨hpc, output, hctor, rfl⟩ := h
    exact .enter now output hpc hctor
  | test =>
    simp only [next, Option.ite_none_right_eq_some, Option.some.injEq] at h
    obtain ⟨hpc, rfl⟩ := h
    by_cases hrunning : s.running_ = true
    · rw [if_pos hrunning]
      exact .proceed hpc hrunning
    · rw [if_neg hrunning]
      exact .leave hpc (Bool.eq_false_iff.mpr hrunning)
  | lock =>
    simp only [next, Option.ite_none_right_eq_some, Option.some.injEq] at h
    obtain ⟨hpc, rfl⟩ := h
    split
    · rename_i hempty
      exact .wait hpc (List.isEmpty_iff.mp hempty)
    · exact .swap _ (Or.inl hpc)
  | wake =>
    simp only [next, Option.ite_none_right_eq_some, Option.some.injEq] at h
    obtain ⟨hpc, rfl⟩ := h
    exact .swap _ (Or.inr hpc)
  | write now troll =>
    simp only [next] at h
    split at h
    · rename_i buffer todo hpc
      obtain rfl := Option.some.inj h
      exact .write now troll buffer todo hpc
    · cases h
  | recycle =>
    simp only [next, Option.ite_none_right_eq_some, Option.some.injEq] at h
    obtain ⟨hpc, rfl⟩ := h
    exact .recycle hpc
  | flush =>
    simp only [next, Option.ite_none_right_eq_some, Option.some.injEq] at h
    obtain ⟨hpc, rfl⟩ := h
    exact .flush hpc
  | finish =>
    simp only [next, Option.ite_none_right_eq_some, Option.some.injEq] at h
    obtain ⟨hpc, rfl⟩ := h
    exact .finish hpc

end AsyncLogging
