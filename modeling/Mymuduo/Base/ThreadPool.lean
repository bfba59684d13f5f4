import Mathlib.Logic.Function.Basic
import Mymuduo.Framework.CondVar
import Mymuduo.Framework.Machine

/-! # ThreadPool

    A queue of tasks with a bound, filled by any number of producers and emptied by
    the workers that `start` creates.  What a thread does between getting `mutex_`
    and giving it back, at the end of the scope or in a wait, is one step, so the
    mutex is free in every state of the model.  The test of `threads_` in `run` and
    that of `running_` in `runInThread` are outside of the mutex and steps of their
    own.

    A task that a worker executes may itself call `run`; the call is that of another
    producer.
-/

namespace ThreadPool

/-! ## State -/

/-- Where a worker is in `runInThread`. -/
inductive WorkerPc (Task : Type) where
  /-- In `threads_`, or not even that, but not started. -/
  | unstarted
  /-- In `threadInitCallback_`. -/
  | init
  /-- At the test of `while(running_)`. -/
  | test
  /-- In `take`, before it has the mutex. -/
  | take
  /-- In `notEmpty_.wait`. -/
  | waiting
  | executing (task : Task)
  /-- `runInThread` has returned. -/
  | exited
  deriving DecidableEq

/-- Where a producer is in `run`. -/
inductive ProducerPc (Task : Type) where
  | idle
  /-- `threads_` was not empty; the mutex is still to be taken. -/
  | lock (task : Task)
  /-- In `notFull_.wait`. -/
  | waiting (task : Task)
  deriving DecidableEq

/-- Where the call of `start` is. -/
inductive StartPc where
  | notCalled
  /-- In the loop, with this many threads still to be created. -/
  | creating (left : Nat)
  /-- The last thread in `threads_` is still to be started. -/
  | starting (left : Nat)
  deriving DecidableEq

structure State (Pid Task : Type) where
  maxQueueSize_ : Nat
  running_ : Bool := false
  /-- The size of `threads_`. -/
  threads_ : Nat := 0
  queue_ : List Task := []
  notEmpty_ : CondVar Nat := {}
  notFull_ : CondVar Pid := {}
  startPc : StartPc := .notCalled
  workers : Nat → WorkerPc Task := fun _ => .unstarted
  producers : Pid → ProducerPc Task := fun _ => .idle
  /-- The tasks that `run` has pushed, in order. -/
  accepted : List Task := []
  /-- The tasks that `take` has returned, in order. -/
  taken : List Task := []

variable {Pid Task : Type} [DecidableEq Pid]

namespace State

def isFull (s : State Pid Task) : Bool :=
  decide (0 < s.maxQueueSize_) && decide (s.maxQueueSize_ ≤ s.queue_.length)

def setWorker (s : State Pid Task) (w : Nat) (pc : WorkerPc Task) : State Pid Task :=
  { s with workers := Function.update s.workers w pc }

def setProducer (s : State Pid Task) (p : Pid) (pc : ProducerPc Task) : State Pid Task :=
  { s with producers := Function.update s.producers p pc }

/-! ## The critical sections -/

/-- `run` from the test of its loop to the next wait or to its end; `c` is the worker
    that `notify_one` picks. -/
def runLocked (s : State Pid Task) (p : Pid) (task : Task) (c : Option Nat) :
    Option (State Pid Task) :=
  if s.isFull ∧ s.running_ then
    some ({ s with notFull_ := s.notFull_.wait p }.setProducer p (.waiting task))
  else if s.running_ = false then some (s.setProducer p .idle)
  else
    (s.notEmpty_.notifyOne c).map fun notEmpty_ =>
      { s with
        queue_ := s.queue_ ++ [task]
        accepted := s.accepted ++ [task]
        notEmpty_ := notEmpty_ }.setProducer p .idle

/-- `take` from the test of its loop to the next wait or to its end; `c` is the
    producer that `notify_one` picks. -/
def takeLocked (s : State Pid Task) (w : Nat) (c : Option Pid) : Option (State Pid Task) :=
  match s.queue_ with
  | [] =>
    if s.running_ then some ({ s with notEmpty_ := s.notEmpty_.wait w }.setWorker w .waiting)
    -- an empty task, which runInThread does not call
    else some (s.setWorker w .test)
  | task :: rest =>
    (if 0 < s.maxQueueSize_ then s.notFull_.notifyOne c else some s.notFull_).map fun notFull_ =>
      { s with
        queue_ := rest
        taken := s.taken ++ [task]
        notFull_ := notFull_ }.setWorker w (.executing task)

end State

/-! ## Steps -/

inductive Label (Pid Task : Type) where
  /-- `start(numThreads)` sets `running_`. -/
  | start (numThreads : Nat)
  /-- `threads_.emplace_back(new Thread(..))`. -/
  | createThread
  /-- `threads_[i]->start()`. -/
  | startThread
  /-- `run(task)` is called and tests `threads_`. -/
  | run (p : Pid) (task : Task)
  /-- The producer gets the mutex, for the first time or back from a wait. -/
  | runLock (p : Pid) (c : Option Nat)
  | runResume (p : Pid) (c : Option Nat)
  /-- A spurious wakeup. -/
  | wakeProducer (p : Pid)
  /-- `threadInitCallback_` returns. -/
  | initDone (w : Nat)
  | test (w : Nat)
  | takeLock (w : Nat) (c : Option Pid)
  | takeResume (w : Nat) (c : Option Pid)
  | wakeWorker (w : Nat)
  /-- The task returns normally. -/
  | returns (w : Nat)
  /-- The task or `threadInitCallback_` throws; `runInThread` catches it and returns. -/
  | throws (w : Nat)
  /-- The critical section of `stop`. -/
  | stop
  deriving DecidableEq

def next (s : State Pid Task) : Label Pid Task → Option (State Pid Task)
  | .start numThreads =>
    if s.startPc = .notCalled then
      some { s with running_ := true, startPc := .creating numThreads }
    else none
  | .createThread =>
    match s.startPc with
    | .creating (left + 1) => some { s with threads_ := s.threads_ + 1, startPc := .starting left }
    | _ => none
  | .startThread =>
    match s.startPc with
    | .starting left =>
      some ({ s with startPc := .creating left }.setWorker (s.threads_ - 1) .init)
    | _ => none
  | .run p task =>
    match s.producers p with
    | .idle =>
      -- without threads the caller executes the task itself
      if s.threads_ = 0 then some s else some (s.setProducer p (.lock task))
    | _ => none
  | .runLock p c =>
    match s.producers p with
    | .lock task => s.runLocked p task c
    | _ => none
  | .runResume p c =>
    match s.producers p with
    | .waiting task =>
      if s.notFull_.Woken p then { s with notFull_ := s.notFull_.resume p }.runLocked p task c
      else none
    | _ => none
  | .wakeProducer p =>
    if p ∈ s.notFull_.waiting then some { s with notFull_ := s.notFull_.wake p } else none
  | .initDone w =>
    match s.workers w with
    | .init => some (s.setWorker w .test)
    | _ => none
  | .test w =>
    match s.workers w with
    | .test => some (s.setWorker w (if s.running_ then .take else .exited))
    | _ => none
  | .takeLock w c =>
    match s.workers w with
    | .take => s.takeLocked w c
    | _ => none
  | .takeResume w c =>
    match s.workers w with
    | .waiting =>
      if s.notEmpty_.Woken w then { s with notEmpty_ := s.notEmpty_.resume w }.takeLocked w c
      else none
    | _ => none
  | .wakeWorker w =>
    if w ∈ s.notEmpty_.waiting then some { s with notEmpty_ := s.notEmpty_.wake w } else none
  | .returns w =>
    match s.workers w with
    | .executing _ => some (s.setWorker w .test)
    | _ => none
  | .throws w =>
    match s.workers w with
    | .executing _ | .init => some (s.setWorker w .exited)
    | _ => none
  | .stop =>
    some { s with
      running_ := false
      notEmpty_ := s.notEmpty_.notifyAll
      notFull_ := s.notFull_.notifyAll }

/-- Starts with a pool whose bound is set and whose threads are not started. -/
def machine (Pid Task : Type) [DecidableEq Pid] : Machine (State Pid Task) (Label Pid Task) where
  init := fun s => ∃ maxQueueSize, s = { maxQueueSize_ := maxQueueSize }
  next := next

/-! ## What the critical sections do -/

variable {s s' : State Pid Task}

theorem runLocked_cases {p : Pid} {task : Task} {c : Option Nat}
    (h : s.runLocked p task c = some s') :
    (s.isFull = true ∧ s.running_ = true ∧
      s' = { s with notFull_ := s.notFull_.wait p }.setProducer p (.waiting task)) ∨
    (s.running_ = false ∧ s' = s.setProducer p .idle) ∨
    (s.isFull = false ∧ s.running_ = true ∧ ∃ notEmpty_, s.notEmpty_.notifyOne c = some notEmpty_ ∧
      s' = { s with
        queue_ := s.queue_ ++ [task]
        accepted := s.accepted ++ [task]
        notEmpty_ := notEmpty_ }.setProducer p .idle) := by
  unfold State.runLocked at h
  by_cases hrunning : s.running_ = true
  · by_cases hfull : s.isFull = true
    · rw [if_pos ⟨hfull, hrunning⟩, Option.some.injEq] at h
      exact Or.inl ⟨hfull, hrunning, h.symm⟩
    · rw [if_neg (fun hand => hfull hand.1), if_neg (by rw [hrunning]; decide),
        Option.map_eq_some_iff] at h
      obtain ⟨notEmpty_, hnotify, rfl⟩ := h
      exact Or.inr (Or.inr ⟨Bool.not_eq_true _ ▸ hfull, hrunning, notEmpty_, hnotify, rfl⟩)
  · rw [if_neg (fun hand => hrunning hand.2), if_pos (by simpa using hrunning),
      Option.some.injEq] at h
    exact Or.inr (Or.inl ⟨by simpa using hrunning, h.symm⟩)

omit [DecidableEq Pid] in
theorem not_isFull_iff : s.isFull = false ↔
    (0 < s.maxQueueSize_ → s.queue_.length < s.maxQueueSize_) := by
  simp [State.isFull]

theorem takeLocked_cases {w : Nat} {c : Option Pid} (h : s.takeLocked w c = some s') :
    (s.queue_ = [] ∧ s.running_ = true ∧
      s' = { s with notEmpty_ := s.notEmpty_.wait w }.setWorker w .waiting) ∨
    (s.queue_ = [] ∧ s.running_ = false ∧ s' = s.setWorker w .test) ∨
    (∃ task rest notFull_, s.queue_ = task :: rest ∧
      (s.notFull_.notifyOne c = some notFull_ ∨ (s.maxQueueSize_ = 0 ∧ notFull_ = s.notFull_)) ∧
      s' = { s with
        queue_ := rest
        taken := s.taken ++ [task]
        notFull_ := notFull_ }.setWorker w (.executing task)) := by
  unfold State.takeLocked at h
  cases hqueue : s.queue_ with
  | nil =>
    simp only [hqueue] at h
    by_cases hrunning : s.running_ = true
    · rw [if_pos hrunning, Option.some.injEq] at h
      exact Or.inl ⟨rfl, hrunning, h.symm⟩
    · rw [if_neg hrunning, Option.some.injEq] at h
      exact Or.inr (Or.inl ⟨rfl, by simpa using hrunning, h.symm⟩)
  | cons task rest =>
    simp only [hqueue, Option.map_eq_some_iff] at h
    obtain ⟨notFull_, hnotify, rfl⟩ := h
    refine Or.inr (Or.inr ⟨task, rest, notFull_, rfl, ?_, rfl⟩)
    by_cases hmax : 0 < s.maxQueueSize_
    · exact Or.inl (by rwa [if_pos hmax] at hnotify)
    · rw [if_neg hmax, Option.some.injEq] at hnotify
      exact Or.inr ⟨by omega, hnotify.symm⟩

/-! ## What a step does -/

theorem next_createThread (h : next s .createThread = some s') :
    ∃ left, s.startPc = .creating (left + 1) ∧
      s' = { s with threads_ := s.threads_ + 1, startPc := .starting left } := by
  simp only [next] at h
  split at h
  next left hpc => exact ⟨left, hpc, (Option.some.inj h).symm⟩
  next => cases h

theorem next_startThread (h : next s .startThread = some s') :
    ∃ left, s.startPc = .starting left ∧
      s' = { s with startPc := .creating left }.setWorker (s.threads_ - 1) .init := by
  simp only [next] at h
  split at h
  next left hpc => exact ⟨left, hpc, (Option.some.inj h).symm⟩
  next => cases h

theorem next_run {p : Pid} {task : Task} (h : next s (.run p task) = some s') :
    s.producers p = .idle ∧
      (s' = s ∨ (s.threads_ ≠ 0 ∧ s' = s.setProducer p (.lock task))) := by
  simp only [next] at h
  split at h
  next hpc =>
    refine ⟨hpc, ?_⟩
    by_cases hthreads : s.threads_ = 0
    · rw [if_pos hthreads] at h
      exact Or.inl (Option.some.inj h).symm
    · rw [if_neg hthreads] at h
      exact Or.inr ⟨hthreads, (Option.some.inj h).symm⟩
  next => cases h

theorem next_runLock {p : Pid} {c : Option Nat} (h : next s (.runLock p c) = some s') :
    ∃ task, s.producers p = .lock task ∧ s.runLocked p task c = some s' := by
  simp only [next] at h
  split at h
  next task hpc => exact ⟨task, hpc, h⟩
  next => cases h

/-- A thread back from a wait finds the state as the others have left it. -/
theorem next_runResume {p : Pid} {c : Option Nat} (h : next s (.runResume p c) = some s') :
    ∃ task, s.producers p = .waiting task ∧
      { s with notFull_ := s.notFull_.resume p }.runLocked p task c = some s' := by
  simp only [next] at h
  split at h
  next task hpc =>
    rw [Option.ite_none_right_eq_some] at h
    exact ⟨task, hpc, h.2⟩
  next => cases h

theorem next_wakeProducer {p : Pid} (h : next s (.wakeProducer p) = some s') :
    p ∈ s.notFull_.waiting ∧ s' = { s with notFull_ := s.notFull_.wake p } := by
  simp only [next, Option.ite_none_right_eq_some, Option.some.injEq] at h
  exact ⟨h.1, h.2.symm⟩

theorem next_initDone {w : Nat} (h : next s (.initDone w) = some s') :
    s.workers w = .init ∧ s' = s.setWorker w .test := by
  simp only [next] at h
  split at h
  next hpc => exact ⟨hpc, (Option.some.inj h).symm⟩
  next => cases h

theorem next_test {w : Nat} (h : next s (.test w) = some s') :
    s.workers w = .test ∧ s' = s.setWorker w (if s.running_ then .take else .exited) := by
  simp only [next] at h
  split at h
  next hpc => exact ⟨hpc, (Option.some.inj h).symm⟩
  next => cases h

theorem next_takeLock {w : Nat} {c : Option Pid} (h : next s (.takeLock w c) = some s') :
    s.workers w = .take ∧ s.takeLocked w c = some s' := by
  simp only [next] at h
  split at h
  next hpc => exact ⟨hpc, h⟩
  next => cases h

theorem next_takeResume {w : Nat} {c : Option Pid} (h : next s (.takeResume w c) = some s') :
    s.workers w = .waiting ∧
      { s with notEmpty_ := s.notEmpty_.resume w }.takeLocked w c = some s' := by
  simp only [next] at h
  split at h
  next hpc =>
    rw [Option.ite_none_right_eq_some] at h
    exact ⟨hpc, h.2⟩
  next => cases h

theorem next_returns {w : Nat} (h : next s (.returns w) = some s') :
    (∃ task, s.workers w = .executing task) ∧ s' = s.setWorker w .test := by
  simp only [next] at h
  split at h
  next task hpc => exact ⟨⟨task, hpc⟩, (Option.some.inj h).symm⟩
  next => cases h

/-! ## The queue is a bounded FIFO -/

/-- What the pool is for: tasks accepted, in order, and handed out in that order. -/
structure Fifo (Task : Type) where
  /-- 0 for none. -/
  bound : Nat
  queue : List Task
  accepted : List Task
  taken : List Task

namespace Fifo

inductive Step (q : Fifo Task) : Fifo Task → Prop where
  | same : Step q q
  | push (task : Task) (hroom : 0 < q.bound → q.queue.length < q.bound) :
      Step q { q with queue := q.queue ++ [task], accepted := q.accepted ++ [task] }
  | pop (task : Task) (rest : List Task) (hqueue : q.queue = task :: rest) :
      Step q { q with queue := rest, taken := q.taken ++ [task] }

/-- Nothing is lost, duplicated or overtaken, and the bound is kept. -/
structure Exact (q : Fifo Task) : Prop where
  order : q.taken ++ q.queue = q.accepted
  bounded : 0 < q.bound → q.queue.length ≤ q.bound

theorem Step.exact {q q' : Fifo Task} (h : q.Step q') (hq : q.Exact) : q'.Exact := by
  cases h with
  | same => exact hq
  | push task hroom =>
    constructor
    · show q.taken ++ (q.queue ++ [task]) = q.accepted ++ [task]
      rw [← List.append_assoc, hq.order]
    · intro hbound
      show (q.queue ++ [task]).length ≤ q.bound
      have := hroom hbound
      rw [List.length_append, List.length_singleton]
      omega
  | pop task rest hqueue =>
    have horder := hq.order
    rw [hqueue] at horder
    constructor
    · show (q.taken ++ [task]) ++ rest = q.accepted
      rw [List.append_assoc, List.singleton_append, horder]
    · intro hbound
      show rest.length ≤ q.bound
      have := hq.bounded hbound
      rw [hqueue, List.length_cons] at this
      omega

end Fifo

/-- The pool as such a queue. -/
def State.fifo (s : State Pid Task) : Fifo Task where
  bound := s.maxQueueSize_
  queue := s.queue_
  accepted := s.accepted
  taken := s.taken

theorem runLocked_fifo {p : Pid} {task : Task} {c : Option Nat}
    (h : s.runLocked p task c = some s') : s.fifo.Step s'.fifo := by
  rcases runLocked_cases h with ⟨_, _, rfl⟩ | ⟨_, rfl⟩ | ⟨hfull, _, _, _, rfl⟩
  · exact .same
  · exact .same
  · exact .push task (not_isFull_iff.mp hfull)

theorem takeLocked_fifo {w : Nat} {c : Option Pid} (h : s.takeLocked w c = some s') :
    s.fifo.Step s'.fifo := by
  rcases takeLocked_cases h with ⟨_, _, rfl⟩ | ⟨_, _, rfl⟩ | ⟨task, rest, _, hqueue, _, rfl⟩
  · exact .same
  · exact .same
  · exact .pop task rest hqueue

/-- Every step of a thread is a step of the queue. -/
theorem next_fifo {l : Label Pid Task} (h : next s l = some s') : s.fifo.Step s'.fifo := by
  cases l with
  | runLock p c =>
    obtain ⟨_, _, hlocked⟩ := next_runLock h
    exact runLocked_fifo hlocked
  | takeLock w c => exact takeLocked_fifo (next_takeLock h).2
  | runResume p c =>
    obtain ⟨_, _, hlocked⟩ := next_runResume h
    have hstep := runLocked_fifo hlocked
    exact hstep
  | takeResume w c =>
    have hstep := takeLocked_fifo (next_takeResume h).2
    exact hstep
  | start _ | createThread | startThread | run _ _ | wakeProducer _ | initDone _ | test _
  | wakeWorker _ | returns _ | throws _ | stop =>
    have hsame : s'.fifo = s.fifo := by
      simp only [next] at h
      grind [State.fifo, State.setWorker, State.setProducer]
    rw [hsame]
    exact .same

/-- In every interleaving the tasks taken followed by the queue are the tasks accepted,
    and a queue with a bound stays within it. -/
theorem bounded_fifo (h : (machine Pid Task).Reachable s) :
    s.taken ++ s.queue_ = s.accepted ∧
      (0 < s.maxQueueSize_ → s.queue_.length ≤ s.maxQueueSize_) := by
  have hexact : s.fifo.Exact := by
    apply h.invariant
    · intro s₀ hinit
      obtain ⟨maxQueueSize, rfl⟩ := hinit
      exact ⟨rfl, fun _ => Nat.zero_le _⟩
    · intro t l t' ht hnext
      exact (next_fifo hnext).exact ht
  exact ⟨hexact.order, hexact.bounded⟩

/-- A second producer finds a queue of one slot full and waits; the worker that takes
    the first task lets it in. -/
theorem bounded_fifo_one_slot :
    ∃ s : State Nat Nat, (machine Nat Nat).Reachable s ∧ s.maxQueueSize_ = 1 ∧
      s.accepted = [10, 11] ∧ s.taken ++ s.queue_ = [10, 11] ∧ s.queue_.length ≤ 1 := by
  have hrun : (machine Nat Nat).run { maxQueueSize_ := 1 }
      [.start 1, .createThread, .run 0 10, .runLock 0 none, .run 1 11, .runLock 1 none,
        .startThread, .initDone 0, .test 0, .takeLock 0 (some 1), .runResume 1 none] =
      some _ := rfl
  have hreach : (machine Nat Nat).Reachable _ := ⟨_, _, ⟨1, rfl⟩, hrun⟩
  obtain ⟨horder, hbound⟩ := bounded_fifo hreach
  exact ⟨_, hreach, rfl, rfl, horder, hbound Nat.one_pos⟩

end ThreadPool
