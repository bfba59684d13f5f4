import Mathlib.Algebra.Order.BigOperators.Group.Finset
import Mymuduo.Base.ThreadPoolWaiters
import Mymuduo.Framework.Progress

/-! # Stopping the pool

    `stop` clears `running_` and notifies everybody inside the mutex, and the threads test
    `running_` inside the mutex before they wait.  So nobody is left waiting: every worker
    comes back to the test of `while(running_)` after at most one more task, and `join`
    returns.  A producer that was waiting for room goes home with its task, and the tasks
    that are still in the queue are dropped.
-/

namespace ThreadPool

variable {Pid Task : Type} [DecidableEq Pid] {s s' : State Pid Task}

/-! ## Waiting threads -/

/-- A thread in a wait is known to its condition variable, and nobody waits in a pool that
    does not run.  `w` and `p` are a worker and a producer that are just being woken. -/
structure Parked (w : Option Nat) (p : Option Pid) (s : State Pid Task) : Prop where
  worker : ∀ v, some v ≠ w → s.workers v = .waiting → v ∈ s.notEmpty_.blocked
  producer : ∀ q task, some q ≠ p → s.producers q = .waiting task → q ∈ s.notFull_.blocked
  off : s.running_ = false → s.notEmpty_.waiting = ∅ ∧ s.notFull_.waiting = ∅
  started : ∀ v, s.workers v ≠ .unstarted ↔ v < s.started
  starting : ∀ left, s.startPc = .starting left → 0 < s.threads_

theorem parked_init (h : (machine Pid Task).init s) : Parked none none s := by
  obtain ⟨maxQueueSize, rfl⟩ := h
  constructor <;> simp [State.started]

/-- A worker that has been started moves on. -/
theorem Parked.setWorker {p : Option Pid} {w : Nat} {pc : WorkerPc Task}
    (h : Parked (some w) p s) (hw : w < s.started) (hpc : pc ≠ .unstarted)
    (hwait : pc = .waiting → w ∈ s.notEmpty_.blocked) : Parked none p (s.setWorker w pc) :=
  { h with
    worker := by
      apply (Function.forall_update_iff s.workers
        fun v pc => some v ≠ none → pc = .waiting → v ∈ s.notEmpty_.blocked).mpr
      exact ⟨fun _ => hwait, fun v hv _ => h.worker v (by simpa using hv)⟩
    started := by
      apply (Function.forall_update_iff s.workers
        fun v pc => pc ≠ .unstarted ↔ v < s.started).mpr
      exact ⟨⟨fun _ => hw, fun _ => hpc⟩, fun v _ => h.started v⟩ }

/-- A producer moves on; it may be the one that is just being woken. -/
theorem Parked.setProducer {w : Option Nat} {p : Pid} {pc : ProducerPc Task}
    (h : Parked w (some p) s) (hwait : ∀ task, pc = .waiting task → p ∈ s.notFull_.blocked) :
    Parked w none (s.setProducer p pc) :=
  { h with
    producer := by
      intro q task _ hq
      by_cases hqp : q = p
      · subst hqp
        refine hwait task ?_
        simpa [State.setProducer] using hq
      · refine h.producer q task (by simpa using hqp) ?_
        simpa [State.setProducer, hqp] using hq }

/-- Being known is enough for anybody. -/
theorem Parked.weaken {w : Option Nat} {p : Option Pid} (h : Parked none none s) :
    Parked w p s :=
  { h with
    worker := fun v _ => h.worker v (by simp)
    producer := fun q task _ => h.producer q task (by simp) }

/-- A condition variable changes outside of `stop`. -/
theorem Parked.withNotEmpty {p : Option Pid} {w : Option Nat} (h : Parked none p s)
    {cv : CondVar Nat} (hblocked : ∀ v, some v ≠ w → v ∈ s.notEmpty_.blocked → v ∈ cv.blocked)
    (hoff : s.running_ = false → cv.waiting = ∅) : Parked w p { s with notEmpty_ := cv } :=
  { h with
    worker := fun v hv hpc => hblocked v hv (h.worker v (by simp) hpc)
    off := fun hrunning => ⟨hoff hrunning, (h.off hrunning).2⟩ }

/-- The same for the producers. -/
theorem Parked.withNotFull {w : Option Nat} {p : Option Pid} (h : Parked w none s)
    {cv : CondVar Pid} (hblocked : ∀ q, some q ≠ p → q ∈ s.notFull_.blocked → q ∈ cv.blocked)
    (hoff : s.running_ = false → cv.waiting = ∅) : Parked w p { s with notFull_ := cv } :=
  { h with
    producer := fun q task hq hpc => hblocked q hq (h.producer q task (by simp) hpc)
    off := fun hrunning => ⟨(h.off hrunning).1, hoff hrunning⟩ }

/-- The critical section of `run`: the producer waits, goes home or pushes its task. -/
theorem Parked.runLocked {p : Pid} {task : Task} {c : Option Nat} (h : Parked none (some p) s)
    (hstep : s.runLocked p task c = some s') : Parked none none s' := by
  rcases runLocked_cases hstep with ⟨_, hon, rfl⟩ | ⟨_, rfl⟩ | ⟨_, hon, cv, hnotify, rfl⟩
  · -- it waits only in a pool that runs
    have hwait : Parked none (some p) { s with notFull_ := s.notFull_.wait p } :=
      { h with
        producer := by
          intro q task' hq hpc
          exact CondVar.mem_blocked_wait.mpr (Or.inr (h.producer q task' hq hpc))
        off := by
          intro hoff
          rw [show s.running_ = false from hoff] at hon
          cases hon }
    exact hwait.setProducer fun _ _ => CondVar.mem_blocked_wait.mpr (Or.inl rfl)
  · exact h.setProducer (by simp)
  · have hpush : Parked none (some p) { s with
        queue_ := s.queue_ ++ [task], accepted := s.accepted ++ [task], notEmpty_ := cv } :=
      { h with
        worker := by
          intro v hv hpc
          exact (CondVar.mem_blocked_notifyOne hnotify).mpr (h.worker v hv hpc)
        off := by
          intro hoff
          rw [show s.running_ = false from hoff] at hon
          cases hon }
    exact hpush.setProducer (by simp)

/-- The critical section of `take`: the worker waits, goes back to its loop or takes a task. -/
theorem Parked.takeLocked {w : Nat} {c : Option Pid} (h : Parked (some w) none s)
    (hw : w < s.started) (hstep : s.takeLocked w c = some s') : Parked none none s' := by
  rcases takeLocked_cases hstep with ⟨_, hon, rfl⟩ | ⟨_, _, rfl⟩ |
    ⟨task, rest, cv, _, hnotify, rfl⟩
  · have hwait : Parked (some w) none { s with notEmpty_ := s.notEmpty_.wait w } :=
      { h with
        worker := by
          intro v hv hpc
          exact CondVar.mem_blocked_wait.mpr (Or.inr (h.worker v hv hpc))
        off := by
          intro hoff
          rw [show s.running_ = false from hoff] at hon
          cases hon }
    exact hwait.setWorker hw (by simp) fun _ => CondVar.mem_blocked_wait.mpr (Or.inl rfl)
  · exact h.setWorker hw (by simp) (by simp)
  · -- a notified producer is still known, it only waits no more
    have hblocked : ∀ q, q ∈ s.notFull_.blocked → q ∈ cv.blocked := by
      intro q hq
      rcases hnotify with hnotify | ⟨_, rfl⟩
      · exact (CondVar.mem_blocked_notifyOne hnotify).mpr hq
      · exact hq
    have hwaiting : cv.waiting ⊆ s.notFull_.waiting := by
      rcases hnotify with hnotify | ⟨_, rfl⟩
      · exact CondVar.notifyOne_waiting hnotify
      · exact Finset.Subset.refl _
    have hpop : Parked (some w) none { s with
        queue_ := rest, taken := s.taken ++ [task], notFull_ := cv } :=
      { h with
        producer := fun q task' hq hpc => hblocked q (h.producer q task' hq hpc)
        off := by
          intro hoff
          obtain ⟨hempty, hfull⟩ := h.off hoff
          exact ⟨hempty, Finset.subset_empty.mp (hfull ▸ hwaiting)⟩ }
    exact hpop.setWorker hw (by simp) (by simp)

/-- A worker goes on outside of its critical section. -/
theorem Parked.move {w : Nat} {pc : WorkerPc Task} (h : Parked none none s)
    (hw : s.workers w ≠ .unstarted) (hpc : pc ≠ .unstarted) (hwait : pc ≠ .waiting) :
    Parked none none (s.setWorker w pc) :=
  h.weaken.setWorker ((h.started w).mp hw) hpc fun heq => absurd heq hwait

/-- The new worker begins with the callback, and not in a wait. -/
theorem Parked.startThread {left : Nat} (h : Parked none none s)
    (hpc : s.startPc = .starting left) :
    Parked none none ({ s with startPc := .creating left }.setWorker (s.threads_ - 1) .init) := by
  have hthreads := h.starting left hpc
  have hstarted : s.started = s.threads_ - 1 := by simp [State.started, hpc]
  exact { h with
    worker := by
      apply (Function.forall_update_iff s.workers
        fun v pc => some v ≠ none → pc = .waiting → v ∈ s.notEmpty_.blocked).mpr
      exact ⟨by simp, fun v _ => h.worker v⟩
    started := by
      intro v
      show Function.update s.workers (s.threads_ - 1) .init v ≠ .unstarted ↔ v < s.threads_
      by_cases hv : v = s.threads_ - 1
      · rw [hv, Function.update_self]
        exact ⟨fun _ => by omega, fun _ => by simp⟩
      · rw [Function.update_of_ne hv, h.started v, hstarted]
        omega
    starting := by simp [State.setWorker] }

/-- Nobody comes into a wait without being known, and `stop` ends every wait. -/
theorem parked_step (s : State Pid Task) (l : Label Pid Task) (s' : State Pid Task)
    (h : Parked none none s) (hstep : next s l = some s') : Parked none none s' := by
  cases l with
  | start numThreads =>
    simp only [next, Option.ite_none_right_eq_some, Option.some.injEq] at hstep
    obtain ⟨hpc, rfl⟩ := hstep
    have hstarted : s.started = s.threads_ := by simp [State.started, hpc]
    exact { h with
      off := by simp
      started := fun v => hstarted ▸ h.started v
      starting := by simp }
  | createThread =>
    obtain ⟨left, hpc, rfl⟩ := next_createThread hstep
    have hstarted : s.started = s.threads_ := by simp [State.started, hpc]
    exact { h with
      started := fun v => hstarted ▸ h.started v
      starting := fun _ _ => Nat.succ_pos _ }
  | startThread =>
    obtain ⟨left, hpc, rfl⟩ := next_startThread hstep
    exact h.startThread hpc
  | run p task =>
    obtain ⟨hpc, rfl | ⟨_, rfl⟩⟩ := next_run hstep
    · exact h
    · exact h.weaken.setProducer (by simp)
  | runLock p c =>
    obtain ⟨task, _, hlocked⟩ := next_runLock hstep
    exact h.weaken.runLocked hlocked
  | runResume p c =>
    -- back from the wait the producer is unknown until it has left the critical section
    obtain ⟨task, _, hlocked⟩ := next_runResume hstep
    have hresume : Parked none (some p) { s with notFull_ := s.notFull_.resume p } := by
      refine h.withNotFull ?_ ?_
      · intro q hq hmem
        exact CondVar.mem_blocked_resume.mpr ⟨by simpa using hq, hmem⟩
      · intro hoff
        exact Finset.subset_empty.mp ((h.off hoff).2 ▸ CondVar.resume_waiting _ p)
    exact hresume.runLocked hlocked
  | wakeProducer p =>
    obtain ⟨hp, rfl⟩ := next_wakeProducer hstep
    refine h.withNotFull (fun q _ hmem => (CondVar.mem_blocked_wake hp).mpr hmem) ?_
    intro hoff
    rw [(h.off hoff).2] at hp
    simp at hp
  | initDone w =>
    obtain ⟨hpc, rfl⟩ := next_initDone hstep
    exact h.move (by simp [hpc]) (by simp) (by simp)
  | test w =>
    obtain ⟨hpc, rfl⟩ := next_test hstep
    refine h.move (by simp [hpc]) ?_ ?_
    · split <;> simp
    · split <;> simp
  | takeLock w c =>
    obtain ⟨hpc, hlocked⟩ := next_takeLock hstep
    exact h.weaken.takeLocked ((h.started w).mp (by simp [hpc])) hlocked
  | takeResume w c =>
    obtain ⟨hpc, hlocked⟩ := next_takeResume hstep
    have hresume : Parked (some w) none { s with notEmpty_ := s.notEmpty_.resume w } := by
      refine h.withNotEmpty ?_ ?_
      · intro v hv hmem
        exact CondVar.mem_blocked_resume.mpr ⟨by simpa using hv, hmem⟩
      · intro hoff
        exact Finset.subset_empty.mp ((h.off hoff).1 ▸ CondVar.resume_waiting _ w)
    exact hresume.takeLocked ((h.started w).mp (by simp [hpc])) hlocked
  | wakeWorker w =>
    simp only [next, Option.ite_none_right_eq_some, Option.some.injEq] at hstep
    obtain ⟨hw, rfl⟩ := hstep
    refine h.withNotEmpty (fun v _ hmem => (CondVar.mem_blocked_wake hw).mpr hmem) ?_
    intro hoff
    rw [(h.off hoff).1] at hw
    simp at hw
  | returns w =>
    obtain ⟨⟨task, hpc⟩, rfl⟩ := next_returns hstep
    exact h.move (by simp [hpc]) (by simp) (by simp)
  | throws w =>
    have hmove : s.workers w ≠ .unstarted ∧ s' = s.setWorker w .exited := by
      simp only [next] at hstep
      split at hstep
      next task hpc => exact ⟨by simp [hpc], (Option.some.inj hstep).symm⟩
      next hpc => exact ⟨by simp [hpc], (Option.some.inj hstep).symm⟩
      next => cases hstep
    obtain ⟨hw, rfl⟩ := hmove
    exact h.move hw (by simp) (by simp)
  | stop =>
    obtain rfl := Option.some.inj hstep
    -- notifyAll empties the waiting sets, which is what `off` asks for
    exact { h with
      worker := fun v hv hpc => CondVar.mem_blocked_notifyAll.mpr (h.worker v hv hpc)
      producer := fun q task hq hpc => CondVar.mem_blocked_notifyAll.mpr (h.producer q task hq hpc)
      off := fun _ => ⟨rfl, rfl⟩ }

theorem parked_reachable (h : (machine Pid Task).Reachable s) : Parked none none s :=
  h.invariant (machine Pid Task) (fun _ => parked_init) parked_step

/-! ## After stop -/

/-- `start` has returned and `stop` has been called. -/
structure Stopped (s : State Pid Task) : Prop where
  parked : Parked none none s
  off : s.running_ = false
  created : s.startPc = .creating 0

/-- The worker that takes a step. -/
def Label.worker : Label Pid Task → Option Nat
  | .initDone w | .test w | .takeLock w _ | .takeResume w _ | .returns w | .throws w => some w
  | _ => none

/-- The worker that passes through the critical section of `take`, in which it takes one task
    at most. -/
def Label.taker : Label Pid Task → Option Nat
  | .takeLock w _ | .takeResume w _ => some w
  | _ => none

omit [DecidableEq Pid] in
theorem worker_of_taker {l : Label Pid Task} {w : Nat} (h : l.taker = some w) :
    l.worker = some w := by
  cases l <;> simp_all [Label.taker, Label.worker]

/-- How many steps it still takes a worker to return, at most. -/
def WorkerPc.rest : WorkerPc Task → Nat
  | .unstarted | .exited => 0
  | .test => 1
  | .init | .executing _ => 2
  | .take | .waiting => 3

/-- How often it may still come to the critical section of `take`. -/
def WorkerPc.due : WorkerPc Task → Nat
  | .take | .waiting => 1
  | .unstarted | .init | .test | .executing _ | .exited => 0

/-- What a step of a stopped pool can do. -/
structure Winds (l : Label Pid Task) (s s' : State Pid Task) : Prop where
  running_ : s'.running_ = s.running_
  startPc : s'.startPc = s.startPc
  threads_ : s'.threads_ = s.threads_
  accepted : s'.accepted = s.accepted
  workers : (l.worker = none ∧ s'.workers = s.workers ∧ s'.taken = s.taken) ∨
    ∃ w pc, l.worker = some w ∧ w < s.threads_ ∧ s'.workers = Function.update s.workers w pc ∧
      pc.rest < (s.workers w).rest ∧
      s'.taken.length ≤ s.taken.length + (if l.taker.isSome then 1 else 0) ∧
      pc.due + (if l.taker.isSome then 1 else 0) ≤ (s.workers w).due

/-- `start` has returned, so the threads are all started. -/
theorem Stopped.lt_threads {w : Nat} (h : Stopped s) (hw : s.workers w ≠ .unstarted) :
    w < s.threads_ := by
  have hlt := (h.parked.started w).mp hw
  have hle : s.started ≤ s.threads_ := started_le
  omega

/-- A worker moves on without a task. -/
theorem Stopped.move {l : Label Pid Task} {w : Nat} {pc : WorkerPc Task} (h : Stopped s)
    (hl : l.worker = some w) (htaker : l.taker = none)
    (hpos : pc.rest < (s.workers w).rest) (hdue : pc.due = 0) : Winds l s (s.setWorker w pc) := by
  have hw : s.workers w ≠ .unstarted := by
    intro heq
    rw [heq] at hpos
    exact Nat.not_lt_zero _ hpos
  refine ⟨rfl, rfl, rfl, rfl, Or.inr ⟨w, pc, hl, h.lt_threads hw, rfl, hpos, ?_, ?_⟩⟩
  · exact Nat.le_add_right _ _
  · rw [hdue, htaker]
    exact Nat.zero_le _

/-- A producer in the critical section of `run` goes home with its task. -/
theorem Stopped.runLocked {l : Label Pid Task} {p : Pid} {task : Task} {c : Option Nat}
    (hl : l.worker = none) (hoff : s.running_ = false) (hstep : s.runLocked p task c = some s') :
    Winds l s s' ∧ s'.producers p = .idle := by
  rcases runLocked_cases hstep with ⟨_, hon, _⟩ | ⟨_, rfl⟩ | ⟨_, hon, _⟩
  · rw [hoff] at hon
    cases hon
  · exact ⟨⟨rfl, rfl, rfl, rfl, Or.inl ⟨hl, rfl, rfl⟩⟩, Function.update_self ..⟩
  · rw [hoff] at hon
    cases hon

/-- A worker in that of `take` gets a task if there is one, and does not wait. -/
theorem Stopped.takeLocked {l : Label Pid Task} {w : Nat} {c : Option Pid}
    (hl : l.taker = some w) (hw : w < s.threads_) (hrest : (s.workers w).rest = 3)
    (hdue : (s.workers w).due = 1) (hoff : s.running_ = false)
    (hstep : s.takeLocked w c = some s') : Winds l s s' := by
  have hworker := worker_of_taker hl
  rcases takeLocked_cases hstep with ⟨_, hon, _⟩ | ⟨_, _, rfl⟩ | ⟨task, rest, cv, _, _, rfl⟩
  · rw [hoff] at hon
    cases hon
  · refine ⟨rfl, rfl, rfl, rfl, Or.inr ⟨w, .test, hworker, hw, rfl, ?_, Nat.le_add_right _ _, ?_⟩⟩
    · rw [hrest]
      exact Nat.lt_of_lt_of_le (Nat.lt_succ_self 1) (Nat.le_succ 2)
    · rw [hl, hdue]
      exact Nat.le_refl 1
  · refine ⟨rfl, rfl, rfl, rfl, Or.inr ⟨w, .executing task, hworker, hw, rfl, ?_, ?_, ?_⟩⟩
    · rw [hrest]
      exact Nat.lt_succ_self 2
    · show (s.taken ++ [task]).length ≤ _
      rw [List.length_append, hl]
      exact Nat.le_refl _
    · rw [hl, hdue]
      exact Nat.le_refl 1

/-- Each label: one of a worker lowers what that worker has left, the others change no worker. -/
theorem Stopped.winds {l : Label Pid Task} (h : Stopped s) (hstep : next s l = some s') :
    Winds l s s' := by
  cases l with
  | start numThreads =>
    simp only [next, h.created, reduceCtorEq, if_false] at hstep
  | createThread =>
    obtain ⟨left, hpc, _⟩ := next_createThread hstep
    rw [h.created] at hpc
    cases hpc
  | startThread =>
    obtain ⟨left, hpc, _⟩ := next_startThread hstep
    rw [h.created] at hpc
    cases hpc
  | run p task =>
    obtain ⟨_, rfl | ⟨_, rfl⟩⟩ := next_run hstep
    all_goals exact ⟨rfl, rfl, rfl, rfl, Or.inl ⟨rfl, rfl, rfl⟩⟩
  | runLock p c =>
    obtain ⟨task, _, hlocked⟩ := next_runLock hstep
    exact (Stopped.runLocked rfl h.off hlocked).1
  | runResume p c =>
    obtain ⟨task, _, hlocked⟩ := next_runResume hstep
    have hwinds := (Stopped.runLocked (s := { s with notFull_ := s.notFull_.resume p })
      (l := .runResume p c) rfl h.off hlocked).1
    exact ⟨hwinds.running_, hwinds.startPc, hwinds.threads_, hwinds.accepted, hwinds.workers⟩
  | wakeProducer p =>
    -- nobody waits any more
    obtain ⟨hp, _⟩ := next_wakeProducer hstep
    rw [(h.parked.off h.off).2] at hp
    simp at hp
  | initDone w =>
    obtain ⟨hpc, rfl⟩ := next_initDone hstep
    exact h.move rfl rfl (by rw [hpc]; exact Nat.lt_succ_self 1) rfl
  | test w =>
    -- the loop of runInThread ends here
    obtain ⟨hpc, rfl⟩ := next_test hstep
    rw [h.off]
    exact h.move rfl rfl (by rw [hpc]; exact Nat.zero_lt_one) rfl
  | takeLock w c =>
    obtain ⟨hpc, hlocked⟩ := next_takeLock hstep
    have hw := h.lt_threads (w := w) (by simp [hpc])
    exact Stopped.takeLocked rfl hw (by rw [hpc]; rfl) (by rw [hpc]; rfl) h.off hlocked
  | takeResume w c =>
    obtain ⟨hpc, hlocked⟩ := next_takeResume hstep
    have hw := h.lt_threads (w := w) (by simp [hpc])
    have hwinds := Stopped.takeLocked (s := { s with notEmpty_ := s.notEmpty_.resume w })
      (l := .takeResume w c) rfl hw (by rw [hpc]; rfl) (by rw [hpc]; rfl) h.off hlocked
    exact ⟨hwinds.running_, hwinds.startPc, hwinds.threads_, hwinds.accepted, hwinds.workers⟩
  | wakeWorker w =>
    simp only [next, Option.ite_none_right_eq_some] at hstep
    have hw := hstep.1
    rw [(h.parked.off h.off).1] at hw
    simp at hw
  | returns w =>
    obtain ⟨⟨task, hpc⟩, rfl⟩ := next_returns hstep
    exact h.move rfl rfl (by rw [hpc]; exact Nat.lt_succ_self 1) rfl
  | throws w =>
    simp only [next] at hstep
    split at hstep
    next task hpc =>
      obtain rfl := Option.some.inj hstep
      exact h.move rfl rfl (by rw [hpc]; exact Nat.zero_lt_two) rfl
    next hpc =>
      obtain rfl := Option.some.inj hstep
      exact h.move rfl rfl (by rw [hpc]; exact Nat.zero_lt_two) rfl
    next => cases hstep
  | stop =>
    obtain rfl := Option.some.inj hstep
    exact ⟨h.off.symm, rfl, rfl, rfl, Or.inl ⟨rfl, rfl, rfl⟩⟩

/-- A stopped pool stays stopped. -/
theorem stopped_step (s : State Pid Task) (l : Label Pid Task) (s' : State Pid Task)
    (h : Stopped s) (hstep : next s l = some s') : Stopped s' :=
  have hwinds := h.winds hstep
  ⟨parked_step s l s' h.parked hstep, hwinds.running_.trans h.off, hwinds.startPc.trans h.created⟩

/-! ## What stop waits for -/

/-- The steps that the workers still need, at most. -/
def State.rest (s : State Pid Task) : Nat := ∑ w ∈ Finset.range s.threads_, (s.workers w).rest

/-- The tasks taken, and those that may still be. -/
def State.reserved (s : State Pid Task) : Nat :=
  s.taken.length + ∑ w ∈ Finset.range s.threads_, (s.workers w).due

/-- A step of a worker brings it nearer to its return. -/
theorem worker_rest_step (w : Nat) (s : State Pid Task) (l : Label Pid Task) (s' : State Pid Task)
    (h : Stopped s) (hstep : next s l = some s') :
    (s'.workers w).rest + (if decide (l.worker = some w) then 1 else 0) ≤ (s.workers w).rest := by
  rcases (h.winds hstep).workers with ⟨hl, hworkers, _⟩ | ⟨v, pc, hl, _, hworkers, hlt, _⟩
  · rw [hl, hworkers]
    exact Nat.le_refl _
  · rw [hl, hworkers]
    by_cases hw : w = v
    · rw [hw, Function.update_self, if_pos (by simp)]
      exact hlt
    · rw [Function.update_of_ne hw, if_neg (by simpa using fun heq => hw heq.symm)]
      exact Nat.le_refl _

/-- After one more `take` a worker is due for none. -/
theorem worker_due_step (w : Nat) (s : State Pid Task) (l : Label Pid Task) (s' : State Pid Task)
    (h : Stopped s) (hstep : next s l = some s') :
    (s'.workers w).due + (if decide (l.taker = some w) then 1 else 0) ≤ (s.workers w).due := by
  rcases (h.winds hstep).workers with ⟨hl, hworkers, _⟩ | ⟨v, pc, hl, _, hworkers, _, _, hdue⟩
  · have htaker : l.taker ≠ some w := by
      intro htaker
      rw [worker_of_taker htaker] at hl
      cases hl
    rw [hworkers, if_neg (by simpa using htaker)]
    exact Nat.le_refl _
  · rw [hworkers]
    by_cases htaker : l.taker = some w
    · obtain rfl : v = w := Option.some.inj (hl.symm.trans (worker_of_taker htaker))
      rw [htaker] at hdue
      rw [Function.update_self, if_pos (by simpa using htaker)]
      exact hdue
    · rw [if_neg (by simpa using htaker)]
      by_cases hw : w = v
      · rw [hw, Function.update_self]
        exact Nat.le_trans (Nat.le_add_right _ _) hdue
      · rw [Function.update_of_ne hw]
        exact Nat.le_refl _

/-- Tasks are taken in the critical section of `take`, one at a time. -/
theorem taken_step (s : State Pid Task) (l : Label Pid Task) (s' : State Pid Task)
    (h : Stopped s) (hstep : next s l = some s') :
    s'.taken.length ≤ s.taken.length + (if l.taker.isSome then 1 else 0) := by
  rcases (h.winds hstep).workers with ⟨_, _, htaken⟩ | ⟨_, _, _, _, _, _, htaken, _⟩
  · rw [htaken]
    exact Nat.le_add_right _ _
  · exact htaken

/-- Each step of a worker counts in the sum. -/
theorem rest_step (s : State Pid Task) (l : Label Pid Task) (s' : State Pid Task)
    (h : Stopped s) (hstep : next s l = some s') :
    s'.rest + (if l.worker.isSome then 1 else 0) ≤ s.rest := by
  have hwinds := h.winds hstep
  unfold State.rest
  rw [hwinds.threads_]
  rcases hwinds.workers with ⟨hl, hworkers, _⟩ | ⟨w, pc, hl, hw, hworkers, hlt, _⟩
  · rw [hl, hworkers]
    exact Nat.le_refl _
  · have hsum := sum_update WorkerPc.rest s.workers (Finset.mem_range.mpr hw) pc
    rw [hl, hworkers]
    simp only [Option.isSome_some, if_true]
    omega

/-- A task taken is one that was reserved. -/
theorem reserved_step (s : State Pid Task) (l : Label Pid Task) (s' : State Pid Task)
    (h : Stopped s) (hstep : next s l = some s') : s'.reserved ≤ s.reserved := by
  have hwinds := h.winds hstep
  unfold State.reserved
  rw [hwinds.threads_]
  rcases hwinds.workers with ⟨_, hworkers, htaken⟩ | ⟨w, pc, _, hw, hworkers, _, htaken, hdue⟩
  · rw [hworkers, htaken]
  · have hsum := sum_update WorkerPc.due s.workers (Finset.mem_range.mpr hw) pc
    rw [hworkers]
    omega

/-- A worker that has not returned can take a step. -/
theorem Stopped.worker_moves {w : Nat} (h : Stopped s) (hw : w < s.threads_)
    (hnot : s.workers w ≠ .exited) : ∃ l s', Label.worker l = some w ∧ next s l = some s' := by
  obtain ⟨hempty, hfull⟩ := h.parked.off h.off
  -- with nobody waiting for room, notify_one does nothing
  have htake : ∃ s', s.takeLocked w none = some s' := by
    unfold State.takeLocked
    split
    · simp [h.off]
    · simp [CondVar.notifyOne, hfull]
  cases hpc : s.workers w with
  | unstarted =>
    have hlt : w < s.started := by
      simp only [State.started, h.created]
      exact hw
    exact absurd hpc ((h.parked.started w).mpr hlt)
  | init => exact ⟨.initDone w, s.setWorker w .test, rfl, by simp [next, hpc]⟩
  | test => exact ⟨.test w, s.setWorker w .exited, rfl, by simp [next, hpc, h.off]⟩
  | take =>
    obtain ⟨s', hs'⟩ := htake
    exact ⟨.takeLock w none, s', rfl, by simpa [next, hpc] using hs'⟩
  | waiting =>
    -- notified by stop, so it can come back
    have hwoken : s.notEmpty_.Woken w := by
      have hblocked := h.parked.worker w (by simp) hpc
      simpa [CondVar.blocked, hempty, CondVar.Woken] using hblocked
    have hresume : ∃ s', { s with notEmpty_ := s.notEmpty_.resume w }.takeLocked w none =
        some s' := by
      unfold State.takeLocked
      split
      · simp [h.off]
      · simp [CondVar.notifyOne, hfull]
    obtain ⟨s', hs'⟩ := hresume
    exact ⟨.takeResume w none, s', rfl, by simpa [next, hpc, hwoken] using hs'⟩
  | executing task => exact ⟨.returns w, s.setWorker w .test, rfl, by simp [next, hpc]⟩
  | exited => exact absurd hpc hnot

/-- A producer in `run` goes home. -/
theorem Stopped.producer_moves {p : Pid} (h : Stopped s) (hp : s.producers p ≠ .idle) :
    ∃ l s', (l = .runLock p none ∨ l = .runResume p none) ∧ next s l = some s' ∧
      s'.producers p = .idle ∧ s'.accepted = s.accepted := by
  have hrun : ∀ (t : State Pid Task) (task : Task), t.running_ = false →
      t.runLocked p task none = some (t.setProducer p .idle) := by
    intro t task hoff
    simp [State.runLocked, hoff]
  cases hpc : s.producers p with
  | idle => exact absurd hpc hp
  | lock task =>
    refine ⟨.runLock p none, s.setProducer p .idle, Or.inl rfl, ?_, Function.update_self .., rfl⟩
    simp [next, hpc, hrun s task h.off]
  | waiting task =>
    have hwoken : s.notFull_.Woken p := by
      have hblocked := h.parked.producer p task (by simp) hpc
      simpa [CondVar.blocked, (h.parked.off h.off).2, CondVar.Woken] using hblocked
    have hlocked := hrun { s with notFull_ := s.notFull_.resume p } task h.off
    refine ⟨.runResume p none,
      { s with notFull_ := s.notFull_.resume p }.setProducer p .idle, Or.inr rfl, ?_,
      Function.update_self .., rfl⟩
    simpa [next, hpc, hwoken] using hlocked

theorem WorkerPc.rest_le (pc : WorkerPc Task) : pc.rest ≤ 3 := by
  cases pc <;> simp [WorkerPc.rest]

theorem WorkerPc.due_le (pc : WorkerPc Task) : pc.due ≤ 1 := by
  cases pc <;> simp [WorkerPc.due]

omit [DecidableEq Pid] in
/-- A sum over the workers of a pool. -/
theorem sum_threads_le {f : WorkerPc Task → Nat} {b : Nat} (hf : ∀ pc, f pc ≤ b) :
    ∑ w ∈ Finset.range s.threads_, f (s.workers w) ≤ b * s.threads_ := by
  have hsum := Finset.sum_le_card_nsmul (Finset.range s.threads_) (fun w => f (s.workers w)) b
    fun w _ => hf (s.workers w)
  rw [Finset.card_range, Nat.nsmul_eq_mul, Nat.mul_comm] at hsum
  exact hsum

/-- After `stop`, once `start` has returned, in every further run: no task is accepted any
    more, every worker comes to the critical section of `take` once more at most, in which it
    takes one task, and it takes at most three steps.  As long as a worker has not returned
    from `runInThread` it can go on by itself, whatever the others do, so that `stop` comes
    back from its joins; and a producer in `run` can return at its next step. -/
theorem stop_joins {ls : List (Label Pid Task)} (h : (machine Pid Task).Reachable s)
    (hoff : s.running_ = false) (hover : s.startPc = .creating 0)
    (hrun : (machine Pid Task).run s ls = some s') :
    s'.accepted = s.accepted ∧ s'.taken.length ≤ s.taken.length + s.threads_ ∧
    ls.countP (fun l => l.worker.isSome) ≤ 3 * s.threads_ ∧
    (∀ w, ls.countP (fun l => l.worker = some w) ≤ 3 ∧
      ls.countP (fun l => l.taker = some w) ≤ 1) ∧
    s'.taken.length ≤ s.taken.length + ls.countP (fun l => l.taker.isSome) ∧
    (∀ w, w < s.threads_ → s'.workers w ≠ .exited →
      ∃ l t, Label.worker l = some w ∧ next s' l = some t) ∧
    (∀ p, s'.producers p ≠ .idle → ∃ l t, (l = .runLock p none ∨ l = .runResume p none) ∧
      next s' l = some t ∧ t.producers p = .idle) := by
  have hs : Stopped s := ⟨parked_reachable h, hoff, hover⟩
  have hkeeps : Stopped s' ∧ s'.accepted = s.accepted ∧ s'.threads_ = s.threads_ ∧
      s'.reserved ≤ s.reserved := by
    refine (machine Pid Task).run_invariant
      (I := fun t => Stopped t ∧ t.accepted = s.accepted ∧ t.threads_ = s.threads_ ∧
        t.reserved ≤ s.reserved) ?_ ⟨hs, rfl, rfl, Nat.le_refl _⟩ hrun
    intro t l t' ht hstep
    have hwinds := ht.1.winds hstep
    exact ⟨stopped_step t l t' ht.1 hstep, hwinds.accepted.trans ht.2.1,
      hwinds.threads_.trans ht.2.2.1, Nat.le_trans (reserved_step t l t' ht.1 hstep) ht.2.2.2⟩
  obtain ⟨hs', haccepted, hthreads, hreserved⟩ := hkeeps
  refine ⟨haccepted, ?_, ?_, ?_, ?_, ?_, ?_⟩
  · have hdue := sum_threads_le (s := s) WorkerPc.due_le
    unfold State.reserved at hreserved
    omega
  · have hcount := Machine.countP_add_rank_le (p := fun l => l.worker.isSome) State.rest
      stopped_step rest_step hs hrun
    have hrest := sum_threads_le (s := s) WorkerPc.rest_le
    unfold State.rest at hcount
    omega
  · intro w
    have hsteps := Machine.countP_add_rank_le (fun t : State Pid Task => (t.workers w).rest)
      stopped_step (worker_rest_step w) hs hrun
    have htakes := Machine.countP_add_rank_le (fun t : State Pid Task => (t.workers w).due)
      stopped_step (worker_due_step w) hs hrun
    have hrest := WorkerPc.rest_le (s.workers w)
    have hdue := WorkerPc.due_le (s.workers w)
    exact ⟨by omega, by omega⟩
  · exact Machine.run_le_add_countP (fun t : State Pid Task => t.taken.length) stopped_step
      taken_step hs hrun
  · intro w hw hnot
    exact hs'.worker_moves (hthreads ▸ hw) hnot
  · intro p hp
    obtain ⟨l, t, hl, hstep, hidle, _⟩ := hs'.producer_moves hp
    exact ⟨l, t, hl, hstep, hidle⟩

/-- A task is in the queue and a producer waits for room when the pool is stopped. -/
def stoppedFull : List (Label Nat Nat) :=
  [.start 1, .createThread, .startThread, .initDone 0, .test 0, .takeLock 0 none,
    .run 7 10, .runLock 7 (some 0), .run 8 11, .runLock 8 none, .stop]

theorem stop_joins_full_queue :
    ∃ s s' : State Nat Nat, (machine Nat Nat).run { maxQueueSize_ := 1 } stoppedFull = some s ∧
      (machine Nat Nat).run s [.takeResume 0 none, .returns 0, .test 0] = some s' ∧
      s'.accepted = s.accepted ∧ s'.taken.length ≤ s.taken.length + 1 ∧
      ∃ l t, (l = .runLock 8 none ∨ l = .runResume 8 none) ∧ next s' l = some t ∧
        t.producers 8 = .idle := by
  have hend : ((machine Nat Nat).run { maxQueueSize_ := 1 }
      (stoppedFull ++ [.takeResume 0 none, .returns 0, .test 0])).map
        (fun s => s.producers 8) = some (.waiting 11) := by decide +kernel
  have hstop : ((machine Nat Nat).run { maxQueueSize_ := 1 } stoppedFull).map
      (fun s => (s.running_, s.startPc, s.threads_)) = some (false, .creating 0, 1) := by
    decide +kernel
  obtain ⟨s', hboth, hproducer⟩ := Option.map_eq_some_iff.mp hend
  obtain ⟨s, hrun, hrest⟩ := (machine Nat Nat).run_append_some.mp hboth
  rw [hrun, Option.map_some, Option.some.injEq, Prod.mk.injEq, Prod.mk.injEq] at hstop
  obtain ⟨hoff, hover, hthreads⟩ := hstop
  obtain ⟨haccepted, htaken, _, _, _, _, hreturn⟩ :=
    stop_joins ⟨_, _, ⟨1, rfl⟩, hrun⟩ hoff hover hrest
  rw [hthreads] at htaken
  exact ⟨s, s', hrun, hrest, haccepted, htaken, hreturn 8 (by rw [hproducer]; simp)⟩

end ThreadPool
