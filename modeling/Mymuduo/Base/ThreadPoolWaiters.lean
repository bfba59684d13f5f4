import Mymuduo.Base.ThreadPool

/-! # No stuck waiter

    As long as the pool is not stopped and no task throws, a task in the queue has a
    worker that does not wait for one, and the free slots are all meant for producers
    that have been notified and are on their way.
-/

namespace ThreadPool

variable {Pid Task : Type} [DecidableEq Pid] {s s' : State Pid Task}

/-! ## The pool at work -/

/-- The workers below this number have been started. -/
def State.started (s : State Pid Task) : Nat :=
  match s.startPc with
  | .starting _ => s.threads_ - 1
  | _ => s.threads_

omit [DecidableEq Pid] in
theorem started_le : s.started ≤ s.threads_ := by
  unfold State.started
  split <;> omega

/-- A pool that is not stopped: how far `start` has come, and which workers there are. -/
structure Unstopped (s : State Pid Task) : Prop where
  running : s.startPc ≠ .notCalled → s.running_ = true
  notStarted : s.startPc = .notCalled → s.threads_ = 0
  starting : ∀ left, s.startPc = .starting left → 0 < s.threads_
  worker : ∀ w, s.workers w ≠ .unstarted → w < s.started

namespace Unstopped

theorem of_init (h : (machine Pid Task).init s) : Unstopped s := by
  obtain ⟨maxQueueSize, rfl⟩ := h
  constructor <;> simp

omit [DecidableEq Pid]

theorem running_of_threads (h : Unstopped s) (hthreads : 0 < s.threads_) : s.running_ = true := by
  apply h.running
  intro hnot
  have := h.notStarted hnot
  omega

theorem worker_lt (h : Unstopped s) {w : Nat} (hw : s.workers w ≠ .unstarted) : w < s.threads_ :=
  Nat.lt_of_lt_of_le (h.worker w hw) started_le

theorem setWorker (h : Unstopped s) {w : Nat} (hw : w < s.started) (pc : WorkerPc Task) :
    Unstopped (s.setWorker w pc) :=
  { h with
    worker := by
      apply (Function.forall_update_iff s.workers fun v pc => pc ≠ .unstarted → v < s.started).mpr
      exact ⟨fun _ => hw, fun v _ => h.worker v⟩ }

/-- `start` is called. -/
theorem start (h : Unstopped s) (hpc : s.startPc = .notCalled) (numThreads : Nat) :
    Unstopped { s with running_ := true, startPc := .creating numThreads } := by
  have hstarted : s.started = s.threads_ := by simp [State.started, hpc]
  exact ⟨fun _ => rfl, by simp, by simp, fun w hw => hstarted ▸ h.worker w hw⟩

theorem createThread (h : Unstopped s) {left : Nat} (hpc : s.startPc = .creating (left + 1)) :
    Unstopped { s with threads_ := s.threads_ + 1, startPc := .starting left } := by
  have hstarted : s.started = s.threads_ := by simp [State.started, hpc]
  exact ⟨fun _ => h.running (by simp [hpc]), by simp, fun _ _ => Nat.succ_pos _,
    fun w hw => hstarted ▸ h.worker w hw⟩

/-- The last thread counts as started from now on. -/
theorem started_last (h : Unstopped s) {left : Nat} (hpc : s.startPc = .starting left) :
    Unstopped { s with startPc := .creating left } :=
  ⟨fun _ => h.running (by simp [hpc]), by simp, by simp, fun _ hw => h.worker_lt hw⟩

/-- Before that it is in no function. -/
theorem last_unstarted (h : Unstopped s) {left : Nat} (hpc : s.startPc = .starting left) :
    s.workers (s.threads_ - 1) = .unstarted := by
  have hstarted : s.started = s.threads_ - 1 := by simp [State.started, hpc]
  by_contra hnot
  have := h.worker _ hnot
  omega

end Unstopped

/-- A pool that is not stopped and has lost no worker. -/
structure Working (s : State Pid Task) : Prop extends Unstopped s where
  not_exited : ∀ w, s.workers w ≠ .exited
  producer : ∀ p, s.producers p ≠ .idle → 0 < s.threads_
  blocked_worker : ∀ w, w ∈ s.notEmpty_.blocked → s.workers w = .waiting
  blocked_producer : ∀ p, p ∈ s.notFull_.blocked → ∃ task, s.producers p = .waiting task
  served : s.queue_ ≠ [] → ∃ w, w < s.threads_ ∧ w ∉ s.notEmpty_.waiting

namespace Working

theorem of_init (h : (machine Pid Task).init s) : Working s := by
  have hopen := Unstopped.of_init h
  obtain ⟨maxQueueSize, rfl⟩ := h
  refine ⟨hopen, ?_, ?_, ?_, ?_, ?_⟩ <;> simp [CondVar.blocked]

theorem not_blocked (h : Working s) {w : Nat} (hw : s.workers w ≠ .waiting) :
    w ∉ s.notEmpty_.blocked :=
  fun hblocked => hw (h.blocked_worker w hblocked)

theorem not_blocked_producer (h : Working s) {p : Pid}
    (hp : ∀ task, s.producers p ≠ .waiting task) : p ∉ s.notFull_.blocked := by
  intro hblocked
  obtain ⟨task, hwaiting⟩ := h.blocked_producer p hblocked
  exact hp task hwaiting

/-! ## Small steps -/

/-- A worker that has been started moves on; a wait it is in stays marked as one. -/
theorem setWorker (h : Working s) {w : Nat} {pc : WorkerPc Task} (hw : w < s.started)
    (hblocked : w ∈ s.notEmpty_.blocked → pc = .waiting) (hpc : pc ≠ .exited) :
    Working (s.setWorker w pc) :=
  { h with
    toUnstopped := h.toUnstopped.setWorker hw pc
    not_exited := by
      apply (Function.forall_update_iff s.workers fun _ pc => pc ≠ .exited).mpr
      exact ⟨hpc, fun v _ => h.not_exited v⟩
    blocked_worker := by
      apply (Function.forall_update_iff s.workers
        fun v pc => v ∈ s.notEmpty_.blocked → pc = .waiting).mpr
      exact ⟨hblocked, fun v _ => h.blocked_worker v⟩ }

/-- A worker moves from one point outside of a wait to another. -/
theorem move (h : Working s) {w : Nat} {pc : WorkerPc Task} (hw : s.workers w ≠ .unstarted)
    (hwait : s.workers w ≠ .waiting) (hpc : pc ≠ .exited) : Working (s.setWorker w pc) := by
  apply h.setWorker (h.worker w hw) _ hpc
  intro hmem
  exact absurd hmem (h.not_blocked hwait)

theorem setProducer (h : Working s) {p : Pid} {pc : ProducerPc Task} (hthreads : 0 < s.threads_)
    (hblocked : p ∈ s.notFull_.blocked → ∃ task, pc = .waiting task) :
    Working (s.setProducer p pc) :=
  { h with
    producer := fun _ _ => hthreads
    blocked_producer := by
      apply (Function.forall_update_iff s.producers
        fun q pc => q ∈ s.notFull_.blocked → ∃ task, pc = .waiting task).mpr
      exact ⟨hblocked, fun q _ => h.blocked_producer q⟩ }

theorem start (h : Working s) (hpc : s.startPc = .notCalled) (numThreads : Nat) :
    Working { s with running_ := true, startPc := .creating numThreads } :=
  { h with toUnstopped := h.toUnstopped.start hpc numThreads }

theorem createThread (h : Working s) {left : Nat} (hpc : s.startPc = .creating (left + 1)) :
    Working { s with threads_ := s.threads_ + 1, startPc := .starting left } :=
  { h with
    toUnstopped := h.toUnstopped.createThread hpc
    producer := fun _ _ => Nat.succ_pos _
    served := by
      intro hne
      obtain ⟨w, hw, hnot⟩ := h.served hne
      exact ⟨w, Nat.lt_succ_of_lt hw, hnot⟩ }

theorem startThread (h : Working s) {left : Nat} (hpc : s.startPc = .starting left) :
    Working ({ s with startPc := .creating left }.setWorker (s.threads_ - 1) .init) := by
  have hthreads : 0 < s.threads_ := h.starting left hpc
  have hcreating : Working { s with startPc := .creating left } :=
    { h with toUnstopped := h.toUnstopped.started_last hpc }
  -- the last thread is not in a wait, as it has not been started
  have hblocked : s.threads_ - 1 ∉ s.notEmpty_.blocked := by
    apply h.not_blocked
    rw [h.last_unstarted hpc]
    simp
  apply hcreating.setWorker
  · show s.threads_ - 1 < s.threads_
    omega
  · intro hmem
    exact absurd hmem hblocked
  · simp

/-- A worker blocks only on an empty queue. -/
theorem waitWorker (h : Working s) {w : Nat} (hpc : s.workers w = .waiting)
    (hqueue : s.queue_ = []) : Working { s with notEmpty_ := s.notEmpty_.wait w } :=
  { h with
    blocked_worker := by
      intro v hv
      rcases CondVar.mem_blocked_wait.mp hv with rfl | hv
      · exact hpc
      · exact h.blocked_worker v hv
    served := fun hne => absurd hqueue hne }

theorem waitProducer (h : Working s) {p : Pid} {task : Task}
    (hpc : s.producers p = .waiting task) : Working { s with notFull_ := s.notFull_.wait p } :=
  { h with
    blocked_producer := by
      intro q hq
      rcases CondVar.mem_blocked_wait.mp hq with rfl | hq
      · exact ⟨task, hpc⟩
      · exact h.blocked_producer q hq }

/-- The condition variable of the workers changes with no worker entering a wait. -/
theorem withNotEmpty (h : Working s) {cv : CondVar Nat}
    (hblocked : ∀ w, w ∈ cv.blocked → w ∈ s.notEmpty_.blocked)
    (hwaiting : cv.waiting ⊆ s.notEmpty_.waiting) : Working { s with notEmpty_ := cv } :=
  { h with
    blocked_worker := fun w hw => h.blocked_worker w (hblocked w hw)
    served := by
      intro hne
      obtain ⟨w, hw, hnot⟩ := h.served hne
      exact ⟨w, hw, fun hmem => hnot (hwaiting hmem)⟩ }

theorem withNotFull (h : Working s) {cv : CondVar Pid}
    (hblocked : ∀ p, p ∈ cv.blocked → p ∈ s.notFull_.blocked) :
    Working { s with notFull_ := cv } :=
  { h with blocked_producer := fun p hp => h.blocked_producer p (hblocked p hp) }

/-- A task is pushed and one worker notified: whichever it is, it waits no more. -/
theorem push (h : Working s) {task : Task} {c : Option Nat} {cv : CondVar Nat}
    (hthreads : 0 < s.threads_) (hnotify : s.notEmpty_.notifyOne c = some cv) :
    Working { s with
      queue_ := s.queue_ ++ [task], accepted := s.accepted ++ [task], notEmpty_ := cv } :=
  { h with
    blocked_worker :=
      fun w hw => h.blocked_worker w ((CondVar.mem_blocked_notifyOne hnotify).mp hw)
    served := by
      intro _
      rcases CondVar.notifyOne_cases hnotify with ⟨hempty, rfl⟩ | ⟨w, hw, rfl⟩
      · exact ⟨0, hthreads, by simp [hempty]⟩
      · -- the worker picked was waiting, so it has been started
        have hpc := h.blocked_worker w (CondVar.mem_blocked_of_waiting hw)
        have hlt : w < s.threads_ := h.worker_lt (by simp [hpc])
        exact ⟨w, hlt, Finset.notMem_erase w _⟩ }

/-- The worker that takes a task is one that does not wait, for the tasks it leaves. -/
theorem pop (h : Working s) {w : Nat} {task : Task} {rest : List Task}
    (hw : w < s.threads_) (hblocked : w ∉ s.notEmpty_.blocked) :
    Working { s with queue_ := rest, taken := s.taken ++ [task] } :=
  { h with served := fun _ => ⟨w, hw, fun hmem => hblocked (CondVar.mem_blocked_of_waiting hmem)⟩ }

/-! ## Critical sections -/

theorem runLocked (h : Working s) {p : Pid} {task : Task} {c : Option Nat}
    (hthreads : 0 < s.threads_) (hblocked : p ∉ s.notFull_.blocked)
    (hstep : s.runLocked p task c = some s') : Working s' := by
  rcases runLocked_cases hstep with ⟨_, _, rfl⟩ | ⟨hnot, _⟩ | ⟨_, _, cv, hnotify, rfl⟩
  · have hwait : Working (s.setProducer p (.waiting task)) :=
      h.setProducer hthreads fun _ => ⟨task, rfl⟩
    have hpc : (s.setProducer p (.waiting task)).producers p = .waiting task :=
      Function.update_self p _ _
    exact hwait.waitProducer hpc
  · rw [h.running_of_threads hthreads] at hnot
    cases hnot
  · exact (h.push hthreads hnotify).setProducer hthreads fun hmem => absurd hmem hblocked

theorem takeLocked (h : Working s) {w : Nat} {c : Option Pid} (hw : w < s.started)
    (hblocked : w ∉ s.notEmpty_.blocked) (hstep : s.takeLocked w c = some s') : Working s' := by
  have hlt : w < s.threads_ := Nat.lt_of_lt_of_le hw started_le
  rcases takeLocked_cases hstep with ⟨hqueue, _, rfl⟩ | ⟨_, hnot, _⟩ |
    ⟨task, rest, cv, _, hnotify, rfl⟩
  · have hwait : Working (s.setWorker w .waiting) := h.setWorker hw (fun _ => rfl) (by simp)
    exact hwait.waitWorker (by simp [State.setWorker]) hqueue
  · rw [h.running_of_threads (by omega)] at hnot
    cases hnot
  · have hcv : ∀ p, p ∈ cv.blocked → p ∈ s.notFull_.blocked := by
      intro p hp
      rcases hnotify with hnotify | ⟨_, rfl⟩
      · exact (CondVar.mem_blocked_notifyOne hnotify).mp hp
      · exact hp
    have hpop : Working { s with queue_ := rest, taken := s.taken ++ [task], notFull_ := cv } :=
      (h.pop hlt hblocked).withNotFull hcv
    exact hpop.setWorker hw (fun hmem => absurd hmem hblocked) (by simp)

end Working

/-! ## Runs without a stop -/

/-- The pool is not stopped and no task throws. -/
def Label.Normal : Label Pid Task → Prop
  | .stop | .throws _ => False
  | _ => True

instance : (l : Label Pid Task) → Decidable l.Normal
  | .stop | .throws _ => isFalse id
  | .start _ | .createThread | .startThread | .run _ _ | .runLock _ _ | .runResume _ _
  | .wakeProducer _ | .initDone _ | .test _ | .takeLock _ _ | .takeResume _ _ | .wakeWorker _
  | .returns _ => isTrue trivial

theorem working_step {l : Label Pid Task} (h : Working s) (hnormal : l.Normal)
    (hstep : next s l = some s') : Working s' := by
  cases l with
  | stop => exact hnormal.elim
  | throws w => exact hnormal.elim
  | start numThreads =>
    simp only [next, Option.ite_none_right_eq_some, Option.some.injEq] at hstep
    obtain ⟨hpc, rfl⟩ := hstep
    exact h.start hpc numThreads
  | createThread =>
    obtain ⟨left, hpc, rfl⟩ := next_createThread hstep
    exact h.createThread hpc
  | startThread =>
    obtain ⟨left, hpc, rfl⟩ := next_startThread hstep
    exact h.startThread hpc
  | run p task =>
    obtain ⟨hpc, rfl | ⟨hthreads, rfl⟩⟩ := next_run hstep
    · exact h
    · apply h.setProducer (Nat.pos_of_ne_zero hthreads)
      intro hmem
      exact absurd hmem (h.not_blocked_producer (by simp [hpc]))
  | runLock p c =>
    obtain ⟨task, hpc, hlocked⟩ := next_runLock hstep
    have hthreads := h.producer p (by simp [hpc])
    exact h.runLocked hthreads (h.not_blocked_producer (by simp [hpc])) hlocked
  | runResume p c =>
    obtain ⟨task, hpc, hlocked⟩ := next_runResume hstep
    have hresume : Working { s with notFull_ := s.notFull_.resume p } :=
      h.withNotFull fun q hq => (CondVar.mem_blocked_resume.mp hq).2
    apply hresume.runLocked (h.producer p (by simp [hpc])) _ hlocked
    intro hmem
    exact (CondVar.mem_blocked_resume.mp hmem).1 rfl
  | wakeProducer p =>
    obtain ⟨hp, rfl⟩ := next_wakeProducer hstep
    exact h.withNotFull fun q hq => (CondVar.mem_blocked_wake hp).mp hq
  | initDone w =>
    obtain ⟨hpc, rfl⟩ := next_initDone hstep
    exact h.move (by simp [hpc]) (by simp [hpc]) (by simp)
  | test w =>
    obtain ⟨hpc, rfl⟩ := next_test hstep
    have hw : w < s.threads_ := h.worker_lt (by simp [hpc])
    rw [h.running_of_threads (by omega)]
    exact h.move (by simp [hpc]) (by simp [hpc]) (by simp)
  | takeLock w c =>
    obtain ⟨hpc, hlocked⟩ := next_takeLock hstep
    exact h.takeLocked (h.worker w (by simp [hpc])) (h.not_blocked (by simp [hpc])) hlocked
  | takeResume w c =>
    obtain ⟨hpc, hlocked⟩ := next_takeResume hstep
    have hresume : Working { s with notEmpty_ := s.notEmpty_.resume w } :=
      h.withNotEmpty (fun v hv => (CondVar.mem_blocked_resume.mp hv).2)
        (CondVar.resume_waiting _ w)
    apply hresume.takeLocked (h.worker w (by simp [hpc])) _ hlocked
    intro hmem
    exact (CondVar.mem_blocked_resume.mp hmem).1 rfl
  | wakeWorker w =>
    simp only [next, Option.ite_none_right_eq_some, Option.some.injEq] at hstep
    obtain ⟨hw, rfl⟩ := hstep
    exact h.withNotEmpty (fun v hv => (CondVar.mem_blocked_wake hw).mp hv)
      (Finset.erase_subset w _)
  | returns w =>
    obtain ⟨⟨task, hpc⟩, rfl⟩ := next_returns hstep
    exact h.move (by simp [hpc]) (by simp [hpc]) (by simp)

/-! ## Free slots -/

/-- While a producer waits there is a notified one for each free slot. -/
def SlotsCovered (s : State Pid Task) : Prop :=
  s.notFull_.waiting ≠ ∅ → s.maxQueueSize_ ≤ s.queue_.length + s.notFull_.notified.card

/-- A producer that has just used up its own notification fills a slot or finds none. -/
theorem runLocked_slots {p : Pid} {task : Task} {c : Option Nat}
    (h : s.notFull_.waiting ≠ ∅ →
      s.maxQueueSize_ ≤ s.queue_.length + s.notFull_.notified.card + 1)
    (hrunning : s.running_ = true) (hstep : s.runLocked p task c = some s') :
    SlotsCovered s' := by
  rcases runLocked_cases hstep with ⟨hfull, _, rfl⟩ | ⟨hnot, _⟩ | ⟨_, _, _, _, rfl⟩
  · intro _
    have hle : s.maxQueueSize_ ≤ s.queue_.length := by
      simp only [State.isFull, Bool.and_eq_true, decide_eq_true_eq] at hfull
      exact hfull.2
    exact Nat.le_trans hle (Nat.le_add_right _ _)
  · rw [hrunning] at hnot
    cases hnot
  · intro hwaiting
    show s.maxQueueSize_ ≤ (s.queue_ ++ [task]).length + s.notFull_.notified.card
    have := h hwaiting
    rw [List.length_append, List.length_singleton]
    omega

/-- A slot that becomes free comes with a notification. -/
theorem takeLocked_slots {w : Nat} {c : Option Pid} (h : SlotsCovered s)
    (hstep : s.takeLocked w c = some s') : SlotsCovered s' := by
  rcases takeLocked_cases hstep with ⟨_, _, rfl⟩ | ⟨_, _, rfl⟩ |
    ⟨task, rest, cv, hqueue, hnotify | ⟨hmax, _⟩, rfl⟩
  · exact h
  · exact h
  · intro hwaiting
    show s.maxQueueSize_ ≤ rest.length + cv.notified.card
    obtain ⟨hne, hcard⟩ := CondVar.notifyOne_card hnotify hwaiting
    have := h hne
    rw [hqueue, List.length_cons] at this
    omega
  · intro _
    show s.maxQueueSize_ ≤ _
    omega

/-- A producer back from a wait may have used up the notification for a slot. -/
theorem resume_slots (h : SlotsCovered s) (p : Pid) (hne : (s.notFull_.resume p).waiting ≠ ∅) :
    s.maxQueueSize_ ≤ s.queue_.length + (s.notFull_.resume p).notified.card + 1 := by
  have hwaiting : s.notFull_.waiting ≠ ∅ := by
    intro hempty
    exact hne (Finset.subset_empty.mp (hempty ▸ CondVar.resume_waiting s.notFull_ p))
  have hcard := CondVar.card_le_resume s.notFull_ p
  have := h hwaiting
  omega

theorem slots_step {l : Label Pid Task} (hw : Working s) (h : SlotsCovered s)
    (hnormal : l.Normal) (hstep : next s l = some s') : SlotsCovered s' := by
  cases l with
  | stop => exact hnormal.elim
  | throws w => exact hnormal.elim
  | runLock p c =>
    obtain ⟨task, hpc, hlocked⟩ := next_runLock hstep
    have hrunning := hw.running_of_threads (hw.producer p (by simp [hpc]))
    exact runLocked_slots (fun hne => Nat.le_succ_of_le (h hne)) hrunning hlocked
  | runResume p c =>
    obtain ⟨task, hpc, hlocked⟩ := next_runResume hstep
    have hrunning := hw.running_of_threads (hw.producer p (by simp [hpc]))
    apply runLocked_slots (s := { s with notFull_ := s.notFull_.resume p }) _ hrunning hlocked
    exact resume_slots h p
  | takeLock w c => exact takeLocked_slots h (next_takeLock hstep).2
  | takeResume w c =>
    have hresume : SlotsCovered { s with notEmpty_ := s.notEmpty_.resume w } := h
    exact takeLocked_slots hresume (next_takeResume hstep).2
  | wakeProducer p =>
    obtain ⟨hp, rfl⟩ := next_wakeProducer hstep
    intro _
    exact h (Finset.ne_empty_of_mem hp)
  | start _ | createThread | startThread | run _ _ | initDone _ | test _ | wakeWorker _
  | returns _ =>
    have hsame : s'.notFull_ = s.notFull_ ∧ s'.queue_ = s.queue_ ∧
        s'.maxQueueSize_ = s.maxQueueSize_ := by
      simp only [next] at hstep
      grind [State.setWorker, State.setProducer]
    obtain ⟨hnotFull, hqueue, hmax⟩ := hsame
    rw [SlotsCovered, hnotFull, hqueue, hmax]
    exact h

theorem working_run {s₀ : State Pid Task} {ls : List (Label Pid Task)}
    (hinit : (machine Pid Task).init s₀) (hrun : (machine Pid Task).run s₀ ls = some s)
    (hnormal : (machine Pid Task).Along (fun _ l => l.Normal) s₀ ls) :
    Working s ∧ SlotsCovered s := by
  have hslots : SlotsCovered s₀ := by
    obtain ⟨maxQueueSize, rfl⟩ := hinit
    exact fun hne => absurd rfl hne
  apply (machine Pid Task).run_invariant_along _ ⟨Working.of_init hinit, hslots⟩ hnormal hrun
  intro t l t' ht hl hnext
  exact ⟨working_step ht.1 hl hnext, slots_step ht.1 ht.2 hl hnext⟩

/-- In every run of a pool that is not stopped, with tasks that return: while there is
    a task in the queue, some worker is neither in the wait for one nor gone; and while
    a producer waits for room, there are no more free slots than producers notified and
    still to resume. -/
theorem no_stuck_waiter {s₀ : State Pid Task} {ls : List (Label Pid Task)}
    (hinit : (machine Pid Task).init s₀) (hrun : (machine Pid Task).run s₀ ls = some s)
    (hnormal : (machine Pid Task).Along (fun _ l => l.Normal) s₀ ls) :
    (s.queue_ ≠ [] →
      ∃ w, w < s.threads_ ∧ w ∉ s.notEmpty_.waiting ∧ s.workers w ≠ .exited) ∧
    (s.notFull_.waiting ≠ ∅ →
      s.maxQueueSize_ - s.queue_.length ≤ s.notFull_.notified.card) ∧
    (∀ p, p ∈ s.notFull_.notified → ∃ task, s.producers p = .waiting task) := by
  obtain ⟨hw, hslots⟩ := working_run hinit hrun hnormal
  refine ⟨?_, ?_, ?_⟩
  · intro hne
    obtain ⟨w, hlt, hnot⟩ := hw.served hne
    exact ⟨w, hlt, hnot, hw.not_exited w⟩
  · intro hne
    have := hslots hne
    omega
  · intro p hp
    apply hw.blocked_producer p
    simp [CondVar.blocked, hp]

/-- Three producers and one slot: the second and the third wait when the worker takes
    the first task, and the second one is notified for the slot. -/
theorem no_stuck_waiter_three_producers :
    ∃ (s₀ s : State Nat Nat) (ls : List (Label Nat Nat)), (machine Nat Nat).init s₀ ∧
      (machine Nat Nat).run s₀ ls = some s ∧ s.notFull_.waiting = {2} ∧ s.queue_ = [] ∧
      s.maxQueueSize_ - s.queue_.length = 1 ∧ 1 ≤ s.notFull_.notified.card := by
  have hrun : (machine Nat Nat).run { maxQueueSize_ := 1 }
      [.start 1, .createThread, .run 0 10, .runLock 0 none, .run 1 11, .runLock 1 none,
        .run 2 12, .runLock 2 none, .startThread, .initDone 0, .test 0,
        .takeLock 0 (some 1)] = some _ := rfl
  obtain ⟨_, hslots, _⟩ := no_stuck_waiter ⟨1, rfl⟩ hrun (by decide)
  exact ⟨_, _, _, ⟨1, rfl⟩, hrun, by decide, rfl, rfl, hslots (by decide)⟩

end ThreadPool
