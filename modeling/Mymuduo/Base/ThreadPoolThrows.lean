import Mathlib.Data.Finset.Card
import Mymuduo.Base.ThreadPoolWaiters

/-! # Tasks that throw

    The handler of `runInThread` is outside of its loop, so a worker whose task throws
    returns.  Until the pool is stopped that is the only way out, and nobody starts
    another worker: the workers left are those started less one for each throw.
-/

namespace ThreadPool

variable {Pid Task : Type} {s s' : State Pid Task}

/-! ## The workers in runInThread -/

inductive Phase where
  | unstarted
  | inThread
  | exited
  deriving DecidableEq

/-- Where a worker is with regard to `runInThread`. -/
def WorkerPc.phase : WorkerPc Task → Phase
  | .unstarted => .unstarted
  | .init | .test | .take | .waiting | .executing _ => .inThread
  | .exited => .exited

theorem phase_unstarted {pc : WorkerPc Task} : pc.phase = .unstarted ↔ pc = .unstarted := by
  cases pc <;> simp [WorkerPc.phase]

/-- The workers that have not returned from `runInThread`. -/
def State.live (s : State Pid Task) : Finset Nat :=
  (Finset.range s.started).filter fun w => (s.workers w).phase = .inThread

theorem mem_live {w : Nat} : w ∈ s.live ↔ w < s.started ∧ (s.workers w).phase = .inThread := by
  rw [State.live, Finset.mem_filter, Finset.mem_range]

/-- The argument of `start`, once it was called. -/
def State.numThreads (s : State Pid Task) : Nat :=
  match s.startPc with
  | .notCalled => 0
  | .creating left | .starting left => s.threads_ + left

/-- The task of a worker, or its `threadInitCallback_`, throws. -/
def Label.isThrow : Label Pid Task → Bool
  | .throws _ => true
  | _ => false

theorem countP_isThrow_eq_zero {ls : List (Label Pid Task)} :
    ls.countP Label.isThrow = 0 ↔ ∀ w, Label.throws w ∉ ls := by
  rw [List.countP_eq_zero]
  constructor
  · intro h w hw
    exact h _ hw rfl
  · intro h l hl hthrow
    cases l with
    | throws w => exact h w hl
    | _ => cases hthrow

/-! ## The invariant -/

/-- A pool that is not stopped and has lost `lost` workers. -/
structure Counted (lost : Nat) (s : State Pid Task) : Prop extends Unstopped s where
  count : s.live.card + lost = s.started

/-- The steps that start and end no worker. -/
structure SamePool (s s' : State Pid Task) : Prop where
  startPc : s'.startPc = s.startPc
  threads_ : s'.threads_ = s.threads_
  running_ : s'.running_ = s.running_
  phase : ∀ w, (s'.workers w).phase = (s.workers w).phase

namespace SamePool

theorem started (h : SamePool s s') : s'.started = s.started := by
  rw [State.started, State.started, h.startPc, h.threads_]

theorem numThreads (h : SamePool s s') : s'.numThreads = s.numThreads := by
  rw [State.numThreads, State.numThreads, h.startPc, h.threads_]

theorem live (h : SamePool s s') : s'.live = s.live := by
  ext w
  rw [mem_live, mem_live, h.started, h.phase]

theorem counted {lost : Nat} (h : SamePool s s') (hs : Counted lost s) : Counted lost s' where
  running := by
    rw [h.startPc, h.running_]
    exact hs.running
  notStarted := by
    rw [h.startPc, h.threads_]
    exact hs.notStarted
  starting := by
    rw [h.startPc, h.threads_]
    exact hs.starting
  worker := by
    intro w hw
    rw [h.started]
    apply hs.worker w
    rw [ne_eq, ← phase_unstarted, ← h.phase, phase_unstarted]
    exact hw
  count := by
    rw [h.live, h.started]
    exact hs.count

/-- A worker moves on inside of `runInThread`. -/
theorem setWorker {w : Nat} {pc : WorkerPc Task} (hpc : pc.phase = (s.workers w).phase) :
    SamePool s (s.setWorker w pc) where
  startPc := rfl
  threads_ := rfl
  running_ := rfl
  phase := by
    apply (Function.forall_update_iff s.workers
      fun v pc => pc.phase = (s.workers v).phase).mpr
    exact ⟨hpc, fun _ _ => rfl⟩

variable [DecidableEq Pid]

theorem runLocked {p : Pid} {task : Task} {c : Option Nat}
    (h : s.runLocked p task c = some s') : SamePool s s' := by
  rcases runLocked_cases h with ⟨_, _, rfl⟩ | ⟨_, rfl⟩ | ⟨_, _, _, _, rfl⟩
  all_goals exact ⟨rfl, rfl, rfl, fun _ => rfl⟩

theorem takeLocked {w : Nat} {c : Option Pid} (hw : (s.workers w).phase = .inThread)
    (h : s.takeLocked w c = some s') : SamePool s s' := by
  rcases takeLocked_cases h with ⟨_, _, rfl⟩ | ⟨_, _, rfl⟩ | ⟨task, rest, cv, _, _, rfl⟩
  · have hmove : SamePool s (s.setWorker w .waiting) := setWorker hw.symm
    exact ⟨rfl, rfl, rfl, hmove.phase⟩
  · exact setWorker hw.symm
  · have hmove : SamePool s (s.setWorker w (.executing task)) := setWorker hw.symm
    exact ⟨rfl, rfl, rfl, hmove.phase⟩

end SamePool

/-! ## One step -/

section

variable [DecidableEq Pid]

theorem next_throws {w : Nat} (h : next s (.throws w) = some s') :
    (s.workers w).phase = .inThread ∧ s' = s.setWorker w .exited := by
  simp only [next] at h
  split at h
  next task hpc => exact ⟨by rw [hpc]; rfl, (Option.some.inj h).symm⟩
  next hpc => exact ⟨by rw [hpc]; rfl, (Option.some.inj h).symm⟩
  next => cases h

end

namespace Counted

variable {lost : Nat}

theorem lt_started (h : Counted lost s) {w : Nat} (hw : (s.workers w).phase = .inThread) :
    w < s.started := by
  apply h.worker w
  intro hpc
  rw [hpc] at hw
  cases hw

/-- A step of `start` before the thread it has created runs. -/
theorem of_started (h : Counted lost s) (hopen : Unstopped s') (hworkers : s'.workers = s.workers)
    (hstarted : s'.started = s.started) : Counted lost s' := by
  have hlive : s'.live = s.live := by
    ext w
    rw [mem_live, mem_live, hstarted, hworkers]
  refine { hopen with count := ?_ }
  rw [hlive, hstarted]
  exact h.count

theorem start (h : Counted lost s) (hpc : s.startPc = .notCalled) (numThreads : Nat) :
    Counted lost { s with running_ := true, startPc := .creating numThreads } := by
  have hstarted : s.started = s.threads_ := by simp [State.started, hpc]
  exact h.of_started (h.toUnstopped.start hpc numThreads) rfl hstarted.symm

theorem createThread (h : Counted lost s) {left : Nat} (hpc : s.startPc = .creating (left + 1)) :
    Counted lost { s with threads_ := s.threads_ + 1, startPc := .starting left } := by
  have hstarted : s.started = s.threads_ := by simp [State.started, hpc]
  exact h.of_started (h.toUnstopped.createThread hpc) rfl hstarted.symm

/-- The new worker is in `runInThread`. -/
theorem startThread (h : Counted lost s) {left : Nat} (hpc : s.startPc = .starting left) :
    Counted lost ({ s with startPc := .creating left }.setWorker (s.threads_ - 1) .init) := by
  have hthreads := h.starting left hpc
  have hstarted : s.started = s.threads_ - 1 := by simp [State.started, hpc]
  have hworker : ∀ w, w ≠ s.threads_ - 1 →
      ({ s with startPc := .creating left }.setWorker (s.threads_ - 1) .init).workers w =
        s.workers w := fun w hw => Function.update_of_ne hw _ _
  have hnew : ({ s with startPc := .creating left }.setWorker (s.threads_ - 1) .init).workers
      (s.threads_ - 1) = .init := Function.update_self _ _ _
  have hlive : ({ s with startPc := .creating left }.setWorker (s.threads_ - 1) .init).live =
      insert (s.threads_ - 1) s.live := by
    ext w
    rw [Finset.mem_insert, mem_live, mem_live, hstarted]
    show w < s.threads_ ∧ _ ↔ _
    by_cases hw : w = s.threads_ - 1
    · rw [hw, hnew]
      exact ⟨fun _ => Or.inl rfl, fun _ => ⟨by omega, rfl⟩⟩
    · rw [hworker w hw]
      constructor
      · rintro ⟨hlt, hphase⟩
        exact Or.inr ⟨by omega, hphase⟩
      · rintro (heq | ⟨hlt, hphase⟩)
        · exact absurd heq hw
        · exact ⟨by omega, hphase⟩
  have hfresh : s.threads_ - 1 ∉ s.live := by
    rw [mem_live, hstarted]
    omega
  have hopen := (h.started_last hpc).setWorker (w := s.threads_ - 1)
    (Nat.sub_one_lt_of_lt hthreads) WorkerPc.init
  refine { hopen with count := ?_ }
  rw [hlive, Finset.card_insert_of_notMem hfresh]
  have hcount := h.count
  show _ = s.threads_
  omega

/-- The handler is outside of the loop. -/
theorem throws (h : Counted lost s) {w : Nat} (hw : (s.workers w).phase = .inThread) :
    Counted (lost + 1) (s.setWorker w .exited) := by
  have hlt := h.lt_started hw
  have hlive : (s.setWorker w .exited).live = s.live.erase w := by
    ext v
    rw [Finset.mem_erase, mem_live, mem_live]
    show v < s.started ∧ _ ↔ _
    by_cases hv : v = w
    · subst hv
      simp [State.setWorker, WorkerPc.phase]
    · have hkept : (s.setWorker w .exited).workers v = s.workers v := Function.update_of_ne hv _ _
      rw [hkept]
      exact ⟨fun hmem => ⟨hv, hmem⟩, fun hmem => hmem.2⟩
  have hmem : w ∈ s.live := mem_live.mpr ⟨hlt, hw⟩
  exact {
    toUnstopped := h.toUnstopped.setWorker hlt .exited
    count := by
      have hpos : 0 < s.live.card := Finset.card_pos.mpr ⟨w, hmem⟩
      have hcount := h.count
      rw [hlive, Finset.card_erase_of_mem hmem]
      show _ = s.started
      omega }

end Counted

section

variable [DecidableEq Pid] {lost : Nat} {l : Label Pid Task}

/-- What a step can do to the workers while the pool is not stopped. -/
theorem next_pool (h : Counted lost s) (hstop : l ≠ .stop) (hstep : next s l = some s') :
    (l.isThrow = false ∧ SamePool s s') ∨
    (∃ numThreads, l = .start numThreads ∧ s.startPc = .notCalled ∧
      s' = { s with running_ := true, startPc := .creating numThreads }) ∨
    (∃ left, l = .createThread ∧ s.startPc = .creating (left + 1) ∧
      s' = { s with threads_ := s.threads_ + 1, startPc := .starting left }) ∨
    (∃ left, l = .startThread ∧ s.startPc = .starting left ∧
      s' = { s with startPc := .creating left }.setWorker (s.threads_ - 1) .init) ∨
    (∃ w, l = .throws w ∧ (s.workers w).phase = .inThread ∧ s' = s.setWorker w .exited) := by
  cases l with
  | stop => exact absurd rfl hstop
  | start numThreads =>
    simp only [next, Option.ite_none_right_eq_some, Option.some.injEq] at hstep
    exact Or.inr (Or.inl ⟨numThreads, rfl, hstep.1, hstep.2.symm⟩)
  | createThread =>
    obtain ⟨left, hpc, rfl⟩ := next_createThread hstep
    exact Or.inr (Or.inr (Or.inl ⟨left, rfl, hpc, rfl⟩))
  | startThread =>
    obtain ⟨left, hpc, rfl⟩ := next_startThread hstep
    exact Or.inr (Or.inr (Or.inr (Or.inl ⟨left, rfl, hpc, rfl⟩)))
  | throws w =>
    obtain ⟨hpc, rfl⟩ := next_throws hstep
    exact Or.inr (Or.inr (Or.inr (Or.inr ⟨w, rfl, hpc, rfl⟩)))
  | run p task =>
    refine Or.inl ⟨rfl, ?_⟩
    obtain ⟨_, rfl | ⟨_, rfl⟩⟩ := next_run hstep
    all_goals exact ⟨rfl, rfl, rfl, fun _ => rfl⟩
  | runLock p c =>
    obtain ⟨task, _, hlocked⟩ := next_runLock hstep
    exact Or.inl ⟨rfl, SamePool.runLocked hlocked⟩
  | runResume p c =>
    obtain ⟨task, _, hlocked⟩ := next_runResume hstep
    have hpool := SamePool.runLocked hlocked
    exact Or.inl ⟨rfl, hpool.startPc, hpool.threads_, hpool.running_, hpool.phase⟩
  | wakeProducer p =>
    obtain ⟨_, rfl⟩ := next_wakeProducer hstep
    exact Or.inl ⟨rfl, rfl, rfl, rfl, fun _ => rfl⟩
  | initDone w =>
    obtain ⟨hpc, rfl⟩ := next_initDone hstep
    exact Or.inl ⟨rfl, SamePool.setWorker (by rw [hpc]; rfl)⟩
  | test w =>
    -- the worker has been started, so the pool runs and the loop goes on
    obtain ⟨hpc, rfl⟩ := next_test hstep
    have hlt : w < s.started := h.lt_started (by rw [hpc]; rfl)
    have hrunning : s.running_ = true := by
      have hle : s.started ≤ s.threads_ := started_le
      exact h.running_of_threads (by omega)
    rw [hrunning]
    exact Or.inl ⟨rfl, SamePool.setWorker (by rw [hpc]; rfl)⟩
  | takeLock w c =>
    obtain ⟨hpc, hlocked⟩ := next_takeLock hstep
    exact Or.inl ⟨rfl, SamePool.takeLocked (by rw [hpc]; rfl) hlocked⟩
  | takeResume w c =>
    obtain ⟨hpc, hlocked⟩ := next_takeResume hstep
    have hpool := SamePool.takeLocked (by show (s.workers w).phase = _; rw [hpc]; rfl) hlocked
    exact Or.inl ⟨rfl, hpool.startPc, hpool.threads_, hpool.running_, hpool.phase⟩
  | wakeWorker w =>
    simp only [next, Option.ite_none_right_eq_some, Option.some.injEq] at hstep
    obtain ⟨_, rfl⟩ := hstep
    exact Or.inl ⟨rfl, rfl, rfl, rfl, fun _ => rfl⟩
  | returns w =>
    obtain ⟨⟨task, hpc⟩, rfl⟩ := next_returns hstep
    exact Or.inl ⟨rfl, SamePool.setWorker (by rw [hpc]; rfl)⟩

theorem counted_step (h : Counted lost s) (hstop : l ≠ .stop) (hstep : next s l = some s') :
    Counted (lost + if l.isThrow then 1 else 0) s' := by
  rcases next_pool h hstop hstep with ⟨hthrow, hpool⟩ | ⟨n, rfl, hpc, rfl⟩ | ⟨left, rfl, hpc, rfl⟩ |
    ⟨left, rfl, hpc, rfl⟩ | ⟨w, rfl, hpc, rfl⟩
  · rw [hthrow]
    exact hpool.counted h
  · exact h.start hpc n
  · exact h.createThread hpc
  · exact h.startThread hpc
  · exact h.throws hpc

/-- `start` is called once, and what it was given stays. -/
theorem numThreads_step (h : Counted lost s) (hcalled : s.startPc ≠ .notCalled)
    (hstop : l ≠ .stop) (hstep : next s l = some s') :
    s'.startPc ≠ .notCalled ∧ s'.numThreads = s.numThreads := by
  rcases next_pool h hstop hstep with ⟨_, hpool⟩ | ⟨n, _, hpc, _⟩ | ⟨left, _, hpc, rfl⟩ |
    ⟨left, _, hpc, rfl⟩ | ⟨w, _, _, rfl⟩
  · exact ⟨hpool.startPc ▸ hcalled, hpool.numThreads⟩
  · exact absurd hpc hcalled
  · refine ⟨by simp, ?_⟩
    simp only [State.numThreads, hpc]
    omega
  · refine ⟨by simp [State.setWorker], ?_⟩
    simp only [State.numThreads, State.setWorker, hpc]
  · exact ⟨hcalled, rfl⟩

/-! ## Runs without a stop -/

variable {ls : List (Label Pid Task)}

theorem counted_init (h : (machine Pid Task).init s) : Counted 0 s := by
  refine { Unstopped.of_init h with count := ?_ }
  obtain ⟨maxQueueSize, rfl⟩ := h
  simp [State.started, State.live]

theorem counted_run (h : Counted lost s) (hstop : .stop ∉ ls)
    (hrun : (machine Pid Task).run s ls = some s') :
    Counted (lost + ls.countP Label.isThrow) s' := by
  induction ls generalizing s lost with
  | nil =>
    obtain rfl : s = s' := by simpa using hrun
    exact h
  | cons l ls ih =>
    obtain ⟨hhead, htail⟩ := List.ne_and_not_mem_of_not_mem_cons hstop
    obtain ⟨t, hnext, hrest⟩ := (machine Pid Task).run_cons_some.mp hrun
    have hall := ih (counted_step h hhead.symm hnext) htail hrest
    rw [Nat.add_assoc, Nat.add_comm (if l.isThrow then 1 else 0), ← List.countP_cons] at hall
    exact hall

theorem numThreads_run (h : Counted lost s) (hcalled : s.startPc ≠ .notCalled)
    (hstop : .stop ∉ ls) (hrun : (machine Pid Task).run s ls = some s') :
    s'.numThreads = s.numThreads := by
  induction ls generalizing s lost with
  | nil =>
    obtain rfl : s = s' := by simpa using hrun
    rfl
  | cons l ls ih =>
    obtain ⟨hhead, htail⟩ := List.ne_and_not_mem_of_not_mem_cons hstop
    obtain ⟨t, hnext, hrest⟩ := (machine Pid Task).run_cons_some.mp hrun
    obtain ⟨hcalled', heq⟩ := numThreads_step h hcalled hhead.symm hnext
    rw [← heq]
    exact ih (counted_step h hhead.symm hnext) hcalled' htail hrest

theorem numThreads_of_start {s₀ : State Pid Task} {n : Nat} (hinit : (machine Pid Task).init s₀)
    (hrun : (machine Pid Task).run s₀ ls = some s) (hstop : .stop ∉ ls)
    (hstart : .start n ∈ ls) : s.numThreads = n := by
  -- before the call, the call, and after it
  obtain ⟨pre, post, rfl⟩ := List.append_of_mem hstart
  rw [List.mem_append, List.mem_cons, not_or, not_or] at hstop
  obtain ⟨t, hpre, hrest⟩ := (machine Pid Task).run_append_some.mp hrun
  obtain ⟨t', hnext, hpost⟩ := (machine Pid Task).run_cons_some.mp hrest
  have ht := counted_run (counted_init hinit) hstop.1 hpre
  have hnext : next t (.start n) = some t' := hnext
  have ht' := counted_step ht (by simp) hnext
  simp only [next, Option.ite_none_right_eq_some, Option.some.injEq] at hnext
  obtain ⟨hpc, rfl⟩ := hnext
  rw [numThreads_run ht' (by simp) hstop.2.2 hpost]
  show t.threads_ + n = n
  rw [ht.notStarted hpc, Nat.zero_add]

/-- In every run without a stop, and with a `start(n)` that has returned, `n` workers are in
    `runInThread` if and only if no task has thrown. -/
theorem live_workers_iff {s₀ : State Pid Task} {n : Nat} (hinit : (machine Pid Task).init s₀)
    (hrun : (machine Pid Task).run s₀ ls = some s) (hstop : .stop ∉ ls)
    (hstart : .start n ∈ ls) (hdone : s.startPc = .creating 0) :
    s.live.card = n ↔ ∀ w, Label.throws w ∉ ls := by
  have hcount := (counted_run (counted_init hinit) hstop hrun).count
  have hn := numThreads_of_start hinit hrun hstop hstart
  have hstarted : s.started = n := by
    rw [← hn, State.started, State.numThreads, hdone]
    rfl
  rw [← countP_isThrow_eq_zero]
  omega

end

/-- Two workers of which one has executed a task. -/
theorem live_workers_iff_two :
    ∃ s : State Nat Nat, (machine Nat Nat).Reachable s ∧ s.taken = [10] ∧ s.live.card = 2 := by
  have hrun : (machine Nat Nat).run { maxQueueSize_ := 0 }
      [.start 2, .createThread, .startThread, .createThread, .startThread, .initDone 0, .test 0,
        .run 0 10, .runLock 0 none, .takeLock 0 none, .returns 0, .test 0] = some _ := rfl
  refine ⟨_, ⟨_, _, ⟨0, rfl⟩, hrun⟩, rfl, ?_⟩
  exact (live_workers_iff ⟨0, rfl⟩ hrun (by decide) (by decide) rfl).mpr (by simp)

/-- The only worker has returned with the first task; the second one is accepted, and nobody
    is left to take it. -/
theorem throw_leaves_no_worker :
    ∃ s : State Nat Nat,
      (machine Nat Nat).run { maxQueueSize_ := 0 }
        [.start 1, .createThread, .startThread, .initDone 0, .test 0, .run 0 10, .runLock 0 none,
          .takeLock 0 none, .throws 0, .run 0 11, .runLock 0 none] = some s ∧
      s.startPc = .creating 0 ∧ s.running_ = true ∧ s.queue_ = [11] ∧ s.live.card ≠ 1 ∧
      ∀ w, s.workers w = .unstarted ∨ s.workers w = .exited := by
  refine ⟨_, rfl, rfl, rfl, rfl, by decide, ?_⟩
  intro w
  rcases w with _ | w
  · exact Or.inr rfl
  · exact Or.inl rfl

end ThreadPool
