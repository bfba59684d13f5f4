import Mymuduo.Framework.CondVar
import Mymuduo.Framework.Progress
import Mymuduo.Net.EventLoopThreadPool

/-! # Starting the loop threads

    `EventLoopThreadPool::start` brings up one thread after the other.  For each of them the
    calling thread waits twice: in `Thread::start` on a semaphore, until the new thread has
    stored its `tid_`, and in `EventLoopThread::startLoop` on a condition variable, until the
    new thread has published its loop.  A step is one critical section, one operation on the
    semaphore or one call of the new thread; the threads interleave in any way, and waits may
    end spuriously.

    `start` comes back with the loop of every thread, in order, unless a loop has already
    ended when the calling thread looks for it: `threadFunc` takes `loop_` back at its end, and
    `startLoop` waits for good (`start_returns_iff`).
-/

namespace PoolStart

/-! ## State -/

/-- Where a new thread is. -/
inductive ThreadPc where
  | absent
  | created
  /-- `tid_` is stored. -/
  | tidSet
  /-- `sem_post` is done. -/
  | posted
  /-- In `threadFunc`, the loop is constructed. -/
  | constructed
  /-- `callback_` has returned. -/
  | initialized
  /-- `loop_` is set and the condition notified. -/
  | published
  /-- In `loop()`. -/
  | looping
  /-- `loop()` has returned. -/
  | returned
  /-- `loop_` is null again. -/
  | finished
  deriving DecidableEq, Repr

/-- How far it has come. -/
def ThreadPc.stage : ThreadPc → Nat
  | .absent => 0
  | .created => 1
  | .tidSet => 2
  | .posted => 3
  | .constructed => 4
  | .initialized => 5
  | .published => 6
  | .looping => 7
  | .returned => 8
  | .finished => 9

/-- An `EventLoopThread` with its `Thread`; `sem` is the semaphore of `Thread::start`. -/
structure Worker where
  pc : ThreadPc := .absent
  /-- `tid_` has its value. -/
  tid_ : Bool := false
  sem : Nat := 0
  /-- `loop_` is not null. -/
  loop_ : Bool := false
  cond_ : CondVar Unit := {}
  /-- `callback_` has been called with the loop. -/
  initRan : Bool := false

/-- Where the thread that calls `start` is; `i` counts the loop. -/
inductive MainPc where
  | idle
  /-- At the test of the loop. -/
  | loop (i : Nat)
  /-- At `sem_wait`. -/
  | semWait (i : Nat)
  /-- Before the test of `loop_`, with the mutex free. -/
  | check (i : Nat)
  /-- In `cond_.wait`. -/
  | waiting (i : Nat)
  | done (i : Nat)
  deriving DecidableEq, Repr

/-- The loops that are in `loops_` already. -/
def MainPc.index : MainPc → Nat
  | .idle => 0
  | .loop i | .semWait i | .check i | .waiting i | .done i => i

/-- The thread that is waited for. -/
def MainPc.awaited : MainPc → Option Nat
  | .semWait i | .check i | .waiting i => some i
  | .idle | .loop _ | .done _ => none

/-- Loops are named by their threads, `none` is the base loop. -/
structure State where
  pool : EventLoopThreadPool (Option Nat)
  /-- `cb` is not empty. -/
  cb : Bool
  main : MainPc := .idle
  workers : Nat → Worker := fun _ => {}
  /-- `cb` has been called with the base loop. -/
  baseInit : Bool := false

def State.setWorker (s : State) (i : Nat) (w : Worker) : State :=
  { s with workers := Function.update s.workers i w }

/-! ## Steps -/

inductive Label where
  | start
  /-- The body of the loop up to `sem_wait`. -/
  | create
  | semWait
  /-- The test of `loop_`, and the wait if it is null. -/
  | check
  /-- A spurious wakeup. -/
  | wake
  | resume
  /-- The end of the loop. -/
  | finish
  /-- The steps of the new threads. -/
  | setTid (i : Nat)
  | post (i : Nat)
  | construct (i : Nat)
  | init (i : Nat)
  | publish (i : Nat) (notified : Option Unit)
  | enter (i : Nat)
  | loopReturns (i : Nat)
  | clear (i : Nat)
  deriving DecidableEq, Repr

/-- A step of thread `i` that goes from one place to the next. -/
def State.advance (s : State) (i : Nat) (pc : ThreadPc) (f : Worker → Worker) : Option State :=
  if (s.workers i).pc = pc then some (s.setWorker i (f (s.workers i))) else none

def next (s : State) : Label → Option State
  | .start =>
    if s.main = .idle then
      some { s with pool := { s.pool with started_ := true }, main := .loop 0 }
    else none
  | .create =>
    match s.main with
    | .loop i =>
      if (i : Int) < s.pool.numThreads_ then
        some { s.setWorker i { pc := .created } with
          pool := s.pool.pushThread i, main := .semWait i }
      else none
    | _ => none
  | .semWait =>
    match s.main with
    | .semWait i =>
      if 0 < (s.workers i).sem then
        some { s.setWorker i { s.workers i with sem := (s.workers i).sem - 1 } with
          main := .check i }
      else none
    | _ => none
  | .check =>
    match s.main with
    | .check i =>
      if (s.workers i).loop_ then
        some { s with pool := s.pool.pushLoop (some i), main := .loop (i + 1) }
      else
        some { s.setWorker i { s.workers i with cond_ := (s.workers i).cond_.wait () } with
          main := .waiting i }
    | _ => none
  | .wake =>
    match s.main with
    | .waiting i =>
      if () ∈ (s.workers i).cond_.waiting then
        some (s.setWorker i { s.workers i with cond_ := (s.workers i).cond_.wake () })
      else none
    | _ => none
  | .resume =>
    match s.main with
    | .waiting i =>
      if (s.workers i).cond_.Woken () then
        some { s.setWorker i { s.workers i with cond_ := (s.workers i).cond_.resume () } with
          main := .check i }
      else none
    | _ => none
  | .finish =>
    match s.main with
    | .loop i =>
      if (i : Int) < s.pool.numThreads_ then none
      else some { s with main := .done i, baseInit := s.pool.numThreads_ = 0 ∧ s.cb }
    | _ => none
  | .setTid i => s.advance i .created fun w => { w with pc := .tidSet, tid_ := true }
  | .post i => s.advance i .tidSet fun w => { w with pc := .posted, sem := w.sem + 1 }
  | .construct i => s.advance i .posted fun w => { w with pc := .constructed }
  | .init i => s.advance i .constructed fun w => { w with pc := .initialized, initRan := s.cb }
  | .publish i notified =>
    match (s.workers i).cond_.notifyOne notified with
    | some cond_ =>
      s.advance i .initialized fun w => { w with pc := .published, loop_ := true, cond_ := cond_ }
    | none => none
  | .enter i => s.advance i .published fun w => { w with pc := .looping }
  -- someone has called quit()
  | .loopReturns i => s.advance i .looping fun w => { w with pc := .returned }
  | .clear i => s.advance i .returned fun w => { w with pc := .finished, loop_ := false }

/-- A new pool whose number of threads has been set, before the call of `start(cb)`. -/
def ctor (name : List Byte) (numThreads : Int) (cb : Bool) : State where
  pool := (EventLoopThreadPool.ctor none name).setThreadNum numThreads
  cb := cb

def machine : Machine State Label where
  init := fun s => ∃ name numThreads cb, s = ctor name numThreads cb
  next := next

/-! ## The invariant -/

/-- What a thread has done by the place it is at. -/
structure Sound (cb : Bool) (w : Worker) : Prop where
  tid : w.tid_ = decide (2 ≤ w.pc.stage)
  init : w.initRan = (decide (5 ≤ w.pc.stage) && cb)
  loop : w.loop_ = decide (6 ≤ w.pc.stage ∧ w.pc.stage ≤ 8)

/-- The thread that is waited for, by the way the calling thread waits.  A calling thread
    that waits for the condition without having been woken waits for a thread that has not
    published its loop yet, or that has ended. -/
def Awaits (w : Worker) : MainPc → Prop
  | .semWait _ =>
    1 ≤ w.pc.stage ∧ w.sem = (if 3 ≤ w.pc.stage then 1 else 0) ∧ w.cond_.waiting = ∅
  | .check _ => 3 ≤ w.pc.stage ∧ w.cond_.waiting = ∅
  | .waiting _ =>
    3 ≤ w.pc.stage ∧ (() ∈ w.cond_.waiting → w.pc.stage < 6 ∨ w.pc.stage = 9) ∧
      (() ∈ w.cond_.waiting ∨ w.cond_.Woken ())
  | .idle | .loop _ | .done _ => True

structure Inv (s : State) : Prop where
  sound : ∀ i, Sound s.cb (s.workers i)
  loops : s.pool.loops_ = (List.range s.main.index).map some
  past : ∀ i < s.main.index, 6 ≤ (s.workers i).pc.stage
  current : ∀ i, s.main.awaited = some i →
    Awaits (s.workers i) s.main ∧ (i : Int) < s.pool.numThreads_
  future : ∀ i, s.main.index ≤ i → s.main.awaited ≠ some i → s.workers i = {}
  bound : s.main.index ≤ s.pool.numThreads_.toNat
  done : ∀ i, s.main = .done i →
    i = s.pool.numThreads_.toNat ∧ s.baseInit = decide (s.pool.numThreads_ = 0 ∧ s.cb)

theorem sound_absent (cb : Bool) : Sound cb {} := ⟨rfl, by simp [ThreadPc.stage], rfl⟩

theorem inv_init {s : State} (h : machine.init s) : Inv s := by
  obtain ⟨name, numThreads, cb, rfl⟩ := h
  exact ⟨fun _ => sound_absent cb, rfl, by simp [ctor, MainPc.index],
    by simp [ctor, MainPc.awaited], fun _ _ _ => rfl, Nat.zero_le _, by simp [ctor]⟩

section

variable {s s' : State}

@[simp] theorem setWorker_self (s : State) (i : Nat) (w : Worker) :
    (s.setWorker i w).workers i = w :=
  Function.update_self ..

theorem setWorker_of_ne (s : State) {i j : Nat} (h : j ≠ i) (w : Worker) :
    (s.setWorker i w).workers j = s.workers j :=
  Function.update_of_ne h ..

/-! ## The steps of the new threads -/

/-- A thread that exists goes on. -/
theorem Inv.worker (h : Inv s) {i : Nat} {w : Worker} (hpc : (s.workers i).pc ≠ .absent)
    (hsound : Sound s.cb w) (hstage : (s.workers i).pc.stage ≤ w.pc.stage)
    (hawaits : Awaits (s.workers i) s.main → Awaits w s.main) : Inv (s.setWorker i w) := by
  refine ⟨?_, h.loops, ?_, ?_, ?_, h.bound, h.done⟩
  · intro j
    by_cases hj : j = i
    · subst hj
      rw [setWorker_self]
      exact hsound
    · rw [setWorker_of_ne s hj]
      exact h.sound j
  · intro j hlt
    by_cases hj : j = i
    · subst hj
      rw [setWorker_self]
      exact Nat.le_trans (h.past j hlt) hstage
    · rw [setWorker_of_ne s hj]
      exact h.past j hlt
  · intro j haw
    by_cases hj : j = i
    · subst hj
      rw [setWorker_self]
      exact ⟨hawaits (h.current j haw).1, (h.current j haw).2⟩
    · rw [setWorker_of_ne s hj]
      exact h.current j haw
  · intro j hle haw
    by_cases hj : j = i
    · -- a thread to come is still absent
      subst hj
      rw [h.future j hle haw] at hpc
      exact absurd rfl hpc
    · rw [setWorker_of_ne s hj]
      exact h.future j hle haw

theorem advance_some {i : Nat} {pc : ThreadPc} {f : Worker → Worker}
    (h : s.advance i pc f = some s') :
    (s.workers i).pc = pc ∧ s' = s.setWorker i (f (s.workers i)) := by
  simp only [State.advance, Option.ite_none_right_eq_some, Option.some.injEq] at h
  exact ⟨h.1, h.2.symm⟩

/-- Publishing wakes a calling thread that waits. -/
theorem awaits_publish {w : Worker} {c : Option Unit} {cond_ : CondVar Unit} {main : MainPc}
    (hpc : w.pc = .initialized) (hnotify : w.cond_.notifyOne c = some cond_)
    (h : Awaits w main) : Awaits { w with pc := .published, loop_ := true, cond_ := cond_ } main := by
  rcases CondVar.notifyOne_cases hnotify with ⟨hempty, rfl⟩ | ⟨t, ht, rfl⟩
  · cases main with
    | semWait i =>
      obtain ⟨_, hsem, hwaiting⟩ := h
      exact ⟨by simp [ThreadPc.stage], by simpa [hpc, ThreadPc.stage] using hsem, hwaiting⟩
    | check i => exact ⟨by simp [ThreadPc.stage], h.2⟩
    | waiting i =>
      obtain ⟨_, _, hwhere⟩ := h
      refine ⟨by simp [ThreadPc.stage], ?_, hwhere⟩
      intro hmem
      simp [hempty] at hmem
    | idle | loop i | done i => trivial
  · -- someone is waiting, so the calling thread is in `cond_.wait`
    cases main with
    | semWait i =>
      rw [h.2.2] at ht
      simp at ht
    | check i =>
      rw [h.2] at ht
      simp at ht
    | waiting i =>
      refine ⟨by simp [ThreadPc.stage], ?_, Or.inr (Or.inl ?_)⟩
      · intro hmem
        simp [CondVar.notify] at hmem
      · simp [CondVar.notify]
    | idle | loop i | done i => trivial

theorem stage_le_nine (pc : ThreadPc) : pc.stage ≤ 9 := by
  cases pc <;> decide

/-- The other steps leave the condition alone, and cross no line that a wait depends on. -/
theorem awaits_advance {w w' : Worker} {main : MainPc} (hcond : w'.cond_ = w.cond_)
    (hstage : w.pc.stage ≤ w'.pc.stage) (hline : w'.pc.stage < 6 ∨ 6 ≤ w.pc.stage)
    (hsem : w.sem = (if 3 ≤ w.pc.stage then 1 else 0) →
      w'.sem = if 3 ≤ w'.pc.stage then 1 else 0)
    (h : Awaits w main) : Awaits w' main := by
  cases main with
  | semWait i =>
    obtain ⟨hcreated, hold, hwaiting⟩ := h
    exact ⟨by omega, hsem hold, by rw [hcond]; exact hwaiting⟩
  | check i => exact ⟨Nat.le_trans h.1 hstage, by rw [hcond]; exact h.2⟩
  | waiting i =>
    obtain ⟨hposted, hwhy, hwhere⟩ := h
    refine ⟨Nat.le_trans hposted hstage, ?_, by rw [hcond]; exact hwhere⟩
    intro hmem
    rw [hcond] at hmem
    have := hwhy hmem
    have := stage_le_nine w'.pc
    omega
  | idle | loop i | done i => trivial

/-- A step of a new thread. -/
theorem inv_advance (h : Inv s) {i : Nat} {pc : ThreadPc} {f : Worker → Worker}
    (hstep : s.advance i pc f = some s') (habsent : pc ≠ .absent)
    (hsound : ∀ w, w.pc = pc → Sound s.cb w → Sound s.cb (f w))
    (hcond : ∀ w, (f w).cond_ = w.cond_)
    (hstage : ∀ w, w.pc = pc → w.pc.stage ≤ (f w).pc.stage)
    (hline : ∀ w, w.pc = pc → (f w).pc.stage < 6 ∨ 6 ≤ w.pc.stage)
    (hsem : ∀ w, w.pc = pc → w.sem = (if 3 ≤ w.pc.stage then 1 else 0) →
      (f w).sem = if 3 ≤ (f w).pc.stage then 1 else 0) : Inv s' := by
  obtain ⟨hpc, rfl⟩ := advance_some hstep
  refine h.worker (by rw [hpc]; exact habsent) (hsound _ hpc (h.sound i)) (hstage _ hpc) ?_
  exact awaits_advance (hcond _) (hstage _ hpc) (hline _ hpc) (hsem _ hpc)

theorem inv_publish (h : Inv s) {i : Nat} {c : Option Unit} (hstep : next s (.publish i c) = some s') :
    Inv s' := by
  simp only [next] at hstep
  split at hstep
  · rename_i cond_ hnotify
    obtain ⟨hpc, rfl⟩ := advance_some hstep
    have hold := h.sound i
    refine h.worker (by rw [hpc]; decide) ⟨?_, ?_, ?_⟩ (by simp [hpc, ThreadPc.stage])
      (awaits_publish hpc hnotify)
    · simpa [hpc, ThreadPc.stage] using hold.tid
    · simpa [hpc, ThreadPc.stage] using hold.init
    · simp [ThreadPc.stage]
  · cases hstep

/-! ## The steps of the calling thread -/

theorem inv_start (h : Inv s) (hmain : s.main = .idle) :
    Inv { s with pool := { s.pool with started_ := true }, main := .loop 0 } := by
  refine ⟨h.sound, ?_, by simp [MainPc.index], by simp [MainPc.awaited], ?_, Nat.zero_le _, by simp⟩
  · simpa [hmain, MainPc.index] using h.loops
  · intro i _ _
    exact h.future i (by simp [hmain, MainPc.index]) (by simp [hmain, MainPc.awaited])

theorem inv_create (h : Inv s) {i : Nat} (hmain : s.main = .loop i)
    (hlt : (i : Int) < s.pool.numThreads_) :
    Inv { s.setWorker i { pc := .created } with
      pool := s.pool.pushThread i, main := .semWait i } := by
  have hindex : s.main.index = i := by rw [hmain]; rfl
  refine ⟨?_, ?_, ?_, ?_, ?_, ?_, by simp⟩
  · intro j
    by_cases hj : j = i
    · subst hj
      simp only [setWorker_self]
      exact ⟨rfl, by simp [ThreadPc.stage], rfl⟩
    · simp only [setWorker_of_ne s hj]
      exact h.sound j
  · show s.pool.loops_ = _
    rw [h.loops, hindex]
    rfl
  · intro j hj
    have hne : j ≠ i := Nat.ne_of_lt hj
    simp only [setWorker_of_ne s hne]
    exact h.past j (by rw [hindex]; exact hj)
  · intro j hj
    obtain rfl : i = j := by simpa [MainPc.awaited] using hj
    refine ⟨?_, hlt⟩
    simp only [setWorker_self]
    exact ⟨by simp [ThreadPc.stage], by simp [ThreadPc.stage], rfl⟩
  · intro j hle haw
    have hne : j ≠ i := fun heq => haw (by simp [MainPc.awaited, heq])
    simp only [setWorker_of_ne s hne]
    exact h.future j (by rw [hindex]; exact hle) (by simp [hmain, MainPc.awaited])
  · show i ≤ s.pool.numThreads_.toNat
    omega

/-- The calling thread waits for the same thread in another way. -/
theorem inv_wait (h : Inv s) {i : Nat} {main : MainPc} {w : Worker}
    (haw : s.main.awaited = some i) (haw' : main.awaited = some i)
    (hindex : main.index = s.main.index) (hsound : Sound s.cb w) (hawaits : Awaits w main) :
    Inv { s.setWorker i w with main := main } := by
  refine ⟨?_, ?_, ?_, ?_, ?_, ?_, ?_⟩
  · intro j
    by_cases hj : j = i
    · subst hj
      simp only [setWorker_self]
      exact hsound
    · simp only [setWorker_of_ne s hj]
      exact h.sound j
  · show s.pool.loops_ = (List.range main.index).map some
    rw [hindex]
    exact h.loops
  · intro j hj
    have hlt : j < s.main.index := by rw [← hindex]; exact hj
    have hne : j ≠ i := by
      have hself : s.main.index = i := by
        cases hmain : s.main <;> simp_all [MainPc.awaited, MainPc.index]
      omega
    simp only [setWorker_of_ne s hne]
    exact h.past j hlt
  · intro j hj
    obtain rfl : i = j := Option.some.inj (haw'.symm.trans hj)
    refine ⟨?_, (h.current i haw).2⟩
    simp only [setWorker_self]
    exact hawaits
  · intro j hle hj
    have hne : j ≠ i := fun heq => hj (by rw [heq]; exact haw')
    simp only [setWorker_of_ne s hne]
    refine h.future j (by rw [← hindex]; exact hle) ?_
    rw [haw]
    exact fun heq => hne (Option.some.inj heq).symm
  · show main.index ≤ s.pool.numThreads_.toNat
    rw [hindex]
    exact h.bound
  · intro j hj
    have hdone : main = .done j := hj
    rw [hdone] at haw'
    cases haw'

theorem inv_take (h : Inv s) {i : Nat} (hmain : s.main = .check i)
    (hloop : (s.workers i).loop_ = true) :
    Inv { s with pool := s.pool.pushLoop (some i), main := .loop (i + 1) } := by
  have hindex : s.main.index = i := by rw [hmain]; rfl
  have haw : s.main.awaited = some i := by rw [hmain]; rfl
  have hlt := (h.current i haw).2
  refine ⟨h.sound, ?_, ?_, by simp [MainPc.awaited], ?_, ?_, by simp⟩
  · show s.pool.loops_ ++ [some i] = (List.range (i + 1)).map some
    rw [h.loops, hindex, List.range_succ, List.map_append, List.map_singleton]
  · intro j hj
    have hle : j < i + 1 := hj
    by_cases heq : j = i
    · subst heq
      have hstage := (h.sound j).loop
      rw [hloop] at hstage
      have := of_decide_eq_true hstage.symm
      exact this.1
    · exact h.past j (by rw [hindex]; omega)
  · intro j hle _
    have hlt' : i + 1 ≤ j := hle
    refine h.future j (by rw [hindex]; omega) ?_
    rw [haw]
    intro heq
    have := Option.some.inj heq
    omega
  · show i + 1 ≤ s.pool.numThreads_.toNat
    omega

theorem inv_finish (h : Inv s) {i : Nat} (hmain : s.main = .loop i)
    (hge : ¬ (i : Int) < s.pool.numThreads_) :
    Inv { s with main := .done i, baseInit := s.pool.numThreads_ = 0 ∧ s.cb } := by
  have hindex : s.main.index = i := by rw [hmain]; rfl
  have hbound := h.bound
  rw [hindex] at hbound
  refine ⟨h.sound, ?_, ?_, by simp [MainPc.awaited], ?_, hbound, ?_⟩
  · show s.pool.loops_ = (List.range i).map some
    rw [h.loops, hindex]
  · intro j hj
    exact h.past j (by rw [hindex]; exact hj)
  · intro j hle _
    exact h.future j (by rw [hindex]; exact hle) (by simp [hmain, MainPc.awaited])
  · intro j hj
    obtain rfl : i = j := by simpa using hj
    refine ⟨?_, rfl⟩
    show i = s.pool.numThreads_.toNat
    omega

theorem inv_step (s : State) (l : Label) (s' : State) (h : Inv s) (hstep : next s l = some s') :
    Inv s' := by
  cases l with
  | start =>
    simp only [next, Option.ite_none_right_eq_some, Option.some.injEq] at hstep
    obtain ⟨hmain, rfl⟩ := hstep
    exact inv_start h hmain
  | create =>
    simp only [next] at hstep
    split at hstep
    · rename_i i hmain
      simp only [Option.ite_none_right_eq_some, Option.some.injEq] at hstep
      obtain ⟨hlt, rfl⟩ := hstep
      exact inv_create h hmain hlt
    · cases hstep
  | semWait =>
    simp only [next] at hstep
    split at hstep
    · rename_i i hmain
      simp only [Option.ite_none_right_eq_some, Option.some.injEq] at hstep
      obtain ⟨hsem, rfl⟩ := hstep
      have haw : s.main.awaited = some i := by rw [hmain]; rfl
      obtain ⟨_, hcount, hwaiting⟩ : Awaits (s.workers i) (.semWait i) := by
        rw [← hmain]
        exact (h.current i haw).1
      -- the semaphore is up, so the thread has posted
      have hposted : 3 ≤ (s.workers i).pc.stage := by
        by_contra hnot
        rw [if_neg hnot] at hcount
        omega
      obtain ⟨htid, hinit, hloop⟩ := h.sound i
      exact inv_wait h haw rfl (by rw [hmain]; rfl) ⟨htid, hinit, hloop⟩ ⟨hposted, hwaiting⟩
    · cases hstep
  | check =>
    simp only [next] at hstep
    split at hstep
    · rename_i i hmain
      have haw : s.main.awaited = some i := by rw [hmain]; rfl
      split at hstep
      · rename_i hloop
        obtain rfl := Option.some.inj hstep
        exact inv_take h hmain hloop
      · rename_i hloop
        obtain rfl := Option.some.inj hstep
        obtain ⟨hposted, _⟩ : Awaits (s.workers i) (.check i) := by
          rw [← hmain]
          exact (h.current i haw).1
        obtain ⟨htid, hinit, hloop'⟩ := h.sound i
        refine inv_wait h haw rfl (by rw [hmain]; rfl) ⟨htid, hinit, hloop'⟩ ⟨hposted, ?_, ?_⟩
        · intro _
          have := stage_le_nine (s.workers i).pc
          simp only [hloop', decide_eq_true_eq] at hloop
          show (s.workers i).pc.stage < 6 ∨ (s.workers i).pc.stage = 9
          omega
        · exact Or.inl (by simp [CondVar.wait])
    · cases hstep
  | wake =>
    simp only [next] at hstep
    split at hstep
    · rename_i i hmain
      simp only [Option.ite_none_right_eq_some, Option.some.injEq] at hstep
      obtain ⟨hmem, rfl⟩ := hstep
      have haw : s.main.awaited = some i := by rw [hmain]; rfl
      obtain ⟨hposted, _, _⟩ : Awaits (s.workers i) (.waiting i) := by
        rw [← hmain]
        exact (h.current i haw).1
      obtain ⟨htid, hinit, hloop⟩ := h.sound i
      have hnew : Awaits { s.workers i with cond_ := (s.workers i).cond_.wake () } s.main := by
        rw [hmain]
        refine ⟨hposted, ?_, Or.inr (Or.inr (by simp [CondVar.wake]))⟩
        intro hstill
        simp [CondVar.wake] at hstill
      exact inv_wait h haw haw rfl ⟨htid, hinit, hloop⟩ hnew
    · cases hstep
  | resume =>
    simp only [next] at hstep
    split at hstep
    · rename_i i hmain
      simp only [Option.ite_none_right_eq_some, Option.some.injEq] at hstep
      obtain ⟨hwoken, rfl⟩ := hstep
      have haw : s.main.awaited = some i := by rw [hmain]; rfl
      obtain ⟨hposted, _, _⟩ : Awaits (s.workers i) (.waiting i) := by
        rw [← hmain]
        exact (h.current i haw).1
      obtain ⟨htid, hinit, hloop⟩ := h.sound i
      refine inv_wait h haw rfl (by rw [hmain]; rfl) ⟨htid, hinit, hloop⟩ ⟨hposted, ?_⟩
      ext t
      simp [CondVar.resume]
    · cases hstep
  | finish =>
    simp only [next] at hstep
    split at hstep
    · rename_i i hmain
      simp only [Option.ite_none_left_eq_some, Option.some.injEq] at hstep
      obtain ⟨hge, rfl⟩ := hstep
      exact inv_finish h hmain hge
    · cases hstep
  | publish i c => exact inv_publish h hstep
  | setTid i | post i | construct i | init i | enter i | loopReturns i | clear i =>
    simp only [next] at hstep
    refine inv_advance h hstep (by decide) ?_ (fun _ => rfl) ?_ ?_ ?_
    all_goals intro w hpc
    -- what the thread has done, place by place
    · rintro ⟨htid, hinit, hloop⟩
      constructor <;> simp_all [ThreadPc.stage]
    all_goals simp [hpc, ThreadPc.stage]

theorem inv_reachable (h : machine.Reachable s) : Inv s :=
  h.invariant machine (fun _ => inv_init) inv_step

/-! ## What start leaves behind -/

/-- The pool with the first `t` threads and `k` loops of its start. -/
def partialPool (name : List Byte) (numThreads : Int) (started : Bool) (t k : Nat) :
    EventLoopThreadPool (Option Nat) :=
  { EventLoopThreadPool.ctor none name with
    started_ := started
    numThreads_ := numThreads
    threads_ := (List.range t).map (EventLoopThreadPool.threadName name)
    loops_ := (List.range k).map some }

/-- The pool by the place the calling thread is at. -/
def Shape (s : State) : Prop :=
  s.pool = partialPool s.pool.name_ s.pool.numThreads_ (s.main ≠ .idle)
    (s.main.index + s.main.awaited.isSome.toNat) s.main.index

theorem Shape.same (h : Shape s) (hpool : s'.pool = s.pool)
    (hstarted : s'.main = .idle ↔ s.main = .idle) (hindex : s'.main.index = s.main.index)
    (haw : s'.main.awaited.isSome = s.main.awaited.isSome) : Shape s' := by
  unfold Shape at h ⊢
  simp only [hpool, hindex, haw, ne_eq, hstarted]
  exact h

theorem shape_step (s : State) (l : Label) (s' : State) (h : Shape s) (hstep : next s l = some s') :
    Shape s' := by
  cases l with
  | start =>
    simp only [next, Option.ite_none_right_eq_some, Option.some.injEq] at hstep
    obtain ⟨hmain, rfl⟩ := hstep
    unfold Shape at h ⊢
    rw [hmain] at h
    simp only
    rw [h]
    rfl
  | create =>
    simp only [next] at hstep
    split at hstep
    · rename_i i hmain
      simp only [Option.ite_none_right_eq_some, Option.some.injEq] at hstep
      obtain ⟨_, rfl⟩ := hstep
      unfold Shape at h ⊢
      rw [hmain] at h
      simp only
      rw [h]
      simp [EventLoopThreadPool.pushThread, EventLoopThreadPool.ctor, partialPool, MainPc.index,
        MainPc.awaited, List.range_succ]
    · cases hstep
  | check =>
    simp only [next] at hstep
    split at hstep
    · rename_i i hmain
      split at hstep
      · obtain rfl := Option.some.inj hstep
        unfold Shape at h ⊢
        rw [hmain] at h
        simp only
        rw [h]
        simp [EventLoopThreadPool.pushLoop, EventLoopThreadPool.ctor, partialPool, MainPc.index,
          MainPc.awaited, List.range_succ]
      · obtain rfl := Option.some.inj hstep
        exact h.same rfl (by simp [hmain]) (by simp [hmain, MainPc.index])
          (by simp [hmain, MainPc.awaited])
    · cases hstep
  | semWait | resume =>
    simp only [next] at hstep
    split at hstep
    · rename_i i hmain
      simp only [Option.ite_none_right_eq_some, Option.some.injEq] at hstep
      obtain ⟨_, rfl⟩ := hstep
      exact h.same rfl (by simp [hmain]) (by simp [hmain, MainPc.index])
        (by simp [hmain, MainPc.awaited])
    · cases hstep
  | wake =>
    simp only [next] at hstep
    split at hstep
    · simp only [Option.ite_none_right_eq_some, Option.some.injEq] at hstep
      obtain ⟨_, rfl⟩ := hstep
      exact h.same rfl Iff.rfl rfl rfl
    · cases hstep
  | finish =>
    simp only [next] at hstep
    split at hstep
    · rename_i i hmain
      simp only [Option.ite_none_left_eq_some, Option.some.injEq] at hstep
      obtain ⟨_, rfl⟩ := hstep
      exact h.same rfl (by simp [hmain]) (by simp [hmain, MainPc.index])
        (by simp [hmain, MainPc.awaited])
    · cases hstep
  | publish i c =>
    simp only [next] at hstep
    split at hstep
    · obtain ⟨_, rfl⟩ := advance_some hstep
      exact h.same rfl Iff.rfl rfl rfl
    · cases hstep
  | setTid i | post i | construct i | init i | enter i | loopReturns i | clear i =>
    simp only [next] at hstep
    obtain ⟨_, rfl⟩ := advance_some hstep
    exact h.same rfl Iff.rfl rfl rfl

theorem shape_reachable (h : machine.Reachable s) : Shape s := by
  refine h.invariant machine ?_ shape_step
  rintro s ⟨name, numThreads, cb, rfl⟩
  rfl

/-- Two threads; the second one has published its loop before `startLoop` looks for it. -/
def twoThreads : List Label :=
  [.start, .create, .setTid 0, .post 0, .semWait, .check, .construct 0, .init 0,
   .publish 0 (some ()), .resume, .check, .create, .setTid 1, .post 1, .construct 1, .init 1,
   .publish 1 none, .semWait, .check, .enter 0, .finish]

/-- When `start` has returned, whatever the interleaving, the pool is the one of the
    sequential `EventLoopThreadPool.start`: the loops of the threads in the order of their
    numbers, under their names.  Every thread has stored its `tid_` and has run `callback_`,
    and the base loop has got it exactly if there are no threads. -/
theorem start_refines (h : machine.Reachable s) {i : Nat} (hdone : s.main = .done i) :
    (s.pool, s.baseInit) = ((EventLoopThreadPool.ctor none s.pool.name_).setThreadNum
        s.pool.numThreads_).start s.cb some ∧
      ∀ j < s.pool.numThreads_.toNat,
        (s.workers j).tid_ = true ∧ (s.workers j).initRan = s.cb := by
  have hinv := inv_reachable h
  have hshape := shape_reachable h
  obtain ⟨hi, hbase⟩ := hinv.done i hdone
  refine ⟨?_, ?_⟩
  · unfold Shape at hshape
    rw [hdone] at hshape
    have hfirst := EventLoopThreadPool.start_loops (none : Option Nat) s.pool.name_
      s.pool.numThreads_ s.cb some
    refine Prod.ext ?_ hbase
    rw [hfirst, hshape]
    simp [partialPool, MainPc.index, MainPc.awaited, hi, EventLoopThreadPool.ctor]
  · intro j hj
    have hpast := hinv.past j (by rw [hdone]; show j < i; omega)
    obtain ⟨htid, hinit, _⟩ := hinv.sound j
    refine ⟨?_, ?_⟩
    · rw [htid]
      exact decide_eq_true (by omega)
    · rw [hinit, decide_eq_true (show 5 ≤ (s.workers j).pc.stage by omega), Bool.true_and]

theorem start_refines_two_threads :
    ∃ s, machine.run (ctor [] 2 true) twoThreads = some s ∧ s.main = .done 2 ∧
      s.pool = (((EventLoopThreadPool.ctor none []).setThreadNum 2).start true some).1 := by
  have hstate : (machine.run (ctor [] 2 true) twoThreads).map
      (fun s => (s.main, s.pool.name_, s.pool.numThreads_, s.cb)) =
        some (.done 2, [], 2, true) := by decide +kernel
  obtain ⟨s, hrun, hs⟩ := Option.map_eq_some_iff.mp hstate
  simp only [Prod.mk.injEq] at hs
  obtain ⟨hdone, hname, hnum, hcb⟩ := hs
  have hrefines := (start_refines ⟨_, _, ⟨[], 2, true, rfl⟩, hrun⟩ hdone).1
  rw [hname, hnum, hcb] at hrefines
  exact ⟨s, hrun, hdone, congrArg Prod.fst hrefines⟩

/-! ## Whether start returns -/

/-- The calling thread waits for a loop that has ended. -/
def Missed (s : State) : Prop :=
  ∃ i, s.main.awaited = some i ∧ (s.workers i).pc = .finished

/-- Then it waits for good. -/
theorem missed_step (s : State) (l : Label) (s' : State) (h : Inv s ∧ Missed s)
    (hstep : next s l = some s') : Inv s' ∧ Missed s' := by
  refine ⟨inv_step s l s' h.1 hstep, ?_⟩
  obtain ⟨hinv, i, haw, hpc⟩ := h
  -- a step of a thread is not one of thread i
  have hworker : ∀ {j : Nat} {pc : ThreadPc} {f : Worker → Worker}, pc ≠ .finished →
      s.advance j pc f = some s' → Missed s' := by
    intro j pc f hne hadv
    obtain ⟨hj, rfl⟩ := advance_some hadv
    refine ⟨i, haw, ?_⟩
    have hij : i ≠ j := by
      intro heq
      rw [heq, hj] at hpc
      exact hne hpc
    rw [setWorker_of_ne s hij]
    exact hpc
  cases l with
  | start =>
    simp only [next, Option.ite_none_right_eq_some, Option.some.injEq] at hstep
    rw [hstep.1] at haw
    cases haw
  | create | finish =>
    simp only [next] at hstep
    split at hstep
    · rename_i j hmain
      rw [hmain] at haw
      cases haw
    · cases hstep
  | semWait | resume =>
    simp only [next] at hstep
    split at hstep
    · rename_i j hmain
      rw [hmain] at haw
      obtain rfl : j = i := by simpa [MainPc.awaited] using haw
      simp only [Option.ite_none_right_eq_some, Option.some.injEq] at hstep
      obtain ⟨_, rfl⟩ := hstep
      exact ⟨j, rfl, by simpa using hpc⟩
    · cases hstep
  | wake =>
    simp only [next] at hstep
    split at hstep
    · rename_i j hmain
      have haw' := haw
      rw [hmain] at haw'
      obtain rfl : j = i := by simpa [MainPc.awaited] using haw'
      simp only [Option.ite_none_right_eq_some, Option.some.injEq] at hstep
      obtain ⟨_, rfl⟩ := hstep
      exact ⟨j, haw, by simpa using hpc⟩
    · cases hstep
  | check =>
    simp only [next] at hstep
    split at hstep
    · rename_i j hmain
      rw [hmain] at haw
      obtain rfl : j = i := by simpa [MainPc.awaited] using haw
      -- loop_ is null again
      have hnull : (s.workers j).loop_ = false := by
        rw [(hinv.sound j).loop, hpc]
        rfl
      rw [hnull, if_neg Bool.false_ne_true] at hstep
      obtain rfl := Option.some.inj hstep
      exact ⟨j, rfl, by simpa using hpc⟩
    · cases hstep
  | publish j c =>
    simp only [next] at hstep
    split at hstep
    · exact hworker (by decide) hstep
    · cases hstep
  | setTid j | post j | construct j | init j | enter j | loopReturns j | clear j =>
    simp only [next] at hstep
    exact hworker (by decide) hstep

/-- What is left of the start, from the calling thread's side and from the new thread's. -/
def MainPc.rank : MainPc → Nat
  | .idle => 50
  | .loop _ => 45
  | .semWait _ => 30
  | .waiting _ => 20
  | .check _ => 10
  | .done _ => 0

def State.rank (s : State) : Nat :=
  (s.pool.numThreads_.toNat - s.main.index) * 50 + s.main.rank +
    match s.main.awaited with
    | some i => 9 - (s.workers i).pc.stage
    | none => 0

/-- A thread that has been created and has not published its loop can take a step. -/
theorem worker_moves {i : Nat} (hcreated : 1 ≤ (s.workers i).pc.stage)
    (hnot : (s.workers i).pc.stage < 6) :
    ∃ l w, next s l = some (s.setWorker i w) ∧ w.pc.stage = (s.workers i).pc.stage + 1 := by
  cases hpc : (s.workers i).pc with
  | created =>
    exact ⟨.setTid i, { s.workers i with pc := .tidSet, tid_ := true }, if_pos hpc, rfl⟩
  | tidSet =>
    exact ⟨.post i, { s.workers i with pc := .posted, sem := (s.workers i).sem + 1 },
      if_pos hpc, rfl⟩
  | posted => exact ⟨.construct i, { s.workers i with pc := .constructed }, if_pos hpc, rfl⟩
  | constructed =>
    exact ⟨.init i, { s.workers i with pc := .initialized, initRan := s.cb }, if_pos hpc, rfl⟩
  | initialized =>
    -- notify_one wakes the calling thread if it waits
    obtain ⟨c, cond_, hnotify⟩ : ∃ c cond_, (s.workers i).cond_.notifyOne c = some cond_ := by
      by_cases hwaiting : () ∈ (s.workers i).cond_.waiting
      · exact ⟨some (), _, if_pos hwaiting⟩
      · refine ⟨none, _, if_pos ?_⟩
        exact Finset.eq_empty_of_forall_notMem fun _ => hwaiting
    refine ⟨.publish i c,
      { s.workers i with pc := .published, loop_ := true, cond_ := cond_ }, ?_, rfl⟩
    simp only [next, hnotify]
    exact if_pos hpc
  | absent =>
    rw [hpc] at hcreated
    exact absurd hcreated (by decide)
  | published | looping | returned | finished =>
    rw [hpc] at hnot
    exact absurd hnot (by decide)

/-- The start is under way and has missed no loop. -/
structure Going (s : State) : Prop where
  inv : Inv s
  main : s.main ≠ .idle
  alive : ∀ i, s.main.awaited = some i → (s.workers i).pc.stage < 9

/-- The thread that is waited for goes on. -/
theorem Going.worker {i : Nat} (h : Going s) (haw : s.main.awaited = some i)
    (hcreated : 1 ≤ (s.workers i).pc.stage) (hnot : (s.workers i).pc.stage < 6) :
    ∃ l s', True ∧ next s l = some s' ∧ Going s' ∧ s'.rank < s.rank := by
  obtain ⟨l, w, hnext, hstage⟩ := worker_moves hcreated hnot
  refine ⟨l, _, trivial, hnext, ⟨inv_step s l _ h.inv hnext, h.main, ?_⟩, ?_⟩
  · intro j haw'
    obtain rfl : i = j := Option.some.inj (haw.symm.trans haw')
    rw [setWorker_self]
    omega
  · unfold State.rank
    have hmain : (s.setWorker i w).main = s.main := rfl
    rw [hmain, haw]
    simp only [setWorker_self]
    show (s.pool.numThreads_.toNat - s.main.index) * 50 + s.main.rank + _ < _
    omega

theorem Going.progress (h : Going s) (hnot : ¬ ∃ i, s.main = .done i) :
    ∃ l s', True ∧ next s l = some s' ∧ Going s' ∧ s'.rank < s.rank := by
  cases hmain : s.main with
  | idle => exact absurd hmain h.main
  | done i => exact absurd ⟨i, hmain⟩ hnot
  | loop i =>
    by_cases hlt : (i : Int) < s.pool.numThreads_
    · have hnext : next s .create = some { s.setWorker i { pc := .created } with
          pool := s.pool.pushThread i, main := .semWait i } := by
        simp only [next, hmain, if_pos hlt]
      refine ⟨.create, _, trivial, hnext, ⟨inv_step s _ _ h.inv hnext, by simp, ?_⟩, ?_⟩
      · intro j haw
        obtain rfl : i = j := by simpa [MainPc.awaited] using haw
        simp [ThreadPc.stage]
      · simp [State.rank, hmain, MainPc.index, MainPc.rank, MainPc.awaited, ThreadPc.stage,
          EventLoopThreadPool.pushThread]
    · have hnext : next s .finish = some { s with
          main := .done i, baseInit := s.pool.numThreads_ = 0 ∧ s.cb } := by
        simp only [next, hmain, if_neg hlt]
      refine ⟨.finish, _, trivial, hnext, ⟨inv_step s _ _ h.inv hnext, by simp, ?_⟩, ?_⟩
      · simp [MainPc.awaited]
      · simp [State.rank, hmain, MainPc.index, MainPc.rank, MainPc.awaited]
  | semWait i =>
    have haw : s.main.awaited = some i := by rw [hmain]; rfl
    obtain ⟨hcreated, hsem, _⟩ : Awaits (s.workers i) (.semWait i) := by
      rw [← hmain]
      exact (h.inv.current i haw).1
    by_cases hposted : 3 ≤ (s.workers i).pc.stage
    · rw [if_pos hposted] at hsem
      have hnext : next s .semWait = some { s.setWorker i
          { s.workers i with sem := (s.workers i).sem - 1 } with main := .check i } := by
        simp only [next, hmain, hsem]
        rfl
      refine ⟨.semWait, _, trivial, hnext, ⟨inv_step s _ _ h.inv hnext, by simp, ?_⟩, ?_⟩
      · intro j haw'
        obtain rfl : i = j := by simpa [MainPc.awaited] using haw'
        simpa using h.alive i haw
      · simp [State.rank, hmain, MainPc.index, MainPc.rank, MainPc.awaited, State.setWorker]
    · exact h.worker haw hcreated (by omega)
  | check i =>
    have haw : s.main.awaited = some i := by rw [hmain]; rfl
    obtain ⟨hposted, _⟩ : Awaits (s.workers i) (.check i) := by
      rw [← hmain]
      exact (h.inv.current i haw).1
    have hlt := (h.inv.current i haw).2
    by_cases hloop : (s.workers i).loop_ = true
    · have hnext : next s .check = some { s with
          pool := s.pool.pushLoop (some i), main := .loop (i + 1) } := by
        simp only [next, hmain, if_pos hloop]
      refine ⟨.check, _, trivial, hnext, ⟨inv_step s _ _ h.inv hnext, by simp, ?_⟩, ?_⟩
      · simp [MainPc.awaited]
      · simp only [State.rank, hmain, MainPc.index, MainPc.rank, MainPc.awaited,
          EventLoopThreadPool.pushLoop]
        omega
    · refine h.worker haw (by omega) ?_
      have := h.alive i haw
      rw [(h.inv.sound i).loop, decide_eq_true_eq] at hloop
      omega
  | waiting i =>
    have haw : s.main.awaited = some i := by rw [hmain]; rfl
    obtain ⟨hposted, hwhy, hwhere⟩ : Awaits (s.workers i) (.waiting i) := by
      rw [← hmain]
      exact (h.inv.current i haw).1
    rcases hwhere with hwaiting | hwoken
    · -- it has not been woken, so the loop is not published yet
      refine h.worker haw (by omega) ?_
      have := h.alive i haw
      rcases hwhy hwaiting with hstage | hstage
      · exact hstage
      · omega
    · have hnext : next s .resume = some { s.setWorker i
          { s.workers i with cond_ := (s.workers i).cond_.resume () } with main := .check i } := by
        simp only [next, hmain, if_pos hwoken]
      refine ⟨.resume, _, trivial, hnext, ⟨inv_step s _ _ h.inv hnext, by simp, ?_⟩, ?_⟩
      · intro j haw'
        obtain rfl : i = j := by simpa [MainPc.awaited] using haw'
        simpa using h.alive i haw
      · simp [State.rank, hmain, MainPc.index, MainPc.rank, MainPc.awaited, State.setWorker]

/-- The loop of the first thread is over before `startLoop` looks for it. -/
def missedLoop : List Label :=
  [.start, .create, .setTid 0, .post 0, .construct 0, .init 0, .publish 0 none, .enter 0,
   .loopReturns 0, .clear 0]

/-- From a state in which `start` is under way, it can still return if and only if the loop
    it is waiting for has not ended.  So no notification and no `sem_post` is ever lost, and
    the one way to hang is a thread whose loop is over before `startLoop` has seen it. -/
theorem start_returns_iff (h : machine.Reachable s) (hmain : s.main ≠ .idle) :
    machine.CanReach (fun _ => True) (fun t => ∃ i, t.main = .done i) s ↔
      ∀ i, s.main.awaited = some i → (s.workers i).pc ≠ .finished := by
  have hinv := inv_reachable h
  constructor
  · rintro ⟨ls, t, hrun, _, i, hdone⟩ j haw hpc
    obtain ⟨_, k, hk, _⟩ := machine.run_invariant missed_step ⟨hinv, j, haw, hpc⟩ hrun
    rw [hdone] at hk
    cases hk
  · intro halive
    refine Machine.canReach_of_rank (I := Going) State.rank (fun t ht => ht.progress)
      ⟨hinv, hmain, ?_⟩
    intro i haw
    have hne := halive i haw
    cases hpc : (s.workers i).pc <;> simp_all [ThreadPc.stage]

theorem start_returns_iff_missed :
    ∃ s, machine.run (ctor [] 2 true) missedLoop = some s ∧ s.main ≠ .idle ∧
      ¬ machine.CanReach (fun _ => True) (fun t => ∃ i, t.main = .done i) s := by
  have hstate : (machine.run (ctor [] 2 true) missedLoop).map
      (fun s => (s.main, (s.workers 0).pc)) = some (.semWait 0, .finished) := by decide +kernel
  obtain ⟨s, hrun, hs⟩ := Option.map_eq_some_iff.mp hstate
  simp only [Prod.mk.injEq] at hs
  obtain ⟨hmain, hpc⟩ := hs
  have hne : s.main ≠ .idle := by simp [hmain]
  refine ⟨s, hrun, hne, ?_⟩
  rw [start_returns_iff ⟨_, _, ⟨[], 2, true, rfl⟩, hrun⟩ hne]
  intro halive
  exact halive 0 (by rw [hmain]; rfl) hpc

end

end PoolStart
