import Mymuduo.Net.EventLoopQuit

/-! # EventLoopThread

    `threadFunc` constructs a loop, publishes its address, runs `loop()` and takes
    the address back.  `startLoop` returns the address as soon as it is published,
    so another thread, `~EventLoopThread` among them, can call `quit` before the
    new thread has entered `loop()`; `loop()` then starts with `quit_ = false` and
    the request is lost (`quit_lost_before_entry`).  A `quit` behind that store is
    kept until `loop()` returns (`quit_kept_iff`).
-/

namespace EventLoopThread

/-! ## State -/

/-- Where the new thread is in `threadFunc`. -/
inductive ThreadPc where
  /-- The loop is constructed, `callback_` may run. -/
  | constructing
  /-- `loop_` is set, `loop()` is not entered yet. -/
  | published
  /-- In `loop()`. -/
  | looping
  /-- `loop()` has returned. -/
  | returned
  /-- `loop_` is null again, the loop is destroyed. -/
  | finished
  deriving DecidableEq, Repr

structure State (Tid F : Type) where
  /-- The loop with all threads that call it. -/
  inner : EventLoopThreads.State Tid F := {}
  thread : ThreadPc := .constructing
  /-- `loop_` is not null. -/
  loop_ : Bool := false
  /-- `startLoop()` has returned the address of the loop. -/
  started : Bool := false
  /-- Ghost: a `quit()` has set `quit_`. -/
  asked : Bool := false
  /-- Ghost: the polls started after that. -/
  late : Nat := 0

inductive Label (Tid F : Type) where
  /-- `loop_ = &loop` and the notification. -/
  | publish
  /-- `startLoop()` returns. -/
  | startLoop
  /-- A step of the loop thread or of a thread that calls the loop. -/
  | step (l : EventLoopThreads.Label Tid F)
  /-- `loop_ = nullptr`. -/
  | clear
  deriving DecidableEq, Repr

section
variable {Tid F : Type} [DecidableEq Tid]

/-! ## Steps -/

/-- The new thread runs user code in `callback_` and in `loop()`; other threads
    have the address of the loop from `startLoop`, and may use it while the loop
    exists. -/
def State.mayCall (threadId_ : Tid) (s : State Tid F) (t : Tid) : Prop :=
  (t = threadId_ → s.thread = .constructing ∨ s.thread = .looping) ∧
    (t ≠ threadId_ → s.started = true ∧ s.thread ≠ .finished)

instance (threadId_ : Tid) (s : State Tid F) (t : Tid) : Decidable (s.mayCall threadId_ t) :=
  inferInstanceAs (Decidable ((_ → _) ∧ (_ → _)))

def Allowed (threadId_ : Tid) (s : State Tid F) : EventLoopThreads.Label Tid F → Prop
  | .push t _ | .quit t => s.mayCall threadId_ t
  | .enter => s.thread = .published
  | _ => True

instance (threadId_ : Tid) (s : State Tid F) :
    (l : EventLoopThreads.Label Tid F) → Decidable (Allowed threadId_ s l)
  | .push t _ | .quit t => inferInstanceAs (Decidable (s.mayCall threadId_ t))
  | .enter => inferInstanceAs (Decidable (_ = _))
  | .test _ | .wakeup _ | .whileTest | .poll | .handleRead | .flagSet | .swap | .runFunctor
  | .flagClear => isTrue trivial

def isQuit : EventLoopThreads.Label Tid F → Bool
  | .quit _ => true
  | _ => false

/-- Where the new thread is after a step that leaves the loop in `inner`. -/
def threadAfter (thread : ThreadPc) (inner : EventLoopThreads.State Tid F) :
    EventLoopThreads.Label Tid F → ThreadPc
  | .enter => .looping
  | .whileTest => if inner.pc = .outside then .returned else thread
  | _ => thread

def next (threadId_ : Tid) (s : State Tid F) : Label Tid F → Option (State Tid F)
  | .publish =>
    if s.thread = .constructing ∧ s.inner.call threadId_ = .idle then
      some { s with thread := .published, loop_ := true }
    else none
  -- waits until loop_ is not null
  | .startLoop =>
    if s.loop_ = true ∧ s.started = false then some { s with started := true } else none
  | .step l =>
    if Allowed threadId_ s l then
      (EventLoopThreads.next threadId_ s.inner l).map fun inner =>
        { s with
          inner := inner
          thread := threadAfter s.thread inner l
          asked := s.asked || isQuit l
          late := if s.asked ∧ s.inner.pc = .test ∧ inner.pc = .poll then s.late + 1
            else s.late }
    else none
  | .clear =>
    if s.thread = .returned then some { s with thread := .finished, loop_ := false } else none

/-- Starts when the new thread has entered `threadFunc`. -/
def machine (threadId_ : Tid) : Machine (State Tid F) (Label Tid F) where
  init := fun s => s = {}
  next := next threadId_

/-- What a step can do. -/
theorem next_cases {threadId_ : Tid} {s s' : State Tid F} {l : Label Tid F}
    (h : next threadId_ s l = some s') :
    (l = .publish ∧ s.thread = .constructing ∧ s' = { s with thread := .published, loop_ := true }) ∨
    (l = .startLoop ∧ s' = { s with started := true }) ∨
    (∃ k inner, l = .step k ∧ Allowed threadId_ s k ∧
      EventLoopThreads.next threadId_ s.inner k = some inner ∧
      s' = { s with
        inner := inner
        thread := threadAfter s.thread inner k
        asked := s.asked || isQuit k
        late := if s.asked ∧ s.inner.pc = .test ∧ inner.pc = .poll then s.late + 1
          else s.late }) ∨
    (l = .clear ∧ s.thread = .returned ∧ s' = { s with thread := .finished, loop_ := false }) := by
  cases l with
  | publish =>
    simp only [next, Option.ite_none_right_eq_some, Option.some.injEq] at h
    obtain ⟨⟨hthread, _⟩, rfl⟩ := h
    exact Or.inl ⟨rfl, hthread, rfl⟩
  | startLoop =>
    simp only [next, Option.ite_none_right_eq_some, Option.some.injEq] at h
    obtain ⟨_, rfl⟩ := h
    exact Or.inr (Or.inl ⟨rfl, rfl⟩)
  | step k =>
    simp only [next, Option.ite_none_right_eq_some, Option.map_eq_some_iff] at h
    obtain ⟨hallowed, inner, hinner, rfl⟩ := h
    exact Or.inr (Or.inr (Or.inl ⟨k, inner, rfl, hallowed, hinner, rfl⟩))
  | clear =>
    simp only [next, Option.ite_none_right_eq_some, Option.some.injEq] at h
    obtain ⟨hthread, rfl⟩ := h
    exact Or.inr (Or.inr (Or.inr ⟨rfl, hthread, rfl⟩))

/-! ## A request is kept -/

/-- `loop()` has returned. -/
def State.Returned (s : State Tid F) : Prop := s.thread = .returned ∨ s.thread = .finished

/-- After the step a request that was made is still set, unless `loop()` has
    returned. -/
def Kept (threadId_ : Tid) (s : State Tid F) (l : Label Tid F) : Prop :=
  ∀ s', next threadId_ s l = some s' → s'.asked = true →
    s'.Returned ∨ s'.inner.loop.quit_ = true

/-- The step is not the entry of `loop()` after a request. -/
def EntersFresh (s : State Tid F) : Label Tid F → Prop
  | .step .enter => s.asked = false
  | _ => True

instance (s : State Tid F) : (l : Label Tid F) → Decidable (EntersFresh s l)
  | .step .enter => inferInstanceAs (Decidable (_ = _))
  | .publish | .startLoop | .clear | .step (.push _ _) | .step (.test _) | .step (.wakeup _)
  | .step (.quit _) | .step .whileTest | .step .poll | .step .handleRead | .step .flagSet
  | .step .swap | .step .runFunctor | .step .flagClear => isTrue trivial

structure Inv (s : State Tid F) : Prop where
  kept : s.asked = true → s.Returned ∨ s.inner.loop.quit_ = true
  /-- The new thread is in `loop()` exactly if the loop is being run. -/
  inside : s.inner.pc ≠ .outside → s.thread = .looping
  late : s.late = 0

omit [DecidableEq Tid] in
theorem inv_init : Inv ({} : State Tid F) := ⟨nofun, fun h => absurd rfl h, rfl⟩

omit [DecidableEq Tid] in
theorem threadAfter_of_ne {k : EventLoopThreads.Label Tid F} (henter : k ≠ .enter)
    (htest : k ≠ .whileTest) (thread : ThreadPc) (inner : EventLoopThreads.State Tid F) :
    threadAfter thread inner k = thread := by
  cases k with
  | enter => exact absurd rfl henter
  | whileTest => exact absurd rfl htest
  | _ => rfl

/-- Steps other than the entry and the test keep a request, and make one only
    with the flag set. -/
theorem Inv.kept_of_ne {threadId_ : Tid} {s : State Tid F} (h : Inv s)
    {k : EventLoopThreads.Label Tid F} {inner : EventLoopThreads.State Tid F}
    (henter : k ≠ .enter) (hinner : EventLoopThreads.next threadId_ s.inner k = some inner)
    (hasked : (s.asked || isQuit k) = true) : s.Returned ∨ inner.loop.quit_ = true := by
  rcases Bool.or_eq_true_iff.mp hasked with hasked | hquit
  · rcases h.kept hasked with hret | hflag
    · exact Or.inl hret
    · exact Or.inr (EventLoopThreads.quit_step henter hflag hinner)
  · cases k with
    | quit t => exact Or.inr (EventLoopThreads.quit_frame hinner).2.2
    | _ => cases hquit

/-- A step of the loop or of a caller. -/
theorem Inv.step {threadId_ : Tid} {s : State Tid F} (h : Inv s)
    {k : EventLoopThreads.Label Tid F} {inner : EventLoopThreads.State Tid F}
    (hfresh : EntersFresh s (.step k))
    (hinner : EventLoopThreads.next threadId_ s.inner k = some inner) :
    Inv { s with
      inner := inner
      thread := threadAfter s.thread inner k
      asked := s.asked || isQuit k
      late := if s.asked ∧ s.inner.pc = .test ∧ inner.pc = .poll then s.late + 1
        else s.late } := by
  -- steps behind which the new thread is where it was
  have hsame : k ≠ .enter → k ≠ .whileTest → (inner.pc ≠ .outside → s.inner.pc ≠ .outside) →
      ¬ (s.inner.pc = .test ∧ inner.pc = .poll) → Inv { s with
        inner := inner
        thread := threadAfter s.thread inner k
        asked := s.asked || isQuit k
        late := if s.asked ∧ s.inner.pc = .test ∧ inner.pc = .poll then s.late + 1
          else s.late } := by
    intro henter htest hpc hnot
    rw [threadAfter_of_ne henter htest, if_neg fun hbad => hnot hbad.2]
    exact ⟨h.kept_of_ne henter hinner, fun hin => h.inside (hpc hin), h.late⟩
  rcases EventLoopThreads.pc_step hinner with ⟨hpc, henter, htest, _⟩ | ⟨rfl, _, hpc, _⟩ |
    ⟨rfl, _, _, hpc⟩ | ⟨rfl, hpc, hflag, hpoll⟩ | ⟨rfl, hpc, hpc'⟩ | ⟨rfl, hpc, hpc'⟩ |
    ⟨rfl, hpc, hpc'⟩ | ⟨rfl, hpc, hpc'⟩
  · apply hsame henter htest
    · rw [hpc]
      exact id
    · rw [hpc]
      exact fun hbad => nomatch hbad.1.symm.trans hbad.2
  · -- the entry: no request has been made
    have hnot : s.asked = false := hfresh
    refine ⟨?_, fun _ => rfl, ?_⟩
    · simp [hnot, isQuit]
    · simp [hnot, h.late]
  · -- the test ends the loop
    refine ⟨fun _ => Or.inl (Or.inl (if_pos hpc)), fun hin => absurd hpc hin, ?_⟩
    simp [hpc, h.late]
  · -- the test goes on: the flag is not set, so no request has been made
    have hthread := h.inside (by simp [hpc])
    have hnot : s.asked = false := by
      apply Bool.eq_false_iff.mpr
      intro hasked
      rcases h.kept hasked with hret | hset
      · simp [State.Returned, hthread] at hret
      · rw [hflag] at hset
        cases hset
    refine ⟨?_, ?_, ?_⟩
    · simp [hnot, isQuit]
    · intro _
      show threadAfter s.thread inner .whileTest = .looping
      simp [threadAfter, hpoll, hthread]
    · simp [hnot, h.late]
  all_goals exact hsame nofun nofun (by simp [hpc]) (by simp [hpc, hpc'])

theorem inv_step {threadId_ : Tid} {s s' : State Tid F} {l : Label Tid F} (h : Inv s)
    (hfresh : EntersFresh s l) (hstep : next threadId_ s l = some s') : Inv s' := by
  rcases next_cases hstep with ⟨rfl, hthread, rfl⟩ | ⟨rfl, rfl⟩ |
    ⟨k, inner, rfl, _, hinner, rfl⟩ | ⟨rfl, hthread, rfl⟩
  · have hout : s.inner.pc = .outside := by
      by_contra hin
      cases hthread.symm.trans (h.inside hin)
    refine ⟨?_, fun hin => absurd hout hin, h.late⟩
    intro hasked
    rcases h.kept hasked with hret | hset
    · simp [State.Returned, hthread] at hret
    · exact Or.inr hset
  · exact ⟨h.kept, h.inside, h.late⟩
  · exact h.step hfresh hinner
  · refine ⟨fun _ => Or.inl (Or.inr rfl), ?_, h.late⟩
    intro hin
    cases hthread.symm.trans (h.inside hin)

/-- An entry after a request loses it. -/
theorem entersFresh_of_kept {threadId_ : Tid} {s s' : State Tid F} {l : Label Tid F}
    (hkept : Kept threadId_ s l) (hstep : next threadId_ s l = some s') : EntersFresh s l := by
  rcases next_cases hstep with ⟨rfl, _⟩ | ⟨rfl, _⟩ | ⟨k, inner, rfl, _, hinner, rfl⟩ | ⟨rfl, _⟩
  · trivial
  · trivial
  · cases k with
    | enter =>
      apply Bool.eq_false_iff.mpr
      intro hasked
      rcases hkept _ hstep (by simp [hasked]) with hret | hset
      · simp [State.Returned, threadAfter] at hret
      · cases EventLoopThreads.next_step hinner
        cases hset
    | _ => trivial
  · trivial

/-! ## Runs -/

/-- Thread 1 quits the loop that `startLoop` has just returned, before the new
    thread enters `loop()`: the flag is cleared, the wakeup is used up by the first
    iteration, and the loop is back in `poll` with nothing to wake it. -/
theorem quit_lost_before_entry :
    ∃ s₁ s₂ : State Nat Nat,
      (machine 0).run {} [.publish, .startLoop, .step (.quit 1), .step (.wakeup 1)] = some s₁ ∧
      (machine 0).run s₁ [.step .enter, .step .whileTest, .step .poll, .step .handleRead,
        .step .flagSet, .step .swap, .step .flagClear, .step .whileTest] = some s₂ ∧
      s₁.inner.loop.quit_ = true ∧ s₂.asked = true ∧ s₂.inner.loop.quit_ = false ∧
      s₂.thread = .looping ∧ s₂.inner.pc = .poll ∧ s₂.inner.loop.wakeupCount = 0 ∧
      s₂.late = 2 :=
  ⟨_, _, rfl, rfl, rfl, rfl, rfl, rfl, rfl, rfl, rfl⟩

/-- In a run of `threadFunc` and any other threads, `quit_` stays set from each
    `quit()` until `loop()` returns and no poll is started in between, if and only
    if `loop()` is not entered after a `quit()`. -/
theorem quit_kept_iff {threadId_ : Tid} {s : State Tid F} {ls : List (Label Tid F)}
    (hrun : (machine threadId_).run {} ls = some s) :
    ((machine threadId_).Along (Kept threadId_) {} ls ∧ s.late = 0) ↔
      (machine threadId_).Along EntersFresh {} ls := by
  constructor
  · intro h
    exact Machine.Along.imp_of_run (machine threadId_) (I := fun _ => True)
      (fun _ _ _ _ hkept hstep => ⟨entersFresh_of_kept hkept hstep, trivial⟩) trivial hrun h.1
  · intro h
    constructor
    · refine Machine.Along.imp_of_run (machine threadId_) (I := Inv) ?_ inv_init hrun h
      intro s l s' hinv hfresh hstep
      have hinv' := inv_step hinv hfresh hstep
      refine ⟨?_, hinv'⟩
      intro s'' hstep'
      obtain rfl := Option.some.inj (hstep.symm.trans hstep')
      exact hinv'.kept
    · exact ((machine threadId_).run_invariant_along (fun _ _ _ => inv_step) inv_init h hrun).late

/-- A `quit()` while the loop is in `poll`: the loop returns at the next test. -/
theorem quit_kept_iff_polling :
    ∃ s : State Nat Nat, ∃ ls, (machine 0).run {} ls = some s ∧
      (machine 0).Along (Kept 0) {} ls ∧ s.late = 0 ∧ s.asked = true ∧ s.thread = .returned := by
  have hrun : (machine 0).run ({} : State Nat Nat)
      [.publish, .startLoop, .step .enter, .step .whileTest, .step (.quit 1), .step (.wakeup 1),
       .step .poll, .step .handleRead, .step .flagSet, .step .swap, .step .flagClear,
       .step .whileTest] = some _ := rfl
  have h := (quit_kept_iff hrun).mpr (by decide)
  exact ⟨_, _, hrun, h.1, h.2, rfl, rfl⟩

end

end EventLoopThread
