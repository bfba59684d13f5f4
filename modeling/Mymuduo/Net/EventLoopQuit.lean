import Mymuduo.Net.EventLoopThreads

/-! # quit and queued work

    `quit` sets a flag that `loop` tests once an iteration, right behind
    `doPendingFunctors`.  Work that is pushed behind the swap of an iteration and
    followed by `quit` in that same iteration is left in `pendingFunctors_` when
    `loop()` returns (`queued_work_lost`).  Work that was swapped out before, or
    that has a swap ahead of it, is executed (`queued_work_executed_iff`).
-/

namespace EventLoopThreads

section
variable {Tid F : Type} [DecidableEq Tid]

/-! ## Positions -/

/-- The swap of the current iteration is ahead. -/
def State.BeforeSwap (s : State Tid F) : Prop :=
  s.pc = .poll ∨ s.pc = .handlers ∨ s.pc = .calling

/-- The swap of the current iteration has been executed; the test of `quit_` is
    next. -/
def State.AfterSwap (s : State Tid F) : Prop := s.pc = .running ∨ s.pc = .test

omit [DecidableEq Tid] in
theorem position (s : State Tid F) : s.pc = .outside ∨ s.BeforeSwap ∨ s.AfterSwap := by
  unfold State.BeforeSwap State.AfterSwap
  cases s.pc <;> simp

/-- What a step does to the position of the loop thread. -/
theorem pc_step {threadId_ : Tid} {s s' : State Tid F} {l : Label Tid F}
    (hstep : next threadId_ s l = some s') :
    (s'.pc = s.pc ∧ l ≠ .enter ∧ l ≠ .whileTest ∧ l ≠ .swap) ∨
    (l = .enter ∧ s.pc = .outside ∧ s'.pc = .test ∧ s'.loop.quit_ = false) ∨
    (l = .whileTest ∧ s.pc = .test ∧ s.loop.quit_ = true ∧ s'.pc = .outside) ∨
    (l = .whileTest ∧ s.pc = .test ∧ s.loop.quit_ = false ∧ s'.pc = .poll) ∨
    (l = .poll ∧ s.pc = .poll ∧ s'.pc = .handlers) ∨
    (l = .flagSet ∧ s.pc = .handlers ∧ s'.pc = .calling) ∨
    (l = .swap ∧ s.pc = .calling ∧ s'.pc = .running) ∨
    (l = .flagClear ∧ s.pc = .running ∧ s'.pc = .test) := by
  cases next_step hstep with
  | push t cb _ | test t _ | wakeup t _ | quit t _ | handleRead _ | runFunctor f rest _ _ => simp
  | enter hat => exact Or.inr (Or.inl ⟨rfl, hat.1, rfl, rfl⟩)
  | leave hat hquit => exact Or.inr (Or.inr (Or.inl ⟨rfl, hat.1, hquit, rfl⟩))
  | proceed hat hquit => exact Or.inr (Or.inr (Or.inr (Or.inl ⟨rfl, hat.1, hquit, rfl⟩)))
  | poll hat | flagSet hat | swap hat | flagClear hat _ => simp [hat.1]

/-- `loop()` clears the flag at its entry, no other step does. -/
theorem quit_step {threadId_ : Tid} {s s' : State Tid F} {l : Label Tid F} (hne : l ≠ .enter)
    (hquit : s.loop.quit_ = true) (hstep : next threadId_ s l = some s') :
    s'.loop.quit_ = true := by
  cases next_step hstep with
  | enter _ => exact absurd rfl hne
  | wakeup t _ =>
    show s.loop.wakeup.quit_ = true
    unfold EventLoop.wakeup
    split
    · exact hquit
    · exact hquit
  | quit t _ => rfl
  | push t cb _ | test t _ | leave _ _ | proceed _ _ | poll _ | handleRead _ | flagSet _ | swap _
  | runFunctor f rest _ _ | flagClear _ _ => exact hquit

/-- Until the loop thread gets to its next test it stays on its side of the swap,
    or executes it. -/
theorem position_step {threadId_ : Tid} {s s' : State Tid F} {l : Label Tid F}
    (hne : l ≠ .whileTest) (hstep : next threadId_ s l = some s') :
    (s.BeforeSwap → s'.BeforeSwap ∨ l = .swap) ∧
    (s.AfterSwap → s'.AfterSwap ∧ l ≠ .swap) ∧ (l = .swap → s'.AfterSwap) := by
  unfold State.BeforeSwap State.AfterSwap
  rcases pc_step hstep with ⟨hpc, _, _, hs⟩ | ⟨rfl, hpc, hpc', _⟩ | ⟨rfl, _⟩ | ⟨rfl, _⟩ |
    ⟨rfl, hpc, hpc'⟩ | ⟨rfl, hpc, hpc'⟩ | ⟨rfl, hpc, hpc'⟩ | ⟨rfl, hpc, hpc'⟩
  · rw [hpc]
    exact ⟨Or.inl, fun h => ⟨h, hs⟩, fun h => absurd h hs⟩
  · simp [hpc]
  · exact absurd rfl hne
  · exact absurd rfl hne
  · simp [hpc, hpc']
  · simp [hpc, hpc']
  · simp [hpc, hpc']
  · simp [hpc, hpc']

/-! ## Executed and swapped out -/

/-- The functors executed or in the batch. -/
def State.committed (s : State Tid F) : List (Queued Tid F) := s.executed ++ s.loop.functors

/-- All functors pushed so far, in order. -/
def State.history (s : State Tid F) : List (Queued Tid F) :=
  s.committed ++ s.loop.pendingFunctors_

theorem committed_step {threadId_ : Tid} {s s' : State Tid F} {l : Label Tid F}
    (hinv : BatchInv s) (hstep : next threadId_ s l = some s') :
    (l ≠ .swap → s'.committed = s.committed) ∧ (l = .swap → s'.committed = s.history) := by
  have hq := (queue_step hinv hstep).1
  constructor
  · intro hne
    exact BatchQueue.committed_next hq fun hop => hne (Label.op_eq_swap.mp hop)
  · intro heq
    subst heq
    exact BatchQueue.committed_swap hq

theorem history_step {threadId_ : Tid} {s s' : State Tid F} {l : Label Tid F}
    (hinv : BatchInv s) (hstep : next threadId_ s l = some s') : s.history <+: s'.history := by
  have hq := BatchQueue.history_next (queue_step hinv hstep).1
  exact ⟨_, hq.symm⟩

theorem history_run {threadId_ : Tid} {s s' : State Tid F} {ls : List (Label Tid F)}
    (hinv : BatchInv s) (hrun : (machine threadId_).run s ls = some s') :
    s.history <+: s'.history := by
  have h := (machine threadId_).run_invariant
    (I := fun t => BatchInv t ∧ s.history <+: t.history)
    (fun _ _ _ h hstep => ⟨(queue_step h.1 hstep).2, h.2.trans (history_step h.1 hstep)⟩)
    ⟨hinv, List.prefix_refl _⟩ hrun
  exact h.2

/-- The loop goes on to its next test from behind the swap: nothing more is
    swapped out. -/
theorem committed_of_afterSwap {threadId_ : Tid} {s s' : State Tid F} {ks : List (Label Tid F)}
    (hinv : BatchInv s) (hafter : s.AfterSwap) (hks : Label.whileTest ∉ ks)
    (hrun : (machine threadId_).run s ks = some s') : s'.committed = s.committed := by
  induction ks generalizing s with
  | nil =>
    obtain rfl : s = s' := by simpa using hrun
    rfl
  | cons l ks ih =>
    obtain ⟨t, hstep, hrest⟩ := (machine threadId_).run_cons_some.mp hrun
    rw [List.mem_cons, not_or] at hks
    obtain ⟨hafter', hne⟩ := (position_step (Ne.symm hks.1) hstep).2.1 hafter
    rw [ih (queue_step hinv hstep).2 hafter' hks.2 hrest]
    exact (committed_step hinv hstep).1 hne

/-- The loop goes on to its next test from before the swap: all that has been
    pushed is swapped out. -/
theorem committed_of_beforeSwap {threadId_ : Tid} {s s' : State Tid F}
    {ks : List (Label Tid F)} {hist : List (Queued Tid F)} (hinv : BatchInv s)
    (hbefore : s.BeforeSwap) (hhist : hist <+: s.history) (hks : Label.whileTest ∉ ks)
    (hrun : (machine threadId_).run s ks = some s') (htest : s'.pc = .test) :
    hist <+: s'.committed := by
  induction ks generalizing s with
  | nil =>
    obtain rfl : s = s' := by simpa using hrun
    rw [State.BeforeSwap, htest] at hbefore
    simp at hbefore
  | cons l ks ih =>
    obtain ⟨t, hstep, hrest⟩ := (machine threadId_).run_cons_some.mp hrun
    rw [List.mem_cons, not_or] at hks
    have hinv' := (queue_step hinv hstep).2
    rcases (position_step (Ne.symm hks.1) hstep).1 hbefore with hbefore' | rfl
    · exact ih hinv' hbefore' (hhist.trans (history_step hinv hstep)) hks.2 hrest
    · -- the swap; from here on nothing more is needed
      have hswap : next threadId_ s .swap = some t := hstep
      have hafter := (position_step (l := .swap) nofun hswap).2.2 rfl
      rw [committed_of_afterSwap hinv' hafter hks.2 hrest, (committed_step hinv hswap).2 rfl]
      exact hhist

theorem enter_outside {threadId_ : Tid} {s s' : State Tid F}
    (hstep : next threadId_ s .enter = some s') : s.pc = .outside := by
  cases next_step hstep
  rename_i hat
  exact hat.1

theorem test_returns {threadId_ : Tid} {s s' : State Tid F} (hquit : s.loop.quit_ = true)
    (hstep : next threadId_ s .whileTest = some s') : s'.pc = .outside := by
  cases next_step hstep with
  | leave _ _ => rfl
  | proceed _ hnot =>
    rw [hquit] at hnot
    cases hnot

/-- Once the flag is set the first test ends the loop. -/
theorem no_test_before_return {threadId_ : Tid} {s s' : State Tid F} {ks : List (Label Tid F)}
    (hquit : s.loop.quit_ = true)
    (hstay : (machine threadId_).Along (fun s _ => s.pc ≠ .outside) s ks)
    (hrun : (machine threadId_).run s ks = some s') (hpc : s'.pc ≠ .outside) :
    Label.whileTest ∉ ks := by
  induction ks generalizing s with
  | nil => exact List.not_mem_nil
  | cons l ks ih =>
    obtain ⟨t, hstep, hrest⟩ := (machine threadId_).run_cons_some.mp hrun
    have hin : s.pc ≠ .outside := hstay.1
    have hstay' := hstay.tail (machine threadId_) hstep
    -- the state after the step is inside the loop, too
    have hin' : t.pc ≠ .outside := by
      cases ks with
      | nil =>
        obtain rfl : t = s' := by simpa using hrest
        exact hpc
      | cons k ks => exact hstay'.1
    have hne : l ≠ .enter := by
      intro heq
      subst heq
      exact hin (enter_outside hstep)
    have hne' : l ≠ .whileTest := by
      intro heq
      subst heq
      exact hin' (test_returns hquit hstep)
    rw [List.mem_cons, not_or]
    exact ⟨Ne.symm hne', ih (quit_step hne hquit hstep) hstay' hrest⟩

/-! ## Work queued before quit -/

theorem getElem?_of_prefix {α : Type} {l l' : List α} (h : l <+: l') {k : Nat} {x : α}
    (hget : l[k]? = some x) : l'[k]? = some x := by
  obtain ⟨rest, rfl⟩ := h
  have hlt := (List.getElem?_eq_some_iff.mp hget).1
  rw [List.getElem?_append_left hlt]
  exact hget

/-- A functor stands behind all functors pushed before it. -/
theorem push_place {threadId_ t : Tid} {cb : F} {s s' : State Tid F} {ls : List (Label Tid F)}
    (hrun : (machine threadId_).run {} ls = some s)
    (hpush : next threadId_ s (.push t cb) = some s') :
    s'.history[(pushes ls).length]? = some ⟨t, cb⟩ := by
  have hhist := BatchQueue.history_next (queue_step (batchInv_run batchInv_init hrun) hpush).1
  have hold : s.queue.history = pushes ls := queue_history hrun
  have hnew : s'.history = pushes ls ++ [⟨t, cb⟩] := by
    rw [← hold]
    exact hhist
  rw [hnew, List.getElem?_concat_length]

/-- The store of `quit` moves neither the functors nor the loop thread. -/
theorem quit_frame {threadId_ t : Tid} {s s' : State Tid F}
    (hquit : next threadId_ s (.quit t) = some s') :
    s'.committed = s.committed ∧ s'.pc = s.pc ∧ s'.loop.quit_ = true := by
  cases next_step hquit
  exact ⟨rfl, rfl, rfl⟩

/-- At the test there is no batch: what was swapped out has been executed. -/
theorem test_executed {threadId_ : Tid} {s s' : State Tid F} (hinv : BatchInv s)
    (htest : next threadId_ s .whileTest = some s') :
    s.pc = .test ∧ s'.executed = s.committed := by
  cases next_step htest with
  | leave hat _ | proceed hat _ =>
    refine ⟨hat.1, ?_⟩
    rw [State.committed, hinv (by simp [hat.1]), List.append_nil]

/-- Thread 1 queues a functor while the loop runs the batch of this iteration, and
    calls `quit`: the functor is still pending when `loop()` returns. -/
theorem queued_work_lost :
    ∃ s₁ s₂ : State Nat Nat,
      (machine 0).run {} [.push 1 10, .test 1, .wakeup 1, .enter, .whileTest, .poll, .handleRead,
        .flagSet, .swap] = some s₁ ∧
      (machine 0).run s₁ [.push 1 20, .test 1, .wakeup 1, .quit 1, .wakeup 1, .runFunctor,
        .flagClear, .whileTest] = some s₂ ∧
      s₁.pc = .running ∧ s₂.pc = .outside ∧ s₂.executed = [⟨1, 10⟩] ∧
      s₂.loop.pendingFunctors_ = [⟨1, 20⟩] :=
  ⟨_, _, rfl, rfl, rfl, rfl, rfl, rfl⟩

/-- A thread queues a functor and later calls `quit` on the running loop.  When
    `loop()` returns, the functor has been executed if and only if at the store of
    the flag the loop thread was not behind the swap of its iteration with the
    functor still pending.  The functor is known by its place among all pushes. -/
theorem queued_work_executed_iff {threadId_ t : Tid} {cb : F} {s₁ s₂ s₃ s₄ s₅ s₆ : State Tid F}
    {ls ms ks : List (Label Tid F)} (hrun₁ : (machine threadId_).run {} ls = some s₁)
    (hpush : next threadId_ s₁ (.push t cb) = some s₂)
    (hrun₂ : (machine threadId_).run s₂ ms = some s₃) (hrunning : s₃.pc ≠ .outside)
    (hquit : next threadId_ s₃ (.quit t) = some s₄)
    (hrun₃ : (machine threadId_).run s₄ ks = some s₅)
    (hstay : (machine threadId_).Along (fun s _ => s.pc ≠ .outside) s₄ ks)
    (hreturn : next threadId_ s₅ .whileTest = some s₆) :
    s₆.executed[(pushes ls).length]? = some ⟨t, cb⟩ ↔
      ¬ ((s₃.pc = .running ∨ s₃.pc = .test) ∧
        (s₃.executed ++ s₃.loop.functors).length ≤ (pushes ls).length) := by
  have hinv₂ := (queue_step (batchInv_run batchInv_init hrun₁) hpush).2
  have hinv₃ := batchInv_run hinv₂ hrun₂
  have hinv₄ := (queue_step hinv₃ hquit).2
  have hplace := push_place hrun₁ hpush
  have hhist₃ := history_run hinv₂ hrun₂
  have hhist₄ := hhist₃.trans (history_step hinv₃ hquit)
  obtain ⟨hcommitted, hpc, hflag⟩ := quit_frame hquit
  obtain ⟨htest, hexecuted⟩ := test_executed (batchInv_run hinv₄ hrun₃) hreturn
  have hks := no_test_before_return hflag hstay hrun₃ (by simp [htest])
  rw [hexecuted]
  rcases position s₄ with hout | hbefore | hafter
  · rw [hpc] at hout
    exact absurd hout hrunning
  · -- the swap is ahead: it takes everything pushed so far
    have hall := committed_of_beforeSwap hinv₄ hbefore hhist₄ hks hrun₃ htest
    rw [State.BeforeSwap, hpc] at hbefore
    constructor
    · intro _ hbad
      rcases hbad.1 with h | h
      · simp [h] at hbefore
      · simp [h] at hbefore
    · intro _
      exact getElem?_of_prefix hall hplace
  · -- behind the swap: nothing more is swapped out
    have hsame := committed_of_afterSwap hinv₄ hafter hks hrun₃
    rw [State.AfterSwap, hpc] at hafter
    rw [hsame, hcommitted]
    constructor
    · intro hget hbad
      have hlt := List.getElem?_eq_some_iff.mp hget
      exact absurd hlt.1 (Nat.not_lt.mpr hbad.2)
    · intro hnot
      have hlt : (pushes ls).length < s₃.committed.length := by
        apply Nat.lt_of_not_le
        intro hle
        exact hnot ⟨hafter, hle⟩
      have hget : s₃.history[(pushes ls).length]? = some ⟨t, cb⟩ :=
        getElem?_of_prefix hhist₃ hplace
      rw [State.history, List.getElem?_append_left hlt] at hget
      exact hget

/-- Thread 1 queues a functor and quits while the loop is in `poll`. -/
theorem queued_work_executed_iff_poll :
    ∃ s₃ s₄ s₅ s₆ : State Nat Nat,
      (machine 0).run {} [.enter, .whileTest, .push 1 10, .test 1, .wakeup 1] = some s₃ ∧
      next 0 s₃ (.quit 1) = some s₄ ∧
      (machine 0).run s₄ [.wakeup 1, .poll, .handleRead, .flagSet, .swap, .runFunctor,
        .flagClear] = some s₅ ∧
      next 0 s₅ .whileTest = some s₆ ∧ s₆.executed[0]? = some ⟨1, 10⟩ := by
  refine ⟨_, _, _, _, rfl, rfl, rfl, rfl, ?_⟩
  have hiff := @queued_work_executed_iff Nat Nat _ 0 1 10 _ _ _ _ _ _ [.enter, .whileTest]
    [.test 1, .wakeup 1]
    [.wakeup 1, .poll, .handleRead, .flagSet, .swap, .runFunctor, .flagClear]
    rfl rfl rfl (by decide) rfl rfl (by decide) rfl
  exact hiff.mpr (by decide)

end

end EventLoopThreads
