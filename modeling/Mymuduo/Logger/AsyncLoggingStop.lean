import Mymuduo.Logger.AsyncLoggingOrder

/-! # stop

    `stop` clears `running_` and joins the back-end thread, which tests `running_`
    at the top of its loop only and does not swap again behind the loop.  So what
    the front end holds is written if the back end is between the test and the
    swap when `running_` is cleared, and is lost otherwise
    (`stop_loses_line`, `stop_drains_iff`).
-/

namespace AsyncLogging

/-! ## What will be written -/

/-- The bytes written or in the batch of the back end. -/
def committed (s : State) : List UInt8 := s.written.flatten ++ (unwritten s).flatMap bytes

/-- The bytes in the buffers of the front end. -/
def front (s : State) : List UInt8 := s.buffers_.flatMap bytes ++ bytes s.currentBuffer_

/-- The back end has seen `running_` set and not swapped yet. -/
def BeforeSwap (s : State) : Prop := s.pc = .lock ∨ s.pc = .waiting

instance (s : State) : Decidable (BeforeSwap s) := inferInstanceAs (Decidable (_ ∨ _))

variable {s s' : State}

theorem Good.committed_front (h : Good s) : committed s ++ front s = s.lines.flatten := by
  rw [← h.packed.flatten, chunks, committed, front]
  simp [List.flatMap_def]

/-- `running_` is cleared for good. -/
def Cleared (s : State) : Prop := s.running_ = false ∧ s.pc ≠ .unstarted

/-- A swap commits all that the front end holds.  Other steps leave what is
    committed as it is and do not lead past the swap, and they lead to it only
    while the flag is set. -/
theorem committed_step {l : Label} (hrot : Rotation s) (hstep : next s l = some s') :
    (committed s' = committed s ∧ (BeforeSwap s → BeforeSwap s') ∧
      (Cleared s → BeforeSwap s' → BeforeSwap s)) ∨
    (BeforeSwap s ∧ committed s' = committed s ++ front s) := by
  cases next_step hstep with
  | append logline len _ =>
    left
    obtain ⟨_, _, _, _, heq⟩ := append_frame s logline len
    rw [heq]
    exact ⟨rfl, id, fun _ => id⟩
  | swap l hpc =>
    right
    refine ⟨hpc, ?_⟩
    have hunwritten : unwritten s = [] := by
      rcases hpc with hpc | hpc
      · rw [unwritten, hpc]
      · rw [unwritten, hpc]
    rw [swap_eq, committed, committed, front, hunwritten]
    simp [unwritten]
  | write now troll buffer todo hpc =>
    left
    obtain ⟨b, rfl, heq⟩ := hrot.write_eq hpc now troll
    rw [heq, committed, committed, unwritten, unwritten, hpc]
    simp [bytes, BeforeSwap, hpc]
  | recycle hpc =>
    left
    rw [hrot.recycle_eq hpc, committed, committed, unwritten, unwritten, hpc]
    simp [BeforeSwap, hpc]
  | proceed hpc hrunning =>
    left
    rw [committed, committed, unwritten, unwritten, hpc]
    -- the test succeeds with the flag set only
    simp [BeforeSwap, Cleared, hpc, hrunning]
  | wait hpc _ =>
    left
    rw [committed, committed, unwritten, unwritten, hpc]
    simp [BeforeSwap, hpc]
  | stop _ _ | join _ _ => exact Or.inl ⟨rfl, id, fun _ => id⟩
  | start hpc | enter _ _ hpc _ | leave hpc _ | flush hpc | finish hpc =>
    left
    rw [committed, committed, unwritten, unwritten, hpc]
    simp [BeforeSwap, hpc, enter, flushOutput]

/-- The lines appended so far stay a prefix, and a cleared flag stays cleared. -/
theorem cleared_step {l : Label} (hrot : Rotation s) (hstep : next s l = some s') :
    s.lines <+: s'.lines ∧ (Cleared s → Cleared s') := by
  unfold Cleared
  cases next_step hstep with
  | append logline len _ =>
    obtain ⟨_, _, _, _, heq⟩ := append_frame s logline len
    rw [heq]
    exact ⟨List.prefix_append _ _, id⟩
  | swap l _ =>
    rw [swap_eq]
    exact ⟨List.prefix_refl _, fun h => ⟨h.1, by simp⟩⟩
  | write now troll buffer todo hpc =>
    obtain ⟨b, _, heq⟩ := hrot.write_eq hpc now troll
    rw [heq]
    exact ⟨List.prefix_refl _, fun h => ⟨h.1, by simp⟩⟩
  | recycle hpc =>
    rw [hrot.recycle_eq hpc]
    exact ⟨List.prefix_refl _, fun h => ⟨h.1, by simp⟩⟩
  | start hpc => exact ⟨List.prefix_refl _, fun h => absurd hpc h.2⟩
  | stop hpc _ => exact ⟨List.prefix_refl _, fun _ => ⟨rfl, hpc⟩⟩
  | join _ _ => exact ⟨List.prefix_refl _, id⟩
  | enter _ _ _ _ | proceed _ _ | leave _ _ | wait _ _ | flush _ | finish _ =>
    exact ⟨List.prefix_refl _, fun h => ⟨h.1, by simp [enter, flushOutput]⟩⟩

/-! ## The end of the back end -/

/-- When the thread has ended all that was passed to `LogFile::append` is flushed;
    `stop` returns after that. -/
structure Ended (s : State) : Prop where
  flushed : s.pc = .finished →
    ∃ output, s.output = some output ∧ output.flushedContents = output.contents
  joined : s.stopPc = .returned → s.pc = .finished

theorem ended_init {s₀ : State} (h : machine.init s₀) : Ended s₀ := by
  obtain ⟨rollSize, rfl⟩ := h
  exact ⟨nofun, nofun⟩

/-- A step of the thread that has not ended and does not end with it. -/
theorem Ended.of_running (h : Ended s) (hstop : s'.stopPc = s.stopPc) (hpc : s.pc ≠ .finished)
    (hpc' : s'.pc ≠ .finished) : Ended s' := by
  refine ⟨fun hend => absurd hend hpc', ?_⟩
  intro hret
  rw [hstop] at hret
  exact absurd (h.joined hret) hpc

theorem ended_step {l : Label} (hgood : Good s) (h : Ended s) (hstep : next s l = some s') :
    Ended s' := by
  cases next_step hstep with
  | append logline len _ =>
    obtain ⟨_, _, _, _, heq⟩ := append_frame s logline len
    rw [heq]
    exact ⟨h.flushed, h.joined⟩
  | stop _ _ =>
    refine ⟨h.flushed, ?_⟩
    intro hret
    cases hret
  | join _ hpc => exact ⟨h.flushed, fun _ => hpc⟩
  | finish hpc =>
    have hfiled := hgood.filed
    rw [Filed, hpc] at hfiled
    obtain ⟨output, houtput, _⟩ := hfiled
    refine ⟨fun _ => ⟨output.flush, by simp [flushOutput, houtput], ?_⟩, fun _ => rfl⟩
    rw [LogFile.flush_flushedContents, LogFile.flush_contents]
  | swap l hpc =>
    rw [swap_eq]
    refine h.of_running rfl ?_ (by simp)
    rcases hpc with hpc | hpc
    · simp [hpc]
    · simp [hpc]
  | write now troll buffer todo hpc =>
    obtain ⟨b, _, heq⟩ := hgood.rotation.write_eq hpc now troll
    rw [heq]
    exact h.of_running rfl (by simp [hpc]) (by simp)
  | recycle hpc =>
    rw [hgood.rotation.recycle_eq hpc]
    exact h.of_running rfl (by simp [hpc]) (by simp)
  | start hpc | enter _ _ hpc _ | proceed hpc _ | leave hpc _ | wait hpc _ | flush hpc =>
    exact h.of_running rfl (by simp [hpc]) (by simp [enter, flushOutput])

/-- When `stop` has returned the flushed bytes are the committed ones. -/
theorem Ended.flushed_committed (h : Ended s) (hgood : Good s) (hret : s.stopPc = .returned) :
    ∃ output, s.output = some output ∧ output.flushedContents = committed s := by
  have hpc := h.joined hret
  have hfiled := hgood.filed
  rw [Filed, hpc] at hfiled
  obtain ⟨output, houtput, hflushed⟩ := h.flushed hpc
  obtain ⟨output', houtput', hcontents⟩ := hfiled
  rw [houtput] at houtput'
  obtain rfl := Option.some.inj houtput'
  refine ⟨output, houtput, ?_⟩
  rw [hflushed, hcontents, committed, unwritten, hpc]
  simp

/-! ## Runs -/

theorem ended_run {ls : List Label} (h : Good s ∧ Ended s) (hrun : machine.run s ls = some s')
    (hshort : machine.Along (fun _ => ShortLine) s ls) : Good s' ∧ Ended s' :=
  machine.run_invariant_along (I := fun s => Good s ∧ Ended s)
    (fun _ _ _ h hl hstep => ⟨good_step h.1 hl hstep, ended_step h.1 h.2 hstep⟩) h hshort hrun

/-- The back end that is past its swap when the flag is cleared writes what is
    committed and no more. -/
theorem committed_of_past {ks : List Label} (hgood : Good s) (hcleared : Cleared s)
    (hpast : ¬ BeforeSwap s) (hrun : machine.run s ks = some s')
    (hshort : machine.Along (fun _ => ShortLine) s ks) : committed s' = committed s := by
  have hinv := machine.run_invariant_along
    (I := fun t => Good t ∧ Cleared t ∧ ¬ BeforeSwap t ∧ committed t = committed s)
    (fun t l t' h hl hstep => by
      obtain ⟨hgood, hcleared, hpast, hcommitted⟩ := h
      rcases committed_step hgood.rotation hstep with ⟨heq, _, hback⟩ | ⟨hbefore, _⟩
      · exact ⟨good_step hgood hl hstep, (cleared_step hgood.rotation hstep).2 hcleared,
          fun h => hpast (hback hcleared h), heq.trans hcommitted⟩
      · exact absurd hbefore hpast)
    ⟨hgood, hcleared, hpast, rfl⟩ hshort hrun
  exact hinv.2.2.2

/-- The back end that has its swap before it commits all lines so far. -/
theorem committed_of_before {ks : List Label} (hgood : Good s) (hbefore : BeforeSwap s)
    (hrun : machine.run s ks = some s') (hshort : machine.Along (fun _ => ShortLine) s ks) :
    BeforeSwap s' ∨ s.lines.flatten <+: committed s' := by
  have hinv := machine.run_invariant_along
    (I := fun t => Good t ∧ s.lines <+: t.lines ∧
      (BeforeSwap t ∨ s.lines.flatten <+: committed t))
    (fun t l t' h hl hstep => by
      obtain ⟨hgood, hlines, hor⟩ := h
      refine ⟨good_step hgood hl hstep,
        hlines.trans (cleared_step hgood.rotation hstep).1, ?_⟩
      rcases committed_step hgood.rotation hstep with ⟨heq, hstay, _⟩ | ⟨_, heq⟩
      · rw [heq]
        exact hor.imp_left hstay
      · -- the swap: everything appended so far is committed
        right
        rw [heq, hgood.committed_front]
        obtain ⟨more, hmore⟩ := hlines
        rw [← hmore, List.flatten_append]
        exact List.prefix_append _ _)
    ⟨hgood, List.prefix_refl _, Or.inl hbefore⟩ hshort hrun
  exact hinv.2.2

/-- The line is appended while the back end writes an earlier batch; it is still
    in the front end when `stop` returns. -/
theorem stop_loses_line :
    ∃ s₁ s₂ s₃ output,
      machine.run { rollSize_ := 1000 }
        [.append [1, 2] 2, .start, .enter 5, .test, .lock, .wake, .append [7] 1] = some s₁ ∧
      machine.next s₁ .stop = some s₂ ∧
      machine.run s₂ [.write 6 6, .recycle, .flush, .test, .finish, .join] = some s₃ ∧
      s₃.stopPc = .returned ∧ s₃.output = some output ∧
      s₁.lines = [[1, 2], [7]] ∧ s₃.written = [[1, 2]] ∧
      ¬ s₁.lines.flatten <+: output.flushedContents := by
  refine ⟨_, _, _, _, rfl, rfl, rfl, rfl, rfl, rfl, rfl, ?_⟩
  decide

/-- With lines below the size of a buffer: when `stop` has returned, every line
    appended before it cleared the flag has been passed to `LogFile::append` and
    flushed, if and only if at that moment the back end was between its test of
    the flag and its swap or the buffers of the front end were empty. -/
theorem stop_drains_iff {s₀ s₁ s₂ s₃ : State} {ls ks : List Label} (hinit : machine.init s₀)
    (hrun : machine.run s₀ ls = some s₁) (hshort : machine.Along (fun _ => ShortLine) s₀ ls)
    (hstop : machine.next s₁ .stop = some s₂) (hrest : machine.run s₂ ks = some s₃)
    (hshort' : machine.Along (fun _ => ShortLine) s₂ ks) (hret : s₃.stopPc = .returned) :
    (∃ output, s₃.output = some output ∧ s₁.lines.flatten <+: output.flushedContents) ↔
      BeforeSwap s₁ ∨ front s₁ = [] := by
  obtain ⟨hgood₁, hended₁⟩ := ended_run ⟨good_init hinit, ended_init hinit⟩ hrun hshort
  have hgood₂ : Good s₂ := good_step (l := .stop) hgood₁ trivial hstop
  have hended₂ : Ended s₂ := ended_step (l := .stop) hgood₁ hended₁ hstop
  obtain ⟨hgood₃, hended₃⟩ := ended_run ⟨hgood₂, hended₂⟩ hrest hshort'
  obtain ⟨output, houtput, hflushed⟩ := hended₃.flushed_committed hgood₃ hret
  have hfinished := hended₃.joined hret
  -- the store of the flag moves nothing
  obtain ⟨⟨hstarted, _⟩, rfl⟩ : (s₁.pc ≠ .unstarted ∧ s₁.stopPc = .notCalled) ∧
      s₂ = { s₁ with running_ := false, stopPc := .joining } := by
    have hnext : next s₁ .stop = some s₂ := hstop
    simp only [next, Option.ite_none_right_eq_some, Option.some.injEq] at hnext
    exact ⟨hnext.1, hnext.2.symm⟩
  have hiff : (∃ output, s₃.output = some output ∧
      s₁.lines.flatten <+: output.flushedContents) ↔ s₁.lines.flatten <+: committed s₃ := by
    rw [houtput]
    simp [hflushed]
  rw [hiff]
  by_cases hbefore : BeforeSwap s₁
  · rcases committed_of_before hgood₂ hbefore hrest hshort' with hb | hprefix
    · -- the back end has ended
      rw [BeforeSwap, hfinished] at hb
      simp at hb
    · exact ⟨fun _ => Or.inl hbefore, fun _ => hprefix⟩
  · have hcommitted := committed_of_past hgood₂ ⟨rfl, hstarted⟩ hbefore hrest hshort'
    have hsame : committed s₃ = committed s₁ := hcommitted
    rw [hsame, ← hgood₁.committed_front]
    constructor
    · intro hprefix
      have hlength := hprefix.length_le
      rw [List.length_append] at hlength
      exact Or.inr (List.eq_nil_of_length_eq_zero (by omega))
    · intro hcases
      rcases hcases with hb | hempty
      · exact absurd hb hbefore
      · simp [hempty]

/-- The back end waits with the line in the current buffer when `stop` is called. -/
theorem stop_drains_iff_waiting :
    ∃ s₁ s₂ s₃ : State,
      machine.run { rollSize_ := 1000 } [.start, .enter 5, .test, .lock, .append [7] 1] =
        some s₁ ∧
      machine.next s₁ .stop = some s₂ ∧
      machine.run s₂ [.wake, .write 6 6, .recycle, .flush, .test, .finish, .join] = some s₃ ∧
      s₁.lines = [[7]] ∧
      ∃ output, s₃.output = some output ∧ s₁.lines.flatten <+: output.flushedContents := by
  refine ⟨_, _, _, rfl, rfl, rfl, rfl, ?_⟩
  have hiff := @stop_drains_iff _ _ _ _ [.start, .enter 5, .test, .lock, .append [7] 1]
    [.wake, .write 6 6, .recycle, .flush, .test, .finish, .join] ⟨1000, rfl⟩ rfl (by decide) rfl
    rfl (by decide) rfl
  exact hiff.mpr (Or.inl (Or.inr rfl))

end AsyncLogging
