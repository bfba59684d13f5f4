import Mymuduo.Logger.AsyncLogging

/-! # Lines in order

    The buffers circulate between the front end, the batch of the back end and
    its two spares (`Rotation`): a spare is empty, and a batch from which both
    spares must be refilled has two buffers at least.  From this, for lines below
    the size of a buffer, what has been written followed by what the buffers hold
    is what has been appended, in order, and each line lies in one buffer
    (`lines_in_order`).
-/

/-! ## Packed lines -/

/-- The chunks hold the lines in order, each line in one chunk. -/
def Packed {α : Type*} (chunks lines : List (List α)) : Prop :=
  ∃ groups : List (List (List α)), groups.map List.flatten = chunks ∧ groups.flatten = lines

namespace Packed

variable {α : Type*} {chunks lines : List (List α)} {chunk line : List α}

theorem flatten (h : Packed chunks lines) : chunks.flatten = lines.flatten := by
  obtain ⟨groups, rfl, rfl⟩ := h
  exact List.flatten_flatten.symm

/-- A chunk without lines. -/
theorem append_nil (h : Packed chunks lines) : Packed (chunks ++ [[]]) lines := by
  obtain ⟨groups, rfl, rfl⟩ := h
  exact ⟨groups ++ [[]], by simp, by simp⟩

/-- A new chunk for the next line. -/
theorem append_line (h : Packed chunks lines) : Packed (chunks ++ [line]) (lines ++ [line]) := by
  obtain ⟨groups, rfl, rfl⟩ := h
  exact ⟨groups ++ [[line]], by simp, by simp⟩

/-- The next line goes to the last chunk. -/
theorem extend_last (h : Packed (chunks ++ [chunk]) lines) :
    Packed (chunks ++ [chunk ++ line]) (lines ++ [line]) := by
  obtain ⟨groups, hchunks, rfl⟩ := h
  obtain ⟨init, last, rfl, rfl, hlast⟩ := List.map_eq_append_iff.mp hchunks
  obtain ⟨group, rfl, rfl⟩ := List.map_eq_singleton_iff.mp hlast
  exact ⟨init ++ [group ++ [line]], by simp, by simp⟩

end Packed

namespace AsyncLogging

/-! ## The rotation of the buffers -/

/-- The back end's share of the buffers, by its position. -/
def Spares (s : State) : Prop :=
  match s.pc with
  | .unstarted | .begin => s.buffersToWrite = []
  | .test | .lock | .waiting | .flushing | .exiting | .finished =>
    s.newBuffer1 = some .ctor ∧ s.newBuffer2 = some .ctor ∧ s.buffersToWrite = []
  | .writing todo =>
    s.newBuffer1 = none ∧ s.buffersToWrite ≠ [] ∧ none ∉ s.buffersToWrite ∧
      todo <:+ s.buffersToWrite ∧
      (s.newBuffer2 = some .ctor ∨ s.newBuffer2 = none ∧ 2 ≤ s.buffersToWrite.length)

structure Rotation (s : State) : Prop where
  current : s.currentBuffer_ ≠ none
  full : none ∉ s.buffers_
  /-- `nextBuffer_` is empty, or the front end has used it since the last swap. -/
  spare : s.nextBuffer_ = some .ctor ∨ s.nextBuffer_ = none ∧ s.buffers_ ≠ []
  spares : Spares s
  no_fault : s.fault = false

variable {s s' : State}

/-- Between the swap and the recycling the back end has given one or both spares
    away. -/
theorem Rotation.writing (h : Rotation s) {todo : List BufferPtr} (hpc : s.pc = .writing todo) :
    s.newBuffer1 = none ∧ s.buffersToWrite ≠ [] ∧ none ∉ s.buffersToWrite ∧
      todo <:+ s.buffersToWrite ∧
      (s.newBuffer2 = some .ctor ∨ s.newBuffer2 = none ∧ 2 ≤ s.buffersToWrite.length) := by
  have hspares := h.spares
  rw [Spares, hpc] at hspares
  exact hspares

theorem Rotation.waiting (h : Rotation s) (hpc : s.pc = .lock ∨ s.pc = .waiting) :
    s.newBuffer1 = some .ctor ∧ s.newBuffer2 = some .ctor ∧ s.buffersToWrite = [] := by
  have hspares := h.spares
  rcases hpc with hpc | hpc
  · rw [Spares, hpc] at hspares
    exact hspares
  · rw [Spares, hpc] at hspares
    exact hspares

theorem Rotation.append (h : Rotation s) (logline : List UInt8) (len : Int) :
    Rotation (append s logline len) := by
  obtain ⟨current, hcurrent⟩ := Option.ne_none_iff_exists'.mp h.current
  unfold AsyncLogging.append
  rw [hcurrent]
  simp only
  split
  · exact ⟨by simp, h.full, h.spare, h.spares, h.no_fault⟩
  · -- the current buffer is full: it goes behind the others
    refine ⟨by simp, ?_, ?_, h.spares, h.no_fault⟩
    · simpa using h.full
    · exact Or.inr ⟨rfl, by simp⟩

theorem swap_eq (s : State) :
    swap s =
      { s with
        currentBuffer_ := s.newBuffer1
        newBuffer1 := none
        buffersToWrite := s.buffers_ ++ [s.currentBuffer_]
        buffers_ := s.buffersToWrite
        nextBuffer_ := s.nextBuffer_.or s.newBuffer2
        newBuffer2 := if s.nextBuffer_.isSome then s.newBuffer2 else none
        pc := .writing (s.buffers_ ++ [s.currentBuffer_]) } := by
  unfold swap
  cases s.nextBuffer_ with
  | none => rfl
  | some b => rfl

theorem Rotation.swap (h : Rotation s) (hpc : s.pc = .lock ∨ s.pc = .waiting) :
    Rotation (swap s) := by
  obtain ⟨hnew1, hnew2, hempty⟩ := h.waiting hpc
  have hnone : none ∉ s.buffers_ ++ [s.currentBuffer_] := by
    simpa using ⟨h.full, h.current.symm⟩
  have hne : s.buffers_ ++ [s.currentBuffer_] ≠ [] := by simp
  rw [swap_eq]
  rcases h.spare with hnext | ⟨hnext, hused⟩
  · refine ⟨by simp [hnew1], by simp [hempty], Or.inl (by simp [hnext]), ?_, h.no_fault⟩
    exact ⟨rfl, hne, hnone, List.suffix_refl _, Or.inl (by simp [hnext, hnew2])⟩
  · refine ⟨by simp [hnew1], by simp [hempty], Or.inl (by simp [hnext, hnew2]), ?_, h.no_fault⟩
    -- nextBuffer_ was used, so there is a full buffer beside the current one
    refine ⟨rfl, hne, hnone, List.suffix_refl _, Or.inr ⟨by simp [hnext], ?_⟩⟩
    have := List.length_pos_iff.mpr hused
    show 2 ≤ (s.buffers_ ++ [s.currentBuffer_]).length
    rw [List.length_append, List.length_singleton]
    omega

/-- One round of the writing loop, on a batch without null pointers. -/
theorem Rotation.write_eq (h : Rotation s) {buffer : BufferPtr} {todo : List BufferPtr}
    (hpc : s.pc = .writing (buffer :: todo)) (now troll : Int) :
    ∃ b, buffer = some b ∧ write s buffer todo now troll =
      { s with
        output := s.output.map fun output => output.append b.data now troll
        written := s.written ++ [b.data]
        pc := .writing todo } := by
  obtain ⟨_, _, hnone, hsuffix, _⟩ := h.writing hpc
  have hmem : buffer ∈ s.buffersToWrite := hsuffix.subset List.mem_cons_self
  cases buffer with
  | none => exact absurd hmem hnone
  | some b => exact ⟨b, rfl, rfl⟩

theorem Rotation.write (h : Rotation s) {buffer : BufferPtr} {todo : List BufferPtr}
    (hpc : s.pc = .writing (buffer :: todo)) (now troll : Int) :
    Rotation (write s buffer todo now troll) := by
  obtain ⟨hnew1, hne, hnone, hsuffix, hnew2⟩ := h.writing hpc
  obtain ⟨b, _, heq⟩ := h.write_eq hpc now troll
  rw [heq]
  refine ⟨h.current, h.full, h.spare, ?_, h.no_fault⟩
  exact ⟨hnew1, hne, hnone, (List.suffix_cons buffer todo).trans hsuffix, hnew2⟩

/-- `back()` is defined and is a buffer. -/
def HasBack (buffers : List BufferPtr) : Prop := ∃ b, buffers.getLast? = some (some b)

theorem hasBack_of_ne_nil {buffers : List BufferPtr} (hne : buffers ≠ [])
    (hnone : none ∉ buffers) : HasBack buffers := by
  have hlast := List.getLast?_eq_some_getLast hne
  cases hb : buffers.getLast hne with
  | none => exact absurd (hb ▸ List.getLast_mem hne) hnone
  | some b => exact ⟨b, hb ▸ hlast⟩

/-- The last buffer of a batch without null pointers is a spare after its reset. -/
theorem giveBack_none {buffers : List BufferPtr} (hne : buffers ≠ []) (hnone : none ∉ buffers) :
    giveBack none buffers = some (some .ctor, buffers.dropLast) := by
  obtain ⟨b, hb⟩ := hasBack_of_ne_nil hne hnone
  simp only [giveBack, hb]
  rfl

/-- What `resize` leaves of the batch is not empty, and holds two buffers if there
    were two. -/
theorem Rotation.resized (h : Rotation s) (hpc : s.pc = .writing []) :
    ∃ v, (if 2 < s.buffersToWrite.length then s.buffersToWrite.take 2
        else s.buffersToWrite) = v ∧ v ≠ [] ∧ none ∉ v ∧
      (2 ≤ s.buffersToWrite.length → v.length = 2) := by
  obtain ⟨_, hne, hnone, _, _⟩ := h.writing hpc
  refine ⟨_, rfl, ?_, ?_, ?_⟩
  · split
    · simpa using hne
    · exact hne
  · split
    · exact fun hmem => hnone (List.mem_of_mem_take hmem)
    · exact hnone
  · intro h2
    split
    · rw [List.length_take]
      omega
    · omega

theorem dropLast_spare {v : List BufferPtr} (hnone : none ∉ v) (hlen : v.length = 2) :
    v.dropLast ≠ [] ∧ none ∉ v.dropLast := by
  constructor
  · apply List.ne_nil_of_length_pos
    rw [List.length_dropLast, hlen]
    decide
  · exact fun hmem => hnone (List.dropLast_subset v hmem)

/-- The recycling refills both spares and drops the rest of the batch. -/
theorem Rotation.recycle_eq (h : Rotation s) (hpc : s.pc = .writing []) :
    recycle s =
      { s with
        newBuffer1 := some .ctor
        newBuffer2 := some .ctor
        buffersToWrite := []
        pc := .flushing } := by
  obtain ⟨hnew1, _, _, _, hnew2⟩ := h.writing hpc
  obtain ⟨v, hv, hvne, hvnone, hvlen⟩ := h.resized hpc
  have hfirst := giveBack_none hvne hvnone
  obtain ⟨rest, hsecond⟩ : ∃ rest,
      giveBack s.newBuffer2 v.dropLast = some (some .ctor, rest) := by
    rcases hnew2 with hnew2 | ⟨hnew2, h2⟩
    · rw [hnew2]
      exact ⟨v.dropLast, rfl⟩
    · obtain ⟨hdne, hdnone⟩ := dropLast_spare hvnone (hvlen h2)
      rw [hnew2]
      exact ⟨_, giveBack_none hdne hdnone⟩
  simp only [recycle, hv, hnew1, hfirst, Option.bind_some, hsecond, Option.map_some]

theorem rotation_init (rollSize : Int) : Rotation { rollSize_ := rollSize } :=
  ⟨by simp, by simp, Or.inl rfl, rfl, rfl⟩

theorem rotation_step {l : Label} (h : Rotation s) (hstep : next s l = some s') :
    Rotation s' := by
  have hspares := h.spares
  cases next_step hstep with
  | append logline len _ =>
    have happend := h.append logline len
    exact ⟨happend.current, happend.full, happend.spare, happend.spares, happend.no_fault⟩
  | swap l hpc => exact h.swap hpc
  | write now troll buffer todo hpc => exact h.write hpc now troll
  | recycle hpc =>
    rw [h.recycle_eq hpc]
    exact ⟨h.current, h.full, h.spare, ⟨rfl, rfl, rfl⟩, h.no_fault⟩
  | enter now output hpc _ =>
    rw [Spares, hpc] at hspares
    exact ⟨h.current, h.full, h.spare, ⟨rfl, rfl, hspares⟩, h.no_fault⟩
  | stop _ _ | join _ _ => exact ⟨h.current, h.full, h.spare, h.spares, h.no_fault⟩
  | start hpc | proceed hpc _ | leave hpc _ | wait hpc _ | flush hpc | finish hpc =>
    -- the position moves within the group that has both spares
    rw [Spares, hpc] at hspares
    exact ⟨h.current, h.full, h.spare, hspares, h.no_fault⟩

/-! ## No missing buffer -/

theorem rotation_of_reachable (h : machine.Reachable s) : Rotation s := by
  apply h.invariant
  · intro s₀ hinit
    obtain ⟨rollSize, rfl⟩ := hinit
    exact rotation_init rollSize
  · intro t l t' ht hstep
    exact rotation_step ht hstep

theorem Rotation.spares_at_top (h : Rotation s)
    (hpc : s.pc = .test ∨ s.pc = .lock ∨ s.pc = .waiting) :
    s.newBuffer1 = some .ctor ∧ s.newBuffer2 = some .ctor := by
  have hspares := h.spares
  unfold Spares at hspares
  rcases hpc with hpc | hpc | hpc
  · rw [hpc] at hspares
    exact ⟨hspares.1, hspares.2.1⟩
  · rw [hpc] at hspares
    exact ⟨hspares.1, hspares.2.1⟩
  · rw [hpc] at hspares
    exact ⟨hspares.1, hspares.2.1⟩

/-- Whenever `newBuffer1` or `newBuffer2` is to be refilled there is a buffer for it. -/
theorem Rotation.hasBack (h : Rotation s) (hpc : s.pc = .writing []) {v : List BufferPtr}
    (hv : (if 2 < s.buffersToWrite.length then s.buffersToWrite.take 2
      else s.buffersToWrite) = v) :
    HasBack v ∧ (s.newBuffer2 = none → HasBack v.dropLast) := by
  obtain ⟨_, _, _, _, hnew2⟩ := h.writing hpc
  obtain ⟨v', rfl, hne, hnone, hlen⟩ := h.resized hpc
  subst hv
  refine ⟨hasBack_of_ne_nil hne hnone, ?_⟩
  intro hnull
  rcases hnew2 with hnew2 | ⟨_, h2⟩
  · rw [hnew2] at hnull
    cases hnull
  · obtain ⟨hdne, hdnone⟩ := dropLast_spare hnone (hlen h2)
    exact hasBack_of_ne_nil hdne hdnone

/-- In every interleaving, with lines of any length: there is a current buffer at every
    append and every swap, both spares are there at the top of every round of the back
    end, `nextBuffer_` is there right behind the swap, and each `back()` of the
    recycling finds a buffer in the vector. -/
theorem no_missing_buffer (h : machine.Reachable s) :
    s.currentBuffer_ ≠ none ∧
    (s.pc = .test ∨ s.pc = .lock ∨ s.pc = .waiting →
      s.newBuffer1 ≠ none ∧ s.newBuffer2 ≠ none) ∧
    (s.pc = .lock ∨ s.pc = .waiting →
      (swap s).nextBuffer_ ≠ none ∧ (swap s).currentBuffer_ ≠ none) ∧
    (s.pc = .writing [] → ∀ v, (if 2 < s.buffersToWrite.length then s.buffersToWrite.take 2
        else s.buffersToWrite) = v →
      (s.newBuffer1 = none → HasBack v) ∧
      ∀ newBuffer1 rest, giveBack s.newBuffer1 v = some (newBuffer1, rest) →
        s.newBuffer2 = none → HasBack rest) ∧
    s.fault = false := by
  have hrot := rotation_of_reachable h
  refine ⟨hrot.current, ?_, ?_, ?_, hrot.no_fault⟩
  · intro hpc
    obtain ⟨hnew1, hnew2⟩ := hrot.spares_at_top hpc
    exact ⟨by simp [hnew1], by simp [hnew2]⟩
  · intro hpc
    obtain ⟨hnew1, hnew2, _⟩ := hrot.waiting hpc
    rw [swap_eq]
    exact ⟨by simp [hnew2], by simp [hnew1]⟩
  · intro hpc v hv
    obtain ⟨hnew1, _⟩ := hrot.writing hpc
    obtain ⟨hback, hback2⟩ := hrot.hasBack hpc hv
    refine ⟨fun _ => hback, ?_⟩
    intro newBuffer1 rest hgive hnull
    -- the first of the two has taken the last buffer
    obtain ⟨b, hb⟩ := hback
    rw [hnew1, giveBack, hb] at hgive
    obtain ⟨_, rfl⟩ := Prod.mk.inj (Option.some.inj hgive)
    exact hback2 hnull

/-- A batch of one buffer, with an append while the back end writes it. -/
theorem no_missing_buffer_one_batch :
    ∃ s : State, machine.Reachable s ∧ s.pc = .writing [] ∧ s.newBuffer1 = none ∧
      HasBack s.buffersToWrite := by
  have hrun : machine.run { rollSize_ := 1000 }
      [.start, .enter 5, .append [1, 2] 2, .test, .lock, .wake, .append [3] 1, .write 6 6] =
      some _ := rfl
  have hreach : machine.Reachable _ := ⟨_, _, ⟨1000, rfl⟩, hrun⟩
  exact ⟨_, hreach, rfl, rfl, ((no_missing_buffer hreach).2.2.2.1 rfl _ rfl).1 rfl⟩

/-! ## Lines in order -/

/-- The content of a buffer. -/
def bytes (buffer : BufferPtr) : List UInt8 := buffer.elim [] FixedBuffer.data

/-- The buffers of `buffersToWrite` that have not been written. -/
def unwritten (s : State) : List BufferPtr :=
  match s.pc with
  | .writing todo => todo
  | _ => []

/-- What has been written and what is still in buffers, one chunk a buffer. -/
def chunks (s : State) : List (List UInt8) :=
  s.written ++ (unwritten s).map bytes ++ s.buffers_.map bytes ++ [bytes s.currentBuffer_]

/-- The appended line is shorter than a buffer. -/
def ShortLine : Label → Prop
  | .append _ len => 0 ≤ len ∧ len < kLargeBuffer
  | _ => True

instance : (l : Label) → Decidable (ShortLine l)
  | .append _ _ => inferInstanceAs (Decidable (_ ∧ _))
  | .start | .stop | .join | .enter _ | .test | .lock | .wake | .write _ _ | .recycle | .flush
  | .finish => isTrue trivial

theorem toSizeT_of_short {len : Int} (h0 : 0 ≤ len) (h : len < kLargeBuffer) :
    toSizeT len = len.toNat := by
  unfold toSizeT
  rw [Int.emod_eq_of_lt h0]
  unfold kLargeBuffer at h
  omega

/-- A short line goes behind the content of the current buffer, or into an empty
    buffer that takes its place. -/
theorem Rotation.append_chunks (h : Rotation s) (logline : List UInt8) {len : Int} (h0 : 0 ≤ len)
    (hlen : len < kLargeBuffer) :
    (∃ init, chunks s = init ++ [bytes s.currentBuffer_] ∧
      chunks (AsyncLogging.append s logline len) =
        init ++ [bytes s.currentBuffer_ ++ logline.take len.toNat]) ∨
    chunks (AsyncLogging.append s logline len) = chunks s ++ [logline.take len.toNat] := by
  obtain ⟨current, hcurrent⟩ := Option.ne_none_iff_exists'.mp h.current
  unfold AsyncLogging.append
  rw [hcurrent, toSizeT_of_short h0 hlen]
  simp only
  split
  · rename_i havail
    left
    refine ⟨s.written ++ (unwritten s).map bytes ++ s.buffers_.map bytes, ?_, ?_⟩
    · rw [chunks, hcurrent]
    · have hlt : len.toNat < current.avail := by omega
      show _ ++ [(current.append logline len.toNat).data] = _
      rw [FixedBuffer.append_data hlt]
      rfl
  · right
    -- the buffer that becomes the current one is empty
    have hempty : (s.nextBuffer_.getD .ctor).data = [] := by
      rcases h.spare with hnext | ⟨hnext, _⟩
      · rw [hnext]
        rfl
      · rw [hnext]
        rfl
    have hlt : len.toNat < kLargeBuffer := by omega
    show s.written ++ (unwritten s).map bytes ++ (s.buffers_ ++ [some current]).map bytes ++
      [((s.nextBuffer_.getD .ctor).append logline len.toNat).data] = _
    rw [FixedBuffer.append_data_of_empty hempty hlt, chunks, hcurrent]
    simp

theorem Rotation.swap_chunks (h : Rotation s) (hpc : s.pc = .lock ∨ s.pc = .waiting) :
    chunks (AsyncLogging.swap s) = chunks s ++ [[]] := by
  obtain ⟨hnew1, _, hempty⟩ := h.waiting hpc
  have hunwritten : unwritten s = [] := by
    rcases hpc with hpc | hpc
    · rw [unwritten, hpc]
    · rw [unwritten, hpc]
  rw [swap_eq, chunks, chunks, hunwritten]
  simp [unwritten, hnew1, hempty, bytes]

theorem Rotation.write_chunks (h : Rotation s) {buffer : BufferPtr} {todo : List BufferPtr}
    (hpc : s.pc = .writing (buffer :: todo)) (now troll : Int) :
    chunks (AsyncLogging.write s buffer todo now troll) = chunks s := by
  obtain ⟨b, rfl, heq⟩ := h.write_eq hpc now troll
  rw [heq, chunks, chunks, unwritten, unwritten, hpc]
  simp [bytes]

theorem packed_step {l : Label} (hrot : Rotation s) (h : Packed (chunks s) s.lines)
    (hshort : ShortLine l) (hstep : next s l = some s') : Packed (chunks s') s'.lines := by
  cases next_step hstep with
  | append logline len _ =>
    obtain ⟨h0, hlen⟩ := hshort
    show Packed (chunks (AsyncLogging.append s logline len)) (s.lines ++ [logline.take len.toNat])
    rcases hrot.append_chunks logline h0 hlen with ⟨init, hold, hnew⟩ | hnew
    · rw [hold] at h
      rw [hnew]
      exact h.extend_last
    · rw [hnew]
      exact h.append_line
  | swap l hpc =>
    rw [hrot.swap_chunks hpc, swap_eq]
    exact h.append_nil
  | write now troll buffer todo hpc =>
    obtain ⟨b, _, heq⟩ := hrot.write_eq hpc now troll
    rw [hrot.write_chunks hpc, heq]
    exact h
  | recycle hpc =>
    rw [hrot.recycle_eq hpc]
    rw [chunks, unwritten, hpc] at h
    exact h
  | stop _ _ | join _ _ => exact h
  | start hpc | enter _ _ hpc _ | proceed hpc _ | leave hpc _ | wait hpc _ | flush hpc
  | finish hpc =>
    -- nothing is unwritten before or after the step
    rw [chunks, unwritten, hpc] at h
    exact h

/-! ## The files -/

/-- What has been passed to `LogFile::append` is what the log files hold. -/
def Filed (s : State) : Prop :=
  match s.pc with
  | .unstarted | .begin => s.output = none ∧ s.written = []
  | _ => ∃ output, s.output = some output ∧ output.contents = s.written.flatten

theorem filed_step {l : Label} (hrot : Rotation s) (h : Filed s) (hstep : next s l = some s') :
    Filed s' := by
  have hfiled := h
  unfold Filed at hfiled
  cases next_step hstep with
  | append logline len _ =>
    -- the front end touches neither the position nor the files
    obtain ⟨_, _, _, _, heq⟩ := append_frame s logline len
    rw [heq]
    exact h
  | stop _ _ | join _ _ => exact h
  | start hpc =>
    rw [hpc] at hfiled
    exact hfiled
  | enter now output hpc hctor =>
    rw [hpc] at hfiled
    obtain ⟨_, hwritten⟩ := hfiled
    refine ⟨output, rfl, ?_⟩
    show output.contents = s.written.flatten
    rw [LogFile.ctor_contents hctor, hwritten]
    rfl
  | swap l hpc =>
    rw [swap_eq]
    rcases hpc with hpc | hpc
    · rw [hpc] at hfiled
      exact hfiled
    · rw [hpc] at hfiled
      exact hfiled
  | write now troll buffer todo hpc =>
    rw [hpc] at hfiled
    obtain ⟨output, houtput, hcontents⟩ := hfiled
    obtain ⟨b, _, heq⟩ := hrot.write_eq hpc now troll
    rw [heq]
    refine ⟨output.append b.data now troll, by simp [houtput], ?_⟩
    show _ = (s.written ++ [b.data]).flatten
    rw [LogFile.append_contents, hcontents, List.flatten_append, List.flatten_singleton]
  | recycle hpc =>
    rw [hrot.recycle_eq hpc]
    rw [hpc] at hfiled
    exact hfiled
  | proceed hpc _ | leave hpc _ | wait hpc _ =>
    rw [hpc] at hfiled
    exact hfiled
  | flush hpc | finish hpc =>
    rw [hpc] at hfiled
    obtain ⟨output, houtput, hcontents⟩ := hfiled
    exact ⟨output.flush, by simp [flushOutput, houtput], hcontents⟩

/-! ## Runs -/

structure Good (s : State) : Prop where
  rotation : Rotation s
  packed : Packed (chunks s) s.lines
  filed : Filed s

theorem good_init {s₀ : State} (h : machine.init s₀) : Good s₀ := by
  obtain ⟨rollSize, rfl⟩ := h
  exact ⟨rotation_init rollSize, ⟨[[]], rfl, rfl⟩, ⟨rfl, rfl⟩⟩

theorem good_step {l : Label} (h : Good s) (hshort : ShortLine l) (hstep : next s l = some s') :
    Good s' :=
  ⟨rotation_step h.rotation hstep, packed_step h.rotation h.packed hshort hstep,
    filed_step h.rotation h.filed hstep⟩

theorem good_run {s₀ : State} {ls : List Label} (hinit : machine.init s₀)
    (hrun : machine.run s₀ ls = some s) (hshort : machine.Along (fun _ => ShortLine) s₀ ls) :
    Good s :=
  machine.run_invariant_along (fun _ _ _ h hl hstep => good_step h hl hstep) (good_init hinit)
    hshort hrun

/-- In every run with lines below the size of a buffer, what has been passed to
    `LogFile::append` followed by the unwritten rest of the batch, the full
    buffers and the current buffer is the concatenation of the appended lines in
    the order of their critical sections; and the lines can be grouped so that
    each call and each buffer holds one group. -/
theorem lines_in_order {s₀ s : State} {ls : List Label} (hinit : machine.init s₀)
    (hrun : machine.run s₀ ls = some s) (hshort : machine.Along (fun _ => ShortLine) s₀ ls) :
    s.written.flatten ++ (unwritten s).flatMap bytes ++ s.buffers_.flatMap bytes ++
        bytes s.currentBuffer_ = s.lines.flatten ∧
    (∃ groups : List (List (List UInt8)), groups.flatten = s.lines ∧
      groups.map List.flatten = s.written ++ (unwritten s).map bytes ++ s.buffers_.map bytes ++
        [bytes s.currentBuffer_]) ∧
    ∀ output, s.output = some output → output.contents = s.written.flatten := by
  have hgood := good_run hinit hrun hshort
  refine ⟨?_, ?_, ?_⟩
  · have hflat := hgood.packed.flatten
    unfold chunks at hflat
    simpa [List.flatMap_def] using hflat
  · obtain ⟨groups, hchunks, hlines⟩ := hgood.packed
    exact ⟨groups, hlines, hchunks⟩
  · intro output houtput
    have hfiled := hgood.filed
    unfold Filed at hfiled
    split at hfiled
    · rw [houtput] at hfiled
      cases hfiled.1
    · rw [houtput] at hfiled
      cases hfiled.1
    · obtain ⟨output', heq, hcontents⟩ := hfiled
      rw [houtput] at heq
      obtain rfl := Option.some.inj heq
      exact hcontents

/-- Two lines before the swap and one after it. -/
theorem lines_in_order_swap :
    ∃ s ls, machine.run { rollSize_ := 1000 } ls = some s ∧
      s.lines = [[1, 2], [3], [4]] ∧ s.written = [[1, 2, 3]] ∧ bytes s.currentBuffer_ = [4] ∧
      s.written.flatten ++ (unwritten s).flatMap bytes ++ s.buffers_.flatMap bytes ++
        bytes s.currentBuffer_ = s.lines.flatten := by
  have hrun : machine.run { rollSize_ := 1000 }
      [.append [1, 2] 2, .start, .append [3, 0] 1, .enter 5, .test, .lock, .wake,
       .append [4] 1, .write 6 6] = some _ := rfl
  have hshort : machine.Along (fun _ => ShortLine) { rollSize_ := 1000 }
      [.append [1, 2] 2, .start, .append [3, 0] 1, .enter 5, .test, .lock, .wake,
       .append [4] 1, .write 6 6] := by
    decide
  exact ⟨_, _, hrun, rfl, rfl, rfl, (lines_in_order ⟨1000, rfl⟩ hrun hshort).1⟩

end AsyncLogging
