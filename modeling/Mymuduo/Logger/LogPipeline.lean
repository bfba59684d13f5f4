import Mymuduo.Logger.AsyncLoggingStop
import Mymuduo.Logger.LogFileRoll
import Mymuduo.Logger.Logging

/-! # From the LOG macros to the files

    `Logger::setOutput` with `AsyncLogging::append`: the destructor of a `Logger` hands its
    record over as one line, the front end packs records into buffers, the back end writes
    buffers to its `LogFile`, and that one rolls over between two of them.  A record is
    shorter than a buffer, a buffer is written in one call, and a file is only changed after
    a call, so a record is never split (`records_whole`).
-/

/-! ## Packed twice -/

namespace Packed

variable {α : Type*} {chunks chunks' files lines : List (List α)}

/-- The lines of the first chunks and those of the others. -/
theorem of_append (h : Packed (chunks ++ chunks') lines) :
    ∃ lines₁ lines₂, lines = lines₁ ++ lines₂ ∧ Packed chunks lines₁ ∧ Packed chunks' lines₂ := by
  obtain ⟨groups, hchunks, rfl⟩ := h
  obtain ⟨front, back, rfl, rfl, rfl⟩ := List.map_eq_append_iff.mp hchunks
  exact ⟨front.flatten, back.flatten, by simp, ⟨front, rfl, rfl⟩, ⟨back, rfl, rfl⟩⟩

/-- Chunks that are packed into files take their lines with them. -/
theorem trans (h : Packed files chunks) (k : Packed chunks lines) : Packed files lines := by
  obtain ⟨groups, rfl, rfl⟩ := h
  -- file by file, with the lines general
  induction groups generalizing lines with
  | nil => exact k
  | cons group groups ih =>
    rw [List.flatten_cons] at k
    obtain ⟨lines₁, lines₂, rfl, hfirst, hrest⟩ := k.of_append
    obtain ⟨groups', hmap, hlines⟩ := ih hrest
    refine ⟨lines₁ :: groups', ?_, ?_⟩
    · rw [List.map_cons, List.map_cons, hmap, hfirst.flatten]
    · rw [List.flatten_cons, hlines]

end Packed

namespace AsyncLogging

open Logger

variable {s s' : State}

/-! ## Records -/

/-- What is appended is the record of a `Logger`. -/
def IsRecord : Label → Prop
  | .append logline len =>
    ∃ (e : Event) (items : List LogStream.Item), logline = e.output items ∧ len = logline.length
  | _ => True

/-- A record comes out of a small buffer. -/
theorem length_output_lt (e : Event) (items : List LogStream.Item) :
    (e.output items).length < kLargeBuffer := by
  have hfits : (e.output items).length ≤ kSmallBuffer :=
    (e.finish (LogStream.shlAll e.ctor items)).fits
  have hsizes : kSmallBuffer < kLargeBuffer := by decide
  omega

theorem shortLine_of_isRecord {l : Label} (h : IsRecord l) : ShortLine l := by
  cases l with
  | append logline len =>
    obtain ⟨e, items, hline, hlen⟩ := h
    have hlt : logline.length < kLargeBuffer := hline ▸ length_output_lt e items
    show 0 ≤ len ∧ len < kLargeBuffer
    omega
  | start | stop | join | enter now | test | lock | wake | write now troll | recycle | flush
  | finish => trivial

/-! ## The files of the back end -/

/-- The log file of the back end, once there is one, holds the buffers it was given. -/
def FilesHold (s : State) : Prop := ∀ output, s.output = some output → output.Holds s.written

theorem holds_flush {log : LogFile} {lines : List (List UInt8)} (h : log.Holds lines) :
    log.flush.Holds lines :=
  { h with }

theorem filesHold_step {l : Label} (hgood : Good s) (h : FilesHold s)
    (hstep : next s l = some s') : FilesHold s' := by
  cases next_step hstep with
  | append logline len _ =>
    obtain ⟨_, _, _, _, heq⟩ := append_frame s logline len
    rw [heq]
    exact h
  | stop _ _ | join _ _ | start _ | proceed _ _ | leave _ _ | wait _ _ => exact h
  | enter now output hpc hctor =>
    intro output' heq
    obtain rfl : output = output' := Option.some.inj heq
    -- nothing has been written yet
    have hfiled := hgood.filed
    unfold Filed at hfiled
    rw [hpc] at hfiled
    show output.Holds s.written
    rw [hfiled.2]
    exact LogFile.Holds.of_ctor hctor
  | swap l hpc =>
    rw [swap_eq]
    exact h
  | write now troll buffer todo hpc =>
    obtain ⟨b, _, heq⟩ := hgood.rotation.write_eq hpc now troll
    rw [heq]
    intro output' houtput'
    obtain ⟨output, houtput, rfl⟩ := Option.map_eq_some_iff.mp houtput'
    exact (h output houtput).append b.data now troll
  | recycle hpc =>
    rw [hgood.rotation.recycle_eq hpc]
    exact h
  | flush hpc | finish hpc =>
    intro output' houtput'
    obtain ⟨output, houtput, rfl⟩ := Option.map_eq_some_iff.mp houtput'
    exact holds_flush (h output houtput)

/-- Between two rounds nothing is left in the buffer of the stream. -/
def FlushedBetween (s : State) : Prop :=
  s.pc = .test ∨ s.pc = .lock ∨ s.pc = .waiting ∨ s.pc = .exiting ∨ s.pc = .finished →
    ∀ output, s.output = some output → output.flushedContents = output.contents

theorem ctor_flushedContents {rollSize flushInterval checkEveryN now : Int} {log : LogFile}
    (h : LogFile.ctor rollSize flushInterval checkEveryN now = some log) :
    log.flushedContents = log.contents := by
  simp only [LogFile.ctor, Option.ite_none_right_eq_some, Option.some.injEq] at h
  obtain ⟨_, rfl⟩ := h
  rfl

theorem flushedBetween_step {l : Label} (hgood : Good s) (h : FlushedBetween s)
    (hstep : next s l = some s') : FlushedBetween s' := by
  cases next_step hstep with
  | append logline len _ =>
    obtain ⟨_, _, _, _, heq⟩ := append_frame s logline len
    rw [heq]
    exact h
  | stop _ _ | join _ _ => exact h
  | start hpc => simp [FlushedBetween]
  | enter now output hpc hctor =>
    intro _ output' heq
    obtain rfl : output = output' := Option.some.inj heq
    exact ctor_flushedContents hctor
  | proceed hpc _ | leave hpc _ | wait hpc _ => exact fun _ => h (by simp [hpc])
  | swap l hpc =>
    rw [swap_eq]
    simp [FlushedBetween]
  | write now troll buffer todo hpc =>
    obtain ⟨b, _, heq⟩ := hgood.rotation.write_eq hpc now troll
    rw [heq]
    simp [FlushedBetween]
  | recycle hpc =>
    rw [hgood.rotation.recycle_eq hpc]
    simp [FlushedBetween]
  | flush hpc | finish hpc =>
    intro _ output' houtput'
    obtain ⟨output, _, rfl⟩ := Option.map_eq_some_iff.mp houtput'
    exact LogFile.flush_flushedContents output

/-- What the back end and its files keep. -/
structure Pipeline (s : State) : Prop where
  good : Good s
  filesHold : FilesHold s
  flushedBetween : FlushedBetween s

theorem pipeline_run {s₀ : State} {ls : List Label} (hinit : machine.init s₀)
    (hrun : machine.run s₀ ls = some s) (hrecords : machine.Along (fun _ => IsRecord) s₀ ls) :
    Pipeline s := by
  have hstart : Pipeline s₀ := by
    refine ⟨good_init hinit, ?_, ?_⟩
    · obtain ⟨rollSize, rfl⟩ := hinit
      exact nofun
    · obtain ⟨rollSize, rfl⟩ := hinit
      simp [FlushedBetween]
  refine machine.run_invariant_along ?_ hstart hrecords hrun
  intro t l t' ht hl hnext
  exact ⟨good_step ht.good (shortLine_of_isRecord hl) hnext,
    filesHold_step ht.good ht.filesHold hnext,
    flushedBetween_step ht.good ht.flushedBetween hnext⟩

/-! ## Whole records -/

theorem packed_files {log : LogFile} {lines : List (List UInt8)} (h : log.Holds lines) :
    Packed (log.files.map FileUtil.data) lines := by
  obtain ⟨done, current, hlines, hclosed, hdata⟩ := h.grouped
  refine ⟨done ++ [current], ?_, ?_⟩
  · rw [LogFile.files, List.map_append, List.map_append, hclosed, List.map_singleton,
      List.map_singleton, hdata]
  · rw [List.flatten_append, List.flatten_singleton, hlines]

/-- With `AsyncLogging::append` as the output of the loggers, in every interleaving of log
    statements of any number of threads, of whatever size, with the steps of the back end and
    for all readings of the clock: the log files in the order of their creation hold a prefix
    of the records, each record complete and in one file, and the records that are missing are
    in the buffers, in order.  While the back end waits for the next round, all that it was
    given is flushed to the kernel. -/
theorem records_whole {s₀ : State} {ls : List Label} (hinit : machine.init s₀)
    (hrun : machine.run s₀ ls = some s) (hrecords : machine.Along (fun _ => IsRecord) s₀ ls)
    {output : LogFile} (houtput : s.output = some output) :
    (∃ filed pending : List (List UInt8), s.lines = filed ++ pending ∧
      Packed (output.files.map FileUtil.data) filed ∧
      pending.flatten = (unwritten s).flatMap bytes ++ s.buffers_.flatMap bytes ++
        bytes s.currentBuffer_) ∧
    output.openings.Pairwise (· < ·) ∧
    (s.pc = .waiting → output.flushedContents = output.contents) := by
  have hp := pipeline_run hinit hrun hrecords
  have hholds := hp.filesHold output houtput
  refine ⟨?_, hholds.opened, fun hpc => hp.flushedBetween (by simp [hpc]) output houtput⟩
  have hpacked := hp.good.packed
  rw [chunks, List.append_assoc, List.append_assoc] at hpacked
  obtain ⟨filed, pending, hlines, hfiled, hpending⟩ := hpacked.of_append
  refine ⟨filed, pending, hlines, (packed_files hholds).trans hfiled, ?_⟩
  rw [← hpending.flatten]
  simp [List.flatMap_def]

/-- Two records, the second one after the swap. -/
def twoRecords : List Label :=
  [.append (firstLine.output []) 43, .start, .enter 5, .test, .lock, .wake,
    .append (firstLine.output []) 43, .write 6 6, .recycle, .flush, .test, .lock]

theorem records_whole_two :
    ∃ s output, machine.run { rollSize_ := 1000 } twoRecords = some s ∧
      s.output = some output ∧ s.pc = .waiting ∧ s.lines.length = 2 ∧
      output.flushedContents = output.contents := by
  have hlen : (firstLine.output []).length = 43 := by decide +kernel
  have hstate : (machine.run { rollSize_ := 1000 } twoRecords).map
      (fun s => (s.pc, s.output.isSome, s.lines.length)) = some (.waiting, true, 2) := by
    decide +kernel
  obtain ⟨s, hrun, hs⟩ := Option.map_eq_some_iff.mp hstate
  simp only [Prod.mk.injEq] at hs
  obtain ⟨hpc, houtput, hlines⟩ := hs
  obtain ⟨output, houtput⟩ := Option.isSome_iff_exists.mp houtput
  have hrecords : ∀ l ∈ twoRecords, IsRecord l := by
    have happend : IsRecord (.append (firstLine.output []) 43) :=
      ⟨firstLine, [], rfl, by rw [hlen]; rfl⟩
    simp only [twoRecords, List.forall_mem_cons]
    exact ⟨happend, trivial, trivial, trivial, trivial, trivial, happend, trivial, trivial,
      trivial, trivial, trivial, by simp⟩
  obtain ⟨_, _, hflushed⟩ := records_whole ⟨1000, rfl⟩ hrun (machine.along_of_mem hrecords _) houtput
  exact ⟨s, output, hrun, houtput, hpc, hlines, hflushed hpc⟩

end AsyncLogging
