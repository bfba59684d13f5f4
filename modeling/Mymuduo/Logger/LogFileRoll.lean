import Mathlib.Data.List.Pairwise
import Mymuduo.Logger.LogFile

/-! # Rolling over

    The files that a `LogFile` leaves behind hold what was appended, line by line and
    in order, whatever the clock says.
-/

namespace LogFile

/-! ## The files on disk -/

/-- All files, the current one last. -/
def files (log : LogFile) : List FileUtil := log.closed ++ [log.file_]

/-- What is in the file of that name.  The files are opened for appending: two streams
    with one name write into one file. -/
def disk {Name : Type} [DecidableEq Name] (fileName : Int → Name) (files : List FileUtil)
    (name : Name) : List UInt8 :=
  (files.filter fun file => fileName file.opened = name).flatMap FileUtil.data

/-- Streams that were opened one after the other have files of their own. -/
theorem disk_eq_data {Name : Type} [DecidableEq Name] {fileName : Int → Name}
    (hname : Function.Injective fileName) {files : List FileUtil}
    (hopened : (files.map FileUtil.opened).Pairwise (· < ·)) {file : FileUtil}
    (hfile : file ∈ files) : disk fileName files (fileName file.opened) = file.data := by
  have hfilter : ∀ fs : List FileUtil, (∀ g ∈ fs, g.opened ≠ file.opened) →
      fs.filter (fun g => fileName g.opened = fileName file.opened) = [] := by
    intro fs hfs
    apply List.filter_eq_nil_iff.mpr
    intro g hg
    simpa using fun heq => hfs g hg (hname heq)
  obtain ⟨before, after, rfl⟩ := List.append_of_mem hfile
  rw [List.pairwise_map, List.pairwise_append, List.pairwise_cons] at hopened
  have hbefore := hfilter before fun g hg =>
    Int.ne_of_lt (hopened.2.2 g hg file List.mem_cons_self)
  have hafter := hfilter after fun g hg => Int.ne_of_gt (hopened.2.1.1 g hg)
  rw [disk, List.filter_append, hbefore, List.nil_append,
    List.filter_cons_of_pos (by simp), hafter, List.flatMap_singleton]

/-! ## The invariant -/

/-- The clock readings at which the files were opened. -/
def openings (log : LogFile) : List Int := log.closed.map FileUtil.opened ++ [log.file_.opened]

theorem map_opened_files (log : LogFile) : log.files.map FileUtil.opened = log.openings :=
  List.map_append

/-- The files of `log` hold `lines`, each one in one file. -/
structure Holds (log : LogFile) (lines : List (List UInt8)) : Prop where
  writtenBytes_ : log.file_.writtenBytes_ = log.file_.data.length
  opened : log.openings.Pairwise (· < ·)
  lastRoll_ : log.lastRoll_ = log.file_.opened
  positive : 0 < log.lastRoll_
  startOfPeriod_ : log.startOfPeriod_ = startOfDay log.lastRoll_
  grouped : ∃ (done : List (List (List UInt8))) (current : List (List UInt8)),
    lines = done.flatten ++ current ∧ log.closed.map FileUtil.data = done.map List.flatten ∧
      log.file_.data = current.flatten

namespace Holds

variable {log : LogFile} {lines : List (List UInt8)}

theorem of_ctor {rollSize flushInterval checkEveryN now : Int}
    (h : ctor rollSize flushInterval checkEveryN now = some log) : log.Holds [] := by
  simp only [ctor, Option.ite_none_right_eq_some, Option.some.injEq] at h
  obtain ⟨hpos, rfl⟩ := h
  exact
    { writtenBytes_ := rfl
      opened := List.pairwise_singleton _ _
      lastRoll_ := rfl
      positive := hpos
      startOfPeriod_ := rfl
      grouped := ⟨[], [], rfl, rfl, rfl⟩ }

theorem write (h : log.Holds lines) {line : List UInt8} {log' : LogFile}
    (hw : log.Written line log') : log'.Holds (lines ++ [line]) where
  writtenBytes_ := by
    rw [hw.writtenBytes_, hw.data, List.length_append, ← h.writtenBytes_]
    rfl
  opened := by
    rw [openings, hw.closed, hw.opened]
    exact h.opened
  lastRoll_ := by rw [hw.lastRoll_, hw.opened, h.lastRoll_]
  positive := hw.lastRoll_ ▸ h.positive
  startOfPeriod_ := by rw [hw.startOfPeriod_, hw.lastRoll_, h.startOfPeriod_]
  grouped := by
    obtain ⟨done, current, hlines, hclosed, hdata⟩ := h.grouped
    refine ⟨done, current ++ [line], ?_, ?_, ?_⟩
    · rw [hlines, List.append_assoc]
    · rw [hw.closed, hclosed]
    · rw [hw.data, hdata, List.flatten_append, List.flatten_singleton]

theorem rollFile (h : log.Holds lines) (now : Int) : (log.rollFile now).1.Holds lines := by
  unfold LogFile.rollFile
  split
  next hnow =>
    exact
      { writtenBytes_ := rfl
        opened := by
          show ((log.closed ++ [log.file_.close]).map FileUtil.opened ++ [now]).Pairwise (· < ·)
          rw [List.map_append, List.pairwise_append]
          refine ⟨h.opened, List.pairwise_singleton _ _, ?_⟩
          intro t ht u hu
          -- every file was opened at lastRoll_ or before
          have hle : t ≤ log.file_.opened := by
            rcases List.mem_append.mp ht with ht | ht
            · exact Int.le_of_lt ((List.pairwise_append.mp h.opened).2.2 t ht _
                (List.mem_singleton_self _))
            · exact Int.le_of_eq (List.mem_singleton.mp ht)
          rw [List.mem_singleton.mp hu]
          exact Int.lt_of_le_of_lt (h.lastRoll_ ▸ hle) hnow
        lastRoll_ := rfl
        positive := Int.lt_trans h.positive hnow
        startOfPeriod_ := rfl
        grouped := by
          -- the lines of the current file are complete, and the new one has none
          obtain ⟨done, current, hlines, hclosed, hdata⟩ := h.grouped
          refine ⟨done ++ [current], [], ?_, ?_, rfl⟩
          · rw [hlines, List.flatten_append, List.flatten_singleton, List.append_nil]
          · show (log.closed ++ [log.file_.close]).map FileUtil.data = _
            rw [List.map_append, List.map_append, hclosed]
            exact congrArg (fun data => done.map List.flatten ++ [data]) hdata }
  next => exact h

/-- Wherever the new line makes the log roll over, it is in the file before. -/
theorem append (h : log.Holds lines) (line : List UInt8) (now troll : Int) :
    (log.append line now troll).Holds (lines ++ [line]) := by
  obtain ⟨log', hw, heq | ⟨_, heq⟩⟩ := log.append_cases line now troll
  · rw [heq]
    exact (h.write hw).rollFile troll
  · rw [heq]
    exact h.write hw

end Holds

/-! ## When the log rolls over -/

theorem rollFile_rollSize_ (log : LogFile) (now : Int) :
    (log.rollFile now).1.rollSize_ = log.rollSize_ := by
  unfold rollFile
  split <;> rfl

theorem append_rollSize_ (log : LogFile) (line : List UInt8) (now troll : Int) :
    (log.append line now troll).rollSize_ = log.rollSize_ := by
  obtain ⟨log', hw, heq | ⟨_, heq⟩⟩ := log.append_cases line now troll
  · rw [heq, rollFile_rollSize_, hw.rollSize_]
  · rw [heq, hw.rollSize_]

/-- A new file comes with a later `lastRoll_`. -/
def RollsForward (log log' : LogFile) : Prop :=
  (log'.files.length = log.files.length ∧ log'.lastRoll_ = log.lastRoll_) ∨
    (log'.files.length = log.files.length + 1 ∧ log.lastRoll_ < log'.lastRoll_)

theorem rollFile_forward (log : LogFile) (now : Int) : log.RollsForward (log.rollFile now).1 := by
  unfold rollFile
  split
  next hnow =>
    refine Or.inr ⟨?_, hnow⟩
    simp [files]
  next => exact Or.inl ⟨rfl, rfl⟩

theorem append_forward (log : LogFile) (line : List UInt8) (now troll : Int) :
    log.RollsForward (log.append line now troll) := by
  obtain ⟨log', hw, hcases⟩ := log.append_cases line now troll
  have hlength : log'.files.length = log.files.length := by
    rw [files, files, hw.closed, List.length_append, List.length_append]
    rfl
  rcases hcases with heq | ⟨_, heq⟩
  · have hforward := log'.rollFile_forward troll
    rw [RollsForward, hlength, hw.lastRoll_] at hforward
    rw [heq]
    exact hforward
  · rw [heq]
    exact Or.inl ⟨hlength, hw.lastRoll_⟩

/-- A new file is empty. -/
theorem rollFile_oversize {log : LogFile} (hroll : 0 ≤ log.rollSize_) {now : Int}
    (hover : log.rollSize_ < (log.rollFile now).1.file_.writtenBytes_) :
    now ≤ log.lastRoll_ ∧ log.rollFile now = (log, false) := by
  unfold rollFile at hover ⊢
  split
  next hnow =>
    rw [if_pos hnow] at hover
    change log.rollSize_ < 0 at hover
    omega
  next hnow => exact ⟨by omega, rfl⟩

/-- A file is left over its size only where `rollFile` was asked for a new one and the
    clock had not moved on. -/
theorem append_oversize {log : LogFile} (hroll : 0 ≤ log.rollSize_) {line : List UInt8}
    {now troll : Int}
    (hover : log.rollSize_ < (log.append line now troll).file_.writtenBytes_) :
    log.rollSize_ < (log.file_.append line).writtenBytes_ ∧ troll ≤ log.lastRoll_ ∧
      (log.append line now troll).lastRoll_ = log.lastRoll_ := by
  obtain ⟨log', hw, heq | ⟨hwithin, heq⟩⟩ := log.append_cases line now troll
  · rw [heq, ← hw.rollSize_] at hover
    obtain ⟨hle, hsame⟩ := rollFile_oversize (hw.rollSize_ ▸ hroll) hover
    rw [hsame, hw.rollSize_, hw.writtenBytes_] at hover
    rw [heq, hsame]
    exact ⟨hover, hw.lastRoll_ ▸ hle, hw.lastRoll_⟩
  · -- a file that the line has not made too large is not too large afterwards
    rw [heq] at hover
    omega

/-! ## Sequences of appends -/

/-- One call of `append`, with the clock readings during the call. -/
structure Entry where
  line : List UInt8
  now : Int
  troll : Int
  deriving DecidableEq

def appends (log : LogFile) (entries : List Entry) : LogFile :=
  entries.foldl (fun log e => log.append e.line e.now e.troll) log

theorem holds_appends {log : LogFile} {lines : List (List UInt8)} (h : log.Holds lines)
    (entries : List Entry) :
    (log.appends entries).Holds (lines ++ entries.map Entry.line) ∧
      (log.appends entries).rollSize_ = log.rollSize_ := by
  induction entries generalizing log lines with
  | nil => exact ⟨by simpa [appends] using h, rfl⟩
  | cons e entries ih =>
    obtain ⟨hholds, hroll⟩ := ih (h.append e.line e.now e.troll)
    refine ⟨?_, hroll.trans (append_rollSize_ log e.line e.now e.troll)⟩
    rw [List.append_assoc] at hholds
    exact hholds

/-- With arbitrary clock readings after that of the constructor, the files in the order
    of their creation hold the lines that were appended, each line in one file.  Every
    new file has a later `lastRoll_`, `startOfPeriod_` is the beginning of its day, and
    an append leaves the current file over `rollSize_` only where the reading of
    `rollFile` was not later than `lastRoll_`. -/
theorem files_hold_log {Name : Type} [DecidableEq Name] {fileName : Int → Name}
    (hname : Function.Injective fileName) {rollSize flushInterval checkEveryN now₀ : Int}
    {log₀ log : LogFile} (hroll : 0 ≤ rollSize)
    (hctor : ctor rollSize flushInterval checkEveryN now₀ = some log₀) {entries : List Entry}
    (hlog : log₀.appends entries = log) :
    (log.files.flatMap fun file => disk fileName log.files (fileName file.opened)) =
      (entries.map Entry.line).flatten ∧
    (∃ groups : List (List (List UInt8)), groups.flatten = entries.map Entry.line ∧
      (log.files.map fun file => disk fileName log.files (fileName file.opened)) =
        groups.map List.flatten) ∧
    log.openings.Pairwise (· < ·) ∧ log.lastRoll_ = log.file_.opened ∧
    log.startOfPeriod_ = log.lastRoll_ / kRollPerSeconds * kRollPerSeconds ∧
    (∀ e : Entry, log.RollsForward (log.append e.line e.now e.troll)) ∧
    (∀ (e : Entry) (log' : LogFile), log.append e.line e.now e.troll = log' →
      rollSize < (disk fileName log'.files (fileName log'.file_.opened)).length →
      rollSize < (log.file_.append e.line).writtenBytes_ ∧ e.troll ≤ log'.lastRoll_) := by
  have hsize : log₀.rollSize_ = rollSize := by
    simp only [ctor, Option.ite_none_right_eq_some, Option.some.injEq] at hctor
    obtain ⟨_, rfl⟩ := hctor
    rfl
  obtain ⟨hholds, hrollSize⟩ := holds_appends (Holds.of_ctor hctor) entries
  rw [hlog] at hholds hrollSize
  have hgroups : ∃ groups : List (List (List UInt8)), groups.flatten = entries.map Entry.line ∧
      (log.files.map fun file => disk fileName log.files (fileName file.opened)) =
        groups.map List.flatten := by
    obtain ⟨done, current, hlines, hclosed, hdata⟩ := hholds.grouped
    refine ⟨done ++ [current], ?_, ?_⟩
    · rw [List.flatten_append, List.flatten_singleton, ← hlines, List.nil_append]
    · have hopened := log.map_opened_files ▸ hholds.opened
      rw [List.map_congr_left fun file hfile => disk_eq_data hname hopened hfile, files,
        List.map_append, hclosed, List.map_append, List.map_singleton, List.map_singleton, hdata]
  refine ⟨?_, hgroups, hholds.opened, hholds.lastRoll_, ?_, ?_, ?_⟩
  · obtain ⟨groups, hlines, hfiles⟩ := hgroups
    rw [List.flatMap_def, hfiles, ← hlines, List.flatten_flatten]
  · rw [hholds.startOfPeriod_, startOfDay,
      Int.tdiv_eq_ediv_of_nonneg (Int.le_of_lt hholds.positive)]
  · intro e
    exact append_forward log e.line e.now e.troll
  · intro e log' hlog' hover
    have hholds' := hholds.append e.line e.now e.troll
    rw [hlog'] at hholds'
    have hopened := log'.map_opened_files ▸ hholds'.opened
    have hcurrent : log'.file_ ∈ log'.files := by simp [files]
    rw [disk_eq_data hname hopened hcurrent, ← hholds'.writtenBytes_, ← hsize, ← hrollSize,
      ← hlog'] at hover
    rw [← hsize, ← hrollSize] at hroll ⊢
    obtain ⟨hwritten, hle, hlast⟩ := append_oversize hroll hover
    rw [← hlog', hlast]
    exact ⟨hwritten, hle⟩

/-- The second line makes the file too large within the second of its creation; the
    third one goes into the same file, and a later second into a new one. -/
theorem files_hold_log_refused_roll :
    ∃ log₀ log : LogFile, ctor 4 3 1024 100 = some log₀ ∧
      log₀.appends [⟨[1, 2, 3], 0, 0⟩, ⟨[4, 5], 0, 100⟩, ⟨[6], 0, 101⟩] = log ∧
      log.files.length = 2 ∧ log.lastRoll_ = 101 ∧
      (log.files.flatMap fun file => disk id log.files (id file.opened)) = [1, 2, 3, 4, 5, 6] := by
  have hctor : ctor 4 3 1024 100 = some _ := rfl
  have hhold := files_hold_log (fun _ _ h => h) (by decide) hctor
    (show appends _ [⟨[1, 2, 3], 0, 0⟩, ⟨[4, 5], 0, 100⟩, ⟨[6], 0, 101⟩] = _ from rfl)
  exact ⟨_, _, hctor, rfl, rfl, rfl, hhold.1⟩

end LogFile
