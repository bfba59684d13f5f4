import Mathlib.Data.List.Basic

/-! # FileUtil and LogFile

    A log file and the files it has rolled over.  `fwrite_unlocked` is taken to
    store all the bytes it is given, so the loop of `FileUtil::append` makes one
    round; they stay in the stream's buffer until `fflush` or `fclose`, unless
    the buffer runs full before.

    Clock readings (`time(NULL)`) are arguments, one for each call in the source.
    The mutex of a thread safe `LogFile` is not part of the model.
-/

/-! ## FileUtil -/

structure FileUtil where
  /-- The clock reading in the name of the file. -/
  opened : Int
  /-- The bytes written to the stream. -/
  data : List UInt8 := []
  /-- How many of them a flush has handed to the kernel. -/
  flushed : Nat := 0
  writtenBytes_ : Nat := 0
  deriving DecidableEq

namespace FileUtil

def append (file : FileUtil) (data : List UInt8) : FileUtil :=
  { file with data := file.data ++ data, writtenBytes_ := file.writtenBytes_ + data.length }

def flush (file : FileUtil) : FileUtil := { file with flushed := file.data.length }

/-- The destructor: `fclose` flushes the stream. -/
def close (file : FileUtil) : FileUtil := file.flush

def flushedData (file : FileUtil) : List UInt8 := file.data.take file.flushed

theorem flushedData_of_flushed {file : FileUtil} (h : file.flushed = file.data.length) :
    file.flushedData = file.data := by
  unfold flushedData
  rw [h, List.take_length]

end FileUtil

/-! ## LogFile -/

/-- `kRollPerSeconds_`. -/
def kRollPerSeconds : Int := 60 * 60 * 24

structure LogFile where
  rollSize_ : Int
  flushInterval_ : Int
  checkEveryN_ : Int
  count_ : Int := 0
  startOfPeriod_ : Int
  lastRoll_ : Int
  lastFlush_ : Int
  file_ : FileUtil
  /-- The files that `file_` pointed to before, in order. -/
  closed : List FileUtil := []
  closed_flushed : ∀ file ∈ closed, file.flushed = file.data.length := by simp

namespace LogFile

/-- The second at which the day of `now` begins; C++ division rounds towards
    zero. -/
def startOfDay (now : Int) : Int := now.tdiv kRollPerSeconds * kRollPerSeconds

/-- `rollFile()`, with the clock reading of `getLogFileName`. -/
def rollFile (log : LogFile) (now : Int) : LogFile × Bool :=
  if log.lastRoll_ < now then
    ({ log with
        lastRoll_ := now
        lastFlush_ := now
        startOfPeriod_ := startOfDay now
        file_ := { opened := now }
        closed := log.closed ++ [log.file_.close]
        closed_flushed := by
          intro file hfile
          rcases List.mem_append.mp hfile with hfile | hfile
          · exact log.closed_flushed file hfile
          · rw [List.mem_singleton.mp hfile]
            rfl }, true)
  else (log, false)

/-- The constructor.  With a reading that is not positive its `rollFile` opens no
    file, and `file_` stays null. -/
def ctor (rollSize flushInterval checkEveryN now : Int) : Option LogFile :=
  if 0 < now then
    some { rollSize_ := rollSize
           flushInterval_ := flushInterval
           checkEveryN_ := checkEveryN
           startOfPeriod_ := startOfDay now
           lastRoll_ := now
           lastFlush_ := now
           file_ := { opened := now } }
  else none

def flush (log : LogFile) : LogFile := { log with file_ := log.file_.flush }

/-- `append_unlocked(logline, len)`; `now` is its own clock reading and `troll`
    the one of `rollFile`. -/
def append_unlocked (log : LogFile) (logline : List UInt8) (now troll : Int) : LogFile :=
  let log := { log with file_ := log.file_.append logline }
  if log.rollSize_ < log.file_.writtenBytes_ then
    (log.rollFile troll).1
  else
    let log := { log with count_ := log.count_ + 1 }
    if log.checkEveryN_ ≤ log.count_ then
      let log := { log with count_ := 0 }
      if log.startOfPeriod_ < startOfDay now then
        (log.rollFile troll).1
      else if log.flushInterval_ < now - log.lastFlush_ then
        { log with lastFlush_ := now, file_ := log.file_.flush }
      else log
    else log

def append (log : LogFile) (logline : List UInt8) (now troll : Int) : LogFile :=
  log.append_unlocked logline now troll

/-! ## The content of the files -/

/-- The bytes of all files in the order in which they were created. -/
def contents (log : LogFile) : List UInt8 :=
  log.closed.flatMap FileUtil.data ++ log.file_.data

/-- Those that have left the buffers of their streams. -/
def flushedContents (log : LogFile) : List UInt8 :=
  log.closed.flatMap FileUtil.flushedData ++ log.file_.flushedData

theorem closed_flushedData (log : LogFile) :
    log.closed.flatMap FileUtil.flushedData = log.closed.flatMap FileUtil.data :=
  List.flatMap_congr fun file hfile =>
    FileUtil.flushedData_of_flushed (log.closed_flushed file hfile)

@[simp] theorem flush_contents (log : LogFile) : log.flush.contents = log.contents := rfl

@[simp] theorem flush_flushedContents (log : LogFile) :
    log.flush.flushedContents = log.contents := by
  unfold flushedContents contents
  rw [closed_flushedData, FileUtil.flushedData_of_flushed rfl]
  rfl

theorem ctor_contents {rollSize flushInterval checkEveryN now : Int} {log : LogFile}
    (h : ctor rollSize flushInterval checkEveryN now = some log) : log.contents = [] := by
  simp only [ctor, Option.ite_none_right_eq_some, Option.some.injEq] at h
  obtain ⟨_, rfl⟩ := h
  rfl

/-- Rolling starts an empty file behind the others. -/
theorem rollFile_contents (log : LogFile) (now : Int) :
    (log.rollFile now).1.contents = log.contents := by
  unfold rollFile
  split
  · show (log.closed ++ [log.file_.close]).flatMap FileUtil.data ++ [] = log.contents
    rw [List.append_nil, List.flatMap_append, List.flatMap_singleton]
    rfl
  · rfl

/-! ## What append does -/

/-- `log'` is `log` with one more line; its counter and its stream may differ otherwise. -/
structure Written (log : LogFile) (logline : List UInt8) (log' : LogFile) : Prop where
  rollSize_ : log'.rollSize_ = log.rollSize_
  startOfPeriod_ : log'.startOfPeriod_ = log.startOfPeriod_
  lastRoll_ : log'.lastRoll_ = log.lastRoll_
  closed : log'.closed = log.closed
  opened : log'.file_.opened = log.file_.opened
  data : log'.file_.data = log.file_.data ++ logline
  writtenBytes_ : log'.file_.writtenBytes_ = (log.file_.append logline).writtenBytes_

/-- The line is written, and then `rollFile` is called or the file is within its size. -/
theorem append_cases (log : LogFile) (logline : List UInt8) (now troll : Int) :
    ∃ log', log.Written logline log' ∧
      (log.append logline now troll = (log'.rollFile troll).1 ∨
        (log'.file_.writtenBytes_ ≤ log.rollSize_ ∧ log.append logline now troll = log')) := by
  unfold append append_unlocked
  simp only
  split
  · refine ⟨_, ?_, Or.inl rfl⟩
    exact ⟨rfl, rfl, rfl, rfl, rfl, rfl, rfl⟩
  next hsize =>
    have hwithin := Int.not_lt.mp hsize
    split
    · split
      · refine ⟨_, ?_, Or.inl rfl⟩
        exact ⟨rfl, rfl, rfl, rfl, rfl, rfl, rfl⟩
      · split
        · refine ⟨_, ?_, Or.inr ⟨?_, rfl⟩⟩
          · exact ⟨rfl, rfl, rfl, rfl, rfl, rfl, rfl⟩
          · exact hwithin
        · refine ⟨_, ?_, Or.inr ⟨?_, rfl⟩⟩
          · exact ⟨rfl, rfl, rfl, rfl, rfl, rfl, rfl⟩
          · exact hwithin
    · refine ⟨_, ?_, Or.inr ⟨?_, rfl⟩⟩
      · exact ⟨rfl, rfl, rfl, rfl, rfl, rfl, rfl⟩
      · exact hwithin

theorem append_contents (log : LogFile) (logline : List UInt8) (now troll : Int) :
    (log.append logline now troll).contents = log.contents ++ logline := by
  obtain ⟨log', hw, hcases⟩ := log.append_cases logline now troll
  have hcontents : log'.contents = log.contents ++ logline := by
    rw [contents, hw.closed, hw.data]
    exact (List.append_assoc _ _ _).symm
  rcases hcases with heq | ⟨_, heq⟩
  · rw [heq, rollFile_contents, hcontents]
  · rw [heq, hcontents]

end LogFile
