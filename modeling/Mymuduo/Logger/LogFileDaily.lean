import Mymuduo.Framework.Machine
import Mymuduo.Logger.LogFileRoll

/-! # The daily roll

    The name of a log file has the local time of its creation.  Whether a new day has
    begun is decided by the quotient of the epoch seconds and the length of a day, which
    changes at midnight UTC.
-/

namespace LogFile

/-! ## Dates -/

/-- The local date at a clock reading, as the number of the day, where local time is
    `offset` seconds ahead of UTC. -/
def localDate (offset t : Int) : Int := (t + offset) / kRollPerSeconds

/-- A local day begins after the reading `t` and not after `u`. -/
def Midnight (offset t u : Int) : Prop :=
  ∃ day, t < day * kRollPerSeconds - offset ∧ day * kRollPerSeconds - offset ≤ u

theorem localDate_ne_iff {offset t u : Int} (h : t ≤ u) :
    localDate offset u ≠ localDate offset t ↔ Midnight offset t u := by
  unfold localDate Midnight kRollPerSeconds
  constructor
  · intro hne
    refine ⟨(u + offset) / (60 * 60 * 24), ?_, ?_⟩ <;> omega
  · rintro ⟨day, hafter, hbefore⟩
    omega

/-- A whole number of days does not matter. -/
theorem midnight_of_dvd {offset : Int} (h : kRollPerSeconds ∣ offset) (t u : Int) :
    Midnight 0 t u ↔ Midnight offset t u := by
  obtain ⟨days, rfl⟩ := h
  unfold Midnight kRollPerSeconds
  constructor
  · rintro ⟨day, hafter, hbefore⟩
    exact ⟨day + days, by omega, by omega⟩
  · rintro ⟨day, hafter, hbefore⟩
    exact ⟨day - days, by omega, by omega⟩

/-! ## One append -/

/-- The periodic check of `append_unlocked` runs: the line stays within `rollSize_`, and
    `count_` reaches `checkEveryN_`. -/
def Checks (log : LogFile) (line : List UInt8) : Prop :=
  (log.file_.append line).writtenBytes_ ≤ log.rollSize_ ∧ log.checkEveryN_ ≤ log.count_ + 1

/-- `append` opens a new file. -/
def Opens (log : LogFile) (e : Entry) : Prop :=
  (log.append e.line e.now e.troll).files.length = log.files.length + 1

instance (log : LogFile) (line : List UInt8) : Decidable (log.Checks line) :=
  inferInstanceAs (Decidable (_ ∧ _))

instance (log : LogFile) (e : Entry) : Decidable (log.Opens e) :=
  inferInstanceAs (Decidable (_ = _))

theorem startOfDay_lt_iff {t u : Int} (ht : 0 < t) (h : t ≤ u) :
    startOfDay t < startOfDay u ↔ localDate 0 u ≠ localDate 0 t := by
  unfold startOfDay localDate
  rw [Int.tdiv_eq_ediv_of_nonneg (Int.le_of_lt ht),
    Int.tdiv_eq_ediv_of_nonneg (Int.le_of_lt (Int.lt_of_lt_of_le ht h))]
  unfold kRollPerSeconds
  omega

/-- The check opens a new file where the date in UTC has changed. -/
theorem opens_iff {log : LogFile} {lines : List (List UInt8)} (h : log.Holds lines) {e : Entry}
    (hchecks : log.Checks e.line) (hnow : log.lastRoll_ ≤ e.now) (htroll : e.now ≤ e.troll) :
    log.Opens e ↔ localDate 0 e.now ≠ localDate 0 log.file_.opened := by
  obtain ⟨hsize, hcount⟩ := hchecks
  rw [← h.lastRoll_, ← startOfDay_lt_iff h.positive hnow, ← h.startOfPeriod_]
  unfold Opens append append_unlocked
  simp only [if_neg (Int.not_lt.mpr hsize), if_pos hcount]
  by_cases hday : log.startOfPeriod_ < startOfDay e.now
  · -- the reading of rollFile is later than lastRoll_, as the one before it is
    have hlater : log.lastRoll_ < e.troll := by
      have hne : log.lastRoll_ ≠ e.now := by
        intro heq
        rw [h.startOfPeriod_, heq] at hday
        exact Int.lt_irrefl _ hday
      omega
    rw [if_pos hday]
    apply iff_of_true _ hday
    simp [rollFile, if_pos hlater, files]
  · rw [if_neg hday]
    apply iff_of_false _ hday
    split <;> simp [files]

theorem append_lastRoll_ (log : LogFile) (line : List UInt8) (now troll : Int) :
    (log.append line now troll).lastRoll_ = log.lastRoll_ ∨
      (log.append line now troll).lastRoll_ = troll := by
  obtain ⟨log', hw, heq | ⟨_, heq⟩⟩ := log.append_cases line now troll
  · rw [heq, ← hw.lastRoll_]
    unfold rollFile
    split
    · exact Or.inr rfl
    · exact Or.inl rfl
  · rw [heq]
    exact Or.inl hw.lastRoll_

end LogFile

namespace DailyRoll

open LogFile

/-! ## Runs -/

structure State where
  log : LogFile
  /-- The last clock reading. -/
  clock : Int

/-- An append that stays within `rollSize_`, with readings of a clock that does not go
    back. -/
def next (s : State) (e : Entry) : Option State :=
  if s.clock ≤ e.now ∧ e.now ≤ e.troll ∧
      (s.log.file_.append e.line).writtenBytes_ ≤ s.log.rollSize_ then
    some { log := s.log.append e.line e.now e.troll, clock := e.troll }
  else none

/-- Starts with what the constructor leaves. -/
def machine : Machine State Entry where
  init := fun s => ∃ rollSize flushInterval checkEveryN,
    ctor rollSize flushInterval checkEveryN s.clock = some s.log
  next := next

/-- The check opens a new file exactly where the local date of the reading is not that in
    the name of the current file. -/
def Follows (offset : Int) (s : State) (e : Entry) : Prop :=
  s.log.Checks e.line →
    (s.log.Opens e ↔ localDate offset e.now ≠ localDate offset s.log.file_.opened)

/-- Since the current file was opened, midnight has passed in UTC and in local time or in
    neither. -/
def SameMidnights (offset : Int) (s : State) (e : Entry) : Prop :=
  s.log.Checks e.line →
    (Midnight 0 s.log.file_.opened e.now ↔ Midnight offset s.log.file_.opened e.now)

/-- The file was opened at a reading that has passed. -/
def Dated (s : State) : Prop := (∃ lines, s.log.Holds lines) ∧ s.log.lastRoll_ ≤ s.clock

theorem dated_init {s : State} (h : machine.init s) : Dated s := by
  obtain ⟨rollSize, flushInterval, checkEveryN, hctor⟩ := h
  refine ⟨⟨[], Holds.of_ctor hctor⟩, ?_⟩
  simp only [ctor, Option.ite_none_right_eq_some, Option.some.injEq] at hctor
  apply Int.le_of_eq
  rw [← hctor.2]

theorem dated_step {s s' : State} {e : Entry} (h : Dated s) (hstep : next s e = some s') :
    Dated s' := by
  obtain ⟨⟨lines, hholds⟩, hlast⟩ := h
  simp only [next, Option.ite_none_right_eq_some, Option.some.injEq] at hstep
  obtain ⟨⟨hnow, htroll, _⟩, rfl⟩ := hstep
  refine ⟨⟨_, hholds.append e.line e.now e.troll⟩, ?_⟩
  show (s.log.append e.line e.now e.troll).lastRoll_ ≤ e.troll
  rcases s.log.append_lastRoll_ e.line e.now e.troll with heq | heq <;> omega

theorem follows_iff {s s' : State} {e : Entry} (offset : Int) (h : Dated s)
    (hstep : next s e = some s') : Follows offset s e ↔ SameMidnights offset s e := by
  obtain ⟨⟨lines, hholds⟩, hlast⟩ := h
  simp only [next, Option.ite_none_right_eq_some] at hstep
  obtain ⟨⟨hnow, htroll, _⟩, _⟩ := hstep
  have hopened : s.log.file_.opened ≤ e.now := by
    have := hholds.lastRoll_
    omega
  unfold Follows SameMidnights
  apply imp_congr_right
  intro hchecks
  rw [opens_iff hholds hchecks (by omega) htroll, localDate_ne_iff hopened,
    localDate_ne_iff hopened]

theorem along_follows_iff (offset : Int) {s₀ s : State} {entries : List Entry}
    (hinit : machine.init s₀) (hrun : machine.run s₀ entries = some s) :
    machine.Along (Follows offset) s₀ entries ↔ machine.Along (SameMidnights offset) s₀ entries := by
  have hdated := dated_init hinit
  constructor
  · apply Machine.Along.imp_of_run machine _ hdated hrun
    intro t e t' ht hfollows hstep
    exact ⟨(follows_iff offset ht hstep).mp hfollows, dated_step ht hstep⟩
  · apply Machine.Along.imp_of_run machine _ hdated hrun
    intro t e t' ht hsame hstep
    exact ⟨(follows_iff offset ht hstep).mpr hsame, dated_step ht hstep⟩

theorem along_sameMidnights_of_dvd {offset : Int} (h : kRollPerSeconds ∣ offset) {s₀ s : State}
    {entries : List Entry} (hinit : machine.init s₀) (hrun : machine.run s₀ entries = some s) :
    machine.Along (SameMidnights offset) s₀ entries := by
  apply Machine.along_of_run machine _ (dated_init hinit) hrun
  intro t e t' ht hstep
  exact ⟨fun _ => midnight_of_dvd h _ _, dated_step ht hstep⟩

/-! ## The offsets -/

/-- A log file that was opened at `now` and checks at every append. -/
def openedAt (now : Int) (h : 0 < now) : State where
  log := (ctor 1000000 3 1 now).get (by simp [ctor, h])
  clock := now

theorem init_openedAt {now : Int} (h : 0 < now) : machine.init (openedAt now h) :=
  ⟨1000000, 3, 1, by simp [openedAt]⟩

/-- An append of no bytes, with both readings at `now`. -/
def emptyAppend (now : Int) : Entry := { line := [], now := now, troll := now }

theorem checks_openedAt {now : Int} (h : 0 < now) : (openedAt now h).log.Checks [] := by
  simp [openedAt, ctor, Checks, FileUtil.append]

theorem run_openedAt {now u : Int} (h : 0 < now) (hle : now ≤ u) :
    machine.run (openedAt now h) [emptyAppend u] =
      some { log := (openedAt now h).log.append [] u u, clock := u } := by
  rw [Machine.run_singleton]
  exact if_pos ⟨hle, Int.le_refl _, (checks_openedAt h).1⟩

/-- Opened at midnight UTC, and checked at the next local midnight, which is before the next
    one in UTC. -/
theorem not_sameMidnights {offset : Int} (h : ¬ kRollPerSeconds ∣ offset) :
    ¬ SameMidnights offset (openedAt kRollPerSeconds (by decide))
      (emptyAppend (2 * kRollPerSeconds - offset % kRollPerSeconds)) := by
  intro hsame
  have hlocal : Midnight offset kRollPerSeconds
      (2 * kRollPerSeconds - offset % kRollPerSeconds) := by
    refine ⟨2 + offset / kRollPerSeconds, ?_, ?_⟩ <;> unfold kRollPerSeconds <;> omega
  obtain ⟨day, hafter, hbefore⟩ := (hsame (checks_openedAt _)).mpr hlocal
  have hbefore : day * kRollPerSeconds - 0 ≤ 2 * kRollPerSeconds - offset % kRollPerSeconds :=
    hbefore
  have hafter : kRollPerSeconds < day * kRollPerSeconds - 0 := hafter
  unfold kRollPerSeconds at h hafter hbefore
  omega

/-- Every run follows the dates in the names as long as it meets midnight UTC and local
    midnight between the same readings; all runs do where local time is UTC. -/
theorem daily_roll_iff (offset : Int) :
    (∀ s₀ s entries, machine.init s₀ → machine.run s₀ entries = some s →
      (machine.Along (Follows offset) s₀ entries ↔
        machine.Along (SameMidnights offset) s₀ entries)) ∧
    ((∀ s₀ s entries, machine.init s₀ → machine.run s₀ entries = some s →
      machine.Along (Follows offset) s₀ entries) ↔ kRollPerSeconds ∣ offset) := by
  constructor
  · intro s₀ s entries hinit hrun
    exact along_follows_iff offset hinit hrun
  · constructor
    · intro hall
      by_contra hdvd
      have hpos : 0 < kRollPerSeconds := by decide
      have hinit := init_openedAt hpos
      have hle : kRollPerSeconds ≤ 2 * kRollPerSeconds - offset % kRollPerSeconds := by
        unfold kRollPerSeconds
        omega
      have hrun := run_openedAt hpos hle
      have halong := (along_follows_iff offset hinit hrun).mp (hall _ _ _ hinit hrun)
      exact not_sameMidnights hdvd halong.1
    · intro hdvd s₀ s entries hinit hrun
      exact (along_follows_iff offset hinit hrun).mpr
        (along_sameMidnights_of_dvd hdvd hinit hrun)

/-- Eight hours east of UTC: the file of one evening is still written after midnight. -/
theorem daily_roll_misses_midnight :
    machine.init (openedAt 914000 (by decide)) ∧
    (machine.run (openedAt 914000 (by decide)) [emptyAppend 924000]).isSome ∧
    ¬ machine.Along (Follows 28800) (openedAt 914000 (by decide)) [emptyAppend 924000] := by
  refine ⟨init_openedAt (by decide), by decide, ?_⟩
  intro halong
  have hopens := (halong.1 (by decide)).mpr (by decide)
  exact absurd hopens (by decide)

end DailyRoll
