import Mymuduo.Framework.MixedRadix
import Mymuduo.Logger.Logging
import Mymuduo.Logger.LogFileRoll

/-! # The names of the log files

    `getLogFileName` puts the local time of the opening into the name of a file.  Where local
    time is a fixed number of seconds ahead of UTC, a later reading of the clock gives a name
    that sorts behind (`getLogFileName_lt`), so that the files of a `LogFile` have names of
    their own, and listed by name they stand in the order of their creation (`names_sorted`).
-/

namespace LogFile

open Logger

/-! ## The calendar -/

def isLeap (year : Nat) : Bool := year % 4 = 0 && (year % 100 ≠ 0 || year % 400 = 0)

def yearLength (year : Nat) : Nat := if isLeap year then 366 else 365

def monthLength (year : Nat) : Nat → Nat
  | 2 => if isLeap year then 29 else 28
  | 4 | 6 | 9 | 11 => 30
  | _ => 31

/-- The date of a day, counted from the first of January 1970. -/
def date (days : Nat) : Nat × Nat × Nat :=
  let year := pieces yearLength days 1970 days
  let mon := pieces (monthLength year.1) 11 1 year.2
  (year.1, mon.1, mon.2 + 1)

/-- `localtime_r(now, &tm)`, where local time is `offset` seconds ahead of UTC. -/
def localtime (offset now : Int) : Tm :=
  let seconds := (now + offset).toNat
  let day := date (seconds / 86400)
  { year := day.1
    mon := day.2.1
    mday := day.2.2
    hour := seconds % 86400 / 3600
    min := seconds % 3600 / 60
    sec := seconds % 60 }

/-- `strftime(timebuf, sizeof timebuf, ".%Y%m%d-%H%M%S.", &tm)`, which fits into the 32 bytes
    (`length_timebuf`). -/
def timebuf (tm : Tm) : List UInt8 :=
  '.'.toUInt8 :: (numeral tm.year ++ (field '0' 2 tm.mon ++ (field '0' 2 tm.mday ++
    '-'.toUInt8 :: (field '0' 2 tm.hour ++ (field '0' 2 tm.min ++ (field '0' 2 tm.sec ++
      ['.'.toUInt8]))))))

/-- `getLogFileName(basename, &now)` at the reading `now`. -/
def getLogFileName (offset : Int) (basename : List UInt8) (now : Int) : List UInt8 :=
  basename ++ timebuf (localtime offset now) ++ ['.', 'l', 'o', 'g'].map Char.toUInt8

/-! ## Earlier and later -/

/-- The fields of `a` are before those of `b`, the year first. -/
def Before (a b : Tm) : Prop :=
  a.year < b.year ∨ a.year = b.year ∧ (a.mon < b.mon ∨ a.mon = b.mon ∧
    (a.mday < b.mday ∨ a.mday = b.mday ∧ (a.hour < b.hour ∨ a.hour = b.hour ∧
      (a.min < b.min ∨ a.min = b.min ∧ a.sec < b.sec))))

theorem Before.year_le {a b : Tm} (h : Before a b) : a.year ≤ b.year := by
  rcases h with hlt | ⟨heq, _⟩
  · exact hlt.le
  · exact heq.le

theorem yearLength_pos (year : Nat) : 0 < yearLength year := by
  unfold yearLength
  split <;> decide

theorem date_lt {d e : Nat} (h : d < e) :
    (date d).1 < (date e).1 ∨ (date d).1 = (date e).1 ∧
      ((date d).2.1 < (date e).2.1 ∨
        (date d).2.1 = (date e).2.1 ∧ (date d).2.2 < (date e).2.2) := by
  simp only [date]
  rw [pieces_fuel yearLength_pos (Nat.le_refl d) h.le]
  rcases pieces_lt yearLength e 1970 h with hyear | ⟨hyear, hday⟩
  · exact Or.inl hyear
  · refine Or.inr ⟨hyear, ?_⟩
    rw [hyear]
    rcases pieces_lt (monthLength (pieces yearLength e 1970 e).1) 11 1 hday with
      hmon | ⟨hmon, hmday⟩
    · exact Or.inl hmon
    · exact Or.inr ⟨hmon, Nat.succ_lt_succ hmday⟩

theorem localtime_before {offset t u : Int} (ht : 0 ≤ t + offset) (h : t < u) :
    Before (localtime offset t) (localtime offset u) := by
  have hlt : (t + offset).toNat < (u + offset).toNat := by omega
  simp only [Before, localtime]
  generalize (t + offset).toNat = s at hlt ⊢
  generalize (u + offset).toNat = r at hlt ⊢
  by_cases hday : s / 86400 = r / 86400
  · rw [hday]
    omega
  · have hdays : s / 86400 < r / 86400 := by omega
    have hdate := date_lt hdays
    omega

theorem year_mono {offset t u : Int} (ht : 0 ≤ t + offset) (h : t ≤ u) :
    (localtime offset t).year ≤ (localtime offset u).year := by
  rcases h.eq_or_lt with rfl | hlt
  · exact Nat.le_refl _
  · exact (localtime_before ht hlt).year_le

/-! ## What fits into the fields -/

theorem sum_monthLength (year : Nat) :
    ∑ k ∈ Finset.range 12, monthLength year (1 + k) = yearLength year := by
  simp only [Finset.sum_range_succ, Finset.sum_range_zero, monthLength, yearLength]
  split <;> rfl

theorem monthLength_le (year mon : Nat) : monthLength year mon ≤ 31 := by
  unfold monthLength
  split
  · split <;> decide
  · decide
  · decide
  · decide
  · decide
  · decide

theorem date_bounds (days : Nat) :
    1970 ≤ (date days).1 ∧ (date days).2.1 ≤ 12 ∧ (date days).2.2 ≤ 31 := by
  have hyday : (pieces yearLength days 1970 days).2 <
      yearLength (pieces yearLength days 1970 days).1 := by
    refine pieces_snd_lt ?_
    calc days < ∑ k ∈ Finset.range (days + 1), 1 := by simp
      _ ≤ _ := Finset.sum_le_sum fun k _ => yearLength_pos (1970 + k)
  rw [← sum_monthLength] at hyday
  have hmday := (pieces_snd_lt hyday).trans_le (monthLength_le _ _)
  exact ⟨le_pieces_fst _ _ _, pieces_fst_le _ _ _, hmday⟩

/-- `localtime` fills the fields that `strftime` prints with two digits. -/
theorem localtime_bounds (offset now : Int) :
    1970 ≤ (localtime offset now).year ∧ (localtime offset now).mon < 100 ∧
      (localtime offset now).mday < 100 ∧ (localtime offset now).hour < 100 ∧
      (localtime offset now).min < 100 ∧ (localtime offset now).sec < 100 := by
  simp only [localtime]
  obtain ⟨hyear, hmon, hmday⟩ := date_bounds ((now + offset).toNat / 86400)
  omega

/-! ## Numbers with leading zeros -/

theorem length_field {w n : Nat} (hw : 0 < w) (h : n < 10 ^ w) :
    (field '0' w n).length = w := by
  have hlength := length_numeral_le hw h
  rw [field, List.length_append, List.length_replicate]
  omega

theorem field_succ {w : Nat} (hw : 0 < w) (n : Nat) :
    field '0' (w + 1) n = field '0' w (n / 10) ++ [digitByte (n % 10)] := by
  by_cases hn : n < 10
  · have hzero : field '0' w 0 = List.replicate w '0'.toUInt8 := by
      obtain ⟨k, rfl⟩ := Nat.exists_eq_succ_of_ne_zero hw.ne'
      rw [List.replicate_succ']
      rfl
    rw [Nat.div_eq_of_lt hn, Nat.mod_eq_of_lt hn, hzero, field, numeral_of_lt hn]
    rfl
  · rw [field, field, numeral_of_ge (Nat.not_lt.mp hn), List.length_append, List.append_assoc]
    congr 2
    exact Nat.add_sub_add_right w 1 _

theorem digitByte_lt {d e : Nat} (h : d < e) (he : e < 10) : digitByte d < digitByte e := by
  have hdigits : ∀ e : Fin 10, ∀ d : Fin 10, d < e → digitByte d < digitByte e := by decide
  exact hdigits ⟨e, he⟩ ⟨d, h.trans he⟩ h

/-- Numbers in fields of one width compare like their texts. -/
theorem field_lt {w n m : Nat} (hw : 0 < w) (h : n < m) (hm : m < 10 ^ w) :
    field '0' w n < field '0' w m := by
  induction w, hw using Nat.le_induction generalizing n m with
  | base =>
    have hn : n < 10 := by omega
    rw [field, field, numeral_of_lt hn, numeral_of_lt hm]
    exact List.cons_lt_cons_iff.mpr (Or.inl (digitByte_lt h hm))
  | succ w hw ih =>
    have hm' : m / 10 < 10 ^ w := by
      rw [Nat.pow_succ] at hm
      omega
    rw [field_succ hw, field_succ hw]
    by_cases hdiv : n / 10 < m / 10
    · refine append_lt_append ?_ (ih hdiv hm')
      rw [length_field hw (hdiv.trans hm'), length_field hw hm']
    · have hsame : n / 10 = m / 10 := by omega
      rw [hsame]
      refine List.append_left_lt ?_
      exact List.cons_lt_cons_iff.mpr (Or.inl (digitByte_lt (by omega) (by omega)))

/-- The first field in which two texts differ decides. -/
theorem field_append_lt {w n m : Nat} {x y : List UInt8} (hw : 0 < w) (hn : n < 10 ^ w)
    (hm : m < 10 ^ w) (h : n < m ∨ n = m ∧ x < y) :
    field '0' w n ++ x < field '0' w m ++ y := by
  rcases h with hlt | ⟨rfl, hlt⟩
  · refine append_lt_append ?_ (field_lt hw hlt hm)
    rw [length_field hw hn, length_field hw hm]
  · exact List.append_left_lt hlt

/-- The years from 1000 on need no zeros. -/
theorem numeral_year {year : Nat} (h : 1000 ≤ year) : numeral year = field '0' 4 year := by
  have hlength : 4 ≤ (numeral year).length := by
    by_contra hshort
    rw [numeral, List.length_map, not_le, Nat.lt_succ_iff,
      Nat.length_toDigits_le_iff (by decide) (by decide)] at hshort
    omega
  rw [field, Nat.sub_eq_zero_of_le hlength, List.replicate_zero, List.nil_append]

/-! ## Names -/

theorem timebuf_lt {a b : Tm} (h : Before a b) (hyear : 1000 ≤ a.year) (hyear' : b.year < 10000)
    (ha : a.mon < 100 ∧ a.mday < 100 ∧ a.hour < 100 ∧ a.min < 100 ∧ a.sec < 100)
    (hb : b.mon < 100 ∧ b.mday < 100 ∧ b.hour < 100 ∧ b.min < 100 ∧ b.sec < 100) :
    timebuf a < timebuf b := by
  have hle := h.year_le
  obtain ⟨hmon, hmday, hhour, hmin, hsec⟩ := ha
  obtain ⟨hmon', hmday', hhour', hmin', hsec'⟩ := hb
  rw [timebuf, timebuf, numeral_year hyear, numeral_year (hyear.trans hle)]
  refine List.cons_lt_cons_iff.mpr (Or.inr ⟨rfl, ?_⟩)
  -- field by field, as far as the ones before are equal
  refine field_append_lt (by decide) (by omega) hyear' (h.imp_right fun h => ⟨h.1, ?_⟩)
  refine field_append_lt (by decide) hmon hmon' (h.2.imp_right fun h => ⟨h.1, ?_⟩)
  refine field_append_lt (by decide) hmday hmday' (h.2.imp_right fun h => ⟨h.1, ?_⟩)
  refine List.cons_lt_cons_iff.mpr (Or.inr ⟨rfl, ?_⟩)
  refine field_append_lt (by decide) hhour hhour' (h.2.imp_right fun h => ⟨h.1, ?_⟩)
  refine field_append_lt (by decide) hmin hmin' (h.2.imp_right fun h => ⟨h.1, ?_⟩)
  exact field_append_lt (by decide) hsec hsec' (Or.inl h.2)

theorem length_timebuf {tm : Tm} (hyear : 1000 ≤ tm.year ∧ tm.year < 10000)
    (h : tm.mon < 100 ∧ tm.mday < 100 ∧ tm.hour < 100 ∧ tm.min < 100 ∧ tm.sec < 100) :
    (timebuf tm).length = 17 := by
  obtain ⟨hmon, hmday, hhour, hmin, hsec⟩ := h
  rw [timebuf, numeral_year hyear.1]
  simp only [List.length_cons, List.length_append, List.length_nil,
    length_field (by decide : 0 < 4) hyear.2, length_field (by decide : 0 < 2) hmon,
    length_field (by decide : 0 < 2) hmday, length_field (by decide : 0 < 2) hhour,
    length_field (by decide : 0 < 2) hmin, length_field (by decide : 0 < 2) hsec]

/-- A file that is opened later has a name that sorts behind, up to the year 9999. -/
theorem getLogFileName_lt {offset t u : Int} (basename : List UInt8) (ht : 0 ≤ t + offset)
    (h : t < u) (hu : (localtime offset u).year < 10000) :
    getLogFileName offset basename t < getLogFileName offset basename u := by
  have hbefore := localtime_before ht h
  obtain ⟨hyear, ha⟩ := localtime_bounds offset t
  obtain ⟨hyear', hb⟩ := localtime_bounds offset u
  have hle := year_mono ht h.le
  rw [getLogFileName, getLogFileName, List.append_assoc, List.append_assoc]
  refine List.append_left_lt (append_lt_append ?_ ?_)
  · rw [length_timebuf ⟨by omega, by omega⟩ ha, length_timebuf ⟨by omega, hu⟩ hb]
  · exact timebuf_lt hbefore (by omega) hu ha hb

example : getLogFileName 28800 [] 1709222399 = ['.', '2', '0', '2', '4', '0', '2', '2', '9', '-',
    '2', '3', '5', '9', '5', '9', '.', '.', 'l', 'o', 'g'].map Char.toUInt8 := by
  decide +kernel

/-! ## The files of a log -/

/-- `append` leaves the files there are, and may add one. -/
theorem openings_append (log : LogFile) (e : Entry) :
    log.openings <+: (log.append e.line e.now e.troll).openings := by
  obtain ⟨log', hw, hcases⟩ := log.append_cases e.line e.now e.troll
  have hsame : log'.openings = log.openings := by
    rw [openings, openings, hw.closed, hw.opened]
  rcases hcases with heq | ⟨_, heq⟩
  · rw [heq, ← hsame, rollFile]
    split
    · refine ⟨[e.troll], ?_⟩
      simp only [openings, List.map_append, List.map_singleton]
      rfl
    · exact List.prefix_rfl
  · rw [heq, hsame]

theorem openings_appends (log : LogFile) (entries : List Entry) :
    log.openings <+: (log.appends entries).openings := by
  induction entries generalizing log with
  | nil => exact List.prefix_rfl
  | cons e entries ih =>
    exact (openings_append log e).trans (ih (log.append e.line e.now e.troll))

/-- Every file is opened between the constructor and the last roll. -/
theorem openings_range {rollSize flushInterval checkEveryN now₀ : Int} {log₀ : LogFile}
    (hctor : ctor rollSize flushInterval checkEveryN now₀ = some log₀) (entries : List Entry) :
    ∀ t ∈ (log₀.appends entries).openings,
      now₀ ≤ t ∧ t ≤ (log₀.appends entries).lastRoll_ := by
  have hfirst : log₀.openings = [now₀] := by
    simp only [ctor, Option.ite_none_right_eq_some, Option.some.injEq] at hctor
    obtain ⟨_, rfl⟩ := hctor
    rfl
  have hholds := (holds_appends (Holds.of_ctor hctor) entries).1
  have hopened := hholds.opened
  obtain ⟨rest, hrest⟩ := openings_appends log₀ entries
  intro t ht
  constructor
  · rw [← hrest, hfirst] at hopened ht
    rcases List.mem_cons.mp ht with rfl | ht
    · exact Int.le_refl _
    · exact Int.le_of_lt ((List.pairwise_cons.mp hopened).1 t ht)
  · rw [hholds.lastRoll_]
    rcases List.mem_append.mp ht with ht | ht
    · exact Int.le_of_lt ((List.pairwise_append.mp hopened).2.2 t ht _ (List.mem_singleton_self _))
    · exact Int.le_of_eq (List.mem_singleton.mp ht)

/-- Streams with names of their own have files of their own. -/
theorem disk_of_nodup {Name : Type} [DecidableEq Name] {fileName : Int → Name}
    {files : List FileUtil} (hnames : (files.map fun file => fileName file.opened).Nodup)
    {file : FileUtil} (hfile : file ∈ files) :
    disk fileName files (fileName file.opened) = file.data := by
  induction files with
  | nil => cases hfile
  | cons first files ih =>
    rw [List.map_cons, List.nodup_cons] at hnames
    obtain ⟨hnew, hnames⟩ := hnames
    rcases List.mem_cons.mp hfile with rfl | hfile
    · have hnone : files.filter (fun g => fileName g.opened = fileName file.opened) = [] := by
        rw [List.filter_eq_nil_iff]
        intro g hg heq
        rw [← of_decide_eq_true heq] at hnew
        exact hnew (List.mem_map_of_mem hg)
      rw [disk, List.filter_cons_of_pos (by simp), hnone, List.flatMap_singleton]
    · have hother : fileName first.opened ≠ fileName file.opened := by
        intro heq
        rw [heq] at hnew
        exact hnew (List.mem_map_of_mem hfile)
      rw [disk, List.filter_cons_of_neg (by simpa using hother)]
      exact ih hnames hfile

/-- However the clock runs, the files of a log have names that sort in the order of their
    creation, and read one after the other in this order they are the lines that were appended.
    Local time is a fixed number of seconds ahead of UTC, and the constructor runs after the
    beginning of 1970 and the last roll before the end of 9999 by it. -/
theorem names_sorted {offset : Int} {basename : List UInt8}
    {rollSize flushInterval checkEveryN now₀ : Int} {log₀ log : LogFile}
    (hctor : ctor rollSize flushInterval checkEveryN now₀ = some log₀) {entries : List Entry}
    (hlog : log₀.appends entries = log) (hfrom : 0 ≤ now₀ + offset)
    (hto : (localtime offset log.lastRoll_).year < 10000) :
    (log.files.map fun file => getLogFileName offset basename file.opened).Pairwise (· < ·) ∧
      (log.files.flatMap fun file => disk (getLogFileName offset basename) log.files
        (getLogFileName offset basename file.opened)) = (entries.map Entry.line).flatten := by
  have hrange := openings_range hctor entries
  have hholds := (holds_appends (Holds.of_ctor hctor) entries).1
  rw [hlog] at hrange hholds
  have hsorted : (log.files.map fun file =>
      getLogFileName offset basename file.opened).Pairwise (· < ·) := by
    have hopened := log.map_opened_files ▸ hholds.opened
    rw [List.pairwise_map] at hopened ⊢
    refine hopened.imp_of_mem ?_
    intro f g hf hg hlt
    have hmem : ∀ file ∈ log.files, file.opened ∈ log.openings := by
      intro file hfile
      rw [← log.map_opened_files]
      exact List.mem_map_of_mem hfile
    obtain ⟨hlow, _⟩ := hrange _ (hmem f hf)
    obtain ⟨_, hhigh⟩ := hrange _ (hmem g hg)
    refine getLogFileName_lt basename (by omega) hlt ?_
    exact (year_mono (by omega) hhigh).trans_lt hto
  refine ⟨hsorted, ?_⟩
  have hnames : (log.files.map fun file => getLogFileName offset basename file.opened).Nodup := by
    refine hsorted.imp ?_
    rintro a _ hlt rfl
    exact List.lt_irrefl a hlt
  obtain ⟨done, current, hlines, hclosed, hdata⟩ := hholds.grouped
  rw [List.flatMap_def, List.map_congr_left fun file hfile => disk_of_nodup hnames hfile, files,
    List.map_append, hclosed, List.map_singleton, hdata]
  rw [List.nil_append] at hlines
  rw [hlines, List.flatten_append, List.flatten_append, List.flatten_singleton]
  rw [List.flatten_flatten]

/-- The log rolls over at the end of 2023, eight hours ahead of UTC. -/
theorem names_sorted_new_year :
    ∃ log₀ log : LogFile, ctor 4 3 1024 1704038399 = some log₀ ∧
      log₀.appends [⟨[1, 2, 3], 0, 0⟩, ⟨[4, 5], 0, 1704038400⟩, ⟨[6], 0, 0⟩] = log ∧
      (log.files.map fun file => (localtime 28800 file.opened).year) = [2023, 2024] ∧
      (log.files.map fun file => getLogFileName 28800 [] file.opened).Pairwise (· < ·) := by
  have hctor : ctor 4 3 1024 1704038399 = some _ := rfl
  have hsorted := @names_sorted 28800 [] _ _ _ _ _ _ hctor _
    (show appends _ [⟨[1, 2, 3], 0, 0⟩, ⟨[4, 5], 0, 1704038400⟩, ⟨[6], 0, 0⟩] = _ from rfl)
    (by decide : 0 ≤ 1704038399 + (28800 : Int)) (by decide +kernel)
  exact ⟨_, _, hctor, rfl, by decide +kernel, hsorted.1⟩

end LogFile
