import Mymuduo.Logger.LogStream

/-! # Logger

    A log record is built in a `LogStream` of its own: the time, the level, for TRACE and
    DEBUG the function, then what the user streams into it, and in the destructor the
    trailer with the file and the line.  The destructor hands the buffer to `g_output`.

    All constructors pass 0 as `savedErrno`, so the text for an error is never added.
-/

namespace Logger

open LogStream

inductive LogLevel where
  | TRACE
  | DEBUG
  | INFO
  | WARN
  | ERROR
  | FATAL
  | NUM_LOG_LEVELS
  deriving DecidableEq, Repr

/-- The value of the enumerator. -/
def LogLevel.value : LogLevel → Nat
  | .TRACE => 0
  | .DEBUG => 1
  | .INFO => 2
  | .WARN => 3
  | .ERROR => 4
  | .FATAL => 5
  | .NUM_LOG_LEVELS => 6

/-- `LogLevelName[level]`; the array has no entry for `NUM_LOG_LEVELS`. -/
def LogLevelName : LogLevel → List UInt8
  | .TRACE => ['T', 'R', 'A', 'C', 'E', ' '].map Char.toUInt8
  | .DEBUG => ['D', 'E', 'B', 'U', 'G', ' '].map Char.toUInt8
  | .INFO => ['I', 'N', 'F', 'O', ' ', ' '].map Char.toUInt8
  | .WARN => ['W', 'A', 'R', 'N', ' ', ' '].map Char.toUInt8
  | .ERROR => ['E', 'R', 'R', 'O', 'R', ' '].map Char.toUInt8
  | .FATAL => ['F', 'A', 'T', 'A', 'L', ' '].map Char.toUInt8
  | .NUM_LOG_LEVELS => []

/-- `SourceFile(filename)`: what follows the last slash. -/
def basename (filename : List UInt8) : List UInt8 :=
  (filename.reverse.takeWhile (· ≠ '/'.toUInt8)).reverse

/-! ## The parts of a record -/

/-- `struct tm`, with the year and the month as they are printed. -/
structure Tm where
  year : Nat
  mon : Nat
  mday : Nat
  hour : Nat
  min : Nat
  sec : Nat

/-- A number in a field of the given width. -/
def field (fill : Char) (width n : Nat) : List UInt8 :=
  List.replicate (width - (numeral n).length) fill.toUInt8 ++ numeral n

/-- `"%4d/%02d/%02d %02d:%02d:%02d"`. -/
def timeText (tm : Tm) : List UInt8 :=
  field ' ' 4 tm.year ++ '/'.toUInt8 :: field '0' 2 tm.mon ++ '/'.toUInt8 ::
    field '0' 2 tm.mday ++ ' '.toUInt8 :: field '0' 2 tm.hour ++ ':'.toUInt8 ::
      field '0' 2 tm.min ++ ':'.toUInt8 :: field '0' 2 tm.sec

/-- `".%06d "`. -/
def microText (microseconds : Nat) : List UInt8 :=
  '.'.toUInt8 :: field '0' 6 microseconds ++ [' '.toUInt8]

/-- One use of a LOG macro. -/
structure Event where
  level : LogLevel
  hlevel : level ≠ .NUM_LOG_LEVELS
  /-- `__FILE__`. -/
  file : List UInt8
  /-- `__LINE__`, an `int`. -/
  line : Int
  hline : -2 ^ 31 ≤ line ∧ line < 2 ^ 31
  /-- `__func__`, which only LOG_TRACE and LOG_DEBUG pass. -/
  func : Option (List UInt8)
  tm : Tm
  microseconds : Nat

namespace Event

variable (e : Event)

theorem line_range : -2 ^ 63 ≤ e.line ∧ e.line < 2 ^ 64 := by
  have := e.hline
  omega

/-- What the constructor streams. -/
def header : List Item :=
  [.string ((timeText e.tm).take 19), .string ((microText e.microseconds).take 8),
    .string ((LogLevelName e.level).take 6)] ++
  match e.func with
  | some func => [.cstring (some func), .char ' '.toUInt8]
  | none => []

/-- What `finish` streams up to the line number. -/
def lead : List Item :=
  [.cstring (some ([' ', '-', ' '].map Char.toUInt8)), .string (basename e.file),
    .char ':'.toUInt8]

/-- What `finish` streams. -/
def footer : List Item :=
  e.lead ++ [.integer e.line e.line_range, .char '\n'.toUInt8]

/-- The constructor, the items of the user and `finish`, up to the call of
    `g_output`. -/
def ctor : SmallBuffer := shlAll .ctor e.header

def finish (b : SmallBuffer) : SmallBuffer := shlAll b e.footer

/-- The bytes the destructor passes to `g_output`. -/
def output (items : List Item) : List UInt8 := (e.finish (shlAll e.ctor items)).data

/-- `" - <basename>:<line>"` and the end of the line. -/
def trailer : List UInt8 :=
  [' ', '-', ' '].map Char.toUInt8 ++ basename e.file ++ ':'.toUInt8 :: decimal e.line ++
    ['\n'.toUInt8]

/-! ## The trailer -/

theorem rendering_line : (Item.integer e.line e.line_range).rendering = decimal e.line := by
  have hline := e.hline
  exact formatInteger_eq (by omega)

theorem length_lead : (renderings e.lead).length = (basename e.file).length + 4 := by
  simp [renderings, lead, Item.rendering]

theorem renderings_footer : renderings e.footer = e.trailer := by
  have hline := e.rendering_line
  rw [footer, renderings_append, renderings_cons, hline]
  simp [renderings, lead, trailer, Item.rendering]

theorem length_decimal_line : (decimal e.line).length ≤ 11 := by
  have hline := e.hline
  exact length_decimal_le (by decide : 0 < 10) (by omega)

/-- Behind the base name and its separators the line number still needs
    `kMaxNumericSize` bytes. -/
theorem finish_complete {b : SmallBuffer}
    (h : b.data.length + (basename e.file).length + 52 ≤ kSmallBuffer) :
    (e.finish b).data = b.data ++ e.trailer := by
  have hlead := e.length_lead
  have hfront : (shlAll b e.lead).data = b.data ++ renderings e.lead := by
    apply shlAll_complete
    unfold FixedBuffer.avail kMaxNumericSize
    omega
  have hnumber : (shl (shlAll b e.lead) (.integer e.line e.line_range)).data =
      (b.data ++ renderings e.lead) ++ decimal e.line := by
    have hfits : (Item.integer e.line e.line_range).FitsIn (shlAll b e.lead).avail := by
      rw [Item.fitsIn_of_numeric rfl, FixedBuffer.avail, hfront, List.length_append]
      unfold kMaxNumericSize
      omega
    rw [shl_of_fits hfits, hfront, rendering_line]
  -- the number is short, and leaves a byte for the end of the line
  have hend : (Item.char '\n'.toUInt8).FitsIn
      (shl (shlAll b e.lead) (.integer e.line e.line_range)).avail := by
    have hdigits := e.length_decimal_line
    rw [Item.fitsIn_of_text (by decide), FixedBuffer.avail, hnumber, List.length_append,
      List.length_append, Item.rendering, List.length_singleton]
    omega
  rw [finish, footer, shlAll_append, shlAll_cons, shlAll_cons, shlAll_nil, shl_of_fits hend,
    hnumber, ← renderings_footer, footer, renderings_append, renderings_cons, rendering_line,
    List.append_assoc, List.append_assoc]
  rfl

theorem room_of_complete {b : SmallBuffer} (h : (e.finish b).data = b.data ++ e.trailer) :
    b.data.length + (basename e.file).length + 52 ≤ kSmallBuffer := by
  rw [← renderings_footer] at h
  have hne : (Item.integer e.line e.line_range).rendering ≠ [] := by
    rw [rendering_line]
    exact decimal_ne_nil e.line
  obtain ⟨hfits, hlength⟩ := fitsIn_of_complete hne h
  have hlead := e.length_lead
  rw [Item.fitsIn_of_numeric rfl, FixedBuffer.avail] at hfits
  unfold kMaxNumericSize at hfits
  omega

theorem footer_ne_nil (hname : basename e.file ≠ []) :
    ∀ item ∈ e.footer, item.rendering ≠ [] := by
  have hline : (Item.integer e.line e.line_range).rendering ≠ [] := by
    rw [rendering_line]
    exact decimal_ne_nil e.line
  intro item hitem
  simp only [footer, lead, List.cons_append, List.nil_append, List.mem_cons, List.not_mem_nil,
    or_false] at hitem
  rcases hitem with rfl | rfl | rfl | rfl | rfl
  · simp [Item.rendering]
  · exact hname
  · simp [Item.rendering]
  · exact hline
  · simp [Item.rendering]

/-- A message that takes all but the last byte leaves nothing for the trailer. -/
theorem finish_full {b : SmallBuffer} (hname : basename e.file ≠ []) (hfull : b.avail ≤ 1) :
    e.finish b = b :=
  shlAll_full hfull (e.footer_ne_nil hname)

theorem output_kept (items : List Item) :
    e.output items = renderings (kept kSmallBuffer (e.header ++ items ++ e.footer)) := by
  have hall : e.output items = (shlAll .ctor (e.header ++ items ++ e.footer)).data := by
    rw [output, finish, ctor, shlAll_append, shlAll_append]
  rw [hall, shlAll_kept, FixedBuffer.ctor_data, List.nil_append]
  rfl

end Event

/-- What the destructor hands over is what was streamed before it, with the complete
    trailer behind it if and only if the buffer still has room for the base name and 52
    bytes.  In particular a record whose texts fit together with these is complete.  In any
    case it consists of whole pieces, and what is missing found no room. -/
theorem record_trailer (e : Event) (items : List Item) :
    (shlAll e.ctor items).data <+: e.output items ∧
    (e.output items = (shlAll e.ctor items).data ++ e.trailer ↔
      (shlAll e.ctor items).data.length + (basename e.file).length + 52 ≤ kSmallBuffer) ∧
    ((renderings e.header).length + (renderings items).length + (basename e.file).length + 52 ≤
        kSmallBuffer →
      e.output items = renderings e.header ++ renderings items ++ e.trailer) ∧
    e.output items = renderings (kept kSmallBuffer (e.header ++ items ++ e.footer)) := by
  refine ⟨prefix_shlAll _ _, ⟨e.room_of_complete, e.finish_complete⟩, ?_, e.output_kept items⟩
  intro hroom
  have hbefore : (shlAll e.ctor items).data = renderings e.header ++ renderings items := by
    have hempty : (FixedBuffer.ctor : SmallBuffer).avail = kSmallBuffer := rfl
    have hall : (shlAll .ctor (e.header ++ items)).data =
        (FixedBuffer.ctor : SmallBuffer).data ++ renderings (e.header ++ items) := by
      apply shlAll_complete
      rw [renderings_append, List.length_append, hempty]
      unfold kMaxNumericSize
      omega
    rw [shlAll_append, renderings_append, FixedBuffer.ctor_data, List.nil_append] at hall
    rw [Event.ctor, hall]
  rw [← hbefore]
  apply e.finish_complete
  rw [hbefore, List.length_append]
  omega

/-- Line 1 of `a.cc`. -/
def firstLine : Event where
  level := .INFO
  hlevel := by decide
  file := ['a', '.', 'c', 'c'].map Char.toUInt8
  line := 1
  hline := by decide
  func := none
  tm := ⟨2024, 1, 1, 0, 0, 0⟩
  microseconds := 0

/-- A message up to the last byte of the buffer is all that follows the header. -/
theorem output_full {e : Event} (hname : basename e.file ≠ []) {message : List UInt8}
    (hlen : e.ctor.data.length + message.length + 1 = kSmallBuffer) :
    e.output [.string message] = e.ctor.data ++ message := by
  have hfits : (Item.string message).FitsIn e.ctor.avail := by
    rw [Item.fitsIn_of_text (by simp [Item.numeric]), Item.rendering, FixedBuffer.avail]
    omega
  have hdata : (shlAll e.ctor [.string message]).data = e.ctor.data ++ message := by
    rw [shlAll_cons, shlAll_nil, shl_of_fits hfits, Item.rendering]
  have hfull : (shlAll e.ctor [.string message]).avail ≤ 1 := by
    rw [FixedBuffer.avail, hdata, List.length_append]
    omega
  rw [Event.output, e.finish_full hname hfull, hdata]

/-- An INFO record with a message of 4062 bytes has no trailer, and does not even end
    the line. -/
theorem record_without_trailer :
    ∃ (e : Event) (items : List Item), e.file.length < 1000 ∧
      (∀ item ∈ items, '\n'.toUInt8 ∉ item.rendering) ∧ ¬ e.trailer <:+ e.output items := by
  obtain ⟨message, hmessage⟩ : ∃ message : List UInt8,
      message = List.replicate 4061 'x'.toUInt8 ++ ['x'.toUInt8] := ⟨_, rfl⟩
  refine ⟨firstLine, [.string message], by decide, ?_, ?_⟩
  · intro item hitem
    rw [List.mem_singleton.mp hitem, Item.rendering, hmessage, ← List.replicate_succ']
    intro hmem
    exact absurd (List.eq_of_mem_replicate hmem) (by decide)
  · have hctor : firstLine.ctor.data.length = 33 := by decide +kernel
    have hlen : firstLine.ctor.data.length + message.length + 1 = kSmallBuffer := by
      rw [hctor, hmessage, List.length_append, List.length_replicate]
      rfl
    intro hsuffix
    obtain ⟨text, htext⟩ := hsuffix
    rw [output_full (by decide) hlen, hmessage, Event.trailer] at htext
    -- the record ends with the message
    have hlast := congrArg List.getLast? htext
    rw [← List.append_assoc, List.getLast?_concat, ← List.append_assoc,
      List.getLast?_concat] at hlast
    exact absurd hlast (by decide)

end Logger
