import Mymuduo.Logger.Logging
import Mymuduo.Net.TcpConnection

/-! # The default message callback

    A server without a message callback of its own uses `defaultMessageCallback`, which
    logs what was received.  The data leaves the input buffer in the streamed expression
    itself, and LOG_TRACE evaluates that expression only where the global level is TRACE.
-/

namespace WFBuffer

def retrieveAllAsString (b : WFBuffer) : List Byte × WFBuffer :=
  (b.content, b.retrieve b.readableBytes)

/-- This is the buffer's own function. -/
theorem retrieveAllAsString_eq (b : WFBuffer) :
    b.buf.retrieveAllAsString = some (b.retrieveAllAsString.1, b.retrieveAllAsString.2.buf) :=
  Buffer.retrieveAllAsString_spec b.buf b.wf

theorem retrieveAllAsString_content (b : WFBuffer) : b.retrieveAllAsString.2.content = [] := by
  rw [retrieveAllAsString, retrieve_content, readableBytes_eq, List.drop_length]

theorem readFd_read (b : WFBuffer) (data : List Byte) :
    (b.readFd (.read data)).1 = data.length ∧
      (b.readFd (.read data)).2.content = b.content ++ data := by
  obtain ⟨b', hread, _, hcontent⟩ := Buffer.readFd_spec b.buf data b.wf
  constructor
  · simp [readFd, hread]
  · simpa [readFd, content, hread] using hcontent

end WFBuffer

namespace DefaultCallback

open Logger

/-! ## The callback -/

/-- The condition of LOG_TRACE. -/
def traces (g_logLevel : LogLevel) : Bool := decide (g_logLevel.value ≤ LogLevel.TRACE.value)

/-- `defaultMessageCallback(conn, buffer, receiveTime)`: the texts streamed into the log
    record, where there is one, and the buffer afterwards. -/
def defaultMessageCallback (g_logLevel : LogLevel) (buffer : WFBuffer) :
    Option (List (List UInt8)) × WFBuffer :=
  if traces g_logLevel then
    let (str, after) := buffer.retrieveAllAsString
    (some [['r', 'e', 'c', 'e', 'i', 'v', 'e', ' '].map Char.toUInt8,
      LogStream.formatInteger buffer.readableBytes,
      [' ', 'b', 'y', 't', 'e', 's', ':', ' '].map Char.toUInt8, str], after)
  else (none, buffer)

/-- `handleRead` with its call of `messageCallback_`. -/
def handleRead (g_logLevel : LogLevel) (c : TcpConnection) (r : ReadvResult) : TcpConnection :=
  let (c, effects) := c.handleRead r
  if .messageCallback ∈ effects then
    { c with inputBuffer_ := (defaultMessageCallback g_logLevel c.inputBuffer_).2 }
  else c

/-- The content of `inputBuffer_` after each call. -/
def inputs (g_logLevel : LogLevel) : TcpConnection → List ReadvResult → List (List Byte)
  | _, [] => []
  | c, r :: rs =>
    let c := handleRead g_logLevel c r
    c.inputBuffer_.content :: inputs g_logLevel c rs

/-- The bytes that a read delivers. -/
def delivered : ReadvResult → List Byte
  | .read data => data
  | .failed _ => []

/-! ## One call -/

theorem handleRead_failed (g_logLevel : LogLevel) (c : TcpConnection) (e : Errno) :
    (handleRead g_logLevel c (.failed e)).inputBuffer_.content = c.inputBuffer_.content :=
  rfl

/-- What was received is dropped or kept, by the level. -/
theorem handleRead_content (g_logLevel : LogLevel) (c : TcpConnection) (r : ReadvResult) :
    (handleRead g_logLevel c r).inputBuffer_.content =
      if traces g_logLevel = true ∧ delivered r ≠ [] then []
      else c.inputBuffer_.content ++ delivered r := by
  cases r with
  | failed e =>
    rw [handleRead_failed, if_neg (fun h => h.2 rfl)]
    exact (List.append_nil _).symm
  | read data =>
    obtain ⟨hret, hcontent⟩ := c.inputBuffer_.readFd_read data
    cases data with
    | nil =>
      -- the end of the file: handleClose, which leaves the buffer alone
      rw [if_neg (fun h => h.2 rfl)]
      have hzero : (c.inputBuffer_.readFd (.read [])).1 = 0 := hret
      simp only [handleRead, TcpConnection.handleRead, hzero]
      exact hcontent
    | cons b data =>
      have hpos : 0 < (c.inputBuffer_.readFd (.read (b :: data))).1 := by
        rw [hret, List.length_cons]
        omega
      simp only [handleRead, TcpConnection.handleRead, if_pos hpos, defaultMessageCallback,
        delivered]
      by_cases htrace : traces g_logLevel = true
      · simp [htrace, WFBuffer.retrieveAllAsString_content]
      · simp [htrace, hcontent]

/-! ## Two runs -/

/-- Where every call traces or receives nothing, nothing is left after any of them. -/
theorem inputs_eq_nil {g_logLevel : LogLevel} {c : TcpConnection}
    (hc : c.inputBuffer_.content = []) {rs : List ReadvResult}
    (h : traces g_logLevel = true ∨ ∀ r ∈ rs, delivered r = []) :
    ∀ x ∈ inputs g_logLevel c rs, x = [] := by
  induction rs generalizing c with
  | nil => intro x hx; cases hx
  | cons r rs ih =>
    have hnext : (handleRead g_logLevel c r).inputBuffer_.content = [] := by
      rw [handleRead_content]
      by_cases hr : delivered r = []
      · rw [if_neg (fun h => h.2 hr), hc, hr]
        rfl
      · have htrace := h.resolve_right fun hrs => hr (hrs r List.mem_cons_self)
        rw [if_pos ⟨htrace, hr⟩]
    have hrest : traces g_logLevel = true ∨ ∀ q ∈ rs, delivered q = [] :=
      h.imp_right fun hrs q hq => hrs q (List.mem_cons_of_mem r hq)
    intro x hx
    rcases List.mem_cons.mp hx with rfl | hx
    · exact hnext
    · exact ih hnext hrest x hx

theorem length_inputs (g_logLevel : LogLevel) (c : TcpConnection) (rs : List ReadvResult) :
    (inputs g_logLevel c rs).length = rs.length := by
  induction rs generalizing c with
  | nil => rfl
  | cons r rs ih => rw [inputs, List.length_cons, ih, List.length_cons]

/-- Without the trace the first byte received stays. -/
theorem silent_of_inputs {g_logLevel : LogLevel} (h : traces g_logLevel = false)
    {c : TcpConnection} {rs : List ReadvResult} (hempty : ∀ x ∈ inputs g_logLevel c rs, x = []) :
    ∀ r ∈ rs, delivered r = [] := by
  induction rs generalizing c with
  | nil => intro r hr; cases hr
  | cons r rs ih =>
    have hfirst := hempty _ List.mem_cons_self
    rw [handleRead_content, if_neg (fun hand => by rw [h] at hand; cases hand.1)] at hfirst
    intro q hq
    rcases List.mem_cons.mp hq with rfl | hq
    · exact (List.append_eq_nil_iff.mp hfirst).2
    · exact ih (fun x hx => hempty x (List.mem_cons_of_mem _ hx)) q hq

/-- For two values of the global level and any sequence of reads, the input buffer is
    the same in both runs after each of them, namely empty, if and only if both levels
    are TRACE or nothing is received. -/
theorem default_callback_iff (level₁ level₂ : LogLevel) {c : TcpConnection}
    (hc : c.inputBuffer_.content = []) (rs : List ReadvResult) :
    (inputs level₁ c rs = inputs level₂ c rs ∧ ∀ x ∈ inputs level₁ c rs, x = []) ↔
      (level₁ = .TRACE ∧ level₂ = .TRACE) ∨ ∀ r ∈ rs, delivered r = [] := by
  have htrace : ∀ level : LogLevel, traces level = true ↔ level = .TRACE := by
    intro level
    cases level <;> decide
  constructor
  · intro h
    by_cases h₁ : traces level₁ = true
    · by_cases h₂ : traces level₂ = true
      · exact Or.inl ⟨(htrace level₁).mp h₁, (htrace level₂).mp h₂⟩
      · exact Or.inr (silent_of_inputs (by simpa using h₂) (h.1 ▸ h.2))
    · exact Or.inr (silent_of_inputs (by simpa using h₁) h.2)
  · intro h
    have hempty : ∀ level, level = level₁ ∨ level = level₂ → ∀ x ∈ inputs level c rs, x = [] := by
      intro level hlevel
      apply inputs_eq_nil hc
      rcases h with ⟨h₁, h₂⟩ | hrs
      · left
        rw [htrace]
        rcases hlevel with rfl | rfl
        · exact h₁
        · exact h₂
      · exact Or.inr hrs
    refine ⟨?_, hempty level₁ (Or.inl rfl)⟩
    -- two lists of empty contents, one for each call
    rw [List.eq_replicate_of_mem (hempty level₁ (Or.inl rfl)),
      List.eq_replicate_of_mem (hempty level₂ (Or.inr rfl)), length_inputs, length_inputs]

/-- A new connection at the level TRACE in both runs: two chunks and the end of the file. -/
theorem default_callback_iff_trace :
    let c : TcpConnection := { channel_ := { fd_ := 7 } }
    let rs : List ReadvResult := [.read [1, 2], .read [3], .read []]
    c.inputBuffer_.content = [] ∧ inputs .TRACE c rs = inputs .TRACE c rs ∧
      ∀ x ∈ inputs .TRACE c rs, x = [] := by
  have hc : ({ channel_ := { fd_ := 7 } } : TcpConnection).inputBuffer_.content = [] :=
    WFBuffer.ctor_content Buffer.kInitialSize
  exact ⟨hc, (default_callback_iff .TRACE .TRACE hc _).mpr (Or.inl ⟨rfl, rfl⟩)⟩

/-- At the default level INFO the chunk stays in the buffer, at TRACE it does not. -/
theorem default_callback_keeps :
    let c : TcpConnection := { channel_ := { fd_ := 7 } }
    ¬ (inputs .TRACE c [.read [1]] = inputs .INFO c [.read [1]] ∧
      ∀ x ∈ inputs .TRACE c [.read [1]], x = []) := by
  intro c h
  have hinfo : traces .INFO = false := rfl
  have hsilent := silent_of_inputs hinfo (h.1 ▸ h.2)
  exact absurd (hsilent (.read [1]) List.mem_cons_self) (by decide)

end DefaultCallback
