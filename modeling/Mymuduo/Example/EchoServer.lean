import Mymuduo.Framework.Machine
import Mymuduo.Net.DefaultCallback

/-! # The echo server and one request of the stress client

    `example/testserver.cc` answers the first message of a connection and shuts the
    connection down; `example/stress_client.cc` sends a message of fixed size and waits for
    as many bytes.  One connection with both ends: the client is in `writeAll` or in
    `readExpected`, one step for each `send` and `recv`, and the server handles the events
    of its `TcpConnection`, with any outcome of each `readv` and `write`.

    The server echoes what its first read delivered, and `shutdown` makes every later `send`
    of the connection a no-op.  So the client gets its message back exactly if the first
    read delivers all of it, which is at most what `readFd` offers to `readv`.
-/

namespace EchoServer

open TcpConnection

/-! ## The server's callback -/

/-- `send(buf)`, called in the loop thread. -/
def send (c : TcpConnection) (buf : List Byte) (w : WriteResult) : TcpConnection × List Effect :=
  if c.state_ = .kConnected then c.sendInLoop buf w else (c, [])

/-- `shutdown()`, called in the loop thread: `runInLoop` runs `shutdownInLoop` at once. -/
def shutdown (c : TcpConnection) : TcpConnection × List Effect :=
  if c.shutdown.2 then c.shutdown.1.shutdownInLoop else (c.shutdown.1, [])

/-- `onMessage(conn, buf, time)`; `w` is the outcome of the `write` in `send`. -/
def onMessage (c : TcpConnection) (w : WriteResult) : TcpConnection × List Effect :=
  let (msg, buf) := c.inputBuffer_.retrieveAllAsString
  let (c, sent) := send { c with inputBuffer_ := buf } msg w
  let (c, fin) := shutdown c
  (c, sent ++ fin)

/-- `handleRead` with its call of `messageCallback_`. -/
def handleRead (c : TcpConnection) (r : ReadvResult) (w : WriteResult) :
    TcpConnection × List Effect :=
  let (c, effects) := c.handleRead r
  if .messageCallback ∈ effects then onMessage c w else (c, effects)

/-! ## The client's request -/

/-- Where `worker` is in a request, from the return of `connect` on. -/
inductive Phase where
  | writeAll
  | readExpected
  | success
  | sendFail
  | recvFail
  deriving DecidableEq, Repr

structure Client where
  message : List Byte
  phase : Phase := .writeAll
  written : Nat := 0
  /-- What `recv` has delivered; `total` of `readExpected` is its length. -/
  received : List Byte := []

namespace Client

/-- One round of the loop of `writeAll`: `send` returned `n`. -/
def send (c : Client) (n : Int) : Client :=
  if n ≤ 0 then { c with phase := .sendFail }
  else
    { c with
      written := c.written + n.toNat
      phase := if c.written + n.toNat < c.message.length then .writeAll else .readExpected }

/-- The buffer of `readExpected`. -/
def recvSize : Nat := 4096

/-- `want` in `readExpected`. -/
def want (c : Client) : Nat := min recvSize (c.message.length - c.received.length)

/-- One round of the loop of `readExpected`: `recv` returned `n`, and these bytes. -/
def recv (c : Client) (n : Int) (data : List Byte) : Client :=
  if n ≤ 0 then { c with phase := .recvFail }
  else
    { c with
      received := c.received ++ data
      phase := if c.received.length + data.length < c.message.length then .readExpected
        else .success }

/-- The request is over, and the descriptor closed. -/
def Closed (c : Client) : Prop := c.phase ≠ .writeAll ∧ c.phase ≠ .readExpected

instance (c : Client) : Decidable c.Closed := inferInstanceAs (Decidable (_ ∧ _))

end Client

/-! ## Both ends -/

/-- The sending direction of the server's socket. -/
structure Wire where
  /-- What the kernel has accepted. -/
  accepted : List Byte := []
  /-- `shutdownWrite` has been called. -/
  fin : Bool := false
  /-- A `write` was made after it. -/
  lateWrite : Bool := false

def Wire.apply (w : Wire) : Effect → Wire
  | .write data r =>
    { w with accepted := w.accepted ++ r.accepted data, lateWrite := w.lateWrite || w.fin }
  | .shutdownWrite => { w with fin := true }
  | _ => w

structure State where
  conn : TcpConnection
  client : Client
  /-- Sent by the client and not yet read by the server. -/
  toServer : List Byte := []
  wire : Wire := {}
  /-- The message that `onMessage` has sent back. -/
  first : Option (List Byte) := none
  /-- The direct write of that message failed with EPIPE or ECONNRESET. -/
  fault : Bool := false

/-- Accepted by the server's kernel and not yet received by the client. -/
def State.toClient (s : State) : List Byte := s.wire.accepted.drop s.client.received.length

/-- Store the connection and carry out what a member function did. -/
def State.perform (s : State) (res : TcpConnection × List Effect) : State :=
  { s with conn := res.1, wire := res.2.foldl Wire.apply s.wire }

/-- What `readv` can deliver: bytes in their order, or the end of the stream once the
    client has closed and everything is read. -/
def Readable (s : State) : ReadvResult → Prop
  | .failed _ => True
  | .read data =>
    data <+: s.toServer ∧ data.length ≤ s.conn.inputBuffer_.buf.readvOffered ∧
      (data = [] → s.client.Closed ∧ s.toServer = [])

instance (s : State) : (r : ReadvResult) → Decidable (Readable s r)
  | .failed _ => isTrue trivial
  | .read _ => inferInstanceAs (Decidable (_ ∧ _))

inductive Label where
  | send (n : Int)
  | recv (n : Int)
  | connectionEstablished
  | handleRead (r : ReadvResult) (w : WriteResult)
  | handleWrite (w : WriteResult)
  | handleClose
  | connectionDestoryed
  deriving DecidableEq, Repr

/-- The bytes a read takes off the stream. -/
def taken : ReadvResult → Nat
  | .failed _ => 0
  | .read data => data.length

/-- `handleRead` on the connection, and what the two ends see of it. -/
def State.handleRead (s : State) (r : ReadvResult) (w : WriteResult) : State :=
  let c := (s.conn.handleRead r).1
  let echoes := .messageCallback ∈ (s.conn.handleRead r).2 ∧ c.state_ = .kConnected
  { s.perform (EchoServer.handleRead s.conn r w) with
    toServer := s.toServer.drop (taken r)
    first := if echoes then some c.inputBuffer_.content else s.first
    fault := if echoes then decide (c.DirectFault w) else s.fault }

def next (s : State) : Label → Option State
  | .send n =>
    if s.client.phase = .writeAll ∧ n ≤ (s.client.message.length - s.client.written : Nat) then
      some { s with
        client := s.client.send n
        toServer := s.toServer ++ (s.client.message.drop s.client.written).take n.toNat }
    else none
  | .recv n =>
    -- a failure, a timeout or the end of the stream at any time
    if s.client.phase = .readExpected ∧ n ≤ s.client.want ∧ n ≤ s.toClient.length then
      some { s with client := s.client.recv n (s.toClient.take n.toNat) }
    else none
  | .connectionEstablished =>
    if s.conn.state_ = .kConnecting then some (s.perform s.conn.connectionEstablished) else none
  -- the channel is in the poller from `connectionEstablished` on
  | .handleRead r w =>
    if s.conn.state_ ≠ .kConnecting ∧ Readable s r ∧
        w.Possible (s.conn.handleRead r).1.inputBuffer_.content.length then
      some (s.handleRead r w)
    else none
  | .handleWrite w =>
    if s.conn.state_ ≠ .kConnecting ∧ w.Possible s.conn.outputBuffer_.content.length then
      some (s.perform (s.conn.handleWrite w))
    else none
  | .handleClose =>
    if s.conn.state_ ≠ .kConnecting then some (s.perform s.conn.handleClose) else none
  | .connectionDestoryed => some (s.perform s.conn.connectionDestoryed)

/-- A new connection and a message that is not empty. -/
def machine : Machine State Label where
  init := fun s =>
    ∃ (fd : Nat) (wc : Bool) (message : List Byte), message ≠ [] ∧
      s = { conn := { channel_ := { fd_ := fd }, writeCompleteCallback_ := wc }
            client := { message := message } }
  next := next

/-! ## What the member functions do -/

theorem sendInLoop_inputBuffer_ (c : TcpConnection) (data : List Byte) (r : WriteResult) :
    (c.sendInLoop data r).1.inputBuffer_ = c.inputBuffer_ := by
  unfold sendInLoop
  split
  · rfl
  · simp only
    split
    · unfold bufferRest
      simp only
      split <;> rfl
    · rfl

/-- What is accepted or buffered of a message sent on an idle connection. -/
theorem sendInLoop_idle {c : TcpConnection} {data : List Byte} {r : WriteResult}
    (hs : c.state_ = .kConnected) (hr : r.Possible data.length)
    (hout : c.outputBuffer_.content = []) :
    acceptedBytes (c.sendInLoop data r).2 ++ (c.sendInLoop data r).1.outputBuffer_.content =
      if c.DirectFault r then [] else data := by
  have hne : c.state_ ≠ .kDisconnected := by
    rw [hs]
    decide
  split
  · rename_i hfault
    have hret : r.ret ≤ 0 := by
      have := hfault.2.2.1
      omega
    rw [sendInLoop_fault hfault]
    simp [acceptedBytes_of_ret_nonpos hret, hout]
  · rename_i hfault
    rw [sendInLoop_output c data r (fun _ => hr) hne (fun h => absurd h hfault), hout,
      List.nil_append]

/-- `shutdown` sends the FIN at once, or leaves it to the `handleWrite` that drains the
    buffer. -/
theorem shutdown_connected {c : TcpConnection} (hs : c.state_ = .kConnected) :
    shutdown c = ({ c with state_ := .kDisconnecting },
      if c.channel_.isWriting then [] else [.shutdownWrite]) := by
  unfold shutdown TcpConnection.shutdown shutdownInLoop
  simp only [hs, if_true]
  split <;> rfl

/-- Only the first message is answered: later ones find the connection shut down. -/
theorem onMessage_not_connected {c : TcpConnection} (hs : c.state_ ≠ .kConnected)
    (w : WriteResult) :
    onMessage c w = ({ c with inputBuffer_ := c.inputBuffer_.retrieveAllAsString.2 }, []) := by
  unfold onMessage send shutdown TcpConnection.shutdown
  simp [hs]

/-- The connection after the answer to the first message, and what was done. -/
structure Answered (c c' : TcpConnection) (w : WriteResult) (effects : List Effect) : Prop where
  state : c'.state_ = .kDisconnecting
  input : c'.inputBuffer_.content = []
  watched : c'.Watched
  wire : ∃ sent, effects = sent ++ (if c'.channel_.isWriting then [] else [.shutdownWrite]) ∧
    Effect.shutdownWrite ∉ sent ∧
    acceptedBytes sent ++ c'.outputBuffer_.content =
      if c.DirectFault w then [] else c.inputBuffer_.content

theorem onMessage_connected {c : TcpConnection} {w : WriteResult} (hs : c.state_ = .kConnected)
    (hr : w.Possible c.inputBuffer_.content.length) (hout : c.outputBuffer_.content = [])
    (hidle : c.channel_.isWriting = false) :
    Answered c (onMessage c w).1 w (onMessage c w).2 := by
  -- the connection that `send` sees: only its input buffer has changed
  let c₁ : TcpConnection := { c with inputBuffer_ := c.inputBuffer_.retrieveAllAsString.2 }
  let sent := c₁.sendInLoop c.inputBuffer_.content w
  have hwatched : c₁.Watched := by simp [Watched, c₁, hidle, hout]
  obtain ⟨hstate, hwatched', hnofin⟩ :=
    sendInLoop_frame c₁ c.inputBuffer_.content w (fun _ _ => hr) hwatched
  have hs' : sent.1.state_ = .kConnected := hstate.trans hs
  have hres : onMessage c w = ({ sent.1 with state_ := .kDisconnecting },
      sent.2 ++ if sent.1.channel_.isWriting then [] else [.shutdownWrite]) := by
    have hsend : send c₁ c.inputBuffer_.content w = sent := if_pos hs
    show ((shutdown (send c₁ c.inputBuffer_.content w).1).1,
      (send c₁ c.inputBuffer_.content w).2 ++ (shutdown (send c₁ c.inputBuffer_.content w).1).2) = _
    rw [hsend, shutdown_connected hs']
  rw [hres]
  refine ⟨rfl, ?_, hwatched', sent.2, rfl, hnofin, ?_⟩
  · show sent.1.inputBuffer_.content = []
    rw [sendInLoop_inputBuffer_]
    exact WFBuffer.retrieveAllAsString_content c.inputBuffer_
  · exact sendInLoop_idle (c := c₁) hs hr hout

theorem handleRead_read {c : TcpConnection} {data : List Byte} (h : data ≠ []) :
    c.handleRead (.read data) =
      ({ c with inputBuffer_ := (c.inputBuffer_.readFd (.read data)).2 }, [.messageCallback]) := by
  have hlen := (WFBuffer.readFd_read c.inputBuffer_ data).1
  have hpos : 0 < data.length := List.length_pos_iff.mpr h
  unfold TcpConnection.handleRead
  simp [hlen, hpos]

/-! ## The wire -/

/-- Neither a `write` nor the FIN. -/
def Silent (e : Effect) : Prop := e ≠ .shutdownWrite ∧ ∀ data r, e ≠ .write data r

theorem apply_silent {e : Effect} (h : Silent e) (w : Wire) : w.apply e = w := by
  cases e with
  | write data r => exact absurd rfl (h.2 data r)
  | shutdownWrite => exact absurd rfl h.1
  | _ => rfl

theorem foldl_silent {es : List Effect} (h : ∀ e ∈ es, Silent e) (w : Wire) :
    es.foldl Wire.apply w = w := by
  induction es with
  | nil => rfl
  | cons e es ih =>
    rw [List.foldl_cons, apply_silent (h e (List.mem_cons_self ..))]
    exact ih fun e' he' => h e' (List.mem_cons_of_mem _ he')

/-- Writes before the FIN. -/
theorem foldl_writes {es : List Effect} (h : Effect.shutdownWrite ∉ es) {w : Wire}
    (hfin : w.fin = false) :
    es.foldl Wire.apply w = { w with accepted := w.accepted ++ acceptedBytes es } := by
  induction es generalizing w with
  | nil => simp
  | cons e es ih =>
    obtain ⟨hne, hes⟩ : Effect.shutdownWrite ≠ e ∧ Effect.shutdownWrite ∉ es := by
      simpa using h
    rw [List.foldl_cons, acceptedBytes_cons]
    cases e with
    | shutdownWrite => exact absurd rfl hne
    | write data r =>
      rw [ih hes (show (w.apply (.write data r)).fin = false from hfin)]
      simp [Wire.apply, Effect.accepted, hfin]
    | _ => simp [Wire.apply, ih hes hfin, Effect.accepted]

/-! ## The invariant -/

/-- The most that the first read can deliver. -/
def firstReadMax : Nat := Buffer.kInitialSize + Buffer.extrabufSize

theorem ctor_readvOffered {initialSize : Nat} (h : initialSize < Buffer.extrabufSize) :
    (WFBuffer.ctor initialSize).buf.readvOffered = initialSize + Buffer.extrabufSize := by
  have hroom : (Buffer.ctor initialSize).wirteableBytes = initialSize := by
    simp [Buffer.ctor, Buffer.wirteableBytes]
  show (Buffer.ctor initialSize).readvOffered = _
  rw [Buffer.readvOffered, hroom, if_pos h]

/-- Before the first message: nothing is written, and nothing of the stream is taken by a
    connection that is still open. -/
structure Before (s : State) : Prop where
  wire : s.wire = {}
  output : s.conn.outputBuffer_.content = []
  idle : s.conn.channel_.isWriting = false
  state : s.conn.state_ ≠ .kDisconnecting
  stream : s.conn.state_ ≠ .kDisconnected →
    s.toServer = s.client.message.take s.client.written ∧
      s.conn.inputBuffer_.buf.readvOffered = firstReadMax

/-- After it: the message goes out, and then the FIN. -/
structure After (s : State) (m : List Byte) : Prop where
  state : s.conn.state_ = .kDisconnecting ∨ s.conn.state_ = .kDisconnected
  message : m <+: s.client.message.take s.client.written
  nonempty : m ≠ []
  length : m.length ≤ firstReadMax
  output : s.wire.accepted ++ s.conn.outputBuffer_.content = if s.fault then [] else m
  /-- The FIN is sent as soon as nothing is buffered. -/
  fin : s.conn.state_ = .kDisconnecting →
    (s.wire.fin = true ↔ s.conn.channel_.isWriting = false) ∧ s.conn.Watched
  sealed : s.wire.fin = true →
    s.conn.outputBuffer_.content = [] ∧ s.conn.channel_.isWriting = false
  closed : s.conn.state_ = .kDisconnected → s.conn.channel_.isWriting = false

structure Inv (s : State) : Prop where
  input : s.conn.inputBuffer_.content = []
  late : s.wire.lateWrite = false
  before : s.first = none → Before s
  after : ∀ m, s.first = some m → After s m

theorem inv_init {s : State} (h : machine.init s) : Inv s := by
  obtain ⟨fd, wc, message, _, rfl⟩ := h
  refine ⟨WFBuffer.ctor_content _, rfl, ?_, ?_⟩
  · intro _
    refine ⟨rfl, WFBuffer.ctor_content _, by simp [Channel.isWriting], by simp, ?_⟩
    intro _
    exact ⟨by simp, ctor_readvOffered (by decide)⟩
  · intro m hm
    cases hm

/-! ## Steps that send nothing -/

/-- The output is left alone, and the connection is as it was or closed. -/
structure Rests (c c' : TcpConnection) : Prop where
  output : c'.outputBuffer_ = c.outputBuffer_
  state : (c'.state_ = c.state_ ∧ c'.channel_.isWriting = c.channel_.isWriting) ∨
    (c'.state_ = .kDisconnected ∧ c'.channel_.isWriting = false)

theorem Inv.rests {s s' : State} (h : Inv s) (hrest : Rests s.conn s'.conn)
    (hinput : s'.conn.inputBuffer_.content = []) (hwire : s'.wire = s.wire)
    (hfirst : s'.first = s.first) (hfault : s'.fault = s.fault)
    (hclient : s'.client.message = s.client.message ∧ s'.client.written = s.client.written)
    (hopen : s.first = none → s'.conn.state_ ≠ .kDisconnected →
      s'.toServer = s.toServer ∧ s'.conn.inputBuffer_ = s.conn.inputBuffer_) : Inv s' := by
  refine ⟨hinput, by rw [hwire]; exact h.late, ?_, ?_⟩
  · intro hnone
    rw [hfirst] at hnone
    have hb := h.before hnone
    refine ⟨hwire.trans hb.wire, by rw [hrest.output]; exact hb.output, ?_, ?_, ?_⟩
    · rcases hrest.state with ⟨_, hw⟩ | ⟨_, hw⟩
      · exact hw.trans hb.idle
      · exact hw
    · rcases hrest.state with ⟨hs, _⟩ | ⟨hs, _⟩
      · rw [hs]
        exact hb.state
      · rw [hs]
        decide
    · intro hs'
      obtain ⟨hto, hin⟩ := hopen hnone hs'
      have hs : s.conn.state_ ≠ .kDisconnected := by
        rcases hrest.state with ⟨hs, _⟩ | ⟨hs, _⟩
        · rwa [← hs]
        · exact absurd hs hs'
      rw [hto, hin, hclient.1, hclient.2]
      exact hb.stream hs
  · intro m hm
    rw [hfirst] at hm
    have ha := h.after m hm
    have hclosed : s'.conn.state_ = .kDisconnected → s'.conn.channel_.isWriting = false := by
      intro hs'
      rcases hrest.state with ⟨hs, hw⟩ | ⟨_, hw⟩
      · exact hw.trans (ha.closed (hs.symm.trans hs'))
      · exact hw
    refine ⟨?_, ?_, ha.nonempty, ha.length, ?_, ?_, ?_, hclosed⟩
    · rcases hrest.state with ⟨hs, _⟩ | ⟨hs, _⟩
      · rw [hs]
        exact ha.state
      · exact Or.inr hs
    · rw [hclient.1, hclient.2]
      exact ha.message
    · rw [hwire, hrest.output, hfault]
      exact ha.output
    · intro hs'
      rcases hrest.state with ⟨hs, hw⟩ | ⟨hs, _⟩
      · unfold Watched
        rw [hwire, hw, hrest.output]
        exact ha.fin (hs.symm.trans hs')
      · rw [hs] at hs'
        cases hs'
    · intro hfin
      rw [hwire] at hfin
      obtain ⟨hout, hw⟩ := ha.sealed hfin
      refine ⟨by rw [hrest.output]; exact hout, ?_⟩
      rcases hrest.state with ⟨_, hw'⟩ | ⟨_, hw'⟩
      · exact hw'.trans hw
      · exact hw'

theorem isWriting_disableAll (c : Channel) : c.disableAll.isWriting = false := by
  simp [Channel.disableAll, Channel.isWriting, Channel.kNoneEvent]

theorem handleClose_rests (c : TcpConnection) : Rests c c.handleClose.1 :=
  ⟨rfl, Or.inr ⟨rfl, isWriting_disableAll _⟩⟩

theorem handleClose_silent (c : TcpConnection) : ∀ e ∈ c.handleClose.2, Silent e := by
  simp [handleClose, Silent]

theorem connectionDestoryed_rests (c : TcpConnection) : Rests c c.connectionDestoryed.1 := by
  unfold connectionDestoryed
  split
  · exact ⟨rfl, Or.inr ⟨rfl, isWriting_disableAll _⟩⟩
  · exact ⟨rfl, Or.inl ⟨rfl, rfl⟩⟩

theorem connectionDestoryed_silent (c : TcpConnection) :
    ∀ e ∈ c.connectionDestoryed.2, Silent e := by
  unfold connectionDestoryed
  split <;> simp [Silent]

/-! ## The answer -/

/-- The first message is answered. -/
theorem Inv.answer {s : State} (h : Inv s) {data : List Byte} {w : WriteResult}
    (hdata : data ≠ []) (hs : s.conn.state_ = .kConnected) (hread : Readable s (.read data))
    (hw : w.Possible (s.conn.handleRead (.read data)).1.inputBuffer_.content.length) :
    Inv (s.handleRead (.read data) w) := by
  have hnone : s.first = none := by
    cases hfirst : s.first with
    | none => rfl
    | some m =>
      rcases (h.after m hfirst).state with h' | h' <;> rw [hs] at h' <;> cases h'
  have hb := h.before hnone
  obtain ⟨hstream, hoffer⟩ := hb.stream (by rw [hs]; decide)
  obtain ⟨hpre, hlen, _⟩ := hread
  -- the connection that `onMessage` gets
  let c : TcpConnection :=
    { s.conn with inputBuffer_ := (s.conn.inputBuffer_.readFd (.read data)).2 }
  have hcall : s.conn.handleRead (.read data) = (c, [.messageCallback]) := handleRead_read hdata
  have hcontent : c.inputBuffer_.content = data := by
    rw [(WFBuffer.readFd_read s.conn.inputBuffer_ data).2, h.input, List.nil_append]
  rw [hcall] at hw
  have hans := onMessage_connected (c := c) hs hw hb.output hb.idle
  obtain ⟨sent, heffects, hnofin, hout⟩ := hans.wire
  have hstate : s.handleRead (.read data) w = { s with
      conn := (onMessage c w).1
      wire := (onMessage c w).2.foldl Wire.apply s.wire
      toServer := s.toServer.drop data.length
      first := some data
      fault := decide (c.DirectFault w) } := by
    simp [State.handleRead, EchoServer.handleRead, State.perform, hcall, hcontent, taken,
      show c.state_ = .kConnected from hs]
  have hfold : (onMessage c w).2.foldl Wire.apply s.wire =
      { accepted := acceptedBytes sent, fin := !(onMessage c w).1.channel_.isWriting } := by
    rw [heffects, List.foldl_append, hb.wire, foldl_writes hnofin rfl]
    split
    · rename_i hwriting
      simp [hwriting]
    · rename_i hidle
      simp [Wire.apply, hidle]
  rw [hstate]
  refine ⟨hans.input, by rw [hfold], by simp, ?_⟩
  intro m hm
  obtain rfl : data = m := by simpa using hm
  have hempty : (onMessage c w).1.channel_.isWriting = false →
      (onMessage c w).1.outputBuffer_.content = [] := by
    intro hidle
    by_contra hne
    rw [hans.watched.mpr hne] at hidle
    cases hidle
  refine ⟨Or.inl hans.state, by rw [← hstream]; exact hpre, hdata, by rw [← hoffer]; exact hlen,
    ?_, ?_, ?_, ?_⟩
  · simp only [hfold, decide_eq_true_eq]
    rw [hout, hcontent]
  · intro _
    refine ⟨?_, hans.watched⟩
    simp [hfold]
  · intro hfin
    have hidle : (onMessage c w).1.channel_.isWriting = false := by simpa [hfold] using hfin
    exact ⟨hempty hidle, hidle⟩
  · intro hdown
    have := hans.state
    rw [show (onMessage c w).1.state_ = .kDisconnected from hdown] at this
    cases this

/-! ## Draining the buffer -/

/-- More of the message goes out. -/
theorem Inv.advance {s : State} (h : Inv s) {m : List Byte} (hm : s.first = some m)
    {c' : TcpConnection} {w' : Wire} (hs' : c'.state_ = .kDisconnecting)
    (hinput : c'.inputBuffer_ = s.conn.inputBuffer_) (hlate : w'.lateWrite = false)
    (hout : w'.accepted ++ c'.outputBuffer_.content =
      s.wire.accepted ++ s.conn.outputBuffer_.content)
    (hfin : w'.fin = true ↔ c'.channel_.isWriting = false) (hwatched : c'.Watched) :
    Inv { s with conn := c', wire := w' } := by
  refine ⟨by rw [hinput]; exact h.input, hlate, by simp [hm], ?_⟩
  intro m' hm'
  have ha := h.after m' hm'
  refine ⟨Or.inl hs', ha.message, ha.nonempty, ha.length, hout.trans ha.output, ?_, ?_, ?_⟩
  · intro _
    exact ⟨hfin, hwatched⟩
  · intro hfin'
    have hidle := hfin.mp hfin'
    refine ⟨?_, hidle⟩
    by_contra hne
    rw [hwatched.mpr hne] at hidle
    cases hidle
  · intro hdown
    rw [show c'.state_ = .kDisconnected from hdown] at hs'
    cases hs'

theorem Inv.handleWrite {s : State} (h : Inv s) (w : WriteResult) :
    Inv (s.perform (s.conn.handleWrite w)) := by
  rcases handleWrite_cases s.conn w with ⟨_, hcall⟩ | ⟨hwriting, hret, hcall⟩ |
    ⟨hwriting, _, hrest, hcall⟩ | ⟨hwriting, _, hempty, hcall⟩
  · -- not writing: nothing is done
    rw [hcall]
    exact h
  all_goals
    -- only a connection that is shutting down has output left
    obtain ⟨m, hm⟩ : ∃ m, s.first = some m := by
      cases hfirst : s.first with
      | some m => exact ⟨m, rfl⟩
      | none =>
        rw [(h.before hfirst).idle] at hwriting
        cases hwriting
    have ha := h.after m hm
    have hs : s.conn.state_ = .kDisconnecting := by
      rcases ha.state with hs | hs
      · exact hs
      · rw [ha.closed hs] at hwriting
        cases hwriting
    have hfin : s.wire.fin = false := by
      cases hf : s.wire.fin with
      | false => rfl
      | true =>
        rw [(ha.sealed hf).2] at hwriting
        cases hwriting
    have hmoved := handleWrite_output s.conn w
    rw [hcall] at hmoved ⊢
  · refine h.advance hm hs rfl (by simp [Wire.apply, hfin, h.late]) ?_ ?_ (ha.fin hs).2
    · simpa [Wire.apply, acceptedBytes, Effect.accepted, List.append_assoc] using hmoved
    · simp [Wire.apply, hfin, hwriting]
  · refine h.advance hm hs rfl (by simp [Wire.apply, hfin, h.late]) ?_ ?_ ?_
    · simpa [Wire.apply, acceptedBytes, Effect.accepted, List.append_assoc] using hmoved
    · simp [Wire.apply, hfin, hwriting]
    · simp [Watched, hwriting, hrest]
  · -- the buffer is drained: the FIN follows
    have hcomplete : ∀ wire : Wire, (s.conn.completeEffects).foldl Wire.apply wire = wire := by
      intro wire
      apply foldl_silent
      unfold completeEffects
      split <;> simp [Silent]
    refine h.advance hm hs rfl ?_ ?_ ?_ ?_
    · simp [Wire.apply, List.foldl_append, hcomplete, hs, hfin, h.late]
    · have htake : s.conn.outputBuffer_.content.take w.ret.toNat = s.conn.outputBuffer_.content :=
        List.take_of_length_le (List.drop_eq_nil_iff.mp hempty)
      simp [Wire.apply, List.foldl_append, hcomplete, hs, drained, hempty, WriteResult.accepted,
        htake]
    · simp [Wire.apply, List.foldl_append, hs, drained]
    · simp [Watched, drained, hempty]

/-! ## Every step -/

/-- A read that delivers nothing new to an open connection. -/
theorem Inv.handleRead_rests {s : State} (h : Inv s) {r : ReadvResult} {w : WriteResult}
    {c : TcpConnection} {effects : List Effect} (hcall : s.conn.handleRead r = (c, effects))
    (hno : .messageCallback ∉ effects) (hrest : Rests s.conn c)
    (hinput : c.inputBuffer_ = s.conn.inputBuffer_ ∨ c.state_ = .kDisconnected)
    (hcontent : c.inputBuffer_.content = []) (hsilent : ∀ e ∈ effects, Silent e)
    (htaken : taken r = 0) : Inv (s.handleRead r w) := by
  have hres : EchoServer.handleRead s.conn r w = (c, effects) := by
    simp [EchoServer.handleRead, hcall, hno]
  refine h.rests ?_ ?_ ?_ ?_ ?_ ⟨rfl, rfl⟩ ?_
  · simpa [State.handleRead, State.perform, hres] using hrest
  · simpa [State.handleRead, State.perform, hres] using hcontent
  · simpa [State.handleRead, State.perform, hres] using foldl_silent hsilent s.wire
  · simp [State.handleRead, hcall, hno]
  · simp [State.handleRead, hcall, hno]
  · intro _ hs
    have hs' : c.state_ ≠ .kDisconnected := by
      simpa [State.handleRead, State.perform, hres] using hs
    rcases hinput with hin | hdown
    · simp [State.handleRead, State.perform, hres, htaken, hin]
    · exact absurd hdown hs'

theorem Inv.handleRead {s : State} (h : Inv s) {r : ReadvResult} {w : WriteResult}
    (hs : s.conn.state_ ≠ .kConnecting) (hread : Readable s r)
    (hw : w.Possible (s.conn.handleRead r).1.inputBuffer_.content.length) :
    Inv (s.handleRead r w) := by
  cases r with
  | failed e =>
    have hcall : s.conn.handleRead (.failed e) = (s.conn, []) := rfl
    exact h.handleRead_rests hcall (by simp)
      ⟨rfl, Or.inl ⟨rfl, rfl⟩⟩ (Or.inl rfl) h.input (by simp) rfl
  | read data =>
    by_cases hdata : data = []
    · -- the end of the stream closes the connection
      subst hdata
      have hbuf : (s.conn.inputBuffer_.readFd (.read [])).2.content = [] := by
        rw [(WFBuffer.readFd_read s.conn.inputBuffer_ []).2, h.input, List.nil_append]
      have hcall : s.conn.handleRead (.read []) =
          handleClose { s.conn with inputBuffer_ := (s.conn.inputBuffer_.readFd (.read [])).2 } := by
        have hlen := (WFBuffer.readFd_read s.conn.inputBuffer_ []).1
        unfold TcpConnection.handleRead
        simp [hlen]
      have hrest := handleClose_rests
        { s.conn with inputBuffer_ := (s.conn.inputBuffer_.readFd (.read [])).2 }
      exact h.handleRead_rests hcall (by simp) ⟨hrest.output, hrest.state⟩
        (Or.inr rfl) hbuf (handleClose_silent _) rfl
    · by_cases hconn : s.conn.state_ = .kConnected
      · exact h.answer hdata hconn hread hw
      · -- a message after the first one is read and dropped
        let c : TcpConnection :=
          { s.conn with inputBuffer_ := (s.conn.inputBuffer_.readFd (.read data)).2 }
        have hcall : s.conn.handleRead (.read data) = (c, [.messageCallback]) :=
          handleRead_read hdata
        have hres : EchoServer.handleRead s.conn (.read data) w =
            ({ c with inputBuffer_ := c.inputBuffer_.retrieveAllAsString.2 }, []) := by
          simp [EchoServer.handleRead, hcall,
            onMessage_not_connected (show c.state_ ≠ .kConnected from hconn)]
        have hno : ¬ c.state_ = .kConnected := hconn
        refine h.rests ?_ ?_ ?_ ?_ ?_ ⟨rfl, rfl⟩ ?_
        · have hrest : Rests s.conn
              { c with inputBuffer_ := c.inputBuffer_.retrieveAllAsString.2 } :=
            ⟨rfl, Or.inl ⟨rfl, rfl⟩⟩
          simpa [State.handleRead, State.perform, hres] using hrest
        · simpa [State.handleRead, State.perform, hres] using
            WFBuffer.retrieveAllAsString_content c.inputBuffer_
        · simp [State.handleRead, State.perform, hres]
        · simp [State.handleRead, hcall, hno]
        · simp [State.handleRead, hcall, hno]
        · intro hnone hopen
          have hopen' : s.conn.state_ ≠ .kDisconnected := by
            simpa [State.handleRead, State.perform, hres, c] using hopen
          have hnot := (h.before hnone).state
          cases hstate : s.conn.state_ <;> simp_all

theorem Inv.send {s : State} (h : Inv s) (n : Int) :
    Inv { s with
      client := s.client.send n
      toServer := s.toServer ++ (s.client.message.drop s.client.written).take n.toNat } := by
  -- what the client has written grows by the bytes that are now on the way
  have hmessage : (s.client.send n).message = s.client.message := by
    unfold Client.send
    split <;> rfl
  have hwritten : (s.client.send n).written = s.client.written + n.toNat := by
    unfold Client.send
    split
    · rename_i hneg
      simp [Int.toNat_of_nonpos hneg]
    · rfl
  refine ⟨h.input, h.late, ?_, ?_⟩
  · intro hnone
    have hb := h.before hnone
    refine ⟨hb.wire, hb.output, hb.idle, hb.state, ?_⟩
    intro hs
    obtain ⟨hstream, hoffer⟩ := hb.stream hs
    refine ⟨?_, hoffer⟩
    simp only [hmessage, hwritten, List.take_add, hstream]
  · intro m hm
    have ha := h.after m hm
    refine ⟨ha.state, ?_, ha.nonempty, ha.length, ha.output, ha.fin, ha.sealed, ha.closed⟩
    simp only [hmessage, hwritten, List.take_add]
    exact ha.message.trans (List.prefix_append _ _)

theorem inv_step (s : State) (l : Label) (s' : State) (h : Inv s) (hnext : next s l = some s') :
    Inv s' := by
  cases l with
  | send n =>
    simp only [next, Option.ite_none_right_eq_some, Option.some.injEq] at hnext
    obtain ⟨_, rfl⟩ := hnext
    exact h.send n
  | recv n =>
    simp only [next, Option.ite_none_right_eq_some, Option.some.injEq] at hnext
    obtain ⟨_, rfl⟩ := hnext
    refine h.rests ⟨rfl, Or.inl ⟨rfl, rfl⟩⟩ h.input rfl rfl rfl ?_ fun _ _ => ⟨rfl, rfl⟩
    unfold Client.recv
    split <;> exact ⟨rfl, rfl⟩
  | connectionEstablished =>
    simp only [next, Option.ite_none_right_eq_some, Option.some.injEq] at hnext
    obtain ⟨hs, rfl⟩ := hnext
    refine ⟨h.input, h.late, ?_, ?_⟩
    · intro hnone
      have hb := h.before hnone
      have hstream := hb.stream (by rw [hs]; decide)
      refine ⟨hb.wire, hb.output, ?_, by simp [State.perform, connectionEstablished],
        fun _ => hstream⟩
      show (s.conn.channel_.tie.enableReading).isWriting = false
      rw [Channel.isWriting_enableReading]
      exact hb.idle
    · intro m hm
      rcases (h.after m hm).state with h' | h' <;> rw [hs] at h' <;> cases h'
  | handleRead r w =>
    simp only [next, Option.ite_none_right_eq_some, Option.some.injEq] at hnext
    obtain ⟨⟨hs, hread, hw⟩, rfl⟩ := hnext
    exact h.handleRead hs hread hw
  | handleWrite w =>
    simp only [next, Option.ite_none_right_eq_some, Option.some.injEq] at hnext
    obtain ⟨_, rfl⟩ := hnext
    exact h.handleWrite w
  | handleClose =>
    simp only [next, Option.ite_none_right_eq_some, Option.some.injEq] at hnext
    obtain ⟨_, rfl⟩ := hnext
    exact h.rests (handleClose_rests s.conn) h.input (foldl_silent (handleClose_silent s.conn) _)
      rfl rfl ⟨rfl, rfl⟩ fun _ hopen => absurd rfl hopen
  | connectionDestoryed =>
    simp only [next, Option.some.injEq] at hnext
    subst hnext
    have hinput : s.conn.connectionDestoryed.1.inputBuffer_ = s.conn.inputBuffer_ := by
      unfold connectionDestoryed
      split <;> rfl
    refine h.rests (connectionDestoryed_rests s.conn) ?_
      (foldl_silent (connectionDestoryed_silent s.conn) _) rfl rfl ⟨rfl, rfl⟩
      fun _ _ => ⟨rfl, hinput⟩
    show s.conn.connectionDestoryed.1.inputBuffer_.content = []
    rw [hinput]
    exact h.input

end EchoServer
