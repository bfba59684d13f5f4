import Mymuduo.Net.Buffer
import Mymuduo.Net.Channel

/-! # TcpConnection

    The member functions of `TcpConnection` that run in its loop thread.  Each
    takes the outcomes of the system calls it makes and returns the connection
    after it together with what it did to the outside, in order: writes on the
    socket, calls into the poller, functors queued on the loop, user callbacks.
    The systems built on this model interpret these effects.

    User callbacks are effects too: what a callback does to the connection is
    a later step of the system.
-/

/-- `TcpConnection::StateE`. -/
inductive StateE where
  | kDisconnected
  | kConnecting
  | kConnected
  | kDisconnecting
  deriving DecidableEq, Repr

/-- What a member function does outside the connection. -/
inductive Effect where
  /-- `::write` of `data` on the socket, with its outcome. -/
  | write (data : List Byte) (r : WriteResult)
  /-- `Socket::shutdownWrite`. -/
  | shutdownWrite
  /-- `loop_->updateChannel(channel_)`, with the mask at that moment. -/
  | updateChannel (events : EventMask)
  /-- `loop_->removeChannel(channel_)`. -/
  | removeChannel
  /-- `loop_->queueInLoop` of `writeCompleteCallback_`. -/
  | queueWriteComplete
  /-- `loop_->queueInLoop` of `highWaterMarkCallback_` with its size argument. -/
  | queueHighWaterMark (size : Nat)
  /-- `connectionCallback_`, with `state_` as the callback sees it. -/
  | connectionCallback (state : StateE)
  | messageCallback
  | closeCallback
  deriving DecidableEq, Repr

/-- The bytes the kernel accepted. -/
def Effect.accepted : Effect → List Byte
  | .write data r => r.accepted data
  | _ => []

/-- `TcpConnection`.  For the two optional callbacks only "is it set" matters
    to the library. -/
structure TcpConnection where
  state_ : StateE := .kConnecting
  channel_ : Channel
  inputBuffer_ : WFBuffer := .ctor Buffer.kInitialSize
  outputBuffer_ : WFBuffer := .ctor Buffer.kInitialSize
  highWaterMark_ : Nat := 64 * 1024 * 1024
  writeCompleteCallback_ : Bool := false
  highWaterMarkCallback_ : Bool := false

namespace TcpConnection

/-! ## sendInLoop -/

/-- `sendInLoop` writes directly when nothing is buffered or being written. -/
def writesDirectly (c : TcpConnection) : Bool :=
  !c.channel_.isWriting && c.outputBuffer_.readableBytes == 0

/-- The locals of `sendInLoop` after the direct write, and its effects. -/
structure Sent where
  nwrote : Nat
  remaining : Nat
  faultError : Bool
  effects : List Effect

/-- The first half of `sendInLoop`: the direct write and its error branches.  EWOULDBLOCK
    is looked for before `LOG_ERROR`, EPIPE and ECONNRESET behind it. -/
def directWrite (c : TcpConnection) (data : List Byte) (r : WriteResult) : Sent :=
  if c.writesDirectly then
    if 0 < r.ret then
      let remaining := data.length - r.ret.toNat
      { nwrote := r.ret.toNat
        remaining := remaining
        faultError := false
        effects := .write data r ::
          if remaining = 0 ∧ c.writeCompleteCallback_ then [.queueWriteComplete] else [] }
    else
      { nwrote := 0
        remaining := data.length
        faultError := r.errno ≠ .EWOULDBLOCK ∧ (r.logged = .EPIPE ∨ r.logged = .ECONNRESET)
        effects := [.write data r] }
  else
    { nwrote := 0, remaining := data.length, faultError := false, effects := [] }

/-- The second half of `sendInLoop`: buffer `rest` and watch for writability. -/
def bufferRest (c : TcpConnection) (rest : List Byte) : TcpConnection × List Effect :=
  let oldLen := c.outputBuffer_.readableBytes
  let high : List Effect :=
    if oldLen + rest.length ≥ c.highWaterMark_ ∧ oldLen < c.highWaterMark_ ∧
        c.highWaterMarkCallback_ then
      [.queueHighWaterMark (oldLen + rest.length)]
    else []
  let c := { c with outputBuffer_ := c.outputBuffer_.append rest }
  if c.channel_.isWriting then (c, high)
  else
    ({ c with channel_ := c.channel_.enableWriting },
      high ++ [.updateChannel c.channel_.enableWriting.events_])

/-- `sendInLoop(data, len)`; `r` is the outcome of the direct `::write`. -/
def sendInLoop (c : TcpConnection) (data : List Byte) (r : WriteResult) :
    TcpConnection × List Effect :=
  if c.state_ = .kDisconnected then (c, [])
  else
    let sent := c.directWrite data r
    if !sent.faultError ∧ 0 < sent.remaining then
      let (c', effects) := c.bufferRest (data.drop sent.nwrote)
      (c', sent.effects ++ effects)
    else (c, sent.effects)

/-! ## The other loop-thread functions -/

def shutdownInLoop (c : TcpConnection) : TcpConnection × List Effect :=
  if c.channel_.isWriting then (c, []) else (c, [.shutdownWrite])

/-- `handleWrite`; `r` is the outcome of `outputBuffer_.writeFd`. -/
def handleWrite (c : TcpConnection) (r : WriteResult) : TcpConnection × List Effect :=
  if c.channel_.isWriting then
    let wrote : Effect := .write c.outputBuffer_.writeFd r
    if 0 < r.ret then
      let c := { c with outputBuffer_ := c.outputBuffer_.retrieve r.ret.toNat }
      if c.outputBuffer_.readableBytes = 0 then
        let c := { c with channel_ := c.channel_.disableWriting }
        let queued : List Effect :=
          if c.writeCompleteCallback_ then [.queueWriteComplete] else []
        let effects := wrote :: .updateChannel c.channel_.events_ :: queued
        if c.state_ = .kDisconnecting then
          let (c, fin) := c.shutdownInLoop
          (c, effects ++ fin)
        else (c, effects)
      else (c, [wrote])
    else (c, [wrote])
  else (c, [])

def handleClose (c : TcpConnection) : TcpConnection × List Effect :=
  let c := { c with state_ := .kDisconnected, channel_ := c.channel_.disableAll }
  (c, [.updateChannel c.channel_.events_, .connectionCallback c.state_, .closeCallback])

/-- `handleRead`; a read error only goes to the log (`handleError`). -/
def handleRead (c : TcpConnection) (r : ReadvResult) : TcpConnection × List Effect :=
  let (n, buf) := c.inputBuffer_.readFd r
  let c := { c with inputBuffer_ := buf }
  if 0 < n then (c, [.messageCallback])
  else if n = 0 then c.handleClose
  else (c, [])

def connectionEstablished (c : TcpConnection) : TcpConnection × List Effect :=
  let c := { c with state_ := .kConnected, channel_ := c.channel_.tie.enableReading }
  (c, [.updateChannel c.channel_.events_, .connectionCallback c.state_])

def connectionDestoryed (c : TcpConnection) : TcpConnection × List Effect :=
  if c.state_ = .kConnected then
    let c := { c with state_ := .kDisconnected, channel_ := c.channel_.disableAll }
    (c, [.updateChannel c.channel_.events_, .connectionCallback c.state_, .removeChannel])
  else (c, [.removeChannel])

/-- The test and the store of `shutdown()`; `true` says that `shutdownInLoop`
    is handed to the loop. -/
def shutdown (c : TcpConnection) : TcpConnection × Bool :=
  if c.state_ = .kConnected then ({ c with state_ := .kDisconnecting }, true) else (c, false)

/-! ## What happens to the output -/

/-- The bytes the kernel accepted in a list of effects. -/
def acceptedBytes (effects : List Effect) : List Byte := effects.flatMap Effect.accepted

theorem acceptedBytes_append (es fs : List Effect) :
    acceptedBytes (es ++ fs) = acceptedBytes es ++ acceptedBytes fs := by
  simp [acceptedBytes]

theorem acceptedBytes_cons (e : Effect) (es : List Effect) :
    acceptedBytes (e :: es) = e.accepted ++ acceptedBytes es := by
  simp [acceptedBytes]

@[simp] theorem acceptedBytes_nil : acceptedBytes [] = [] := rfl

theorem bufferRest_output (c : TcpConnection) (rest : List Byte) :
    (c.bufferRest rest).1.outputBuffer_.content = c.outputBuffer_.content ++ rest ∧
      acceptedBytes (c.bufferRest rest).2 = [] := by
  unfold bufferRest
  simp only
  split <;> split <;> simp [acceptedBytes, Effect.accepted]

theorem writesDirectly_empty {c : TcpConnection} (h : c.writesDirectly = true) :
    c.outputBuffer_.content = [] := by
  unfold writesDirectly at h
  rw [Bool.and_eq_true, beq_iff_eq, WFBuffer.readableBytes_eq] at h
  exact List.eq_nil_of_length_eq_zero h.2

/-- The direct write of `sendInLoop` failed, and `faultError` is set for it. -/
def DirectFault (c : TcpConnection) (r : WriteResult) : Prop :=
  c.state_ ≠ .kDisconnected ∧ c.writesDirectly = true ∧ r.ret = -1 ∧
    r.errno ≠ .EWOULDBLOCK ∧ r.logged.fatal = true

instance (c : TcpConnection) (r : WriteResult) : Decidable (c.DirectFault r) :=
  inferInstanceAs (Decidable (_ ∧ _))

theorem accepted_of_ret_nonpos {r : WriteResult} (h : r.ret ≤ 0) (data : List Byte) :
    r.accepted data = [] := by
  unfold WriteResult.accepted
  rw [Int.toNat_of_nonpos h, List.take_zero]

/-- A `::write` that fails hands nothing to the kernel. -/
theorem acceptedBytes_of_ret_nonpos {r : WriteResult} (h : r.ret ≤ 0) (data : List Byte) :
    acceptedBytes [Effect.write data r] = [] := by
  simp [acceptedBytes, Effect.accepted, accepted_of_ret_nonpos h]

theorem sendInLoop_disconnected {c : TcpConnection} (h : c.state_ = .kDisconnected)
    (data : List Byte) (r : WriteResult) : c.sendInLoop data r = (c, []) :=
  if_pos h

/-- What the direct write of `sendInLoop` leaves to be buffered: everything the
    kernel did not accept, unless `faultError` is set. -/
theorem directWrite_spec (c : TcpConnection) (data : List Byte) (r : WriteResult)
    (hr : c.writesDirectly = true → r.Possible data.length) :
    acceptedBytes (c.directWrite data r).effects = data.take (c.directWrite data r).nwrote ∧
    (c.directWrite data r).remaining = (data.drop (c.directWrite data r).nwrote).length ∧
    ((c.directWrite data r).faultError = true →
      (c.directWrite data r).nwrote = 0 ∧ c.writesDirectly = true ∧
      (r.errno ≠ .EWOULDBLOCK ∧ r.logged.fatal = true) ∧ (r.ret = -1 ∨ data = [])) := by
  unfold directWrite
  by_cases hd : c.writesDirectly = true
  · rw [if_pos hd]
    by_cases hpos : 0 < r.ret
    · rw [if_pos hpos]
      refine ⟨?_, by simp, by simp⟩
      rw [acceptedBytes_cons]
      split <;> simp [Effect.accepted, WriteResult.accepted, acceptedBytes]
    · rw [if_neg hpos]
      have hret : r.ret ≤ 0 := Int.not_lt.mp hpos
      refine ⟨?_, by simp, ?_⟩
      · rw [acceptedBytes_of_ret_nonpos hret, List.take_zero]
      · intro hfault
        simp only [decide_eq_true_eq] at hfault
        refine ⟨rfl, hd, ⟨hfault.1, Errno.fatal_iff.mpr hfault.2⟩, ?_⟩
        · rcases hr hd with h | ⟨_, h, _⟩ | ⟨h, _⟩
          · exact Or.inl h
          · omega
          · exact Or.inr (List.eq_nil_of_length_eq_zero h)
  · rw [if_neg hd]
    simp

/-- `faultError` drops the message. -/
theorem sendInLoop_fault {c : TcpConnection} {r : WriteResult} (h : c.DirectFault r)
    (data : List Byte) : c.sendInLoop data r = (c, [.write data r]) := by
  obtain ⟨hs, hd, hret, hblock, hfatal⟩ := h
  have herr := Errno.fatal_iff.mp hfatal
  simp [sendInLoop, hs, directWrite, hd, hret, hblock, herr]

/-- `sendInLoop` either dropped the message because of `faultError`, or every byte of it is
    accepted or buffered, in order. -/
theorem sendInLoop_output (c : TcpConnection) (data : List Byte) (r : WriteResult)
    (hr : c.writesDirectly = true → r.Possible data.length) (hs : c.state_ ≠ .kDisconnected)
    (hfault : c.DirectFault r → data = []) :
    acceptedBytes (c.sendInLoop data r).2 ++ (c.sendInLoop data r).1.outputBuffer_.content =
      c.outputBuffer_.content ++ data := by
  obtain ⟨hacc, hrem, hf⟩ := directWrite_spec c data r hr
  have hsplit : ∀ n, data.take n ++ data.drop n = data := fun n => List.take_append_drop n data
  -- a direct write finds the buffer empty, a buffered one accepts nothing
  have hcomm : data.take (c.directWrite data r).nwrote ++ c.outputBuffer_.content =
      c.outputBuffer_.content ++ data.take (c.directWrite data r).nwrote := by
    by_cases hd : c.writesDirectly = true
    · simp [writesDirectly_empty hd]
    · simp [directWrite, hd]
  unfold sendInLoop
  rw [if_neg hs]
  simp only
  -- either a rest is buffered, or nothing is left, or the message was dropped
  split
  · obtain ⟨hout, hnone⟩ := bufferRest_output c (data.drop (c.directWrite data r).nwrote)
    simp only [acceptedBytes_append, hacc, hnone, hout, List.append_nil]
    rw [← List.append_assoc, hcomm, List.append_assoc, hsplit]
  · rename_i hnot
    simp only [hacc, hcomm]
    have hempty : data.drop (c.directWrite data r).nwrote = [] := by
      by_cases hfe : (c.directWrite data r).faultError = true
      · obtain ⟨hn, hd, hfatal, hret⟩ := hf hfe
        rcases hret with hret | hnil
        · rw [hfault ⟨hs, hd, hret, hfatal⟩, List.drop_nil]
        · rw [hnil, List.drop_nil]
      · apply List.eq_nil_of_length_eq_zero
        simp only [Bool.not_eq_true', hfe] at hnot
        simp at hnot
        omega
    have h := hsplit (c.directWrite data r).nwrote
    rw [hempty, List.append_nil] at h
    rw [h]

theorem shutdownInLoop_output (c : TcpConnection) :
    c.shutdownInLoop.1 = c ∧ acceptedBytes c.shutdownInLoop.2 = [] := by
  unfold shutdownInLoop
  split <;> simp [acceptedBytes, Effect.accepted]

/-- `handleWrite` moves bytes from the front of the buffer to the kernel. -/
theorem handleWrite_output (c : TcpConnection) (r : WriteResult) :
    acceptedBytes (c.handleWrite r).2 ++ (c.handleWrite r).1.outputBuffer_.content =
      c.outputBuffer_.content := by
  unfold handleWrite
  by_cases hw : c.channel_.isWriting = true
  · rw [if_pos hw]
    simp only
    by_cases hret : 0 < r.ret
    · rw [if_pos hret]
      split
      · -- drained: what follows the write accepts no bytes
        split
        · obtain ⟨hconn, hacc⟩ := shutdownInLoop_output
            { c with
              outputBuffer_ := c.outputBuffer_.retrieve r.ret.toNat
              channel_ := c.channel_.disableWriting }
          simp only [hconn, acceptedBytes_append, hacc, acceptedBytes_cons]
          split <;> simp [acceptedBytes, Effect.accepted, WriteResult.accepted]
        · simp only [acceptedBytes_cons]
          split <;> simp [acceptedBytes, Effect.accepted, WriteResult.accepted]
      · -- a part was written, the rest stays at the front
        simp [acceptedBytes, Effect.accepted, WriteResult.accepted]
    · rw [if_neg hret]
      simp [acceptedBytes_of_ret_nonpos (Int.not_lt.mp hret)]
  · rw [if_neg hw]
    simp

/-! ## What a step can do -/

/-- The functor queued when the output is complete. -/
def completeEffects (c : TcpConnection) : List Effect :=
  if c.writeCompleteCallback_ then [.queueWriteComplete] else []

/-- The connection after `handleWrite` has emptied the output buffer. -/
def drained (c : TcpConnection) (r : WriteResult) : TcpConnection :=
  { c with
    outputBuffer_ := c.outputBuffer_.retrieve r.ret.toNat
    channel_ := c.channel_.disableWriting }

/-- `handleWrite`, case by case. -/
theorem handleWrite_cases (c : TcpConnection) (r : WriteResult) :
    (c.channel_.isWriting = false ∧ c.handleWrite r = (c, [])) ∨
    (c.channel_.isWriting = true ∧ r.ret ≤ 0 ∧
      c.handleWrite r = (c, [.write c.outputBuffer_.content r])) ∨
    (c.channel_.isWriting = true ∧ 0 < r.ret ∧ c.outputBuffer_.content.drop r.ret.toNat ≠ [] ∧
      c.handleWrite r = ({ c with outputBuffer_ := c.outputBuffer_.retrieve r.ret.toNat },
        [.write c.outputBuffer_.content r])) ∨
    (c.channel_.isWriting = true ∧ 0 < r.ret ∧ c.outputBuffer_.content.drop r.ret.toNat = [] ∧
      c.handleWrite r = (c.drained r,
        .write c.outputBuffer_.content r :: .updateChannel c.channel_.disableWriting.events_ ::
          (c.completeEffects ++
            if c.state_ = .kDisconnecting then [.shutdownWrite] else []))) := by
  by_cases hw : c.channel_.isWriting = true
  · by_cases hret : 0 < r.ret
    · by_cases hempty : c.outputBuffer_.content.drop r.ret.toNat = []
      · refine Or.inr (Or.inr (Or.inr ⟨hw, hret, hempty, ?_⟩))
        have hlen : (c.outputBuffer_.retrieve r.ret.toNat).content = [] := by
          rw [WFBuffer.retrieve_content, hempty]
        by_cases hs : c.state_ = .kDisconnecting
        · simp [handleWrite, hw, hret, hlen, hs, shutdownInLoop, drained, completeEffects]
        · simp [handleWrite, hw, hret, hlen, hs, drained, completeEffects]
      · refine Or.inr (Or.inr (Or.inl ⟨hw, hret, hempty, ?_⟩))
        have hlen : ¬ c.outputBuffer_.content.length - r.ret.toNat = 0 := by
          rw [List.drop_eq_nil_iff] at hempty
          omega
        simp [handleWrite, hw, hret, hlen]
    · exact Or.inr (Or.inl ⟨hw, Int.not_lt.mp hret, by simp [handleWrite, hw, hret]⟩)
  · have hw' : c.channel_.isWriting = false := by simpa using hw
    exact Or.inl ⟨hw', by simp [handleWrite, hw']⟩

/-- EPOLLOUT is watched exactly while output is buffered. -/
def Watched (c : TcpConnection) : Prop :=
  c.channel_.isWriting = true ↔ c.outputBuffer_.content ≠ []

instance (c : TcpConnection) : Decidable c.Watched :=
  inferInstanceAs (Decidable (_ ↔ _))

theorem bufferRest_watched (c : TcpConnection) {rest : List Byte} (hrest : rest ≠ []) :
    (c.bufferRest rest).1.Watched := by
  unfold Watched
  rw [(bufferRest_output c rest).1]
  have hne : c.outputBuffer_.content ++ rest ≠ [] := by simp [hrest]
  unfold bufferRest
  simp only
  split
  · rename_i hw
    simp [hw, hrest]
  · simp [hrest]

theorem bufferRest_frame (c : TcpConnection) (rest : List Byte) :
    (c.bufferRest rest).1.state_ = c.state_ ∧
      ∀ e ∈ (c.bufferRest rest).2, e ≠ .shutdownWrite ∧ ∀ data r, e ≠ .write data r := by
  unfold bufferRest
  simp only
  split <;> split <;> simp

/-- What `sendInLoop` keeps: `state_`, the watch on the output, and it never
    shuts the socket down. -/
theorem sendInLoop_frame (c : TcpConnection) (data : List Byte) (r : WriteResult)
    (hr : c.state_ ≠ .kDisconnected → c.writesDirectly = true → r.Possible data.length)
    (hw : c.Watched) :
    (c.sendInLoop data r).1.state_ = c.state_ ∧ (c.sendInLoop data r).1.Watched ∧
      Effect.shutdownWrite ∉ (c.sendInLoop data r).2 := by
  by_cases hs : c.state_ = .kDisconnected
  · rw [sendInLoop_disconnected hs]
    exact ⟨rfl, hw, by simp⟩
  · have hdirect : Effect.shutdownWrite ∉ (c.directWrite data r).effects := by
      unfold directWrite
      split
      · split
        · simp only
          split <;> simp
        · simp
      · simp
    obtain ⟨_, hrem, _⟩ := directWrite_spec c data r (hr hs)
    unfold sendInLoop
    rw [if_neg hs]
    simp only
    split
    · rename_i hcond
      have hne : data.drop (c.directWrite data r).nwrote ≠ [] := by
        intro hnil
        rw [hnil] at hrem
        simp only [List.length_nil] at hrem
        omega
      obtain ⟨hstate, heff⟩ := bufferRest_frame c (data.drop (c.directWrite data r).nwrote)
      refine ⟨hstate, bufferRest_watched c hne, ?_⟩
      intro hmem
      rcases List.mem_append.mp hmem with h | h
      · exact hdirect h
      · exact (heff _ h).1 rfl
    · exact ⟨rfl, hw, hdirect⟩

/-! ## What a call keeps of the channel -/

/-- The descriptor and the index belong to the socket and the poller. -/
def SameSocket (c c' : TcpConnection) : Prop :=
  c'.channel_.fd_ = c.channel_.fd_ ∧ c'.channel_.index_ = c.channel_.index_

/-- An effect other than the end of a connection: `handleClose` calls
    `closeCallback_`, `connectionDestoryed` removes the channel. -/
def Mild (e : Effect) : Prop := e ≠ .closeCallback ∧ e ≠ .removeChannel

theorem bufferRest_mild (c : TcpConnection) (rest : List Byte) :
    SameSocket c (c.bufferRest rest).1 ∧ ∀ e ∈ (c.bufferRest rest).2, Mild e := by
  unfold bufferRest
  simp only
  split <;> split <;>
    simp [SameSocket, Mild, Channel.enableWriting]

theorem directWrite_mild (c : TcpConnection) (data : List Byte) (r : WriteResult) :
    ∀ e ∈ (c.directWrite data r).effects, Mild e := by
  unfold directWrite
  split
  · split
    · simp only
      split <;> simp [Mild]
    · simp [Mild]
  · simp

theorem sendInLoop_mild (c : TcpConnection) (data : List Byte) (r : WriteResult) :
    (c.sendInLoop data r).1.state_ = c.state_ ∧ SameSocket c (c.sendInLoop data r).1 ∧
      ∀ e ∈ (c.sendInLoop data r).2, Mild e := by
  unfold sendInLoop
  split
  · exact ⟨rfl, ⟨rfl, rfl⟩, by simp⟩
  · simp only
    have hdirect := directWrite_mild c data r
    split
    · obtain ⟨hsock, hmild⟩ := bufferRest_mild c (data.drop (c.directWrite data r).nwrote)
      refine ⟨(bufferRest_frame c _).1, hsock, ?_⟩
      intro e he
      rcases List.mem_append.mp he with he | he
      · exact hdirect e he
      · exact hmild e he
    · exact ⟨rfl, ⟨rfl, rfl⟩, hdirect⟩

theorem handleWrite_mild (c : TcpConnection) (r : WriteResult) :
    (c.handleWrite r).1.state_ = c.state_ ∧ SameSocket c (c.handleWrite r).1 ∧
      ∀ e ∈ (c.handleWrite r).2, Mild e := by
  rcases handleWrite_cases c r with ⟨_, hcall⟩ | ⟨_, _, hcall⟩ | ⟨_, _, _, hcall⟩ |
    ⟨_, _, _, hcall⟩
  · rw [hcall]
    exact ⟨rfl, ⟨rfl, rfl⟩, by simp⟩
  · rw [hcall]
    exact ⟨rfl, ⟨rfl, rfl⟩, by simp [Mild]⟩
  · rw [hcall]
    exact ⟨rfl, ⟨rfl, rfl⟩, by simp [Mild]⟩
  · rw [hcall]
    refine ⟨rfl, ⟨rfl, rfl⟩, ?_⟩
    unfold completeEffects
    split <;> split <;> simp [Mild]

theorem shutdownInLoop_mild (c : TcpConnection) :
    c.shutdownInLoop.1 = c ∧ ∀ e ∈ c.shutdownInLoop.2, Mild e := by
  unfold shutdownInLoop
  split <;> simp [Mild]

/-- `handleRead` hands over what was read, or closes, or does nothing. -/
theorem handleRead_cases (c : TcpConnection) (r : ReadvResult) :
    ∃ buf : WFBuffer,
      c.handleRead r = ({ c with inputBuffer_ := buf }, [.messageCallback]) ∨
      c.handleRead r = handleClose { c with inputBuffer_ := buf } ∨
      c.handleRead r = ({ c with inputBuffer_ := buf }, []) := by
  refine ⟨(c.inputBuffer_.readFd r).2, ?_⟩
  unfold handleRead
  simp only
  split
  · exact Or.inl rfl
  · split
    · exact Or.inr (Or.inl rfl)
    · exact Or.inr (Or.inr rfl)

/-! ## What the user and the poller are told -/

/-- An effect that neither ends the connection nor calls the user with it, and that
    shows the poller the mask that `c` has. -/
def Quiet (c : TcpConnection) (e : Effect) : Prop :=
  Mild e ∧ (∀ state, e ≠ .connectionCallback state) ∧
    ∀ events, e = .updateChannel events → events = c.channel_.events_

theorem bufferRest_quiet (c : TcpConnection) (rest : List Byte) :
    (∀ e ∈ (c.bufferRest rest).2, Quiet (c.bufferRest rest).1 e) ∧
      (c.bufferRest rest).1.channel_.isReading = c.channel_.isReading := by
  unfold bufferRest
  simp only
  split <;> split <;> simp [Quiet, Mild]

theorem directWrite_quiet (c c' : TcpConnection) (data : List Byte) (r : WriteResult) :
    ∀ e ∈ (c.directWrite data r).effects, Quiet c' e := by
  unfold directWrite
  split
  · split
    · simp only
      split <;> simp [Quiet, Mild]
    · simp [Quiet, Mild]
  · simp

theorem sendInLoop_quiet (c : TcpConnection) (data : List Byte) (r : WriteResult) :
    (∀ e ∈ (c.sendInLoop data r).2, Quiet (c.sendInLoop data r).1 e) ∧
      (c.sendInLoop data r).1.channel_.isReading = c.channel_.isReading := by
  unfold sendInLoop
  split
  · exact ⟨by simp, rfl⟩
  · simp only
    split
    · obtain ⟨hquiet, hreading⟩ := bufferRest_quiet c (data.drop (c.directWrite data r).nwrote)
      refine ⟨?_, hreading⟩
      intro e he
      rcases List.mem_append.mp he with he | he
      · exact directWrite_quiet c _ data r e he
      · exact hquiet e he
    · exact ⟨directWrite_quiet c c data r, rfl⟩

theorem handleWrite_quiet (c : TcpConnection) (r : WriteResult) :
    (∀ e ∈ (c.handleWrite r).2, Quiet (c.handleWrite r).1 e) ∧
      (c.handleWrite r).1.channel_.isReading = c.channel_.isReading := by
  rcases handleWrite_cases c r with ⟨_, hcall⟩ | ⟨_, _, hcall⟩ | ⟨_, _, _, hcall⟩ |
    ⟨_, _, _, hcall⟩
  · rw [hcall]
    exact ⟨by simp, rfl⟩
  · rw [hcall]
    exact ⟨by simp [Quiet, Mild], rfl⟩
  · rw [hcall]
    exact ⟨by simp [Quiet, Mild], rfl⟩
  · rw [hcall]
    refine ⟨?_, Channel.isReading_disableWriting c.channel_⟩
    unfold completeEffects
    split <;> split <;> simp [Quiet, Mild, drained]

/-- At the end of the file `handleRead` closes the connection. -/
theorem handleRead_eof (c : TcpConnection) :
    ∃ buf : WFBuffer, c.handleRead (.read []) = handleClose { c with inputBuffer_ := buf } := by
  obtain ⟨b', hread, _⟩ := Buffer.readFd_spec c.inputBuffer_.buf [] c.inputBuffer_.wf
  have hzero : (c.inputBuffer_.readFd (.read [])).1 = 0 := by simp [WFBuffer.readFd, hread]
  refine ⟨(c.inputBuffer_.readFd (.read [])).2, ?_⟩
  unfold handleRead
  simp [hzero]

/-- Otherwise only the input buffer changes. -/
theorem handleRead_open (c : TcpConnection) {r : ReadvResult} (hr : r ≠ .read []) :
    ∃ buf : WFBuffer, c.handleRead r = ({ c with inputBuffer_ := buf }, [.messageCallback]) ∨
      c.handleRead r = ({ c with inputBuffer_ := buf }, []) := by
  cases r with
  | failed e =>
    refine ⟨(c.inputBuffer_.readFd (.failed e)).2, Or.inr ?_⟩
    have hneg : (c.inputBuffer_.readFd (.failed e)).1 = -1 := rfl
    unfold handleRead
    simp [hneg]
  | read data =>
    obtain ⟨b', hread, _⟩ := Buffer.readFd_spec c.inputBuffer_.buf data c.inputBuffer_.wf
    have hlen : (c.inputBuffer_.readFd (.read data)).1 = data.length := by
      simp [WFBuffer.readFd, hread]
    have hpos : 0 < data.length := by
      cases data with
      | nil => exact absurd rfl hr
      | cons b rest => simp
    refine ⟨(c.inputBuffer_.readFd (.read data)).2, Or.inl ?_⟩
    unfold handleRead
    simp [hlen, hpos]

end TcpConnection
