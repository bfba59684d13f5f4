import Mathlib.Data.List.Infix
import Mymuduo.Framework.Machine
import Mymuduo.Net.TcpConnection

/-! # The output stream of a connection

    A connection in its loop thread under any sequence of its member functions
    and any outcome of each `::write`.  `sent` is what the user handed over
    while the connection was not disconnected, `kernel` is what the kernel has
    accepted.

    As long as no direct write of `sendInLoop` has met EPIPE or ECONNRESET, `kernel`
    followed by the output buffer is to be `sent`.  After such a failure the message
    is dropped, so only the prefix property can survive, and it does if the kernel
    accepts nothing on a dead socket.

    `sendInLoop` looks for the two errors in `errno` after it has logged the failure,
    which may have set `errno`: a write that failed for another reason is then taken
    for one on a dead socket, and its message is lost (`message_lost_by_log`).  The
    two properties hold exactly where this does not happen
    (`output_stream_integrity_iff`).
-/

namespace TcpOutput

open TcpConnection

/-! ## The machine -/

inductive Label where
  | sendInLoop (data : List Byte) (r : WriteResult)
  | handleWrite (r : WriteResult)
  | handleRead (r : ReadvResult)
  | handleClose
  | shutdown
  | shutdownInLoop
  | connectionEstablished
  | connectionDestoryed
  deriving DecidableEq, Repr

/-- The member function a label stands for. -/
def call (c : TcpConnection) : Label → TcpConnection × List Effect
  | .sendInLoop data r => c.sendInLoop data r
  | .handleWrite r => c.handleWrite r
  | .handleRead r => c.handleRead r
  | .handleClose => c.handleClose
  | .shutdown => (c.shutdown.1, [])
  | .shutdownInLoop => c.shutdownInLoop
  | .connectionEstablished => c.connectionEstablished
  | .connectionDestoryed => c.connectionDestoryed

/-- The labels that write to the socket. -/
def Label.writes : Label → Bool
  | .sendInLoop _ _ | .handleWrite _ => true
  | _ => false

/-- The outcome in the label is one that the `::write` performed can have. -/
def Possible (c : TcpConnection) : Label → Prop
  | .sendInLoop data r =>
    c.state_ ≠ .kDisconnected → c.writesDirectly = true → r.Possible data.length
  | .handleWrite r => c.channel_.isWriting = true → r.Possible c.outputBuffer_.content.length
  | _ => True

instance (c : TcpConnection) : (l : Label) → Decidable (Possible c l)
  | .sendInLoop _ _ => inferInstanceAs (Decidable (_ → _ → _))
  | .handleWrite _ => inferInstanceAs (Decidable (_ → _))
  | .handleRead _ | .handleClose | .shutdown | .shutdownInLoop | .connectionEstablished
  | .connectionDestoryed => isTrue trivial

/-- The direct write of `sendInLoop` failed with EPIPE or ECONNRESET. -/
def DirectFailure (c : TcpConnection) (r : WriteResult) : Prop :=
  c.state_ ≠ .kDisconnected ∧ c.writesDirectly = true ∧ r.ret = -1 ∧ r.errno.fatal = true

instance (c : TcpConnection) (r : WriteResult) : Decidable (DirectFailure c r) :=
  inferInstanceAs (Decidable (_ ∧ _))

/-- The effect is a `::write` that failed with EPIPE or ECONNRESET. -/
def fatalWrite : Effect → Bool
  | .write _ r => r.ret == -1 && r.errno.fatal
  | _ => false

structure State where
  conn : TcpConnection
  /-- The messages whose `sendInLoop` ran while the connection was not
      disconnected, one after the other. -/
  sent : List Byte := []
  /-- The bytes the kernel has accepted. -/
  kernel : List Byte := []
  /-- A direct write inside `sendInLoop` has failed with EPIPE or ECONNRESET. -/
  directFault : Bool := false
  /-- Some `::write` has failed with EPIPE or ECONNRESET. -/
  dead : Bool := false

def sentBy (c : TcpConnection) : Label → List Byte
  | .sendInLoop data _ => if c.state_ = .kDisconnected then [] else data
  | _ => []

def faultBy (c : TcpConnection) : Label → Bool
  | .sendInLoop _ r => decide (DirectFailure c r)
  | _ => false

def next (s : State) (l : Label) : Option State :=
  if Possible s.conn l then
    let (conn, effects) := call s.conn l
    some {
      conn := conn
      sent := s.sent ++ sentBy s.conn l
      kernel := s.kernel ++ acceptedBytes effects
      directFault := s.directFault || faultBy s.conn l
      dead := s.dead || effects.any fatalWrite }
  else none

/-- Starts with any connection that has nothing buffered. -/
def machine : Machine State Label where
  init := fun s => s.conn.outputBuffer_.content = [] ∧ s = { conn := s.conn }
  next := next

/-- The kernel accepts no bytes on a socket on which a write has failed with
    EPIPE or ECONNRESET. -/
def DeadStaysDead (s : State) (l : Label) : Prop :=
  s.dead = true → acceptedBytes (call s.conn l).2 = []

instance (s : State) (l : Label) : Decidable (DeadStaysDead s l) :=
  inferInstanceAs (Decidable (_ → _))

/-- Logging the failure of a direct write has left EPIPE or ECONNRESET in `errno`, where the
    write itself failed for another reason, and there is a message to lose. -/
def Misread (c : TcpConnection) (data : List Byte) (r : WriteResult) : Prop :=
  c.DirectFault r ∧ r.errno.fatal = false ∧ data ≠ []

instance (c : TcpConnection) (data : List Byte) (r : WriteResult) :
    Decidable (Misread c data r) :=
  inferInstanceAs (Decidable (_ ∧ _))

/-- Before the first direct write has met EPIPE or ECONNRESET, logging does not pretend one. -/
def ErrnoKept (s : State) : Label → Prop
  | .sendInLoop data r => s.directFault = false → ¬ Misread s.conn data r
  | _ => True

instance (s : State) : (l : Label) → Decidable (ErrnoKept s l)
  | .sendInLoop _ _ => inferInstanceAs (Decidable (_ → _))
  | .handleWrite _ | .handleRead _ | .handleClose | .shutdown | .shutdownInLoop
  | .connectionEstablished | .connectionDestoryed => isTrue trivial

/-- What the kernel has accepted, followed by the output buffer, is what was sent. -/
def Exact (s : State) : Prop :=
  s.directFault = false → s.kernel ++ s.conn.outputBuffer_.content = s.sent

/-- The step leads to a state in which nothing is lost, duplicated or reordered. -/
def KeepsExact (s : State) (l : Label) : Prop := ∀ s', next s l = some s' → Exact s'

/-- The step leads to a state in which the kernel has accepted a prefix of what was sent. -/
def KeepsPrefix (s : State) (l : Label) : Prop :=
  ∀ s', next s l = some s' → s'.kernel <+: s'.sent

/-! ## One step -/

/-- Member functions other than `sendInLoop` and `handleWrite` leave the output
    alone. -/
theorem call_quiet (c : TcpConnection) (l : Label) (h : l.writes = false) :
    acceptedBytes (call c l).2 ++ (call c l).1.outputBuffer_.content =
      c.outputBuffer_.content ++ sentBy c l := by
  cases l with
  | sendInLoop data r => simp [Label.writes] at h
  | handleWrite r => simp [Label.writes] at h
  | handleRead r =>
    simp only [call, TcpConnection.handleRead]
    split
    · simp [acceptedBytes, Effect.accepted, sentBy]
    · split <;> simp [acceptedBytes, Effect.accepted, TcpConnection.handleClose, sentBy]
  | handleClose => simp [call, TcpConnection.handleClose, acceptedBytes, Effect.accepted, sentBy]
  | shutdown =>
    simp only [call, TcpConnection.shutdown]
    split <;> simp [sentBy]
  | shutdownInLoop =>
    obtain ⟨hconn, hacc⟩ := shutdownInLoop_output c
    simp [call, hconn, hacc, sentBy]
  | connectionEstablished =>
    simp [call, TcpConnection.connectionEstablished, acceptedBytes, Effect.accepted, sentBy]
  | connectionDestoryed =>
    simp only [call, TcpConnection.connectionDestoryed]
    split <;> simp [acceptedBytes, Effect.accepted, sentBy]

/-- A step that drops nothing moves bytes from message to kernel and buffer without loss. -/
theorem call_output (c : TcpConnection) (l : Label) (hp : Possible c l)
    (hf : ∀ data r, l = .sendInLoop data r → c.DirectFault r → data = []) :
    acceptedBytes (call c l).2 ++ (call c l).1.outputBuffer_.content =
      c.outputBuffer_.content ++ sentBy c l := by
  by_cases hw : l.writes = true
  · -- the two functions that write
    cases l with
    | sendInLoop data r =>
      by_cases hs : c.state_ = .kDisconnected
      · simp [call, sentBy, hs, sendInLoop_disconnected hs]
      · rw [sentBy, if_neg hs]
        exact sendInLoop_output c data r (hp hs) hs (hf data r rfl)
    | handleWrite r =>
      have hnone : sentBy c (.handleWrite r) = [] := rfl
      rw [hnone, List.append_nil]
      exact handleWrite_output c r
    | _ => simp [Label.writes] at hw
  · exact call_quiet c l (by simpa using hw)

/-- A direct write that fails accepts nothing, whatever becomes of the message. -/
theorem call_failure (c : TcpConnection) (l : Label) (hf : faultBy c l = true) :
    acceptedBytes (call c l).2 = [] ∧ (call c l).2.any fatalWrite = true := by
  cases l with
  | sendInLoop data r =>
    obtain ⟨hs, hd, hret, hfatal⟩ : DirectFailure c r := by simpa [faultBy] using hf
    have hneg : ¬ 0 < r.ret := by omega
    have hdirect : (c.directWrite data r).effects = [.write data r] := by
      simp [directWrite, hd, hneg]
    have hnone := acceptedBytes_of_ret_nonpos (Int.not_lt.mp hneg) data
    simp only [call, TcpConnection.sendInLoop, if_neg hs, hdirect]
    split
    · refine ⟨?_, by simp [fatalWrite, hret, hfatal]⟩
      rw [acceptedBytes_append, hnone, (bufferRest_output c _).2, List.append_nil]
    · exact ⟨hnone, by simp [fatalWrite, hret, hfatal]⟩
  | _ => simp [faultBy] at hf

/-- Where `faultError` drops a message, the write failed with EPIPE or ECONNRESET, or logging
    has changed `errno`. -/
theorem drop_cases {s : State} {l : Label} (hkept : ErrnoKept s l) (hclean : s.directFault = false)
    (hf : faultBy s.conn l = false) :
    ∀ data r, l = .sendInLoop data r → s.conn.DirectFault r → data = [] := by
  rintro data r rfl hfault
  by_contra hne
  have hnofail : ¬ DirectFailure s.conn r := of_decide_eq_false hf
  refine hkept hclean ⟨hfault, ?_, hne⟩
  rw [Bool.eq_false_iff]
  intro hfatal
  exact hnofail ⟨hfault.1, hfault.2.1, hfault.2.2.1, hfatal⟩

/-- A message that is taken for one on a dead socket is missing. -/
theorem not_misread {s : State} {data : List Byte} {r : WriteResult} (hexact : Exact s)
    (hclean : s.directFault = false) (hp : Possible s.conn (.sendInLoop data r))
    (hkeeps : KeepsExact s (.sendInLoop data r)) : ¬ Misread s.conn data r := by
  rintro ⟨hfault, hfatal, hne⟩
  have hnofail : ¬ DirectFailure s.conn r := by
    intro hfail
    rw [hfail.2.2.2] at hfatal
    cases hfatal
  have hcall : call s.conn (.sendInLoop data r) = (s.conn, [.write data r]) :=
    sendInLoop_fault hfault data
  have hret : r.ret ≤ 0 := by
    rw [hfault.2.2.1]
    decide
  have hnone := acceptedBytes_of_ret_nonpos hret data
  have hsent : sentBy s.conn (.sendInLoop data r) = data := if_neg hfault.1
  have hclean' : faultBy s.conn (.sendInLoop data r) = false := decide_eq_false hnofail
  have hstep : next s (.sendInLoop data r) = some
      { conn := s.conn
        sent := s.sent ++ data
        kernel := s.kernel
        directFault := false
        dead := s.dead || [Effect.write data r].any fatalWrite } := by
    simp only [next, if_pos hp, hcall, hnone, hsent, hclean, hclean', List.append_nil,
      Bool.or_false]
  have hafter : s.kernel ++ s.conn.outputBuffer_.content = s.sent ++ data := hkeeps _ hstep rfl
  rw [hexact hclean] at hafter
  exact hne (List.self_eq_append_right.mp hafter)

/-! ## Runs -/

/-- Nothing is lost, duplicated or reordered before the first direct write that met EPIPE or
    ECONNRESET. -/
structure OutInv (s : State) : Prop where
  exact : Exact s
  fault_dead : s.directFault = true → s.dead = true

theorem outInv_init {s : State} (h : machine.init s) : OutInv s := by
  obtain ⟨hempty, hs⟩ := h
  rw [hs]
  exact ⟨fun _ => by simp [hempty], fun hf => by simp at hf⟩

theorem outInv_step (s : State) (l : Label) (s' : State) (hinv : OutInv s)
    (hkept : ErrnoKept s l) (hstep : next s l = some s') : OutInv s' := by
  simp only [next, Option.ite_none_right_eq_some, Option.some.injEq] at hstep
  obtain ⟨hp, rfl⟩ := hstep
  refine ⟨?_, ?_⟩
  · intro hf
    simp only [Bool.or_eq_false_iff] at hf
    have hold := hinv.exact hf.1
    have hnew := call_output s.conn l hp (drop_cases hkept hf.1 hf.2)
    calc s.kernel ++ acceptedBytes (call s.conn l).2 ++ (call s.conn l).1.outputBuffer_.content
        = s.kernel ++ (s.conn.outputBuffer_.content ++ sentBy s.conn l) := by
          rw [List.append_assoc, hnew]
      _ = s.sent ++ sentBy s.conn l := by rw [← List.append_assoc, hold]
  · intro hf
    simp only [Bool.or_eq_true] at hf ⊢
    rcases hf with hf | hf
    · exact Or.inl (hinv.fault_dead hf)
    · exact Or.inr (call_failure s.conn l hf).2

theorem prefix_step (s : State) (l : Label) (s' : State) (hinv : OutInv s ∧ s.kernel <+: s.sent)
    (hkept : ErrnoKept s l ∧ DeadStaysDead s l) (hstep : next s l = some s') :
    OutInv s' ∧ s'.kernel <+: s'.sent := by
  have hinv' := outInv_step s l s' hinv.1 hkept.1 hstep
  refine ⟨hinv', ?_⟩
  by_cases hf : s'.directFault = true
  · -- from the first such failure on the kernel accepts nothing more
    simp only [next, Option.ite_none_right_eq_some, Option.some.injEq] at hstep
    obtain ⟨_, rfl⟩ := hstep
    have hnone : acceptedBytes (call s.conn l).2 = [] := by
      simp only [Bool.or_eq_true] at hf
      rcases hf with hf | hf
      · exact hkept.2 (hinv.1.fault_dead hf)
      · exact (call_failure s.conn l hf).1
    simp only [hnone, List.append_nil]
    exact hinv.2.trans (List.prefix_append _ _)
  · -- before it, the buffer holds exactly what is missing
    exact ⟨s'.conn.outputBuffer_.content, hinv'.exact (by simpa using hf)⟩

/-- A run in which every state is exact has no step in which a message is lost. -/
theorem errnoKept_of_exact (s : State) (l : Label) (s' : State) (hexact : Exact s)
    (hkeeps : KeepsExact s l) (hstep : next s l = some s') : ErrnoKept s l ∧ Exact s' := by
  refine ⟨?_, hkeeps s' hstep⟩
  cases l with
  | sendInLoop data r =>
    intro hclean
    simp only [next, Option.ite_none_right_eq_some] at hstep
    exact not_misread hexact hclean hstep.1 hkeeps
  | _ => trivial

/-- Output stream integrity, for every sequence of loop-thread steps and every outcome of each
    `::write`.  Both properties hold in every state of a run, that is
    - as long as no direct write inside `sendInLoop` has failed with EPIPE or ECONNRESET, the
      bytes accepted by the kernel followed by the output buffer are exactly what was sent,
    - if the kernel accepts nothing after such an error, what it has accepted is a prefix of
      what was sent,
    if and only if in no step of the run logging the failure of a direct write leaves EPIPE or
    ECONNRESET in `errno` in the place of another error. -/
theorem output_stream_integrity_iff {s₀ s : State} {ls : List Label} (hinit : machine.init s₀)
    (hrun : machine.run s₀ ls = some s) :
    (machine.Along KeepsExact s₀ ls ∧
        (machine.Along DeadStaysDead s₀ ls → machine.Along KeepsPrefix s₀ ls)) ↔
      machine.Along ErrnoKept s₀ ls := by
  have hinv₀ := outInv_init hinit
  constructor
  · rintro ⟨hexact, _⟩
    exact Machine.Along.imp_of_run machine (I := Exact) errnoKept_of_exact hinv₀.exact hrun hexact
  · intro hkept
    refine ⟨?_, ?_⟩
    · refine Machine.Along.imp_of_run machine (I := OutInv) ?_ hinv₀ hrun hkept
      intro t l t' hinv hl hstep
      refine ⟨?_, outInv_step t l t' hinv hl hstep⟩
      intro u hu
      exact (outInv_step t l u hinv hl hu).exact
    · intro hdead
      have hprefix₀ : s₀.kernel <+: s₀.sent := by
        rw [hinit.2]
      refine Machine.Along.imp_of_run machine
        (I := fun t => OutInv t ∧ t.kernel <+: t.sent) ?_ ⟨hinv₀, hprefix₀⟩ hrun
        (hkept.and machine hdead)
      intro t l t' hinv hl hstep
      refine ⟨?_, prefix_step t l t' hinv hl hstep⟩
      intro u hu
      exact (prefix_step t l u hinv hl hu).2

/-- A connection of its own, with nothing buffered. -/
def freshConn : TcpConnection := { channel_ := { fd_ := 7 }, outputBuffer_ := .ctor 4 }

/-- A message cut by a partial write, a second one behind it, and a disconnect: both properties
    in every state of that run. -/
theorem output_stream_integrity_iff_partial :
    ∃ s ls, machine.run { conn := freshConn } ls = some s ∧
      machine.Along KeepsExact { conn := freshConn } ls ∧
      machine.Along KeepsPrefix { conn := freshConn } ls ∧
      s.sent = [1, 2, 3, 4, 5] ∧ s.kernel = [1, 2, 3, 4] := by
  have hrun : machine.run { conn := freshConn }
      [.connectionEstablished, .sendInLoop [1, 2, 3] (.wrote 2), .sendInLoop [4, 5] (.wrote 2),
        .handleWrite (.wrote 2), .handleClose, .sendInLoop [6] (.wrote 1)] = some _ := rfl
  have h := (output_stream_integrity_iff ⟨rfl, rfl⟩ hrun).mpr (by decide +kernel)
  exact ⟨_, _, hrun, h.1, h.2 (by decide +kernel), by decide +kernel, by decide +kernel⟩

/-- A write fails with ENOBUFS, and logging this leaves EPIPE in `errno`: the message is neither
    accepted nor buffered, though no write has met EPIPE or ECONNRESET, and the next message
    goes out in its place. -/
theorem message_lost_by_log :
    ∃ s s', machine.init { conn := freshConn } ∧
      machine.run { conn := freshConn }
        [.connectionEstablished, .sendInLoop [1] ⟨-1, .other 105, .EPIPE⟩] = some s ∧
      s.directFault = false ∧ s.kernel ++ s.conn.outputBuffer_.content = [] ∧ s.sent = [1] ∧
      machine.run s [.sendInLoop [2] (.wrote 1)] = some s' ∧
      s'.dead = false ∧ s'.kernel = [2] ∧ s'.sent = [1, 2] :=
  ⟨_, _, ⟨rfl, rfl⟩, rfl, rfl, by decide +kernel, rfl, rfl, rfl, by decide +kernel, rfl⟩

end TcpOutput
