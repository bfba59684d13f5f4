import Mymuduo.Net.TcpOutput

/-! # EPOLLOUT and the output buffer

    While a connection is not disconnected EPOLLOUT is watched exactly when
    output is buffered, and the write side of the socket is shut down with an
    empty buffer only.  Both are about the same member functions as
    `Mymuduo.Net.TcpOutput`, in any order and with any outcome of each `::write`;
    `connectionEstablished` is called on a new connection, once.

    `handleClose` clears the mask and leaves the buffer as it is, so nothing is
    said about a disconnected connection.
-/

namespace OutputWatch

open TcpConnection TcpOutput

/-! ## The machine -/

structure State where
  conn : TcpConnection
  /-- `state_` and the content of `outputBuffer_` at each `Socket::shutdownWrite`. -/
  fins : List (StateE × List Byte) := []

/-- The call can happen: `newConnection` makes the one call of
    `connectionEstablished`, and each `::write` has a possible outcome. -/
def Enabled (c : TcpConnection) (l : Label) : Prop :=
  Possible c l ∧ (l = .connectionEstablished → c.state_ = .kConnecting)

instance (c : TcpConnection) (l : Label) : Decidable (Enabled c l) :=
  inferInstanceAs (Decidable (_ ∧ _))

def next (s : State) (l : Label) : Option State :=
  if Enabled s.conn l then
    let (conn, effects) := call s.conn l
    -- shutdownWrite is the last effect of a call, so conn is what it sees
    let fins := if .shutdownWrite ∈ effects then [(conn.state_, conn.outputBuffer_.content)]
      else []
    some { conn := conn, fins := s.fins ++ fins }
  else none

/-- Starts with a new connection. -/
def machine : Machine State Label where
  init := fun s => s.conn.state_ = .kConnecting ∧ s.conn.outputBuffer_.content = [] ∧
    s.conn.channel_.events_ = Channel.kNoneEvent ∧ s.fins = []
  next := next

/-! ## One call -/

/-- Watched, unless disconnected. -/
def Live (c : TcpConnection) : Prop := c.state_ ≠ .kDisconnected → c.Watched

theorem handleWrite_live {c : TcpConnection} (h : Live c) (r : WriteResult) :
    Live (c.handleWrite r).1 := by
  rcases handleWrite_cases c r with ⟨_, hcall⟩ | ⟨_, _, hcall⟩ | ⟨hw, _, hrest, hcall⟩ |
    ⟨_, _, hempty, hcall⟩
  · rw [hcall]
    exact h
  · rw [hcall]
    exact h
  · -- a part was written: still watched, and the rest is not empty
    rw [hcall]
    intro _
    unfold Watched
    simp [hw, hrest]
  · -- drained: the watch is given up
    rw [hcall]
    intro _
    unfold Watched
    simp [drained, hempty]

theorem call_live {c : TcpConnection} {l : Label} (hen : Enabled c l) (h : Live c) :
    Live (call c l).1 := by
  obtain ⟨hp, hnew⟩ := hen
  cases l with
  | sendInLoop data r =>
    show Live (c.sendInLoop data r).1
    by_cases hs : c.state_ = .kDisconnected
    · rw [sendInLoop_disconnected hs]
      exact h
    · intro _
      exact (sendInLoop_frame c data r hp (h hs)).2.1
  | handleWrite r => exact handleWrite_live h r
  | handleRead r =>
    obtain ⟨buf, hcall | hcall | hcall⟩ := handleRead_cases c r
    · show Live (c.handleRead r).1
      rw [hcall]
      exact h
    · show Live (c.handleRead r).1
      rw [hcall]
      exact fun hs => absurd rfl hs
    · show Live (c.handleRead r).1
      rw [hcall]
      exact h
  | handleClose => exact fun hs => absurd rfl hs
  | shutdown =>
    show Live c.shutdown.1
    unfold TcpConnection.shutdown
    split
    · rename_i hs
      intro _
      exact h (by rw [hs]; decide)
    · exact h
  | shutdownInLoop =>
    show Live c.shutdownInLoop.1
    rw [(shutdownInLoop_mild c).1]
    exact h
  | connectionEstablished =>
    have hw : c.Watched := h (by rw [hnew rfl]; decide)
    intro _
    show c.channel_.tie.enableReading.isWriting = true ↔ c.outputBuffer_.content ≠ []
    rw [Channel.isWriting_enableReading]
    exact hw
  | connectionDestoryed =>
    show Live c.connectionDestoryed.1
    unfold TcpConnection.connectionDestoryed
    split
    · exact fun hs => absurd rfl hs
    · exact h

/-- A call that shuts the write side down finds EPOLLOUT not watched and leaves
    it so. -/
theorem call_fin {c : TcpConnection} {l : Label} (hp : Possible c l) (h : Live c)
    (hfin : .shutdownWrite ∈ (call c l).2) : (call c l).1.channel_.isWriting = false := by
  cases l with
  | sendInLoop data r =>
    have hfin' : .shutdownWrite ∈ (c.sendInLoop data r).2 := hfin
    by_cases hs : c.state_ = .kDisconnected
    · rw [sendInLoop_disconnected hs] at hfin'
      cases hfin'
    · exact absurd hfin' (sendInLoop_frame c data r hp (h hs)).2.2
  | handleWrite r =>
    have hfin' : .shutdownWrite ∈ (c.handleWrite r).2 := hfin
    show (c.handleWrite r).1.channel_.isWriting = false
    rcases handleWrite_cases c r with ⟨_, hcall⟩ | ⟨_, _, hcall⟩ | ⟨_, _, _, hcall⟩ |
      ⟨_, _, _, hcall⟩
    · rw [hcall] at hfin'
      cases hfin'
    · rw [hcall] at hfin'
      simp at hfin'
    · rw [hcall] at hfin'
      simp at hfin'
    · rw [hcall]
      exact Channel.isWriting_disableWriting _
  | shutdownInLoop =>
    have hfin' : .shutdownWrite ∈ c.shutdownInLoop.2 := hfin
    show c.shutdownInLoop.1.channel_.isWriting = false
    unfold TcpConnection.shutdownInLoop at hfin' ⊢
    split at hfin'
    · cases hfin'
    · rename_i hw
      rw [if_neg hw]
      exact Bool.eq_false_iff.mpr hw
  | handleRead r =>
    have hfin' : .shutdownWrite ∈ (c.handleRead r).2 := hfin
    obtain ⟨buf, hcall | hcall | hcall⟩ := handleRead_cases c r
    · rw [hcall] at hfin'
      simp at hfin'
    · rw [hcall] at hfin'
      simp [TcpConnection.handleClose] at hfin'
    · rw [hcall] at hfin'
      cases hfin'
  | handleClose => simp [call, TcpConnection.handleClose] at hfin
  | shutdown => simp [call] at hfin
  | connectionEstablished => simp [call, TcpConnection.connectionEstablished] at hfin
  | connectionDestoryed =>
    simp only [call, TcpConnection.connectionDestoryed] at hfin
    split at hfin
    · simp at hfin
    · simp at hfin

/-! ## Runs -/

structure Inv (s : State) : Prop where
  live : Live s.conn
  fins_empty : ∀ fin ∈ s.fins, fin.1 ≠ .kDisconnected → fin.2 = []

theorem inv_init {s : State} (h : machine.init s) : Inv s := by
  obtain ⟨_, hempty, hnone, hfins⟩ := h
  constructor
  · intro _
    unfold Watched Channel.isWriting
    simp [hempty, hnone, Channel.kNoneEvent]
  · intro fin hfin
    rw [hfins] at hfin
    cases hfin

theorem inv_step {s s' : State} {l : Label} (h : Inv s) (hstep : next s l = some s') :
    Inv s' := by
  simp only [next, Option.ite_none_right_eq_some, Option.some.injEq] at hstep
  obtain ⟨hen, rfl⟩ := hstep
  have hlive := call_live hen h.live
  refine ⟨hlive, ?_⟩
  intro fin hfin hs
  rcases List.mem_append.mp hfin with hfin | hfin
  · exact h.fins_empty fin hfin hs
  · split at hfin
    · rename_i hmem
      obtain rfl := List.mem_singleton.mp hfin
      -- EPOLLOUT is not watched at that moment, so nothing is buffered
      have hoff := call_fin hen.1 h.live hmem
      have hw := hlive hs
      unfold Watched at hw
      rw [hoff] at hw
      simpa using hw
    · cases hfin

/-- In every reachable state in which the connection is connected or
    disconnecting, EPOLLOUT is watched exactly if output is buffered; and every
    `shutdownWrite` executed in such a state found the output buffer empty. -/
theorem pending_output_watched {s : State} (h : machine.Reachable s) :
    (s.conn.state_ = .kConnected ∨ s.conn.state_ = .kDisconnecting →
      (s.conn.channel_.isWriting = true ↔ s.conn.outputBuffer_.content ≠ [])) ∧
    ∀ fin ∈ s.fins, fin.1 = .kConnected ∨ fin.1 = .kDisconnecting → fin.2 = [] := by
  have hinv : Inv s := h.invariant machine (fun _ => inv_init) (fun _ _ _ => inv_step)
  have hlive : ∀ state : StateE, state = .kConnected ∨ state = .kDisconnecting →
      state ≠ .kDisconnected := by
    intro state hs
    rcases hs with rfl | rfl
    · decide
    · decide
  constructor
  · intro hs
    exact hinv.live (hlive _ hs)
  · intro fin hfin hs
    exact hinv.fins_empty fin hfin (hlive _ hs)

/-- A partial write, `shutdown` with output pending, and the FIN behind the rest. -/
theorem pending_output_watched_shutdown :
    ∃ s, machine.Reachable s ∧ s.conn.state_ = .kDisconnecting ∧
      (s.conn.channel_.isWriting = true ↔ s.conn.outputBuffer_.content ≠ []) ∧
      s.fins = [(.kDisconnecting, [])] := by
  have hrun : machine.run
      { conn := { channel_ := { fd_ := 7 }, outputBuffer_ := .ctor 4 } }
      [.connectionEstablished, .sendInLoop [1, 2] (.wrote 1), .shutdown, .shutdownInLoop,
       .handleWrite (.wrote 1)] = some _ := rfl
  have hreach : machine.Reachable _ := ⟨_, _, ⟨rfl, rfl, rfl, rfl⟩, hrun⟩
  exact ⟨_, hreach, rfl, (pending_output_watched hreach).1 (Or.inr rfl), by decide +kernel⟩

end OutputWatch
