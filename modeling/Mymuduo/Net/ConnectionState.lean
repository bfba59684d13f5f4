import Mathlib.Logic.Function.Basic
import Mymuduo.Net.OutputWatch

/-! # state_ under several threads

    `shutdown()` can be called by any thread.  It loads `state_` and, if that was
    `kConnected`, stores `kDisconnecting`: two steps, between which the loop thread
    may run `handleClose`.  The store then takes a closed connection back to
    `kDisconnecting`, and the test of `sendInLoop` no longer stops it
    (`late_store_revives`).  In a run without such a store `state_` only moves
    forward (`state_forward_iff`).
-/

namespace ConnectionState

open TcpConnection TcpOutput

/-! ## The machine -/

/-- Where a state stands in the life of a connection. -/
def rank : StateE → Nat
  | .kConnecting => 0
  | .kConnected => 1
  | .kDisconnecting => 2
  | .kDisconnected => 3

structure State (Tid : Type) where
  conn : TcpConnection
  /-- The threads in `shutdown()` whose load returned `kConnected`. -/
  storing : Tid → Bool := fun _ => false
  /-- `handleClose` has run. -/
  closed : Bool := false
  /-- What `sendInLoop` has done after that. -/
  late : List Effect := []

inductive Label (Tid : Type) where
  /-- The loop thread runs a member function. -/
  | loop (l : TcpOutput.Label)
  /-- `shutdown()`: the test of `state_`. -/
  | load (t : Tid)
  /-- `shutdown()`: `setState(kDisconnecting)`. -/
  | store (t : Tid)
  deriving DecidableEq

/-- The call is one of `sendInLoop`. -/
def isSend : TcpOutput.Label → Bool
  | .sendInLoop _ _ => true
  | _ => false

variable {Tid : Type} [DecidableEq Tid]

def next (s : State Tid) : Label Tid → Option (State Tid)
  | .loop l =>
    -- shutdown() is the steps load and store
    if OutputWatch.Enabled s.conn l ∧ l ≠ .shutdown then
      let (conn, effects) := call s.conn l
      some { s with
        conn := conn
        closed := s.closed || effects.contains .closeCallback
        late := if s.closed && isSend l then s.late ++ effects else s.late }
    else none
  | .load t =>
    if s.storing t = false then
      some { s with storing := Function.update s.storing t (s.conn.state_ == .kConnected) }
    else none
  | .store t =>
    if s.storing t = true then
      some { s with
        conn := { s.conn with state_ := .kDisconnecting }
        storing := Function.update s.storing t false }
    else none

/-- Starts with a new connection. -/
def machine (Tid : Type) [DecidableEq Tid] : Machine (State Tid) (Label Tid) where
  init := fun s => s.conn.state_ = .kConnecting ∧ s = { conn := s.conn }
  next := next

/-- What a step can do. -/
theorem next_cases {s s' : State Tid} {l : Label Tid} (h : next s l = some s') :
    (∃ k, l = .loop k ∧ OutputWatch.Enabled s.conn k ∧ k ≠ .shutdown ∧
      s' = { s with
        conn := (call s.conn k).1
        closed := s.closed || (call s.conn k).2.contains .closeCallback
        late := if s.closed && isSend k then s.late ++ (call s.conn k).2 else s.late }) ∨
    (∃ t, l = .load t ∧ s' =
      { s with storing := Function.update s.storing t (s.conn.state_ == .kConnected) }) ∨
    (∃ t, l = .store t ∧ s.storing t = true ∧ s' =
      { s with
        conn := { s.conn with state_ := .kDisconnecting }
        storing := Function.update s.storing t false }) := by
  cases l with
  | loop k =>
    simp only [next, Option.ite_none_right_eq_some, Option.some.injEq] at h
    obtain ⟨⟨hen, hne⟩, rfl⟩ := h
    exact Or.inl ⟨k, rfl, hen, hne, rfl⟩
  | load t =>
    simp only [next, Option.ite_none_right_eq_some, Option.some.injEq] at h
    obtain ⟨_, rfl⟩ := h
    exact Or.inr (Or.inl ⟨t, rfl, rfl⟩)
  | store t =>
    simp only [next, Option.ite_none_right_eq_some, Option.some.injEq] at h
    obtain ⟨hstoring, rfl⟩ := h
    exact Or.inr (Or.inr ⟨t, rfl, hstoring, rfl⟩)

/-! ## The loop thread -/

/-- A call in the loop thread keeps `state_`, or closes the connection, or
    establishes it. -/
theorem call_state {c : TcpConnection} {l : TcpOutput.Label} (hen : OutputWatch.Enabled c l)
    (hne : l ≠ .shutdown) :
    (call c l).1.state_ = c.state_ ∨ (call c l).1.state_ = .kDisconnected ∨
      (c.state_ = .kConnecting ∧ (call c l).1.state_ = .kConnected) := by
  cases l with
  | sendInLoop data r => exact Or.inl (sendInLoop_mild c data r).1
  | handleWrite r => exact Or.inl (handleWrite_mild c r).1
  | handleRead r =>
    show (c.handleRead r).1.state_ = _ ∨ (c.handleRead r).1.state_ = _ ∨ _
    obtain ⟨buf, hcall | hcall | hcall⟩ := handleRead_cases c r
    · rw [hcall]
      exact Or.inl rfl
    · rw [hcall]
      exact Or.inr (Or.inl rfl)
    · rw [hcall]
      exact Or.inl rfl
  | handleClose => exact Or.inr (Or.inl rfl)
  | shutdown => exact absurd rfl hne
  | shutdownInLoop =>
    show c.shutdownInLoop.1.state_ = c.state_ ∨ _
    rw [(shutdownInLoop_mild c).1]
    exact Or.inl rfl
  | connectionEstablished => exact Or.inr (Or.inr ⟨hen.2 rfl, rfl⟩)
  | connectionDestoryed =>
    show c.connectionDestoryed.1.state_ = _ ∨ c.connectionDestoryed.1.state_ = _ ∨ _
    unfold TcpConnection.connectionDestoryed
    split
    · exact Or.inr (Or.inl rfl)
    · exact Or.inl rfl

/-- Only `handleClose` calls `closeCallback_`. -/
theorem call_closes {c : TcpConnection} {l : TcpOutput.Label}
    (h : .closeCallback ∈ (call c l).2) : (call c l).1.state_ = .kDisconnected := by
  cases l with
  | sendInLoop data r => exact absurd rfl ((sendInLoop_mild c data r).2.2 _ h).1
  | handleWrite r => exact absurd rfl ((handleWrite_mild c r).2.2 _ h).1
  | shutdownInLoop => exact absurd rfl ((shutdownInLoop_mild c).2 _ h).1
  | handleRead r =>
    have h' : .closeCallback ∈ (c.handleRead r).2 := h
    show (c.handleRead r).1.state_ = _
    obtain ⟨buf, hcall | hcall | hcall⟩ := handleRead_cases c r
    · rw [hcall] at h'
      simp at h'
    · rw [hcall]
      rfl
    · rw [hcall] at h'
      cases h'
  | handleClose => rfl
  | shutdown => cases h
  | connectionEstablished => simp [call, TcpConnection.connectionEstablished] at h
  | connectionDestoryed =>
    simp only [call, TcpConnection.connectionDestoryed] at h
    split at h
    · simp at h
    · simp at h

/-! ## One step -/

/-- The step does not lead back, nor out of `kDisconnected`. -/
def Forward (s : State Tid) (l : Label Tid) : Prop :=
  ∀ s', next s l = some s' → rank s.conn.state_ ≤ rank s'.conn.state_ ∧
    (s.conn.state_ = .kDisconnected → s'.conn.state_ = .kDisconnected)

/-- The step is not a store of `shutdown()` on a disconnected connection. -/
def NoLateStore (s : State Tid) : Label Tid → Prop
  | .store _ => s.conn.state_ ≠ .kDisconnected
  | _ => True

instance (s : State Tid) : (l : Label Tid) → Decidable (NoLateStore s l)
  | .store _ => inferInstanceAs (Decidable (_ ≠ _))
  | .loop _ | .load _ => isTrue trivial

theorem rank_le_three (state : StateE) : rank state ≤ 3 := by
  cases state <;> decide

theorem forward_of_noLateStore {s s' : State Tid} {l : Label Tid}
    (hstep : next s l = some s') (h : NoLateStore s l) : Forward s l := by
  intro s'' hstep'
  obtain rfl := Option.some.inj (hstep.symm.trans hstep')
  rcases next_cases hstep with ⟨k, rfl, hen, hne, rfl⟩ | ⟨t, rfl, rfl⟩ |
    ⟨t, rfl, hstoring, rfl⟩
  · show rank s.conn.state_ ≤ rank (call s.conn k).1.state_ ∧ _
    rcases call_state hen hne with heq | heq | ⟨hconnecting, heq⟩
    · rw [heq]
      exact ⟨le_rfl, id⟩
    · rw [heq]
      exact ⟨rank_le_three _, fun _ => rfl⟩
    · rw [heq, hconnecting]
      exact ⟨by decide, nofun⟩
  · exact ⟨le_rfl, id⟩
  · refine ⟨?_, fun hd => absurd hd h⟩
    show rank s.conn.state_ ≤ 2
    cases hs : s.conn.state_ with
    | kDisconnected => exact absurd hs h
    | kConnecting | kConnected | kDisconnecting => decide

theorem noLateStore_of_forward {s s' : State Tid} {l : Label Tid}
    (hstep : next s l = some s') (h : Forward s l) : NoLateStore s l := by
  rcases next_cases hstep with ⟨k, rfl, _⟩ | ⟨t, rfl, _⟩ | ⟨t, rfl, _, rfl⟩
  · trivial
  · trivial
  · intro hd
    cases (h _ hstep).2 hd

/-! ## Runs -/

/-- A closed connection is disconnected, and `sendInLoop` has done nothing on it. -/
structure Inv (s : State Tid) : Prop where
  closed : s.closed = true → s.conn.state_ = .kDisconnected
  late : s.late = []

theorem inv_step {s s' : State Tid} {l : Label Tid} (h : Inv s) (hlate : NoLateStore s l)
    (hstep : next s l = some s') : Inv s' := by
  have hforward := forward_of_noLateStore hstep hlate s' hstep
  rcases next_cases hstep with ⟨k, rfl, hen, hne, rfl⟩ | ⟨t, rfl, rfl⟩ |
    ⟨t, rfl, hstoring, rfl⟩
  · constructor
    · intro hclosed
      rcases Bool.or_eq_true_iff.mp hclosed with hclosed | hcloses
      · exact hforward.2 (h.closed hclosed)
      · exact call_closes (List.contains_iff_mem.mp hcloses)
    · show (if s.closed && isSend k then s.late ++ (call s.conn k).2 else s.late) = []
      split
      · rename_i hsend
        obtain ⟨hclosed, hsend⟩ := Bool.and_eq_true_iff.mp hsend
        cases k with
        | sendInLoop data r =>
          -- the test of state_ stops it
          have hnone : call s.conn (.sendInLoop data r) = (s.conn, []) :=
            sendInLoop_disconnected (h.closed hclosed) data r
          rw [hnone, h.late]
          rfl
        | _ => cases hsend
      · exact h.late
  · exact ⟨h.closed, h.late⟩
  · exact ⟨fun hclosed => absurd (h.closed hclosed) hlate, h.late⟩

/-- Thread 1 has seen the connection connected when the peer closes it.  Its store
    takes the connection back to `kDisconnecting`, and a `sendInLoop` that was
    queued before writes to the socket and registers the channel again. -/
theorem late_store_revives :
    ∃ s₁ s₂ : State Nat,
      (machine Nat).run { conn := { channel_ := { fd_ := 7 }, outputBuffer_ := .ctor 4 } }
        [.loop .connectionEstablished, .load 1, .loop .handleClose] = some s₁ ∧
      (machine Nat).run s₁ [.store 1, .loop (.sendInLoop [8, 9] (.wrote 1))] =
        some s₂ ∧
      s₁.conn.state_ = .kDisconnected ∧ s₂.conn.state_ = .kDisconnecting ∧
      s₂.late = [.write [8, 9] (.wrote 1), .updateChannel Channel.kWriteEvent] := by
  refine ⟨_, _, rfl, rfl, rfl, rfl, ?_⟩
  decide +kernel

/-- In a run of any threads `state_` only moves forward, stays `kDisconnected` once
    it is, and `sendInLoop` does nothing after `handleClose`, if and only if no
    `shutdown()` stores while the connection is disconnected. -/
theorem state_forward_iff {s₀ s : State Tid} {ls : List (Label Tid)}
    (hinit : (machine Tid).init s₀) (hrun : (machine Tid).run s₀ ls = some s) :
    ((machine Tid).Along Forward s₀ ls ∧ s.late = []) ↔
      (machine Tid).Along NoLateStore s₀ ls := by
  have hinv : Inv s₀ := by
    obtain ⟨_, hs⟩ := hinit
    rw [hs]
    exact ⟨nofun, rfl⟩
  constructor
  · intro h
    exact Machine.Along.imp_of_run (machine Tid) (I := fun _ => True)
      (fun _ _ _ _ hf hstep => ⟨noLateStore_of_forward hstep hf, trivial⟩) trivial hrun h.1
  · intro h
    constructor
    · exact Machine.Along.imp_of_run (machine Tid) (I := fun _ => True)
        (fun _ _ _ _ hl hstep => ⟨forward_of_noLateStore hstep hl, trivial⟩) trivial hrun h
    · exact ((machine Tid).run_invariant_along (fun _ _ _ => inv_step) hinv h hrun).late

/-- Two threads shut the connection down and the peer closes it. -/
theorem state_forward_iff_two_threads :
    ∃ s : State Nat, ∃ ls,
      (machine Nat).run { conn := { channel_ := { fd_ := 7 }, outputBuffer_ := .ctor 4 } } ls =
        some s ∧
      (machine Nat).Along Forward
        { conn := { channel_ := { fd_ := 7 }, outputBuffer_ := .ctor 4 } } ls ∧
      s.late = [] ∧ s.conn.state_ = .kDisconnected := by
  have hrun : (machine Nat).run { conn := { channel_ := { fd_ := 7 }, outputBuffer_ := .ctor 4 } }
      [.loop .connectionEstablished, .load 1, .load 2, .store 2, .store 1, .loop .handleClose,
       .load 1, .loop (.sendInLoop [8] (.wrote 1))] = some _ := rfl
  have hinit : (machine Nat).init
      { conn := { channel_ := { fd_ := 7 }, outputBuffer_ := .ctor 4 } } := ⟨rfl, rfl⟩
  have h := (state_forward_iff hinit hrun).mpr (by decide)
  exact ⟨_, _, hrun, h.1, h.2, rfl⟩

end ConnectionState
