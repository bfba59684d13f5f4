import Mathlib.Data.Finset.Basic
import Mymuduo.Framework.Machine
import Mymuduo.Net.EventLoop
import Mymuduo.Net.TcpConnection

/-! # Who owns a connection when its queued work runs

    `send` and `shutdown` in another thread queue a functor that is bound to a raw
    `this`.  What keeps the connection alive until the loop gets to it is somebody
    else's reference: the `connections_` entry, a functor bound to a
    `TcpConnectionPtr`, the guard of `handleEvent`, or a copy in a user thread.  The
    vector of `doPendingFunctors` lets go of its functors at the end of the pass.

    The test of `state_` and the enqueue are two steps.  A thread that tested
    before the close and enqueues after the loop has taken `connectionDestoryed` out
    of `pendingFunctors_` leaves a functor that nothing protects but the thread's
    own reference, which may be gone as soon as `send` has returned
    (`send_outlives_connection`).  In a run in which no thread lets go of its
    reference in that situation every such functor finds an owner
    (`dequeue_finds_owner`).
-/

namespace ConnectionOwners

open TcpConnection

/-! ## State -/

/-- The functors on the queues of the two loops.  The thread that queued it stands
    in a functor for the reader only. -/
inductive Functor (Tid : Type) where
  | connectionEstablished
  | removeConnectionInLoop
  | connectionDestoryed
  | writeComplete
  | highWaterMark
  /-- Bound to a raw `this`. -/
  | sendInLoop (t : Tid) (m : List Byte)
  /-- Bound to a raw `this`. -/
  | shutdownInLoop (t : Tid)
  /-- Not about this connection. -/
  | other
  deriving DecidableEq

namespace Functor

variable {Tid : Type}

/-- The functor holds a `TcpConnectionPtr`. -/
def owns : Functor Tid → Bool
  | .sendInLoop _ _ | .shutdownInLoop _ | .other => false
  | _ => true

/-- The thread that queued a functor bound to a raw `this`. -/
def caller : Functor Tid → Option Tid
  | .sendInLoop t _ | .shutdownInLoop t => some t
  | _ => none

end Functor

/-- A loop, with the functors of its vector that have been called in this pass. -/
structure LoopThread (Tid : Type) where
  loop : EventLoop (Functor Tid) := {}
  called : List (Functor Tid) := []

namespace LoopThread

variable {Tid : Type}

/-- The functors that exist: the vector of the pass and the pending ones. -/
def held (l : LoopThread Tid) : List (Functor Tid) :=
  l.called ++ l.loop.functors ++ l.loop.pendingFunctors_

/-- The functors that have not been called. -/
def queue (l : LoopThread Tid) : List (Functor Tid) :=
  l.loop.functors ++ l.loop.pendingFunctors_

def queueInLoop (l : LoopThread Tid) (isInLoopThread : Bool) (f : Functor Tid) : LoopThread Tid :=
  { l with loop := l.loop.queueInLoop isInLoopThread f }

/-- Not in `doPendingFunctors`, and its vector is gone. -/
def Idle (l : LoopThread Tid) : Prop :=
  l.loop.callingPendingFunctors_ = false ∧ l.loop.functors = []

instance [DecidableEq Tid] (l : LoopThread Tid) : Decidable l.Idle :=
  inferInstanceAs (Decidable (_ ∧ _))

/-- `doPendingFunctors` starts. -/
def swap (l : LoopThread Tid) : LoopThread Tid :=
  { l with loop := l.loop.beginPending.swapFunctors }

/-- The `for` loop of `doPendingFunctors` comes to its next functor. -/
def dequeue (l : LoopThread Tid) (f : Functor Tid) (rest : List (Functor Tid)) : LoopThread Tid :=
  { l with loop := { l.loop with functors := rest }, called := l.called ++ [f] }

/-- The end of `doPendingFunctors`: the vector is destroyed. -/
def finish (l : LoopThread Tid) : LoopThread Tid :=
  { l with loop := l.loop.endPending, called := [] }

end LoopThread

/-- Where a thread is in `send` or `shutdown`. -/
inductive Call where
  | none
  /-- In `send`, the state test has passed. -/
  | sendTested (m : List Byte)
  /-- In `shutdown`, the state test has passed. -/
  | shutdownTested
  /-- In `shutdown`, `state_` is stored. -/
  | shutdownStored
  deriving DecidableEq

/-- Something that holds a `TcpConnectionPtr`. -/
inductive Owner (Tid : Type) where
  /-- The entry of `connections_`. -/
  | connections_
  /-- The guard of `handleEvent`. -/
  | guard
  | user (t : Tid)
  | functor (f : Functor Tid)
  deriving DecidableEq

structure State (Tid : Type) where
  conn : TcpConnection
  /-- The connection lives in the base loop. -/
  oneLoop : Bool
  base : LoopThread Tid := {}
  io : LoopThread Tid := {}
  /-- `connections_` has the connection. -/
  entry : Bool := true
  /-- The io loop is in `handleEvent` of the channel. -/
  guard : Bool := false
  /-- `handleClose` has `closeCallback_` still to call. -/
  closing : Bool := false
  /-- The threads that have a reference of their own. -/
  users : Finset Tid := ∅
  calls : Tid → Call := fun _ => .none
  /-- The number of owners at each dequeue of a functor bound to a raw `this`. -/
  dequeues : List Nat := []

namespace State

variable {Tid : Type}

/-- The strong references to the connection. -/
def owners (s : State Tid) : Multiset (Owner Tid) :=
  (if s.entry then {Owner.connections_} else 0) + (if s.guard then {Owner.guard} else 0) +
    s.users.val.map Owner.user +
    Multiset.ofList (((s.base.held ++ s.io.held).filter Functor.owns).map Owner.functor)

/-! ## The loops -/

def applyEffect (s : State Tid) : Effect → State Tid
  | .queueWriteComplete => { s with io := s.io.queueInLoop true .writeComplete }
  | .queueHighWaterMark _ => { s with io := s.io.queueInLoop true .highWaterMark }
  | .closeCallback => { s with closing := true }
  | .write _ _ | .shutdownWrite | .updateChannel _ | .removeChannel | .connectionCallback _
  | .messageCallback => s

/-- Call a member function of the connection. -/
def call (s : State Tid) (f : TcpConnection → TcpConnection × List Effect) : State Tid :=
  (f s.conn).2.foldl applyEffect { s with conn := (f s.conn).1 }

def removeConnectionInLoop (s : State Tid) : State Tid :=
  -- between the erase and the enqueue the argument keeps the connection alive
  { s with entry := false, io := s.io.queueInLoop s.oneLoop .connectionDestoryed }

/-- `closeCallback_` is `TcpServer::removeConnection`. -/
def removeConnection (s : State Tid) : State Tid :=
  if s.oneLoop then s.removeConnectionInLoop
  else { s with base := s.base.queueInLoop false .removeConnectionInLoop }

def runFunctor (s : State Tid) (w : WriteResult) : Functor Tid → State Tid
  | .connectionEstablished => s.call TcpConnection.connectionEstablished
  | .removeConnectionInLoop => s.removeConnectionInLoop
  | .connectionDestoryed => s.call TcpConnection.connectionDestoryed
  | .sendInLoop _ m => s.call fun c => c.sendInLoop m w
  | .shutdownInLoop _ => s.call TcpConnection.shutdownInLoop
  | .writeComplete | .highWaterMark | .other => s

/-- What `newConnection` leaves behind. -/
def newConnection (c : TcpConnection) (oneLoop : Bool) : State Tid :=
  let s : State Tid := { conn := c, oneLoop := oneLoop }
  -- runInLoop from the base loop's thread
  if oneLoop then s.call TcpConnection.connectionEstablished
  else { s with io := s.io.queueInLoop false .connectionEstablished }

end State

/-! ## Steps -/

inductive Label (Tid : Type) where
  /-- The io loop finds the channel active and locks `tie_`. -/
  | handleEvent
  /-- `handleEventWithGuard` calls `handleClose`. -/
  | close
  | read (r : ReadvResult)
  | write (w : WriteResult)
  | closeCallback
  | endEvent
  | ioSwap
  | ioRun (w : WriteResult)
  | ioEnd
  | baseSwap
  | baseRun (w : WriteResult)
  | baseEnd
  /-- Somebody queues a functor that is not about this connection. -/
  | queueOther (io : Bool)
  /-- User code in the io loop calls `send` or `shutdown`. -/
  | loopSend (m : List Byte) (w : WriteResult)
  | loopShutdown
  /-- A thread gets a reference of its own, from one that exists. -/
  | copy (t : Tid)
  | release (t : Tid)
  | sendTest (t : Tid) (m : List Byte)
  | sendQueue (t : Tid)
  | shutdownTest (t : Tid)
  | shutdownStore (t : Tid)
  | shutdownQueue (t : Tid)
  deriving DecidableEq

variable {Tid : Type} [DecidableEq Tid]

/-- The io loop calls the next functor of its vector.  A call through the `this` of
    a connection without owners has no defined behaviour; the model notes it and
    goes on without the call. -/
def runIo (s : State Tid) (w : WriteResult) (f : Functor Tid) (rest : List (Functor Tid)) :
    State Tid :=
  let s' := { s with io := s.io.dequeue f rest }
  match f.caller with
  | some _ =>
    let s' := { s' with dequeues := s.dequeues ++ [s.owners.card] }
    if s.owners = 0 then s' else s'.runFunctor w f
  | none => s'.runFunctor w f

def next (s : State Tid) : Label Tid → Option (State Tid)
  | .handleEvent =>
    if s.guard = false ∧ s.io.Idle ∧ s.owners ≠ 0 then
      some { s with guard := true }
    else none
  | .close =>
    if s.guard = true ∧ s.closing = false then some (s.call handleClose) else none
  | .read r =>
    if s.guard = true ∧ s.closing = false then some (s.call fun c => c.handleRead r) else none
  | .write w =>
    if s.guard = true ∧ s.closing = false then some (s.call fun c => c.handleWrite w) else none
  | .closeCallback =>
    if s.closing = true then some { s.removeConnection with closing := false } else none
  | .endEvent =>
    if s.guard = true ∧ s.closing = false then some { s with guard := false } else none
  | .ioSwap =>
    if s.guard = false ∧ s.io.Idle then some { s with io := s.io.swap } else none
  | .ioRun w =>
    match s.io.loop.callingPendingFunctors_, s.io.loop.functors with
    | true, f :: rest => some (runIo s w f rest)
    | _, _ => none
  | .ioEnd =>
    if s.io.loop.callingPendingFunctors_ = true ∧ s.io.loop.functors = [] then
      some { s with io := s.io.finish }
    else none
  | .baseSwap =>
    if s.base.Idle then some { s with base := s.base.swap } else none
  | .baseRun w =>
    match s.base.loop.callingPendingFunctors_, s.base.loop.functors with
    | true, f :: rest => some ({ s with base := s.base.dequeue f rest }.runFunctor w f)
    | _, _ => none
  | .baseEnd =>
    if s.base.loop.callingPendingFunctors_ = true ∧ s.base.loop.functors = [] then
      some { s with base := s.base.finish }
    else none
  | .queueOther true => some { s with io := s.io.queueInLoop false .other }
  | .queueOther false => some { s with base := s.base.queueInLoop false .other }
  | .loopSend m w =>
    if s.owners ≠ 0 ∧ s.conn.state_ = .kConnected then some (s.call fun c => c.sendInLoop m w)
    else none
  | .loopShutdown =>
    if s.owners ≠ 0 ∧ s.conn.state_ = .kConnected then
      some ({ s with conn := s.conn.shutdown.1 }.call shutdownInLoop)
    else none
  | .copy t => if s.owners ≠ 0 then some { s with users := insert t s.users } else none
  | .release t =>
    -- a thread in a call of the connection has its reference
    if t ∈ s.users ∧ s.calls t = .none then some { s with users := s.users.erase t } else none
  | .sendTest t m =>
    if t ∈ s.users ∧ s.calls t = .none then
      if s.conn.state_ = .kConnected then
        some { s with calls := Function.update s.calls t (.sendTested m) }
      else some s
    else none
  | .sendQueue t =>
    match s.calls t with
    | .sendTested m =>
      some { s with
        io := s.io.queueInLoop false (.sendInLoop t m)
        calls := Function.update s.calls t .none }
    | _ => none
  | .shutdownTest t =>
    if t ∈ s.users ∧ s.calls t = .none then
      if s.conn.state_ = .kConnected then
        some { s with calls := Function.update s.calls t .shutdownTested }
      else some s
    else none
  | .shutdownStore t =>
    if s.calls t = .shutdownTested then
      some { s with
        conn := { s.conn with state_ := .kDisconnecting }
        calls := Function.update s.calls t .shutdownStored }
    else none
  | .shutdownQueue t =>
    if s.calls t = .shutdownStored then
      some { s with
        io := s.io.queueInLoop false (.shutdownInLoop t)
        calls := Function.update s.calls t .none }
    else none

/-- Starts with a connection that `newConnection` has just created. -/
def machine (Tid : Type) [DecidableEq Tid] : Machine (State Tid) (Label Tid) where
  init := fun s => ∃ c oneLoop, c.state_ = .kConnecting ∧ s = State.newConnection c oneLoop
  next := next

/-! ## What protects a queued functor -/

/-- `connectionDestoryed` is still to be taken out of the io loop's
    `pendingFunctors_`: a functor that is queued now runs before the vector with
    `connectionDestoryed` in it is destroyed. -/
def Covered (s : State Tid) : Prop :=
  s.entry = true ∨ .removeConnectionInLoop ∈ s.base.queue ∨
    .connectionDestoryed ∈ s.io.loop.pendingFunctors_

instance (s : State Tid) : Decidable (Covered s) := inferInstanceAs (Decidable (_ ∨ _))

/-- The vector of the io loop's pass has `connectionDestoryed`. -/
def InVector (s : State Tid) : Prop :=
  .connectionDestoryed ∈ s.io.called ++ s.io.loop.functors

instance (s : State Tid) : Decidable (InVector s) := inferInstanceAs (Decidable (_ ∈ _))

/-- A thread lets go of its reference only when what it has queued is protected
    without it. -/
def Timely (s : State Tid) : Label Tid → Prop
  | .release t =>
    (∀ f ∈ s.io.loop.pendingFunctors_, f.caller = some t → Covered s) ∧
      ∀ f ∈ s.io.loop.functors, f.caller = some t → Covered s ∨ InVector s
  | _ => True

instance (s : State Tid) : (l : Label Tid) → Decidable (Timely s l)
  | .release _ => inferInstanceAs (Decidable (_ ∧ _))
  | .handleEvent | .close | .read _ | .write _ | .closeCallback | .endEvent | .ioSwap | .ioRun _
  | .ioEnd | .baseSwap | .baseRun _ | .baseEnd | .queueOther _ | .loopSend _ _ | .loopShutdown
  | .copy _ | .sendTest _ _ | .sendQueue _ | .shutdownTest _ | .shutdownStore _
  | .shutdownQueue _ => isTrue trivial

section Owners

omit [DecidableEq Tid]

theorem mem_owners_functor {s : State Tid} {f : Functor Tid} (hf : f.owns = true)
    (h : f ∈ s.base.held ∨ f ∈ s.io.held) : .functor f ∈ s.owners := by
  have hmem : f ∈ (s.base.held ++ s.io.held).filter Functor.owns :=
    List.mem_filter.mpr ⟨List.mem_append.mpr h, hf⟩
  unfold State.owners
  rw [Multiset.mem_add]
  exact Or.inr (Multiset.mem_coe.mpr (List.mem_map_of_mem hmem))

theorem owned_of_user {s : State Tid} {t : Tid} (h : t ∈ s.users) : 1 ≤ s.owners.card := by
  apply Multiset.card_pos_iff_exists_mem.mpr
  refine ⟨.user t, ?_⟩
  unfold State.owners
  simp only [Multiset.mem_add, Multiset.mem_map]
  exact Or.inl (Or.inr ⟨t, h, rfl⟩)

theorem owned_of_functor {s : State Tid} {f : Functor Tid} (hf : f.owns = true)
    (h : f ∈ s.base.held ∨ f ∈ s.io.held) : 1 ≤ s.owners.card :=
  Multiset.card_pos_iff_exists_mem.mpr ⟨_, mem_owners_functor hf h⟩

theorem Covered.owned {s : State Tid} (h : Covered s) : 1 ≤ s.owners.card := by
  rcases h with hentry | hremove | hdestroy
  · apply Multiset.card_pos_iff_exists_mem.mpr
    refine ⟨.connections_, ?_⟩
    unfold State.owners
    simp [hentry]
  · apply owned_of_functor (f := .removeConnectionInLoop) rfl
    left
    rw [LoopThread.held, List.append_assoc]
    exact List.mem_append_right _ hremove
  · apply owned_of_functor (f := .connectionDestoryed) rfl
    right
    exact List.mem_append_right _ hdestroy

theorem Covered.mono {s t : State Tid} (h : Covered s) (hentry : t.entry = s.entry)
    (hbase : .removeConnectionInLoop ∈ s.base.queue → .removeConnectionInLoop ∈ t.base.queue)
    (hio : .connectionDestoryed ∈ s.io.loop.pendingFunctors_ →
      .connectionDestoryed ∈ t.io.loop.pendingFunctors_) : Covered t := by
  rcases h with hcov | hremove | hdestroy
  · exact Or.inl (hentry.trans hcov)
  · exact Or.inr (Or.inl (hbase hremove))
  · exact Or.inr (Or.inr (hio hdestroy))

theorem InVector.owned {s : State Tid} (h : InVector s) : 1 ≤ s.owners.card :=
  owned_of_functor (f := .connectionDestoryed) rfl (Or.inr (List.mem_append_left _ h))

/-! ## Steps that queue nothing unprotected -/

/-- The step keeps the protection there is, and queues no functor with a raw `this`. -/
structure Keeps (s t : State Tid) : Prop where
  users : t.users = s.users
  calls : t.calls = s.calls
  dequeues : t.dequeues = s.dequeues
  functors : t.io.loop.functors = s.io.loop.functors
  called : t.io.called = s.io.called
  pending : ∀ f ∈ t.io.loop.pendingFunctors_, f.caller ≠ none → f ∈ s.io.loop.pendingFunctors_
  covered : Covered s → Covered t

theorem Keeps.refl (s : State Tid) : Keeps s s :=
  ⟨rfl, rfl, rfl, rfl, rfl, fun _ hf _ => hf, id⟩

theorem Keeps.trans {s t u : State Tid} (h : Keeps s t) (h' : Keeps t u) : Keeps s u where
  users := h'.users.trans h.users
  calls := h'.calls.trans h.calls
  dequeues := h'.dequeues.trans h.dequeues
  functors := h'.functors.trans h.functors
  called := h'.called.trans h.called
  pending := fun f hf hc => h.pending f (h'.pending f hf hc) hc
  covered := fun hs => h'.covered (h.covered hs)

theorem queueInLoop_pending (l : LoopThread Tid) (b : Bool) (f : Functor Tid) :
    (l.queueInLoop b f).loop.pendingFunctors_ = l.loop.pendingFunctors_ ++ [f] :=
  EventLoop.queueInLoop_pendingFunctors_ l.loop b f

/-- What is queued behind it does not uncover a functor. -/
theorem queueInLoop_covered {s : State Tid} (b : Bool) (f : Functor Tid) (h : Covered s) :
    Covered { s with io := s.io.queueInLoop b f } := by
  refine h.mono rfl id ?_
  intro hdestroy
  rw [queueInLoop_pending]
  exact List.mem_append_left _ hdestroy

/-- Queueing a functor without a raw `this` in the io loop. -/
theorem queueInLoop_keeps (s : State Tid) (b : Bool) {f : Functor Tid} (hf : f.caller = none) :
    Keeps s { s with io := s.io.queueInLoop b f } := by
  refine ⟨rfl, rfl, rfl, EventLoop.queueInLoop_functors _ _ _, rfl, ?_, queueInLoop_covered b f⟩
  intro f' hf' hc
  rw [queueInLoop_pending, List.mem_append, List.mem_singleton] at hf'
  rcases hf' with hf' | rfl
  · exact hf'
  · exact absurd hf hc

theorem applyEffect_keeps (s : State Tid) (e : Effect) : Keeps s (s.applyEffect e) := by
  cases e with
  | queueWriteComplete => exact queueInLoop_keeps s true rfl
  | queueHighWaterMark size => exact queueInLoop_keeps s true rfl
  | closeCallback => exact ⟨rfl, rfl, rfl, rfl, rfl, fun _ hf _ => hf, id⟩
  | write data r => exact Keeps.refl s
  | shutdownWrite => exact Keeps.refl s
  | updateChannel events => exact Keeps.refl s
  | removeChannel => exact Keeps.refl s
  | connectionCallback state => exact Keeps.refl s
  | messageCallback => exact Keeps.refl s

theorem foldl_keeps (s : State Tid) (effects : List Effect) :
    Keeps s (effects.foldl State.applyEffect s) := by
  induction effects generalizing s with
  | nil => exact Keeps.refl s
  | cons e effects ih => exact (applyEffect_keeps s e).trans (ih (s.applyEffect e))

theorem call_keeps (s : State Tid) (f : TcpConnection → TcpConnection × List Effect) :
    Keeps s (s.call f) := by
  have hconn : Keeps s { s with conn := (f s.conn).1 } :=
    ⟨rfl, rfl, rfl, rfl, rfl, fun _ hf _ => hf, id⟩
  exact hconn.trans (foldl_keeps _ _)

/-- `removeConnectionInLoop` hands the protection over to `connectionDestoryed`. -/
theorem removeConnectionInLoop_covered (s : State Tid) : Covered s.removeConnectionInLoop := by
  refine Or.inr (Or.inr ?_)
  show .connectionDestoryed ∈
    (s.io.loop.queueInLoop s.oneLoop .connectionDestoryed).pendingFunctors_
  rw [EventLoop.queueInLoop_pendingFunctors_]
  exact List.mem_append_right _ List.mem_cons_self

theorem removeConnectionInLoop_keeps (s : State Tid) : Keeps s s.removeConnectionInLoop := by
  have hqueue := queueInLoop_keeps s s.oneLoop (f := .connectionDestoryed) rfl
  exact ⟨rfl, rfl, rfl, hqueue.functors, rfl, hqueue.pending,
    fun _ => removeConnectionInLoop_covered s⟩

/-- Queueing in the base loop. -/
theorem queueInBase_keeps (s : State Tid) (f : Functor Tid) :
    Keeps s { s with base := s.base.queueInLoop false f } := by
  refine ⟨rfl, rfl, rfl, rfl, rfl, fun _ hf _ => hf, fun hcov => hcov.mono rfl ?_ id⟩
  intro hremove
  show _ ∈ (s.base.loop.queueInLoop false f).functors ++
    (s.base.loop.queueInLoop false f).pendingFunctors_
  rw [EventLoop.queueInLoop_functors, EventLoop.queueInLoop_pendingFunctors_, ← List.append_assoc]
  exact List.mem_append_left _ hremove

theorem removeConnection_keeps (s : State Tid) : Keeps s s.removeConnection := by
  unfold State.removeConnection
  split
  · exact removeConnectionInLoop_keeps s
  · exact queueInBase_keeps s .removeConnectionInLoop

theorem runFunctor_keeps (s : State Tid) (w : WriteResult) (f : Functor Tid) :
    Keeps s (s.runFunctor w f) := by
  cases f with
  | connectionEstablished => exact call_keeps s _
  | removeConnectionInLoop => exact removeConnectionInLoop_keeps s
  | connectionDestoryed => exact call_keeps s _
  | sendInLoop t m => exact call_keeps s fun c => c.sendInLoop m w
  | shutdownInLoop t => exact call_keeps s _
  | writeComplete => exact Keeps.refl s
  | highWaterMark => exact Keeps.refl s
  | other => exact Keeps.refl s

theorem swapBase_keeps {s : State Tid} (hidle : s.base.Idle) :
    Keeps s { s with base := s.base.swap } := by
  refine ⟨rfl, rfl, rfl, rfl, rfl, fun _ hf _ => hf, fun hcov => hcov.mono rfl ?_ id⟩
  intro hremove
  rw [LoopThread.queue, hidle.2, List.nil_append] at hremove
  exact List.mem_append_left _ hremove

/-- A functor of the base loop; `removeConnectionInLoop` protects until it has run. -/
theorem runBase_keeps {s : State Tid} {f : Functor Tid} {rest : List (Functor Tid)}
    (hfunctors : s.base.loop.functors = f :: rest) (w : WriteResult) :
    Keeps s ({ s with base := s.base.dequeue f rest }.runFunctor w f) := by
  have hrun := runFunctor_keeps { s with base := s.base.dequeue f rest } w f
  refine ⟨hrun.users, hrun.calls, hrun.dequeues, hrun.functors, hrun.called, hrun.pending, ?_⟩
  intro hcov
  by_cases hf : f = .removeConnectionInLoop
  · subst hf
    exact removeConnectionInLoop_covered _
  · apply hrun.covered
    refine hcov.mono rfl ?_ id
    intro hremove
    rw [LoopThread.queue, hfunctors, List.cons_append, List.mem_cons] at hremove
    rcases hremove with heq | hmem
    · exact absurd heq.symm hf
    · exact hmem

/-! ## The invariant -/

/-- Every queued functor with a raw `this` is protected, by the thread that queued it
    or without that thread. -/
structure Inv (s : State Tid) : Prop where
  in_call : ∀ t, s.calls t ≠ .none → t ∈ s.users
  pending : ∀ f ∈ s.io.loop.pendingFunctors_, ∀ t, f.caller = some t →
    t ∈ s.users ∨ Covered s
  batch : ∀ f ∈ s.io.loop.functors, ∀ t, f.caller = some t →
    t ∈ s.users ∨ Covered s ∨ InVector s
  found : ∀ n ∈ s.dequeues, 1 ≤ n

theorem Inv.keeps {s t : State Tid} (h : Inv s) (hk : Keeps s t) : Inv t := by
  have hvector : InVector s → InVector t := by
    unfold InVector
    rw [hk.called, hk.functors]
    exact id
  constructor
  · rw [hk.calls, hk.users]
    exact h.in_call
  · intro f hf u hu
    rw [hk.users]
    have hf' := hk.pending f hf (by rw [hu]; simp)
    exact (h.pending f hf' u hu).imp_right hk.covered
  · intro f hf u hu
    rw [hk.functors] at hf
    rw [hk.users]
    exact (h.batch f hf u hu).imp_right (Or.imp hk.covered hvector)
  · rw [hk.dequeues]
    exact h.found

/-- What protects a functor of the pass is an owner. -/
theorem Inv.owned {s : State Tid} (h : Inv s) {f : Functor Tid} {t : Tid}
    (hf : f ∈ s.io.loop.functors) (ht : f.caller = some t) : 1 ≤ s.owners.card := by
  rcases h.batch f hf t ht with huser | hcov | hvector
  · exact owned_of_user huser
  · exact hcov.owned
  · exact hvector.owned

/-- The pending functors become the vector, `connectionDestoryed` with the rest. -/
theorem Inv.swap {s : State Tid} (h : Inv s) : Inv { s with io := s.io.swap } := by
  refine ⟨h.in_call, ?_, ?_, h.found⟩
  · intro f hf
    cases hf
  · intro f hf t ht
    rcases h.pending f hf t ht with huser | hentry | hremove | hdestroy
    · exact Or.inl huser
    · exact Or.inr (Or.inl (Or.inl hentry))
    · exact Or.inr (Or.inl (Or.inr (Or.inl hremove)))
    · exact Or.inr (Or.inr (List.mem_append_right _ hdestroy))

/-- A functor that is called stays in the vector. -/
theorem Inv.dequeue {s : State Tid} (h : Inv s) {f : Functor Tid} {rest : List (Functor Tid)}
    (hfunctors : s.io.loop.functors = f :: rest) :
    Inv { s with io := s.io.dequeue f rest } := by
  refine ⟨h.in_call, h.pending, ?_, h.found⟩
  intro f' hf' t ht
  have hmem : f' ∈ s.io.loop.functors := by
    rw [hfunctors]
    exact List.mem_cons_of_mem f hf'
  rcases h.batch f' hmem t ht with huser | hcov | hvector
  · exact Or.inl huser
  · exact Or.inr (Or.inl hcov)
  · refine Or.inr (Or.inr ?_)
    show _ ∈ (s.io.called ++ [f]) ++ rest
    unfold InVector at hvector
    rw [hfunctors] at hvector
    simpa using hvector

/-- The end of the pass: its vector is empty, and what is pending did not rely on it. -/
theorem Inv.finish {s : State Tid} (h : Inv s) (hfunctors : s.io.loop.functors = []) :
    Inv { s with io := s.io.finish } := by
  refine ⟨h.in_call, h.pending, ?_, h.found⟩
  intro f hf
  have hf' : f ∈ s.io.loop.functors := hf
  rw [hfunctors] at hf'
  cases hf'

theorem Inv.runIo [DecidableEq Tid] {s : State Tid} (h : Inv s) {f : Functor Tid}
    {rest : List (Functor Tid)} (hfunctors : s.io.loop.functors = f :: rest) (w : WriteResult) :
    Inv (runIo s w f rest) := by
  have hdeq := h.dequeue hfunctors
  unfold ConnectionOwners.runIo
  cases hcaller : f.caller with
  | none => exact hdeq.keeps (runFunctor_keeps _ w f)
  | some t =>
    have howned : 1 ≤ s.owners.card := h.owned (by rw [hfunctors]; simp) hcaller
    have hlogged : Inv { s with
        io := s.io.dequeue f rest, dequeues := s.dequeues ++ [s.owners.card] } := by
      refine ⟨hdeq.in_call, hdeq.pending, hdeq.batch, ?_⟩
      intro n hn
      rcases List.mem_append.mp hn with hn | hn
      · exact h.found n hn
      · rw [List.mem_singleton.mp hn]
        exact howned
    simp only
    split
    · exact hlogged
    · exact hlogged.keeps (runFunctor_keeps _ w f)

/-- A thread with a reference of its own queues a functor. -/
theorem Inv.queue {s : State Tid} (h : Inv s) {f : Functor Tid} {t : Tid} (ht : t ∈ s.users)
    (hf : f.caller = some t) : Inv { s with io := s.io.queueInLoop false f } := by
  have hcov := queueInLoop_covered (s := s) false f
  have hfunctors : (s.io.queueInLoop false f).loop.functors = s.io.loop.functors :=
    EventLoop.queueInLoop_functors _ _ _
  refine ⟨h.in_call, ?_, ?_, h.found⟩
  · intro f' hf' u hu
    rw [queueInLoop_pending, List.mem_append, List.mem_singleton] at hf'
    rcases hf' with hf' | rfl
    · exact (h.pending f' hf' u hu).imp_right hcov
    · rw [hf, Option.some.injEq] at hu
      rw [← hu]
      exact Or.inl ht
  · intro f' hf' u hu
    rw [hfunctors] at hf'
    have hvector : InVector s → InVector { s with io := s.io.queueInLoop false f } := by
      unfold InVector
      rw [hfunctors]
      exact id
    exact (h.batch f' hf' u hu).imp_right (Or.imp hcov hvector)

end Owners

/-- A thread moves on in a call; it has its reference. -/
theorem Inv.setCall {s : State Tid} (h : Inv s) {t : Tid} (ht : t ∈ s.users) (c : Call) :
    Inv { s with calls := Function.update s.calls t c } := by
  refine ⟨?_, h.pending, h.batch, h.found⟩
  intro u hu
  by_cases hut : u = t
  · rw [hut]
    exact ht
  · apply h.in_call u
    have hu' : Function.update s.calls t c u ≠ .none := hu
    rwa [Function.update_of_ne hut] at hu'

theorem Inv.copy {s : State Tid} (h : Inv s) (t : Tid) :
    Inv { s with users := insert t s.users } := by
  refine ⟨?_, ?_, ?_, h.found⟩
  · intro u hu
    exact Finset.mem_insert_of_mem (h.in_call u hu)
  · intro f hf u hu
    exact (h.pending f hf u hu).imp_left Finset.mem_insert_of_mem
  · intro f hf u hu
    exact (h.batch f hf u hu).imp_left Finset.mem_insert_of_mem

/-- A thread lets go of its reference, and what it has queued is protected without
    it. -/
theorem Inv.release {s : State Tid} (h : Inv s) {t : Tid} (ht : s.calls t = .none)
    (hp : Timely s (.release t)) : Inv { s with users := s.users.erase t } := by
  refine ⟨?_, ?_, ?_, h.found⟩
  · intro u hu
    apply Finset.mem_erase.mpr
    refine ⟨?_, h.in_call u hu⟩
    intro hut
    rw [hut] at hu
    exact hu ht
  · intro f hf u hu
    by_cases hut : u = t
    · rw [hut] at hu
      exact Or.inr (hp.1 f hf hu)
    · exact (h.pending f hf u hu).imp_left fun hmem => Finset.mem_erase.mpr ⟨hut, hmem⟩
  · intro f hf u hu
    by_cases hut : u = t
    · rw [hut] at hu
      exact Or.inr (hp.2 f hf hu)
    · exact (h.batch f hf u hu).imp_left fun hmem => Finset.mem_erase.mpr ⟨hut, hmem⟩

/-! ## Runs -/

theorem inv_init {s : State Tid} (h : (machine Tid).init s) : Inv s := by
  obtain ⟨c, oneLoop, _, rfl⟩ := h
  have hempty : Inv ({ conn := c, oneLoop := oneLoop } : State Tid) := by
    refine ⟨?_, ?_, ?_, ?_⟩
    · intro t ht
      exact absurd rfl ht
    · intro f hf
      cases hf
    · intro f hf
      cases hf
    · intro n hn
      cases hn
  unfold State.newConnection
  simp only
  split
  · exact hempty.keeps (call_keeps _ _)
  · exact hempty.keeps (queueInLoop_keeps _ false rfl)

theorem inv_step {s s' : State Tid} {l : Label Tid} (h : Inv s) (hp : Timely s l)
    (hstep : next s l = some s') : Inv s' := by
  cases l with
  | handleEvent =>
    simp only [next, Option.ite_none_right_eq_some, Option.some.injEq] at hstep
    obtain ⟨_, rfl⟩ := hstep
    exact h.keeps ⟨rfl, rfl, rfl, rfl, rfl, fun _ hf _ => hf, id⟩
  | close =>
    simp only [next, Option.ite_none_right_eq_some, Option.some.injEq] at hstep
    obtain ⟨_, rfl⟩ := hstep
    exact h.keeps (call_keeps s handleClose)
  | read r =>
    simp only [next, Option.ite_none_right_eq_some, Option.some.injEq] at hstep
    obtain ⟨_, rfl⟩ := hstep
    exact h.keeps (call_keeps s fun c => c.handleRead r)
  | write w =>
    simp only [next, Option.ite_none_right_eq_some, Option.some.injEq] at hstep
    obtain ⟨_, rfl⟩ := hstep
    exact h.keeps (call_keeps s fun c => c.handleWrite w)
  | closeCallback =>
    simp only [next, Option.ite_none_right_eq_some, Option.some.injEq] at hstep
    obtain ⟨_, rfl⟩ := hstep
    have hremoved := h.keeps (removeConnection_keeps s)
    exact hremoved.keeps ⟨rfl, rfl, rfl, rfl, rfl, fun _ hf _ => hf, id⟩
  | endEvent =>
    simp only [next, Option.ite_none_right_eq_some, Option.some.injEq] at hstep
    obtain ⟨_, rfl⟩ := hstep
    exact h.keeps ⟨rfl, rfl, rfl, rfl, rfl, fun _ hf _ => hf, id⟩
  | ioSwap =>
    simp only [next, Option.ite_none_right_eq_some, Option.some.injEq] at hstep
    obtain ⟨_, rfl⟩ := hstep
    exact h.swap
  | ioRun w =>
    simp only [next] at hstep
    split at hstep
    · rename_i f rest _ hfunctors
      obtain rfl := Option.some.inj hstep
      exact h.runIo hfunctors w
    · cases hstep
  | ioEnd =>
    simp only [next, Option.ite_none_right_eq_some, Option.some.injEq] at hstep
    obtain ⟨⟨_, hfunctors⟩, rfl⟩ := hstep
    exact h.finish hfunctors
  | baseSwap =>
    simp only [next, Option.ite_none_right_eq_some, Option.some.injEq] at hstep
    obtain ⟨hidle, rfl⟩ := hstep
    exact h.keeps (swapBase_keeps hidle)
  | baseRun w =>
    simp only [next] at hstep
    split at hstep
    · rename_i f rest _ hfunctors
      obtain rfl := Option.some.inj hstep
      exact h.keeps (runBase_keeps hfunctors w)
    · cases hstep
  | baseEnd =>
    simp only [next, Option.ite_none_right_eq_some, Option.some.injEq] at hstep
    obtain ⟨_, rfl⟩ := hstep
    exact h.keeps ⟨rfl, rfl, rfl, rfl, rfl, fun _ hf _ => hf, id⟩
  | queueOther io =>
    cases io with
    | true =>
      obtain rfl := Option.some.inj hstep
      exact h.keeps (queueInLoop_keeps s false rfl)
    | false =>
      obtain rfl := Option.some.inj hstep
      exact h.keeps (queueInBase_keeps s .other)
  | loopSend m w =>
    simp only [next, Option.ite_none_right_eq_some, Option.some.injEq] at hstep
    obtain ⟨_, rfl⟩ := hstep
    exact h.keeps (call_keeps s fun c => c.sendInLoop m w)
  | loopShutdown =>
    simp only [next, Option.ite_none_right_eq_some, Option.some.injEq] at hstep
    obtain ⟨_, rfl⟩ := hstep
    have hstored : Inv { s with conn := s.conn.shutdown.1 } :=
      h.keeps ⟨rfl, rfl, rfl, rfl, rfl, fun _ hf _ => hf, id⟩
    exact hstored.keeps (call_keeps _ shutdownInLoop)
  | copy t =>
    simp only [next, Option.ite_none_right_eq_some, Option.some.injEq] at hstep
    obtain ⟨_, rfl⟩ := hstep
    exact h.copy t
  | release t =>
    simp only [next, Option.ite_none_right_eq_some, Option.some.injEq] at hstep
    obtain ⟨⟨_, ht⟩, rfl⟩ := hstep
    exact h.release ht hp
  | sendTest t m =>
    simp only [next, Option.ite_none_right_eq_some] at hstep
    obtain ⟨⟨ht, _⟩, hstep⟩ := hstep
    split at hstep
    · obtain rfl := Option.some.inj hstep
      exact h.setCall ht (.sendTested m)
    · obtain rfl := Option.some.inj hstep
      exact h
  | sendQueue t =>
    simp only [next] at hstep
    split at hstep
    · rename_i m hcall
      obtain rfl := Option.some.inj hstep
      have ht := h.in_call t (by rw [hcall]; simp)
      exact (h.queue (f := .sendInLoop t m) ht rfl).setCall ht .none
    · cases hstep
  | shutdownTest t =>
    simp only [next, Option.ite_none_right_eq_some] at hstep
    obtain ⟨⟨ht, _⟩, hstep⟩ := hstep
    split at hstep
    · obtain rfl := Option.some.inj hstep
      exact h.setCall ht .shutdownTested
    · obtain rfl := Option.some.inj hstep
      exact h
  | shutdownStore t =>
    simp only [next, Option.ite_none_right_eq_some, Option.some.injEq] at hstep
    obtain ⟨hcall, rfl⟩ := hstep
    have ht := h.in_call t (by rw [hcall]; simp)
    have hstored : Inv { s with conn := { s.conn with state_ := .kDisconnecting } } :=
      h.keeps ⟨rfl, rfl, rfl, rfl, rfl, fun _ hf _ => hf, id⟩
    exact hstored.setCall ht .shutdownStored
  | shutdownQueue t =>
    simp only [next, Option.ite_none_right_eq_some, Option.some.injEq] at hstep
    obtain ⟨hcall, rfl⟩ := hstep
    have ht := h.in_call t (by rw [hcall]; simp)
    exact (h.queue (f := .shutdownInLoop t) ht rfl).setCall ht .none

/-- In every run in which a thread lets go of its reference only when the functors it
    has queued are ahead of `connectionDestoryed`, or in the same vector, each dequeue
    of `sendInLoop` or `shutdownInLoop` finds at least one strong reference to the
    connection. -/
theorem dequeue_finds_owner {s₀ s : State Tid} {ls : List (Label Tid)}
    (hinit : (machine Tid).init s₀) (hp : (machine Tid).Along Timely s₀ ls)
    (hrun : (machine Tid).run s₀ ls = some s) : ∀ n ∈ s.dequeues, 1 ≤ n :=
  ((machine Tid).run_invariant_along (I := Inv) (fun _ _ _ => inv_step) (inv_init hinit) hp
    hrun).found

/-- A connection as `newConnection` creates it. -/
def exampleConn : TcpConnection :=
  { channel_ := { fd_ := 7 }, inputBuffer_ := .ctor 4, outputBuffer_ := .ctor 4 }

/-- The connection is established; thread 1 gets a reference and its test in `send`
    passes; then the peer closes and the base loop removes the connection. -/
def closedDuringSend : List (Label Nat) :=
  [.ioSwap, .ioRun (.wrote 0), .ioEnd, .copy 1, .sendTest 1 [5],
   .handleEvent, .read (.read []), .closeCallback, .endEvent,
   .baseSwap, .baseRun (.wrote 0), .baseEnd]

/-- Queued before the swap, the functor runs in the pass of `connectionDestoryed` and
    is protected by its vector alone. -/
theorem dequeue_finds_owner_same_pass :
    ∃ s, (machine Nat).run (State.newConnection exampleConn false) (closedDuringSend ++
        [.sendQueue 1, .release 1, .ioSwap, .ioRun (.wrote 0),
         .ioRun (.wrote 0)]) = some s ∧
      s.dequeues = [1] ∧ ∀ n ∈ s.dequeues, 1 ≤ n := by
  have hrun : (machine Nat).run (State.newConnection exampleConn false) (closedDuringSend ++
      [.sendQueue 1, .release 1, .ioSwap, .ioRun (.wrote 0),
       .ioRun (.wrote 0)]) = some _ := rfl
  have hfound := dequeue_finds_owner ⟨exampleConn, false, rfl, rfl⟩ (by decide +kernel) hrun
  exact ⟨_, hrun, rfl, hfound⟩

/-- Queued after the pass of `connectionDestoryed` has begun, the functor outlives
    every owner: the io loop dequeues it with no reference left. -/
theorem send_outlives_connection :
    ∃ s, (machine Nat).run (State.newConnection exampleConn false) (closedDuringSend ++
        [.ioSwap, .sendQueue 1, .release 1, .ioRun (.wrote 0), .ioEnd, .ioSwap,
         .ioRun (.wrote 0)]) = some s ∧
      s.dequeues = [0] :=
  ⟨_, rfl, rfl⟩

end ConnectionOwners
