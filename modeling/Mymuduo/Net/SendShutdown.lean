import Mymuduo.Framework.Machine
import Mymuduo.Net.EventLoop
import Mymuduo.Net.TcpConnection

/-! # send, send, ..., shutdown from another thread

    One thread that is not the loop thread calls `send` for each message of its
    script and then `shutdown()`, while the loop thread handles EPOLLOUT events
    and runs pending functors.  `shutdown()` stores `kDisconnecting` at once and
    queues `shutdownInLoop`; `send` queues `sendInLoop`; and `handleWrite` acts
    on `state_` by itself when it has drained the output buffer.

    The last point is where the FIN can overtake data: a `handleWrite` that
    drains the buffer while `state_` is `kDisconnecting` and a `sendInLoop` is
    still queued shuts the socket down before that message
    (`fin_overtakes_queued_send`).  In the runs without such a step the FIN
    follows every byte (`fin_after_all_output`).
-/

namespace SendShutdown

open TcpConnection

/-! ## State -/

/-- The functors on the loop's queue. -/
inductive Functor where
  | sendInLoop (m : List Byte)
  | shutdownInLoop
  /-- A user callback queued by the connection. -/
  | callback
  deriving DecidableEq, Repr

/-- Where the sending thread is. -/
inductive Stage where
  | ready
  /-- In `send`, the state test has passed. -/
  | sendTested (m : List Byte)
  /-- In `shutdown`, the state test has passed. -/
  | shutdownTested
  /-- In `shutdown`, `state_` is stored. -/
  | shutdownStored
  /-- `shutdown` has returned. -/
  | done
  deriving DecidableEq, Repr

structure State where
  conn : TcpConnection
  loop : EventLoop Functor := {}
  /-- The loop thread is in `doPendingFunctors`. -/
  running : Bool := false
  /-- The messages still to be sent. -/
  script : List (List Byte)
  stage : Stage := .ready
  /-- The bytes the kernel has accepted. -/
  kernel : List Byte := []
  /-- `Socket::shutdownWrite` has been executed. -/
  fin : Bool := false
  /-- A `::write` was attempted after `shutdownWrite`. -/
  lateWrite : Bool := false

inductive Label where
  | sendTest
  | sendQueue
  | shutdownTest
  | shutdownStore
  | shutdownQueue
  | handleWrite (r : WriteResult)
  | doPending
  | runFunctor (r : WriteResult)
  | donePending
  deriving DecidableEq, Repr

/-! ## Steps -/

def applyEffect (s : State) : Effect → State
  -- a write that comes after the FIN is what must not happen
  | .write data r =>
    { s with kernel := s.kernel ++ r.accepted data, lateWrite := s.lateWrite || s.fin }
  | .shutdownWrite => { s with fin := true }
  | .queueWriteComplete => { s with loop := s.loop.queueInLoop true .callback }
  | .queueHighWaterMark _ => { s with loop := s.loop.queueInLoop true .callback }
  | _ => s

/-- Store the connection and carry out the effects of a member function. -/
def perform (s : State) (res : TcpConnection × List Effect) : State :=
  res.2.foldl applyEffect { s with conn := res.1 }

/-- An outcome of `::write` that is not a fatal error, and that is not logged as one. -/
def Benign (r : WriteResult) (len : Nat) : Prop :=
  r.Possible len ∧ (r.ret = -1 →
    r.errno.fatal = false ∧ (r.errno = .EWOULDBLOCK ∨ r.logged.fatal = false))

instance (r : WriteResult) (len : Nat) : Decidable (Benign r len) :=
  inferInstanceAs (Decidable (_ ∧ _))

/-- Run one functor in the loop thread. -/
def runFunctor (s : State) (r : WriteResult) : Functor → Option State
  | .sendInLoop m =>
    if s.conn.writesDirectly = true → Benign r m.length then
      some (perform s (s.conn.sendInLoop m r))
    else none
  | .shutdownInLoop => some (perform s s.conn.shutdownInLoop)
  | .callback => some s

def next (s : State) : Label → Option State
  -- `send`: the test of `state_`, then the functor is queued
  | .sendTest =>
    match s.stage, s.script with
    | .ready, m :: rest =>
      if s.conn.state_ = .kConnected then
        some { s with stage := .sendTested m, script := rest }
      else none
    | _, _ => none
  | .sendQueue =>
    match s.stage with
    | .sendTested m =>
      some { s with loop := s.loop.queueInLoop false (.sendInLoop m), stage := .ready }
    | _ => none
  -- `shutdown`: the test, the store and the functor are three steps
  | .shutdownTest =>
    match s.stage, s.script with
    | .ready, [] =>
      if s.conn.state_ = .kConnected then some { s with stage := .shutdownTested } else none
    | _, _ => none
  | .shutdownStore =>
    match s.stage with
    | .shutdownTested => some { s with conn := s.conn.shutdown.1, stage := .shutdownStored }
    | _ => none
  | .shutdownQueue =>
    match s.stage with
    | .shutdownStored =>
      some { s with loop := s.loop.queueInLoop false .shutdownInLoop, stage := .done }
    | _ => none
  -- an EPOLLOUT event, between two runs of `doPendingFunctors`
  | .handleWrite r =>
    if s.running = false ∧
        (s.conn.channel_.isWriting = true → Benign r s.conn.outputBuffer_.content.length) then
      some (perform s (s.conn.handleWrite r))
    else none
  | .doPending =>
    if s.running = false then
      some { s with loop := s.loop.beginPending.swapFunctors, running := true }
    else none
  | .runFunctor r =>
    if s.running = true then
      match s.loop.functors with
      | [] => none
      | f :: rest => runFunctor { s with loop := { s.loop with functors := rest } } r f
    else none
  | .donePending =>
    if s.running = true ∧ s.loop.functors = [] then
      some { s with loop := s.loop.endPending, running := false }
    else none

/-- Starts with an established connection, whatever earlier output it still has
    buffered, and any messages to send. -/
def machine : Machine State Label where
  init := fun s =>
    s.conn.state_ = .kConnected ∧ s.conn.Watched ∧ s = { conn := s.conn, script := s.script }
  next := next

/-- The functors in the order in which they will run. -/
def State.queue (s : State) : List Functor := s.loop.functors ++ s.loop.pendingFunctors_

/-- The messages of the queued `sendInLoop` functors. -/
def messages (q : List Functor) : List (List Byte) :=
  q.filterMap fun f =>
    match f with
    | .sendInLoop m => some m
    | _ => none

/-- The output handed over before the run and in it. -/
def total (s₀ : State) : List Byte := s₀.conn.outputBuffer_.content ++ s₀.script.flatten

/-- `shutdownWrite` has not been executed before every byte was accepted, and no
    `::write` was attempted after it. -/
def FinAfterOutput (s₀ s : State) : Prop :=
  (s.fin = true → s.kernel = total s₀) ∧ s.lateWrite = false

/-- The step is not a `handleWrite` that drains the output buffer while `state_`
    is `kDisconnecting` and a `sendInLoop` is still queued. -/
def NoEarlyDrain (s : State) : Label → Prop
  | .handleWrite r =>
    s.conn.channel_.isWriting = true → s.conn.state_ = .kDisconnecting →
      s.conn.outputBuffer_.content.drop r.ret.toNat = [] → messages s.queue = []
  | _ => True

instance (s : State) : (l : Label) → Decidable (NoEarlyDrain s l)
  | .handleWrite _ => inferInstanceAs (Decidable (_ → _ → _ → _))
  | .sendTest | .sendQueue | .shutdownTest | .shutdownStore | .shutdownQueue | .doPending
  | .runFunctor _ | .donePending => isTrue trivial

/-! ## The FIN overtakes a queued message -/

/-- The first message is half written when the second is queued and `shutdown()`
    stores `kDisconnecting`; the next EPOLLOUT drains the first message and shuts
    the socket down, and the second message is written after that. -/
theorem fin_overtakes_queued_send :
    ∃ s₀ s s' : State, machine.init s₀ ∧ s₀.script = [[1, 2], [3]] ∧
      machine.run s₀ [.sendTest, .sendQueue, .doPending, .runFunctor (.wrote 1),
        .donePending, .sendTest, .sendQueue, .shutdownTest, .shutdownStore, .shutdownQueue,
        .handleWrite (.wrote 1)] = some s ∧
      s.fin = true ∧ s.kernel = [1, 2] ∧ total s₀ = [1, 2, 3] ∧
      machine.run s [.doPending, .runFunctor (.wrote 1)] = some s' ∧
      s'.lateWrite = true ∧ ¬ FinAfterOutput s₀ s ∧ ¬ FinAfterOutput s₀ s' := by
  refine ⟨{ conn := { state_ := .kConnected, channel_ := { fd_ := 7 }, outputBuffer_ := .ctor 4 },
            script := [[1, 2], [3]] }, _, _, ⟨rfl, by decide, rfl⟩, rfl, rfl, rfl, rfl, rfl, rfl,
          rfl, ?_, ?_⟩
  · intro h
    exact absurd (h.1 rfl) (by decide)
  · intro h
    exact absurd h.2 (by decide)

/-! ## Effects -/

theorem messages_append (p q : List Functor) : messages (p ++ q) = messages p ++ messages q := by
  simp [messages]

/-- No `sendInLoop` is queued behind a `shutdownInLoop`. -/
def Ordered : List Functor → Prop
  | [] => True
  | .shutdownInLoop :: q => messages q = [] ∧ Ordered q
  | _ :: q => Ordered q

theorem ordered_append {q : List Functor} {f : Functor} (hf : messages [f] = [])
    (h : Ordered q) : Ordered (q ++ [f]) := by
  induction q with
  | nil =>
    cases f with
    | sendInLoop m => simp [messages] at hf
    | shutdownInLoop => exact ⟨rfl, trivial⟩
    | callback => trivial
  | cons g q ih =>
    -- a `sendInLoop` may stand in front of what it likes
    cases g with
    | sendInLoop m => exact ih h
    | shutdownInLoop =>
      have hmsgs : messages (q ++ [f]) = [] := by
        rw [messages_append, h.1, hf, List.append_nil]
      exact ⟨hmsgs, ih h.2⟩
    | callback => exact ih h

theorem ordered_of_no_shutdown {q : List Functor} (h : .shutdownInLoop ∉ q) : Ordered q := by
  induction q with
  | nil => trivial
  | cons f q ih =>
    rw [List.mem_cons, not_or] at h
    cases f with
    | sendInLoop m => exact ih h.2
    | shutdownInLoop => exact absurd rfl h.1
    | callback => exact ih h.2

/-- What carrying out effects can do to the thread-visible state. -/
structure Frame (s s' : State) : Prop where
  conn : s'.conn = s.conn
  functors : s'.loop.functors = s.loop.functors
  running : s'.running = s.running
  script : s'.script = s.script
  stage : s'.stage = s.stage
  messages : messages s'.queue = messages s.queue
  ordered : Ordered s.queue → Ordered s'.queue
  shutdown : .shutdownInLoop ∉ s.queue → .shutdownInLoop ∉ s'.queue

theorem Frame.refl (s : State) : Frame s s :=
  ⟨rfl, rfl, rfl, rfl, rfl, rfl, id, id⟩

theorem Frame.trans {s t u : State} (h : Frame s t) (k : Frame t u) : Frame s u where
  conn := k.conn.trans h.conn
  functors := k.functors.trans h.functors
  running := k.running.trans h.running
  script := k.script.trans h.script
  stage := k.stage.trans h.stage
  messages := k.messages.trans h.messages
  ordered := fun ho => k.ordered (h.ordered ho)
  shutdown := fun hn => k.shutdown (h.shutdown hn)

theorem queue_callback (s : State) :
    Frame s { s with loop := s.loop.queueInLoop true .callback } := by
  have hq : State.queue { s with loop := s.loop.queueInLoop true .callback } =
      s.queue ++ [.callback] := by
    simp [State.queue]
  refine ⟨rfl, by simp, rfl, rfl, rfl, ?_, ?_, ?_⟩
  · rw [hq, messages_append]
    simp [messages]
  · intro ho
    rw [hq]
    exact ordered_append rfl ho
  · intro hn
    rw [hq]
    simpa using hn

theorem applyEffect_frame (s : State) (e : Effect) : Frame s (applyEffect s e) := by
  cases e with
  | write data r => exact ⟨rfl, rfl, rfl, rfl, rfl, rfl, id, id⟩
  | shutdownWrite => exact ⟨rfl, rfl, rfl, rfl, rfl, rfl, id, id⟩
  | queueWriteComplete => exact queue_callback s
  | queueHighWaterMark size => exact queue_callback s
  | updateChannel events => exact Frame.refl s
  | removeChannel => exact Frame.refl s
  | connectionCallback state => exact Frame.refl s
  | messageCallback => exact Frame.refl s
  | closeCallback => exact Frame.refl s

theorem effects_frame (s : State) (es : List Effect) : Frame s (es.foldl applyEffect s) := by
  induction es generalizing s with
  | nil => exact Frame.refl s
  | cons e es ih => exact (applyEffect_frame s e).trans (ih (applyEffect s e))

theorem effects_kernel (s : State) (es : List Effect) :
    (es.foldl applyEffect s).kernel = s.kernel ++ acceptedBytes es := by
  induction es generalizing s with
  | nil => simp
  | cons e es ih =>
    rw [List.foldl_cons, ih, acceptedBytes_cons, ← List.append_assoc]
    congr 1
    cases e <;> simp [applyEffect, Effect.accepted]

/-- Before the FIN, effects that do not shut the socket down neither send it nor
    write late. -/
theorem effects_no_fin (s : State) (es : List Effect) (hfin : s.fin = false)
    (hno : Effect.shutdownWrite ∉ es) :
    (es.foldl applyEffect s).fin = false ∧
      (es.foldl applyEffect s).lateWrite = s.lateWrite := by
  induction es generalizing s with
  | nil => exact ⟨hfin, rfl⟩
  | cons e es ih =>
    rw [List.mem_cons, not_or] at hno
    have hfin' : (applyEffect s e).fin = false := by
      cases e <;> simp_all [applyEffect]
    have hlate : (applyEffect s e).lateWrite = s.lateWrite := by
      cases e <;> simp_all [applyEffect]
    obtain ⟨h1, h2⟩ := ih (applyEffect s e) hfin' hno.2
    exact ⟨h1, h2.trans hlate⟩

/-! ## The invariant -/

/-- The messages of the sending thread that are not queued yet. -/
def State.unsent (s : State) : List Byte :=
  match s.stage with
  | .sendTested m => m ++ s.script.flatten
  | _ => s.script.flatten

/-- `shutdown()` has stored `kDisconnecting`. -/
def State.stored (s : State) : Prop := s.stage = .shutdownStored ∨ s.stage = .done

structure Inv (all : List Byte) (s : State) : Prop where
  /-- Every byte is accepted, buffered, queued or still with the sender, in this
      order. -/
  conserved :
    s.kernel ++ s.conn.outputBuffer_.content ++ (messages s.queue).flatten ++ s.unsent = all
  watched : s.conn.Watched
  connected : ¬ s.stored → s.conn.state_ = .kConnected
  disconnecting : s.stored → s.conn.state_ = .kDisconnecting
  script_done : s.stage = .shutdownTested ∨ s.stored → s.script = []
  ordered : Ordered s.queue
  no_shutdown : s.stage ≠ .done → .shutdownInLoop ∉ s.queue
  batch : s.running = false → s.loop.functors = []
  fin : s.fin = true → s.conn.outputBuffer_.content = [] ∧ messages s.queue = [] ∧ s.stored
  late : s.lateWrite = false

theorem Inv.unsent_nil {all : List Byte} {s : State} (h : Inv all s) (hs : s.stored) :
    s.unsent = [] := by
  have hscript := h.script_done (Or.inr hs)
  unfold State.unsent
  rcases hs with hs | hs <;> rw [hs] <;> simp [hscript]

/-- Once the FIN is out, every byte has been accepted. -/
theorem Inv.fin_kernel {all : List Byte} {s : State} (h : Inv all s) (hf : s.fin = true) :
    s.kernel = all := by
  obtain ⟨hc, hm, hs⟩ := h.fin hf
  have hcons := h.conserved
  rw [hc, hm, h.unsent_nil hs] at hcons
  simpa using hcons

theorem Inv.not_disconnected {all : List Byte} {s : State} (h : Inv all s) :
    s.conn.state_ ≠ .kDisconnected := by
  by_cases hs : s.stored
  · rw [h.disconnecting hs]
    decide
  · rw [h.connected hs]
    decide

/-- A member function that moves output along without shutting the socket down
    keeps the invariant while the FIN is not out.  `l` is the loop after the
    functor in question has been taken off the queue, `extra` its message. -/
theorem inv_perform {all : List Byte} {s : State} (h : Inv all s) (c : TcpConnection)
    (es : List Effect) (l : EventLoop Functor) (extra : List Byte)
    (hfin : s.fin = false) (hno : Effect.shutdownWrite ∉ es) (hstate : c.state_ = s.conn.state_)
    (hw : c.Watched)
    (hout : acceptedBytes es ++ c.outputBuffer_.content = s.conn.outputBuffer_.content ++ extra)
    (hmsgs : extra ++ (messages (State.queue { s with loop := l })).flatten =
      (messages s.queue).flatten)
    (hord : Ordered (State.queue { s with loop := l }))
    (hsd : .shutdownInLoop ∉ s.queue → .shutdownInLoop ∉ State.queue { s with loop := l })
    (hbatch : s.running = false → l.functors = []) :
    Inv all (perform { s with loop := l } (c, es)) := by
  have hframe := effects_frame { s with loop := l, conn := c } es
  have hker := effects_kernel { s with loop := l, conn := c } es
  obtain ⟨hfin', hlate'⟩ := effects_no_fin { s with loop := l, conn := c } es hfin hno
  change Inv all (es.foldl applyEffect { s with loop := l, conn := c })
  have hunsent : (es.foldl applyEffect { s with loop := l, conn := c }).unsent = s.unsent := by
    unfold State.unsent
    rw [hframe.stage, hframe.script]
  have hstored : (es.foldl applyEffect { s with loop := l, conn := c }).stored ↔ s.stored := by
    unfold State.stored
    rw [hframe.stage]
  refine ⟨?_, ?_, ?_, ?_, ?_, ?_, ?_, ?_, ?_, ?_⟩
  · rw [hunsent, hframe.conn, hker, hframe.messages]
    -- the bytes move from the message to the buffer and on to the kernel
    calc s.kernel ++ acceptedBytes es ++ c.outputBuffer_.content
          ++ (messages (State.queue { s with loop := l })).flatten ++ s.unsent
        = s.kernel ++ (acceptedBytes es ++ c.outputBuffer_.content)
          ++ (messages (State.queue { s with loop := l })).flatten ++ s.unsent := by
          simp only [List.append_assoc]
      _ = s.kernel ++ s.conn.outputBuffer_.content
          ++ (extra ++ (messages (State.queue { s with loop := l })).flatten) ++ s.unsent := by
          rw [hout]
          simp only [List.append_assoc]
      _ = all := by rw [hmsgs, h.conserved]
  · rw [hframe.conn]
    exact hw
  · intro hs
    rw [hframe.conn]
    exact hstate.trans (h.connected (fun hs' => hs (hstored.mpr hs')))
  · intro hs
    rw [hframe.conn]
    exact hstate.trans (h.disconnecting (hstored.mp hs))
  · intro hs
    rw [hframe.script]
    rw [hframe.stage, hstored] at hs
    exact h.script_done hs
  · exact hframe.ordered hord
  · intro hs
    rw [hframe.stage] at hs
    exact hframe.shutdown (hsd (h.no_shutdown hs))
  · intro hr
    rw [hframe.running] at hr
    rw [hframe.functors]
    exact hbatch hr
  · intro hf
    rw [hfin'] at hf
    cases hf
  · rw [hlate']
    exact h.late

/-- Shutting the socket down when everything is accepted keeps the invariant. -/
theorem inv_shutdownWrite {all : List Byte} {s : State} (h : Inv all s)
    (hc : s.conn.outputBuffer_.content = []) (hm : messages s.queue = []) (hs : s.stored) :
    Inv all { s with fin := true } :=
  ⟨h.conserved, h.watched, h.connected, h.disconnecting, h.script_done, h.ordered,
    h.no_shutdown, h.batch, fun _ => ⟨hc, hm, hs⟩, h.late⟩

/-! ## Steps of the sending thread -/

/-- The sending thread has passed a test of `state_`: it is at another place, with the same
    bytes still to be sent. -/
theorem inv_tested {all : List Byte} {s : State} (h : Inv all s) (hready : s.stage = .ready)
    (stage : Stage) (script : List (List Byte))
    (hunsent : State.unsent { s with stage := stage, script := script } = s.unsent)
    (hscript : stage = .shutdownTested → script = [])
    (hstage : stage ≠ .shutdownStored ∧ stage ≠ .done) :
    Inv all { s with stage := stage, script := script } := by
  have hns : ¬ s.stored := by simp [State.stored, hready]
  have hns' : ¬ State.stored { s with stage := stage, script := script } := by
    simp [State.stored, hstage]
  refine ⟨?_, h.watched, fun _ => h.connected hns, fun hs => absurd hs hns', ?_, h.ordered, ?_,
    h.batch, ?_, h.late⟩
  · rw [hunsent]
    exact h.conserved
  · exact fun hs => hscript (hs.resolve_right hns')
  · intro _
    exact h.no_shutdown (by simp [hready])
  · intro hf
    exact absurd (h.fin hf).2.2 hns

theorem inv_sendTest {all : List Byte} {s s' : State} (h : Inv all s)
    (hstep : next s .sendTest = some s') : Inv all s' := by
  simp only [next] at hstep
  split at hstep
  · rename_i m rest hstage hscript
    simp only [Option.ite_none_right_eq_some, Option.some.injEq] at hstep
    obtain ⟨_, rfl⟩ := hstep
    have hunsent : State.unsent { s with stage := .sendTested m, script := rest } = s.unsent := by
      simp [State.unsent, hstage, hscript]
    exact inv_tested h hstage (.sendTested m) rest hunsent (by simp) (by simp)
  · cases hstep

theorem inv_sendQueue {all : List Byte} {s s' : State} (h : Inv all s)
    (hstep : next s .sendQueue = some s') : Inv all s' := by
  simp only [next] at hstep
  split at hstep
  · rename_i m hstage
    obtain rfl := Option.some.inj hstep
    have hcons := h.conserved
    have hns : ¬ s.stored := by simp [State.stored, hstage]
    have hsd := h.no_shutdown (by simp [hstage])
    have hq : State.queue
        { s with loop := s.loop.queueInLoop false (.sendInLoop m), stage := .ready } =
        s.queue ++ [.sendInLoop m] := by
      simp [State.queue]
    have hsd' : .shutdownInLoop ∉ s.queue ++ [.sendInLoop m] := by
      simpa using hsd
    -- `shutdown` comes after all sends, so no `shutdownInLoop` is in front
    refine ⟨?_, h.watched, fun _ => h.connected hns, ?_, ?_, ?_, ?_, ?_, ?_, h.late⟩
    · rw [hq, messages_append, ← hcons]
      simp [State.unsent, hstage, messages]
    · simp [State.stored]
    · simp [State.stored]
    · rw [hq]
      exact ordered_of_no_shutdown hsd'
    · intro _
      rw [hq]
      exact hsd'
    · intro hr
      simpa using h.batch hr
    · intro hf
      exact absurd (h.fin hf).2.2 hns
  · cases hstep

theorem inv_shutdownTest {all : List Byte} {s s' : State} (h : Inv all s)
    (hstep : next s .shutdownTest = some s') : Inv all s' := by
  simp only [next] at hstep
  split at hstep
  · rename_i hstage hscript
    simp only [Option.ite_none_right_eq_some, Option.some.injEq] at hstep
    obtain ⟨_, rfl⟩ := hstep
    have hunsent : State.unsent { s with stage := .shutdownTested } = s.unsent := by
      simp [State.unsent, hstage]
    exact inv_tested h hstage .shutdownTested s.script hunsent (fun _ => hscript) (by simp)
  · cases hstep

theorem inv_shutdownStore {all : List Byte} {s s' : State} (h : Inv all s)
    (hstep : next s .shutdownStore = some s') : Inv all s' := by
  simp only [next] at hstep
  split at hstep
  · rename_i hstage
    obtain rfl := Option.some.inj hstep
    have hcons := h.conserved
    have hns : ¬ s.stored := by simp [State.stored, hstage]
    have hshut : s.conn.shutdown.1 = { s.conn with state_ := .kDisconnecting } := by
      simp [TcpConnection.shutdown, h.connected hns]
    have hscript := h.script_done (Or.inl hstage)
    -- from here on `handleWrite` may act on `state_`
    refine ⟨?_, ?_, ?_, ?_, fun _ => hscript, h.ordered, ?_, h.batch, ?_, h.late⟩
    · rw [← hcons]
      simp [hshut, State.unsent, State.queue, hstage]
    · rw [hshut]
      exact h.watched
    · simp [State.stored]
    · intro _
      rw [hshut]
    · intro _
      exact h.no_shutdown (by simp [hstage])
    · intro hf
      exact absurd (h.fin hf).2.2 hns
  · cases hstep

theorem inv_shutdownQueue {all : List Byte} {s s' : State} (h : Inv all s)
    (hstep : next s .shutdownQueue = some s') : Inv all s' := by
  simp only [next] at hstep
  split at hstep
  · rename_i hstage
    obtain rfl := Option.some.inj hstep
    have hcons := h.conserved
    have hs : s.stored := Or.inl hstage
    have hscript := h.script_done (Or.inr hs)
    have hq : State.queue
        { s with loop := s.loop.queueInLoop false .shutdownInLoop, stage := .done } =
        s.queue ++ [.shutdownInLoop] := by
      simp [State.queue]
    have hmsgs : messages (s.queue ++ [.shutdownInLoop]) = messages s.queue := by
      rw [messages_append]
      simp [messages]
    refine ⟨?_, h.watched, ?_, fun _ => h.disconnecting hs, fun _ => hscript, ?_, ?_, ?_, ?_,
      h.late⟩
    · rw [hq, hmsgs, ← hcons]
      simp [State.unsent, hstage]
    · simp [State.stored]
    · rw [hq]
      exact ordered_append rfl h.ordered
    · intro hne
      exact absurd rfl hne
    · intro hr
      simpa using h.batch hr
    · intro hf
      obtain ⟨hc, hm, _⟩ := h.fin hf
      rw [hq, hmsgs]
      exact ⟨hc, hm, Or.inr rfl⟩
  · cases hstep

/-! ## Steps of the loop thread -/

/-- The write of a `handleWrite` and what follows it up to the FIN. -/
def drainEffects (c : TcpConnection) (r : WriteResult) : List Effect :=
  .write c.outputBuffer_.content r :: .updateChannel c.channel_.disableWriting.events_ ::
    c.completeEffects

theorem drainEffects_no_fin (c : TcpConnection) (r : WriteResult) :
    Effect.shutdownWrite ∉ drainEffects c r := by
  unfold drainEffects completeEffects
  split <;> simp

theorem drainEffects_accepted (c : TcpConnection) (r : WriteResult) :
    acceptedBytes (drainEffects c r) ++ (c.drained r).outputBuffer_.content =
      c.outputBuffer_.content := by
  have hcomplete : acceptedBytes c.completeEffects = [] := by
    unfold completeEffects
    split <;> rfl
  unfold drainEffects drained
  rw [acceptedBytes_cons, acceptedBytes_cons, hcomplete]
  simp [Effect.accepted, WriteResult.accepted]

theorem inv_handleWrite {all : List Byte} {s s' : State} {r : WriteResult} (h : Inv all s)
    (hnd : NoEarlyDrain s (.handleWrite r)) (hstep : next s (.handleWrite r) = some s') :
    Inv all s' := by
  simp only [next, Option.ite_none_right_eq_some, Option.some.injEq] at hstep
  obtain ⟨_, rfl⟩ := hstep
  have hout := handleWrite_output s.conn r
  -- not writing; nothing written; part of the buffer written; all of it
  rcases handleWrite_cases s.conn r with ⟨_, hcall⟩ | ⟨hw, _, hcall⟩ | ⟨hw, _, hne, hcall⟩ |
    ⟨hw, _, hempty, hcall⟩
  · rw [hcall]
    exact h
  all_goals
    -- output was buffered, so the FIN cannot be out
    have hfin : s.fin = false := by
      by_contra hf
      exact h.watched.mp hw (h.fin (by simpa using hf)).1
    rw [hcall] at hout ⊢
  · exact inv_perform h _ _ s.loop [] hfin (by simp) rfl h.watched (by simpa using hout)
      (by rfl) h.ordered id h.batch
  · have hwatch : Watched
        { s.conn with outputBuffer_ := s.conn.outputBuffer_.retrieve r.ret.toNat } := by
      unfold Watched
      simp only [WFBuffer.retrieve_content]
      exact ⟨fun _ => hne, fun _ => hw⟩
    exact inv_perform h _ _ s.loop [] hfin (by simp) rfl hwatch (by simpa using hout)
      (by rfl) h.ordered id h.batch
  · have hwatch : (s.conn.drained r).Watched := by
      simp [Watched, drained, hempty]
    have hacc := drainEffects_accepted s.conn r
    have hinv : Inv all (perform s (s.conn.drained r, drainEffects s.conn r)) :=
      inv_perform h _ _ s.loop [] hfin (drainEffects_no_fin s.conn r) rfl hwatch
        (by simpa using hacc) (by rfl) h.ordered id h.batch
    by_cases hs : s.conn.state_ = .kDisconnecting
    · -- the branch that shuts the socket down by itself
      have hframe := effects_frame { s with conn := s.conn.drained r } (drainEffects s.conn r)
      have hstored : s.stored := by
        by_contra hns
        rw [h.connected hns] at hs
        cases hs
      have hsplit : perform s (s.conn.drained r, .write s.conn.outputBuffer_.content r ::
          .updateChannel s.conn.channel_.disableWriting.events_ ::
            (s.conn.completeEffects ++ [.shutdownWrite])) =
          { perform s (s.conn.drained r, drainEffects s.conn r) with fin := true } := by
        simp only [perform, drainEffects, List.foldl_cons, List.foldl_append, List.foldl_nil]
        rfl
      rw [if_pos hs, hsplit]
      refine inv_shutdownWrite hinv ?_ ?_ ?_
      · unfold perform
        rw [hframe.conn]
        simpa [drained] using hempty
      · unfold perform
        rw [hframe.messages]
        exact hnd hw hs hempty
      · unfold perform State.stored
        rw [hframe.stage]
        exact hstored
    · rw [if_neg hs, List.append_nil]
      exact hinv

theorem inv_doPending {all : List Byte} {s s' : State} (h : Inv all s)
    (hstep : next s .doPending = some s') : Inv all s' := by
  simp only [next, Option.ite_none_right_eq_some, Option.some.injEq] at hstep
  obtain ⟨hr, rfl⟩ := hstep
  have hq : State.queue { s with loop := s.loop.beginPending.swapFunctors, running := true } =
      s.queue := by
    simp [State.queue, h.batch hr, EventLoop.beginPending, EventLoop.swapFunctors]
  refine ⟨?_, h.watched, h.connected, h.disconnecting, h.script_done, ?_, ?_, ?_, ?_, h.late⟩
  · rw [hq]
    exact h.conserved
  · rw [hq]
    exact h.ordered
  · rw [hq]
    exact h.no_shutdown
  · intro hf
    cases hf
  · rw [hq]
    exact h.fin

theorem inv_donePending {all : List Byte} {s s' : State} (h : Inv all s)
    (hstep : next s .donePending = some s') : Inv all s' := by
  simp only [next, Option.ite_none_right_eq_some, Option.some.injEq] at hstep
  obtain ⟨⟨_, hnil⟩, rfl⟩ := hstep
  exact ⟨h.conserved, h.watched, h.connected, h.disconnecting, h.script_done, h.ordered,
    h.no_shutdown, fun _ => hnil, h.fin, h.late⟩

/-- Taking the first functor off the batch. -/
theorem queue_pop {s : State} {f : Functor} {rest : List Functor}
    (hf : s.loop.functors = f :: rest) :
    s.queue = f :: State.queue { s with loop := { s.loop with functors := rest } } := by
  simp [State.queue, hf]

theorem Ordered.tail {f : Functor} {q : List Functor} (h : Ordered (f :: q)) : Ordered q := by
  cases f with
  | sendInLoop m => exact h
  | shutdownInLoop => exact h.2
  | callback => exact h

/-- Running a functor that is neither a send nor a shutdown. -/
theorem inv_pop {all : List Byte} {s : State} (h : Inv all s) {f : Functor}
    {rest : List Functor} (hrun : s.running = true) (hf : s.loop.functors = f :: rest)
    (hm : messages [f] = []) :
    Inv all { s with loop := { s.loop with functors := rest } } := by
  have hq := queue_pop hf
  have hmsgs : messages s.queue =
      messages (State.queue { s with loop := { s.loop with functors := rest } }) := by
    rw [hq, ← List.singleton_append, messages_append, hm, List.nil_append]
  refine ⟨?_, h.watched, h.connected, h.disconnecting, h.script_done, ?_, ?_, ?_, ?_, h.late⟩
  · have hcons := h.conserved
    rw [hmsgs] at hcons
    exact hcons
  · have hord := h.ordered
    rw [hq] at hord
    exact hord.tail
  · intro hne hmem
    refine h.no_shutdown hne ?_
    rw [hq]
    exact List.mem_cons_of_mem f hmem
  · intro hr
    rw [hrun] at hr
    cases hr
  · intro hfin
    rw [← hmsgs]
    exact h.fin hfin

theorem inv_runFunctor {all : List Byte} {s s' : State} {r : WriteResult} (h : Inv all s)
    (hstep : next s (.runFunctor r) = some s') : Inv all s' := by
  simp only [next, Option.ite_none_right_eq_some] at hstep
  obtain ⟨hrun, hstep⟩ := hstep
  split at hstep
  · cases hstep
  · rename_i f rest hf
    have hq := queue_pop hf
    cases f with
    | sendInLoop m =>
      simp only [runFunctor, Option.ite_none_right_eq_some, Option.some.injEq] at hstep
      obtain ⟨hbenign, rfl⟩ := hstep
      have hmsgs : m ++ (messages (State.queue
          { s with loop := { s.loop with functors := rest } })).flatten =
          (messages s.queue).flatten := by
        rw [hq]
        rfl
      -- a message was queued, so the FIN cannot be out
      have hfin : s.fin = false := by
        by_contra hf'
        have hnil := (h.fin (by simpa using hf')).2.1
        rw [hq] at hnil
        cases hnil
      have hnofault : ¬ s.conn.DirectFault r := by
        intro ⟨_, hd, hret, hblock, hfatal⟩
        rcases ((hbenign hd).2 hret).2 with h | h
        · exact hblock h
        · rw [h] at hfatal
          cases hfatal
      -- `sendInLoop` itself never shuts the socket down
      obtain ⟨hstate, hwatch, hno⟩ := sendInLoop_frame s.conn m r
        (fun _ hd => (hbenign hd).1) h.watched
      have hord := h.ordered
      rw [hq] at hord
      exact inv_perform h _ _ { s.loop with functors := rest } m hfin hno hstate hwatch
        (sendInLoop_output s.conn m r (fun hd => (hbenign hd).1) h.not_disconnected
          (fun hfault => absurd hfault hnofault))
        hmsgs hord.tail
        (fun hn hmem => hn (hq ▸ List.mem_cons_of_mem _ hmem))
        (fun hr => by rw [hrun] at hr; cases hr)
    | shutdownInLoop =>
      obtain rfl := Option.some.inj hstep
      have hpop := inv_pop h hrun hf rfl
      by_cases hw : s.conn.channel_.isWriting = true
      · have hcall : s.conn.shutdownInLoop = (s.conn, []) := if_pos hw
        change Inv all (perform _ s.conn.shutdownInLoop)
        rw [hcall]
        exact hpop
      · -- nothing is buffered, and no message is queued behind a shutdown
        have hcall : s.conn.shutdownInLoop = (s.conn, [.shutdownWrite]) := if_neg hw
        have hord := h.ordered
        rw [hq] at hord
        have hdone : s.stage = .done := by
          by_contra hne
          refine h.no_shutdown hne ?_
          rw [hq]
          exact List.mem_cons_self
        have hcontent : s.conn.outputBuffer_.content = [] := by
          by_contra hne
          exact hw (h.watched.mpr hne)
        change Inv all (perform _ s.conn.shutdownInLoop)
        rw [hcall]
        exact inv_shutdownWrite hpop hcontent hord.1 (Or.inr hdone)
    | callback =>
      obtain rfl := Option.some.inj hstep
      exact inv_pop h hrun hf rfl

/-! ## Whole runs -/

theorem inv_init {s : State} (h : machine.init s) : Inv (total s) s := by
  obtain ⟨hstate, hw, heq⟩ := h
  rw [heq]
  refine ⟨?_, hw, fun _ => hstate, ?_, ?_, trivial, ?_, fun _ => rfl, ?_, rfl⟩
  · simp [total, State.queue, State.unsent, messages]
  · simp [State.stored]
  · simp [State.stored]
  · simp [State.queue]
  · intro hf
    cases hf

theorem inv_step {all : List Byte} {s s' : State} {l : Label} (h : Inv all s)
    (hnd : NoEarlyDrain s l) (hstep : next s l = some s') : Inv all s' := by
  cases l with
  | sendTest => exact inv_sendTest h hstep
  | sendQueue => exact inv_sendQueue h hstep
  | shutdownTest => exact inv_shutdownTest h hstep
  | shutdownStore => exact inv_shutdownStore h hstep
  | shutdownQueue => exact inv_shutdownQueue h hstep
  | handleWrite r => exact inv_handleWrite h hnd hstep
  | doPending => exact inv_doPending h hstep
  | runFunctor r => exact inv_runFunctor h hstep
  | donePending => exact inv_donePending h hstep

/-- In a run none of whose `handleWrite` steps drains the buffer of a
    disconnecting connection while a `sendInLoop` is queued, the FIN follows
    every byte and no `::write` follows the FIN. -/
theorem fin_after_all_output {s₀ s : State} {ls : List Label} (hinit : machine.init s₀)
    (hrun : machine.run s₀ ls = some s) (hnd : machine.Along NoEarlyDrain s₀ ls) :
    FinAfterOutput s₀ s := by
  have hinv : Inv (total s₀) s :=
    machine.run_invariant_along (fun _ _ _ h hl hstep => inv_step h hl hstep) (inv_init hinit)
      hnd hrun
  exact ⟨fun hf => hinv.fin_kernel hf, hinv.late⟩

/-- The same messages with the second one written before the EPOLLOUT: the FIN
    goes out, after all three bytes. -/
theorem fin_after_all_output_two_messages :
    ∃ s₀ s : State, ∃ ls : List Label, machine.init s₀ ∧ machine.run s₀ ls = some s ∧
      machine.Along NoEarlyDrain s₀ ls ∧ s.fin = true ∧ FinAfterOutput s₀ s := by
  have hinit : machine.init
      { conn := { state_ := .kConnected, channel_ := { fd_ := 7 }, outputBuffer_ := .ctor 4 },
        script := [[1, 2], [3]] } := ⟨rfl, by decide, rfl⟩
  have hrun : machine.run
      { conn := { state_ := .kConnected, channel_ := { fd_ := 7 }, outputBuffer_ := .ctor 4 },
        script := [[1, 2], [3]] }
      [.sendTest, .sendQueue, .doPending, .runFunctor (.wrote 1), .donePending,
        .sendTest, .sendQueue, .shutdownTest, .shutdownStore, .doPending,
        .runFunctor ⟨-1, .EWOULDBLOCK, .EWOULDBLOCK⟩, .donePending, .handleWrite (.wrote 2)] =
      some _ := rfl
  have hnd : machine.Along NoEarlyDrain
      { conn := { state_ := .kConnected, channel_ := { fd_ := 7 }, outputBuffer_ := .ctor 4 },
        script := [[1, 2], [3]] }
      [.sendTest, .sendQueue, .doPending, .runFunctor (.wrote 1), .donePending,
        .sendTest, .sendQueue, .shutdownTest, .shutdownStore, .doPending,
        .runFunctor ⟨-1, .EWOULDBLOCK, .EWOULDBLOCK⟩, .donePending, .handleWrite (.wrote 2)] := by
    decide +kernel
  exact ⟨_, _, _, hinit, hrun, hnd, rfl, fin_after_all_output hinit hrun hnd⟩

end SendShutdown
