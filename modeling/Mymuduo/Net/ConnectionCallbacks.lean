import Mymuduo.Net.TcpServer

/-! # The connection callback

    `connectionCallback_` tells the user that a connection is up and, later, that
    it is down.  One connection is followed from its creation to the first
    `connectionDestoryed`, through any io-loop steps: polls with any mask, the
    callbacks of `handleEvent` with any outcome of their system calls, `send` and
    `shutdown` by user code in the loop, the end of the server.

    The user does not always get one UP and one DOWN.  `connectionDestoryed` acts
    in `kConnected` only, so a connection that was shut down and is then destroyed
    by `~TcpServer` is never reported as down; and a mask with EPOLLHUP and EPOLLPRI
    but not EPOLLIN closes the connection and then reads from it, and the end of
    file closes it again (`down_missing_or_doubled`).  `one_up_one_down_iff` says that
    these are the only ways.
-/

namespace ConnectionCallbacks

open TcpConnection
open TcpServer (Stage stages)

/-! ## The machine -/

structure State where
  conn : TcpConnection
  /-- The poller of the connection's loop, as far as this channel goes. -/
  poller : EPollPoller Unit := {}
  /-- `connectionEstablished` has run. -/
  established : Bool := false
  /-- The channel is in the list that `loop` iterates over. -/
  active : Bool := false
  /-- The callbacks that `handleEventWithGuard` has still to call. -/
  current : List Stage := []
  /-- `closeCallback_` has been called: `removeConnection` leads to
      `connectionDestoryed`. -/
  removing : Bool := false
  /-- `~TcpServer` has handed `connectionDestoryed` to the loop. -/
  serverGone : Bool := false
  /-- The first `connectionDestoryed` has run. -/
  destroyed : Bool := false
  /-- `state_` as each call of `connectionCallback_` found it. -/
  log : List StateE := []

namespace State

/-- The poller has answered: `updateChannel` and `removeChannel` write the new index
    back into the channel. -/
def register (s : State) (poller : EPollPoller Unit) (index : Index) : State :=
  { s with
    poller := poller
    conn := { s.conn with channel_ := { s.conn.channel_ with index_ := index } } }

def applyEffect (s : State) : Effect → State
  | .updateChannel events =>
    let (poller, channel) := s.poller.updateChannel () { s.conn.channel_ with events_ := events }
    s.register poller channel.index_
  | .removeChannel =>
    let (poller, channel) := s.poller.removeChannel () s.conn.channel_
    s.register poller channel.index_
  | .connectionCallback state => { s with log := s.log ++ [state] }
  | .closeCallback => { s with removing := true }
  | .write _ _ | .shutdownWrite | .queueWriteComplete | .queueHighWaterMark _
  | .messageCallback => s

/-- Call a member function of the connection. -/
def call (s : State) (f : TcpConnection → TcpConnection × List Effect) : State :=
  (f s.conn).2.foldl applyEffect { s with conn := (f s.conn).1 }

/-- One callback of `handleEvent`; `w` and `r` are the outcomes of the system calls
    it makes. -/
def callback (s : State) (w : WriteResult) (r : ReadvResult) : Stage → State
  | .close => s.call handleClose
  -- handleError only logs; handleClose has called closeCallback_ itself
  | .error | .closeCallback => s
  | .read => s.call fun c => c.handleRead r
  | .write => s.call fun c => c.handleWrite w

def setRevents (s : State) (revents : EventMask) : State :=
  { s with conn := { s.conn with channel_ := { s.conn.channel_ with revents_ := revents } } }

end State

inductive Label where
  | connectionEstablished
  /-- `epoll_wait` returned the channel with this mask. -/
  | poll (revents : EventMask)
  | handleEvent
  | callback (w : WriteResult) (r : ReadvResult)
  /-- User code calls `send` in the loop. -/
  | send (data : List Byte) (w : WriteResult)
  /-- User code calls `shutdown` in the loop. -/
  | shutdown
  | destroyServer
  | connectionDestoryed
  deriving DecidableEq

/-- A step before the first `connectionDestoryed` is over. -/
def step (s : State) : Label → Option State
  | .connectionEstablished =>
    if s.established = false then
      some ({ s with established := true }.call connectionEstablished)
    else none
  | .poll revents =>
    -- the kernel reports a descriptor of its interest set
    if (s.poller.interest s.conn.channel_.fd_).isSome ∧ s.active = false ∧ s.current = [] then
      some { s.setRevents revents with active := true }
    else none
  | .handleEvent =>
    if s.active = true ∧ s.current = [] then
      some { s with active := false, current := stages s.conn.channel_.revents_ }
    else none
  | .callback w r =>
    match s.current with
    | stage :: rest => some ({ s with current := rest }.callback w r stage)
    | [] => none
  | .send data w =>
    if s.conn.state_ = .kConnected then some (s.call fun c => c.sendInLoop data w) else some s
  | .shutdown =>
    -- runInLoop in the loop thread calls at once
    if s.conn.shutdown.2 then
      some ({ s with conn := s.conn.shutdown.1 }.call shutdownInLoop)
    else some s
  | .destroyServer => some { s with serverGone := true }
  | .connectionDestoryed =>
    -- queued behind connectionEstablished, by removeConnectionInLoop or ~TcpServer
    if s.established = true ∧ (s.removing = true ∨ s.serverGone = true) then
      some { s.call connectionDestoryed with destroyed := true }
    else none

def next (s : State) (l : Label) : Option State :=
  if s.destroyed then none else step s l

/-- Starts with the connection that `newConnection` has created. -/
def machine : Machine State Label where
  init := fun s => s.conn.state_ = .kConnecting ∧ s.conn.channel_.index_ = .kNew ∧
    s = { conn := s.conn }
  next := next

/-! ## Effects and calls -/

theorem call_eq {s : State} {f : TcpConnection → TcpConnection × List Effect}
    {r : TcpConnection × List Effect} (h : f s.conn = r) :
    s.call f = r.2.foldl State.applyEffect { s with conn := r.1 } := by
  rw [← h]
  rfl

/-- A descriptor that the kernel watches belongs to a channel that is kAdded. -/
def Registered (s : State) : Prop :=
  (s.poller.interest s.conn.channel_.fd_).isSome → s.conn.channel_.index_ = .kAdded

/-- `updateChannel` leaves the channel kAdded if the kernel watches its descriptor. -/
theorem updateChannel_registered (s : State) (events : EventMask) :
    Registered (s.applyEffect (.updateChannel events)) := by
  intro hsome
  obtain ⟨⟨mask, q⟩, hentry⟩ := Option.isSome_iff_exists.mp hsome
  have hentry' : (s.poller.updateChannel ()
      { s.conn.channel_ with events_ := events }).1.interest s.conn.channel_.fd_ =
        some (mask, q) := hentry
  rcases EPollPoller.updateChannel_interest hentry' with ⟨_, hindex⟩ | ⟨_, _, hindex⟩
  · exact hindex rfl
  · exact hindex

/-- A quiet effect touches the registration only, and a channel that reads stays
    kAdded. -/
theorem applyEffect_quiet {s : State} {e : Effect} (he : Quiet s.conn e) :
    ∃ p i, s.applyEffect e = s.register p i ∧
      (Registered s → Registered (s.register p i)) ∧
      (s.conn.channel_.index_ = .kAdded → s.conn.channel_.isReading = true → i = .kAdded) := by
  have hsame : ∃ p i, s = s.register p i ∧ (Registered s → Registered (s.register p i)) ∧
      (s.conn.channel_.index_ = .kAdded → s.conn.channel_.isReading = true → i = .kAdded) :=
    ⟨s.poller, s.conn.channel_.index_, rfl, id, fun h _ => h⟩
  obtain ⟨⟨hclose, hremove⟩, hcallback, hmask⟩ := he
  cases e with
  | updateChannel events =>
    obtain rfl := hmask events rfl
    refine ⟨_, _, rfl, fun _ => updateChannel_registered s _, ?_⟩
    intro hadded hreading
    have hsome := Channel.isNoneEvent_of_isReading hreading
    show (s.poller.updateChannel () s.conn.channel_).2.index_ = .kAdded
    simp [EPollPoller.updateChannel, hadded, hsome]
  | removeChannel => exact absurd rfl hremove
  | closeCallback => exact absurd rfl hclose
  | connectionCallback state => exact absurd rfl (hcallback state)
  | write data r => exact hsame
  | shutdownWrite => exact hsame
  | queueWriteComplete => exact hsame
  | queueHighWaterMark size => exact hsame
  | messageCallback => exact hsame

theorem foldl_quiet {s : State} {effects : List Effect} (h : ∀ e ∈ effects, Quiet s.conn e) :
    ∃ p i, effects.foldl State.applyEffect s = s.register p i ∧
      (Registered s → Registered (s.register p i)) ∧
      (s.conn.channel_.index_ = .kAdded → s.conn.channel_.isReading = true → i = .kAdded) := by
  induction effects generalizing s with
  | nil => exact ⟨s.poller, s.conn.channel_.index_, rfl, id, fun hadded _ => hadded⟩
  | cons e effects ih =>
    obtain ⟨p, i, happly, hreg, hadded⟩ := applyEffect_quiet (h e List.mem_cons_self)
    -- the registration does not show in what is quiet for the connection
    have hrest : ∀ e' ∈ effects, Quiet (s.register p i).conn e' :=
      fun e' he' => h e' (List.mem_cons_of_mem e he')
    obtain ⟨p', i', hfold, hreg', hadded'⟩ := ih hrest
    refine ⟨p', i', ?_, ?_, ?_⟩
    · rw [List.foldl_cons, happly, hfold]
      rfl
    · intro hs
      exact hreg' (hreg hs)
    · intro hi hreading
      exact hadded' (hadded hi hreading) hreading

/-- What a step that calls no user callback with the connection leaves as it is. -/
structure Calm (s t : State) : Prop where
  log : t.log = s.log
  established : t.established = s.established
  destroyed : t.destroyed = s.destroyed
  active : t.active = s.active
  current : t.current = s.current
  state_ : t.conn.state_ = s.conn.state_ ∨
    (s.conn.state_ = .kConnected ∧ t.conn.state_ = .kDisconnecting)
  registered : Registered s → Registered t
  /-- A channel that watches for input goes on doing so. -/
  reading : s.conn.channel_.index_ = .kAdded → s.conn.channel_.isReading = true →
    t.conn.channel_.index_ = .kAdded ∧ t.conn.channel_.isReading = true
  /-- A closed connection lets its channel alone. -/
  idle : s.conn.state_ = .kDisconnected → s.conn.channel_.isWriting = false →
    t.conn.channel_ = s.conn.channel_

theorem Calm.refl (s : State) : Calm s s :=
  ⟨rfl, rfl, rfl, rfl, rfl, Or.inl rfl, id, fun hi hr => ⟨hi, hr⟩, fun _ _ => rfl⟩

/-- A member function with quiet effects makes a calm step. -/
theorem call_calm {s : State} {f : TcpConnection → TcpConnection × List Effect}
    (hstate : (f s.conn).1.state_ = s.conn.state_) (hsock : SameSocket s.conn (f s.conn).1)
    (hquiet : ∀ e ∈ (f s.conn).2, Quiet (f s.conn).1 e)
    (hreading : (f s.conn).1.channel_.isReading = s.conn.channel_.isReading)
    (hidle : s.conn.state_ = .kDisconnected → s.conn.channel_.isWriting = false →
      f s.conn = (s.conn, [])) :
    Calm s (s.call f) := by
  obtain ⟨p, i, hfold, hreg, hadded⟩ := foldl_quiet (s := { s with conn := (f s.conn).1 }) hquiet
  have hcall : s.call f = { s with conn := (f s.conn).1 }.register p i := hfold
  constructor
  case idle =>
    intro hs hw
    have hsame : s.call f = s := call_eq (hidle hs hw)
    rw [hsame]
  all_goals rw [hcall]
  case state_ => exact Or.inl hstate
  case registered =>
    intro hs
    apply hreg
    -- descriptor and index are those of before the call
    intro hsome
    have hsome' : (s.poller.interest s.conn.channel_.fd_).isSome := by
      rw [← hsock.1]
      exact hsome
    show (f s.conn).1.channel_.index_ = .kAdded
    rw [hsock.2]
    exact hs hsome'
  case reading =>
    intro hi hr
    have hr' : (f s.conn).1.channel_.isReading = true := by rw [hreading, hr]
    have hi' : (f s.conn).1.channel_.index_ = .kAdded := by rw [hsock.2, hi]
    exact ⟨hadded hi' hr', hr'⟩
  all_goals rfl

theorem handleWrite_calm (s : State) (w : WriteResult) :
    Calm s (s.call fun c => c.handleWrite w) := by
  obtain ⟨hstate, hsock, _⟩ := handleWrite_mild s.conn w
  obtain ⟨hquiet, hreading⟩ := handleWrite_quiet s.conn w
  apply call_calm (f := fun c => c.handleWrite w) hstate hsock hquiet hreading
  intro _ hw
  simp [handleWrite, hw]

theorem sendInLoop_calm (s : State) (data : List Byte) (w : WriteResult) :
    Calm s (s.call fun c => c.sendInLoop data w) := by
  obtain ⟨hstate, hsock, _⟩ := sendInLoop_mild s.conn data w
  obtain ⟨hquiet, hreading⟩ := sendInLoop_quiet s.conn data w
  apply call_calm (f := fun c => c.sendInLoop data w) hstate hsock hquiet hreading
  intro hs _
  exact sendInLoop_disconnected hs data w

theorem input_calm (s : State) (buf : WFBuffer) :
    Calm s { s with conn := { s.conn with inputBuffer_ := buf } } :=
  ⟨rfl, rfl, rfl, rfl, rfl, Or.inl rfl, id, fun hi hr => ⟨hi, hr⟩, fun _ _ => rfl⟩

theorem handleRead_calm (s : State) {r : ReadvResult} (hr : r ≠ .read []) :
    Calm s (s.call fun c => c.handleRead r) := by
  have hcall : ∃ buf, (s.call fun c => c.handleRead r) =
      { s with conn := { s.conn with inputBuffer_ := buf } } := by
    obtain ⟨buf, hread | hread⟩ := handleRead_open s.conn hr
    · have heq := call_eq (f := fun c => c.handleRead r) hread
      exact ⟨buf, heq⟩
    · have heq := call_eq (f := fun c => c.handleRead r) hread
      exact ⟨buf, heq⟩
  obtain ⟨buf, hcall⟩ := hcall
  rw [hcall]
  exact input_calm s buf

theorem shutdown_calm {s : State} (hs : s.conn.state_ = .kConnected) :
    Calm s ({ s with conn := s.conn.shutdown.1 }.call shutdownInLoop) := by
  have hshut : s.conn.shutdown.1 = { s.conn with state_ := .kDisconnecting } := by
    simp [shutdown, hs]
  have hcall : { s with conn := s.conn.shutdown.1 }.call shutdownInLoop =
      { s with conn := { s.conn with state_ := .kDisconnecting } } := by
    rw [hshut]
    unfold State.call shutdownInLoop
    simp only
    split <;> rfl
  rw [hcall]
  exact ⟨rfl, rfl, rfl, rfl, rfl, Or.inr ⟨hs, rfl⟩, id, fun hi hr => ⟨hi, hr⟩, fun _ _ => rfl⟩

/-- `handleClose` takes a channel that was kAdded out of the interest set. -/
theorem call_handleClose (s : State) :
    (s.call handleClose).log = s.log ++ [.kDisconnected] ∧
    (s.call handleClose).conn.state_ = .kDisconnected ∧
    (s.call handleClose).conn.channel_.isWriting = false ∧
    Registered (s.call handleClose) ∧
    (s.conn.channel_.index_ = .kAdded → (s.call handleClose).conn.channel_.index_ = .kDeleted) ∧
    (s.call handleClose).established = s.established ∧
    (s.call handleClose).active = s.active ∧ (s.call handleClose).current = s.current ∧
    (s.call handleClose).destroyed = s.destroyed := by
  refine ⟨rfl, rfl, ?_, ?_, ?_, rfl, rfl, rfl, rfl⟩
  · show (Channel.kNoneEvent &&& Channel.kWriteEvent != 0) = false
    decide
  · exact updateChannel_registered
      { s with conn := { s.conn with
        state_ := .kDisconnected, channel_ := s.conn.channel_.disableAll } } Channel.kNoneEvent
  · intro hadded
    show (s.poller.updateChannel () s.conn.channel_.disableAll).2.index_ = .kDeleted
    simp [EPollPoller.updateChannel, Channel.disableAll, Channel.isNoneEvent, hadded]

/-! ## Steps -/

/-- The callback closes the connection. -/
def Closes (stage : Stage) (r : ReadvResult) : Prop :=
  stage = .close ∨ (stage = .read ∧ r = .read [])

theorem callback_cases (s : State) (w : WriteResult) (r : ReadvResult) (stage : Stage) :
    (Closes stage r ∧ ∃ t, Calm s t ∧ s.callback w r stage = t.call handleClose) ∨
    (¬ Closes stage r ∧ Calm s (s.callback w r stage)) := by
  cases stage with
  | close => exact Or.inl ⟨Or.inl rfl, s, Calm.refl s, rfl⟩
  | error => exact Or.inr ⟨by simp [Closes], Calm.refl s⟩
  | read =>
    by_cases hr : r = .read []
    · subst hr
      obtain ⟨buf, hread⟩ := handleRead_eof s.conn
      have heq := call_eq (f := fun c => c.handleRead (.read [])) hread
      exact Or.inl ⟨Or.inr ⟨rfl, rfl⟩, _, input_calm s buf, heq⟩
    · exact Or.inr ⟨by simp [Closes, hr], handleRead_calm s hr⟩
  | write => exact Or.inr ⟨by simp [Closes], handleWrite_calm s w⟩
  | closeCallback => exact Or.inr ⟨by simp [Closes], Calm.refl s⟩

theorem next_callback {s s' : State} {w : WriteResult} {r : ReadvResult}
    (h : next s (.callback w r) = some s') :
    ∃ stage rest, s.current = stage :: rest ∧
      ((Closes stage r ∧ ∃ t, Calm { s with current := rest } t ∧ s' = t.call handleClose) ∨
      (¬ Closes stage r ∧ Calm { s with current := rest } s')) := by
  unfold next at h
  split at h
  · cases h
  cases hcurrent : s.current with
  | nil => simp [step, hcurrent] at h
  | cons stage rest =>
    simp only [step, hcurrent, Option.some.injEq] at h
    subst h
    exact ⟨stage, rest, rfl, callback_cases { s with current := rest } w r stage⟩

theorem next_connectionDestoryed {s s' : State} (h : next s .connectionDestoryed = some s') :
    s.established = true ∧ s' = { s.call connectionDestoryed with destroyed := true } := by
  unfold next at h
  split at h
  · cases h
  · simp only [step, Option.ite_none_right_eq_some, Option.some.injEq] at h
    exact ⟨h.1.1, h.2.symm⟩

/-- What a step can do. -/
theorem next_cases {s s' : State} {l : Label} (h : next s l = some s') :
    s.destroyed = false ∧
    ((l = .connectionEstablished ∧ s.established = false ∧
      s' = { s with established := true }.call connectionEstablished) ∨
    (∃ revents, l = .poll revents ∧ (s.poller.interest s.conn.channel_.fd_).isSome ∧
      s.current = [] ∧ s' = { s.setRevents revents with active := true }) ∨
    (l = .handleEvent ∧ s.active = true ∧
      s' = { s with active := false, current := stages s.conn.channel_.revents_ }) ∨
    (∃ w r stage rest t, l = .callback w r ∧ s.current = stage :: rest ∧ Closes stage r ∧
      Calm { s with current := rest } t ∧ s' = t.call handleClose) ∨
    (∃ w r stage rest, l = .callback w r ∧ s.current = stage :: rest ∧ ¬ Closes stage r ∧
      Calm { s with current := rest } s') ∨
    (Calm s s' ∧ (s.conn.state_ = .kConnected ∨ s'.conn = s.conn) ∧
      (∀ w r, l ≠ .callback w r) ∧ l ≠ .connectionDestoryed) ∨
    (l = .connectionDestoryed ∧ s.established = true ∧
      s' = { s.call connectionDestoryed with destroyed := true })) := by
  have halive : s.destroyed = false ∧ step s l = some s' := by
    unfold next at h
    split at h
    · cases h
    · rename_i hdestroyed
      exact ⟨by simpa using hdestroyed, h⟩
  obtain ⟨hdestroyed, hstep⟩ := halive
  refine ⟨hdestroyed, ?_⟩
  cases l with
  | connectionEstablished =>
    simp only [step, Option.ite_none_right_eq_some, Option.some.injEq] at hstep
    exact Or.inl ⟨rfl, hstep.1, hstep.2.symm⟩
  | poll revents =>
    simp only [step, Option.ite_none_right_eq_some, Option.some.injEq] at hstep
    obtain ⟨⟨hsome, _, hcurrent⟩, rfl⟩ := hstep
    exact Or.inr (Or.inl ⟨revents, rfl, hsome, hcurrent, rfl⟩)
  | handleEvent =>
    simp only [step, Option.ite_none_right_eq_some, Option.some.injEq] at hstep
    obtain ⟨⟨hactive, _⟩, rfl⟩ := hstep
    exact Or.inr (Or.inr (Or.inl ⟨rfl, hactive, rfl⟩))
  | callback w r =>
    obtain ⟨stage, rest, hcurrent, ⟨hc, t, hcalm, hcall⟩ | ⟨hc, hcalm⟩⟩ := next_callback h
    · exact Or.inr (Or.inr (Or.inr (Or.inl
        ⟨w, r, stage, rest, t, rfl, hcurrent, hc, hcalm, hcall⟩)))
    · exact Or.inr (Or.inr (Or.inr (Or.inr (Or.inl
        ⟨w, r, stage, rest, rfl, hcurrent, hc, hcalm⟩))))
  | send data w =>
    refine Or.inr (Or.inr (Or.inr (Or.inr (Or.inr (Or.inl ⟨?_, ?_, by simp, by simp⟩)))))
    all_goals
      simp only [step] at hstep
      split at hstep
    · obtain rfl := Option.some.inj hstep
      exact sendInLoop_calm s data w
    · obtain rfl := Option.some.inj hstep
      exact Calm.refl s
    · exact Or.inl ‹_›
    · exact Or.inr (by rw [Option.some.inj hstep])
  | shutdown =>
    have hshut : s.conn.shutdown.2 = true → s.conn.state_ = .kConnected := by
      intro htrue
      by_contra hne
      simp [shutdown, hne] at htrue
    refine Or.inr (Or.inr (Or.inr (Or.inr (Or.inr (Or.inl ⟨?_, ?_, by simp, by simp⟩)))))
    all_goals
      simp only [step] at hstep
      split at hstep
    · rename_i htrue
      obtain rfl := Option.some.inj hstep
      exact shutdown_calm (hshut htrue)
    · obtain rfl := Option.some.inj hstep
      exact Calm.refl s
    · rename_i htrue
      exact Or.inl (hshut htrue)
    · exact Or.inr (by rw [Option.some.inj hstep])
  | destroyServer =>
    obtain rfl := Option.some.inj hstep
    refine Or.inr (Or.inr (Or.inr (Or.inr (Or.inr (Or.inl ⟨?_, Or.inr rfl, by simp, by simp⟩)))))
    exact ⟨rfl, rfl, rfl, rfl, rfl, Or.inl rfl, id, fun hi hr => ⟨hi, hr⟩, fun _ _ => rfl⟩
  | connectionDestoryed =>
    obtain ⟨hest, hcall⟩ := next_connectionDestoryed h
    exact Or.inr (Or.inr (Or.inr (Or.inr (Or.inr (Or.inr ⟨rfl, hest, hcall⟩)))))

/-- The step does not close a connection that is closed, and does not destroy one
    that is being shut down. -/
def Proper (s : State) : Label → Prop
  | .callback _ r => s.current.head? = some .read → r = .read [] → s.conn.state_ ≠ .kDisconnected
  | .connectionDestoryed => s.conn.state_ ≠ .kDisconnecting
  | _ => True

instance (s : State) : (l : Label) → Decidable (Proper s l)
  | .callback _ _ => inferInstanceAs (Decidable (_ → _ → _))
  | .connectionDestoryed => inferInstanceAs (Decidable (_ ≠ _))
  | .connectionEstablished | .poll _ | .handleEvent | .send _ _ | .shutdown
  | .destroyServer => isTrue trivial

/-! ## Before and after connectionEstablished -/

/-- As `newConnection` leaves the connection. -/
structure Fresh (s : State) : Prop where
  state_ : s.conn.state_ = .kConnecting
  index : s.conn.channel_.index_ = .kNew
  active : s.active = false
  current : s.current = []
  log : s.log = []

/-- User code does nothing to a connection that is not connected yet. -/
theorem Fresh.calm {s t : State} (h : Fresh s) (hcalm : Calm s t)
    (hconn : s.conn.state_ = .kConnected ∨ t.conn = s.conn) : Fresh t := by
  have hsame : t.conn = s.conn := by
    rcases hconn with hs | hsame
    · rw [h.state_] at hs
      cases hs
    · exact hsame
  constructor
  · rw [hsame, h.state_]
  · rw [hsame, h.index]
  · exact hcalm.active.trans h.active
  · exact hcalm.current.trans h.current
  · exact hcalm.log.trans h.log

/-- What holds in every state before the connection is destroyed: a connection that
    is closed has been reported up and down at least once. -/
structure Counted (s : State) : Prop where
  registered : Registered s
  fresh : s.established = false → Fresh s
  reported : s.established = true → s.log ≠ []
  closed : s.conn.state_ = .kDisconnected → 2 ≤ s.log.length

theorem counted_init {s : State} (h : machine.init s) : Counted s := by
  obtain ⟨hstate, hindex, heq⟩ := h
  have hfresh : Fresh s := by
    rw [heq]
    exact ⟨hstate, hindex, rfl, rfl, rfl⟩
  constructor
  · rw [heq]
    intro hsome
    cases hsome
  · exact fun _ => hfresh
  · rw [heq]
    intro hest
    cases hest
  · intro hd
    rw [hstate] at hd
    cases hd

/-- The connection that runs a callback has been established. -/
theorem Counted.pop {s : State} (h : Counted s) {stage : Stage} {rest : List Stage}
    (hcurrent : s.current = stage :: rest) :
    s.established = true ∧ Counted { s with current := rest } := by
  have hest : s.established = true := by
    by_contra hfalse
    have hnil := (h.fresh (by simpa using hfalse)).current
    rw [hcurrent] at hnil
    cases hnil
  refine ⟨hest, h.registered, ?_, h.reported, h.closed⟩
  intro hfalse
  exact absurd (hest.symm.trans hfalse) (by decide)

theorem Counted.calm {s t : State} (h : Counted s) (hest : s.established = true)
    (hcalm : Calm s t) : Counted t := by
  constructor
  · exact hcalm.registered h.registered
  · intro hfalse
    rw [hcalm.established, hest] at hfalse
    cases hfalse
  · intro _
    rw [hcalm.log]
    exact h.reported hest
  · intro hd
    rw [hcalm.log]
    rcases hcalm.state_ with hs | ⟨_, hs⟩
    · exact h.closed (by rw [← hs, hd])
    · rw [hs] at hd
      cases hd

/-- Closing reports DOWN, to the user of an established connection. -/
theorem Counted.handleClose {s : State} (h : Counted s) (hest : s.established = true) :
    Counted (s.call handleClose) := by
  obtain ⟨hlog, hstate, _, hreg, _, hest', _⟩ := call_handleClose s
  have hlen : 2 ≤ (s.call TcpConnection.handleClose).log.length := by
    have hpos := List.length_pos_of_ne_nil (h.reported hest)
    rw [hlog, List.length_append, List.length_singleton]
    omega
  constructor
  · exact hreg
  · intro hfalse
    rw [hest', hest] at hfalse
    cases hfalse
  · intro _ hnil
    rw [hnil] at hlen
    cases hlen
  · exact fun _ => hlen

theorem counted_step {s s' : State} {l : Label} (h : Counted s) (hstep : next s l = some s')
    (hl : l ≠ .connectionDestoryed) : Counted s' := by
  obtain ⟨_, ⟨rfl, _, rfl⟩ | ⟨revents, rfl, hsome, hcurrent, rfl⟩ | ⟨rfl, hactive, rfl⟩ |
    ⟨w, r, stage, rest, t, rfl, hcurrent, _, hcalm, rfl⟩ |
    ⟨w, r, stage, rest, rfl, hcurrent, _, hcalm⟩ | ⟨hcalm, hconn, _⟩ | ⟨rfl, _⟩⟩ :=
    next_cases hstep
  · -- connectionEstablished reports UP
    refine ⟨updateChannel_registered _ _, ?_, ?_, ?_⟩
    · intro hfalse
      cases hfalse
    · intro _ hnil
      exact absurd hnil (by simp [State.call, connectionEstablished, State.applyEffect])
    · intro hd
      cases hd
  · refine ⟨h.registered, ?_, h.reported, h.closed⟩
    -- the kernel watches a connection that has been established
    intro hest
    have hindex := h.registered hsome
    rw [(h.fresh hest).index] at hindex
    cases hindex
  · refine ⟨h.registered, ?_, h.reported, h.closed⟩
    intro hest
    rw [(h.fresh hest).active] at hactive
    cases hactive
  · obtain ⟨hest, hpop⟩ := h.pop hcurrent
    exact (hpop.calm hest hcalm).handleClose (hcalm.established.trans hest)
  · obtain ⟨hest, hpop⟩ := h.pop hcurrent
    exact hpop.calm hest hcalm
  · cases hest : s.established with
    | true => exact h.calm hest hcalm
    | false =>
      have hfresh := (h.fresh hest).calm hcalm hconn
      constructor
      · exact hcalm.registered h.registered
      · exact fun _ => hfresh
      · intro htrue
        rw [hcalm.established, hest] at htrue
        cases htrue
      · intro hd
        rw [hfresh.state_] at hd
        cases hd
  · exact absurd rfl hl

/-! ## Proper runs -/

/-- Reported up and not closed: the channel watches for input. -/
structure Up (s : State) : Prop where
  state_ : s.conn.state_ = .kConnected ∨ s.conn.state_ = .kDisconnecting
  index : s.conn.channel_.index_ = .kAdded
  reading : s.conn.channel_.isReading = true
  log : s.log = [.kConnected]
  /-- Only the first callback of a pass can be `closeCallback_` of the channel. -/
  close : Stage.close ∉ s.current.tail
  active : s.current ≠ [] → s.active = false

/-- Reported up and down, and out of the kernel's sight. -/
structure Down (s : State) : Prop where
  state_ : s.conn.state_ = .kDisconnected
  index : s.conn.channel_.index_ ≠ .kAdded
  writing : s.conn.channel_.isWriting = false
  log : s.log = [.kConnected, .kDisconnected]
  close : Stage.close ∉ s.current
  active : s.active = false

theorem stages_tail (revents : EventMask) : Stage.close ∉ (stages revents).tail := by
  unfold stages
  split <;> split <;> split <;> split <;> decide

theorem Up.pop {s : State} (h : Up s) {stage : Stage} {rest : List Stage}
    (hcurrent : s.current = stage :: rest) :
    Up { s with current := rest } ∧ Stage.close ∉ rest ∧ s.active = false := by
  have hclose : Stage.close ∉ rest := by
    have := h.close
    rwa [hcurrent] at this
  have hactive := h.active (by rw [hcurrent]; simp)
  refine ⟨⟨h.state_, h.index, h.reading, h.log, ?_, fun _ => hactive⟩, hclose, hactive⟩
  exact fun hmem => hclose (List.mem_of_mem_tail hmem)

theorem Up.calm {s t : State} (h : Up s) (hcalm : Calm s t) : Up t := by
  obtain ⟨hindex, hreading⟩ := hcalm.reading h.index h.reading
  refine ⟨?_, hindex, hreading, hcalm.log.trans h.log, ?_, ?_⟩
  · rcases hcalm.state_ with hs | ⟨_, hs⟩
    · rw [hs]
      exact h.state_
    · exact Or.inr hs
  · rw [hcalm.current]
    exact h.close
  · rw [hcalm.current, hcalm.active]
    exact h.active

theorem Down.calm {s t : State} (h : Down s) (hcalm : Calm s t) : Down t := by
  have hchannel := hcalm.idle h.state_ h.writing
  refine ⟨?_, ?_, ?_, hcalm.log.trans h.log, ?_, hcalm.active.trans h.active⟩
  · rcases hcalm.state_ with hs | ⟨hs, _⟩
    · rw [hs, h.state_]
    · rw [h.state_] at hs
      cases hs
  · rw [hchannel]
    exact h.index
  · rw [hchannel]
    exact h.writing
  · rw [hcalm.current]
    exact h.close

/-- The first close reports DOWN and takes the channel out of the interest set. -/
theorem Up.handleClose {s : State} (h : Up s) (hclose : Stage.close ∉ s.current)
    (hactive : s.active = false) : Down (s.call handleClose) := by
  obtain ⟨hlog, hstate, hwriting, _, hindex, _, hactive', hcurrent, _⟩ := call_handleClose s
  refine ⟨hstate, ?_, hwriting, ?_, ?_, hactive'.trans hactive⟩
  · rw [hindex h.index]
    decide
  · rw [hlog, h.log]
    rfl
  · rw [hcurrent]
    exact hclose

def Phase (s : State) : Prop := Fresh s ∨ Up s ∨ Down s

theorem Fresh.connectionEstablished {s : State} (h : Fresh s) :
    Up ({ s with established := true }.call connectionEstablished) := by
  refine ⟨Or.inl rfl, ?_, Channel.isReading_enableReading s.conn.channel_.tie, ?_, ?_, ?_⟩
  · show (s.poller.updateChannel () s.conn.channel_.tie.enableReading).2.index_ = .kAdded
    simp [EPollPoller.updateChannel, Channel.tie, Channel.enableReading, h.index]
  · show s.log ++ [.kConnected] = [.kConnected]
    rw [h.log]
    rfl
  · show Stage.close ∉ s.current.tail
    rw [h.current]
    decide
  · exact fun _ => h.active

theorem phase_step {s s' : State} {l : Label} (hc : Counted s) (h : Phase s) (hp : Proper s l)
    (hstep : next s l = some s') (hl : l ≠ .connectionDestoryed) : Phase s' := by
  obtain ⟨_, ⟨rfl, hest, rfl⟩ | ⟨revents, rfl, hsome, hcurrent, rfl⟩ | ⟨rfl, hactive, rfl⟩ |
    ⟨w, r, stage, rest, t, rfl, hcurrent, hcloses, hcalm, rfl⟩ |
    ⟨w, r, stage, rest, rfl, hcurrent, _, hcalm⟩ | ⟨hcalm, hconn, _⟩ | ⟨rfl, _⟩⟩ :=
    next_cases hstep
  · exact Or.inr (Or.inl (hc.fresh hest).connectionEstablished)
  · -- the kernel watches the channel of a connection that is up only
    have hindex := hc.registered hsome
    rcases h with hfresh | hup | hdown
    · rw [hfresh.index] at hindex
      cases hindex
    · refine Or.inr (Or.inl ⟨hup.state_, hup.index, hup.reading, hup.log, hup.close, ?_⟩)
      intro hne
      exact absurd hcurrent hne
    · exact absurd hindex hdown.index
  · rcases h with hfresh | hup | hdown
    · rw [hfresh.active] at hactive
      cases hactive
    · exact Or.inr (Or.inl ⟨hup.state_, hup.index, hup.reading, hup.log,
        stages_tail s.conn.channel_.revents_, fun _ => rfl⟩)
    · rw [hdown.active] at hactive
      cases hactive
  · rcases h with hfresh | hup | hdown
    · rw [hfresh.current] at hcurrent
      cases hcurrent
    · obtain ⟨hpop, hclose, hactive⟩ := hup.pop hcurrent
      refine Or.inr (Or.inr ((hpop.calm hcalm).handleClose ?_ (hcalm.active.trans hactive)))
      rw [hcalm.current]
      exact hclose
    · -- a closed connection: its close callback is over, and it does not see an end of file
      rcases hcloses with rfl | ⟨rfl, rfl⟩
      · have := hdown.close
        rw [hcurrent] at this
        exact absurd List.mem_cons_self this
      · exact absurd hdown.state_ (hp (by rw [hcurrent]; rfl) rfl)
  · rcases h with hfresh | hup | hdown
    · rw [hfresh.current] at hcurrent
      cases hcurrent
    · exact Or.inr (Or.inl ((hup.pop hcurrent).1.calm hcalm))
    · have hclose : Stage.close ∉ rest := by
        intro hmem
        apply hdown.close
        rw [hcurrent]
        exact List.mem_cons_of_mem stage hmem
      have hpop : Down { s with current := rest } :=
        ⟨hdown.state_, hdown.index, hdown.writing, hdown.log, hclose, hdown.active⟩
      exact Or.inr (Or.inr (hpop.calm hcalm))
  · rcases h with hfresh | hup | hdown
    · exact Or.inl (hfresh.calm hcalm hconn)
    · exact Or.inr (Or.inl (hup.calm hcalm))
    · exact Or.inr (Or.inr (hdown.calm hcalm))
  · exact absurd rfl hl

/-! ## The end of the connection -/

/-- One UP and one DOWN, and `state_` says that the connection is down. -/
def Reported (s : State) : Prop :=
  s.log = [.kConnected, .kDisconnected] ∧ s.conn.state_ = .kDisconnected

instance (s : State) : Decidable (Reported s) := inferInstanceAs (Decidable (_ ∧ _))

theorem call_connectionDestoryed (s : State) :
    (s.conn.state_ = .kConnected ∧
      (s.call connectionDestoryed).log = s.log ++ [.kDisconnected] ∧
      (s.call connectionDestoryed).conn.state_ = .kDisconnected) ∨
    (s.conn.state_ ≠ .kConnected ∧ (s.call connectionDestoryed).log = s.log ∧
      (s.call connectionDestoryed).conn.state_ = s.conn.state_) := by
  by_cases hs : s.conn.state_ = .kConnected
  · have hcall := call_eq (s := s) (f := connectionDestoryed) (if_pos hs)
    refine Or.inl ⟨hs, ?_, ?_⟩
    · rw [hcall]
      rfl
    · rw [hcall]
      rfl
  · have hcall := call_eq (s := s) (f := connectionDestoryed) (if_neg hs)
    refine Or.inr ⟨hs, ?_, ?_⟩
    · rw [hcall]
      rfl
    · rw [hcall]
      rfl

/-- `connectionDestoryed` completes the report, unless the connection is being shut
    down. -/
theorem Phase.reported {s : State} (hc : Counted s) (h : Phase s) (hest : s.established = true)
    (hs : s.conn.state_ ≠ .kDisconnecting) : Reported (s.call connectionDestoryed) := by
  rcases h with hfresh | hup | hdown
  · exact absurd hfresh.log (hc.reported hest)
  · rcases call_connectionDestoryed s with ⟨_, hlog, hstate⟩ | ⟨hne, _⟩
    · refine ⟨?_, hstate⟩
      rw [hlog, hup.log]
      rfl
    · rcases hup.state_ with h | h
      · exact absurd h hne
      · exact absurd h hs
  · rcases call_connectionDestoryed s with ⟨hconn, _⟩ | ⟨_, hlog, hstate⟩
    · rw [hdown.state_] at hconn
      cases hconn
    · exact ⟨hlog.trans hdown.log, hstate.trans hdown.state_⟩

/-- What a proper run keeps, up to the first `connectionDestoryed` and at it. -/
def Told (s : State) : Prop :=
  (s.destroyed = true → Reported s) ∧ (s.destroyed = false → Counted s ∧ Phase s)

theorem destroyed_step {s s' : State} {l : Label} (hstep : next s l = some s')
    (hl : l ≠ .connectionDestoryed) : s'.destroyed = false := by
  obtain ⟨hs, ⟨rfl, _, rfl⟩ | ⟨revents, rfl, _, _, rfl⟩ | ⟨rfl, _, rfl⟩ |
    ⟨w, r, stage, rest, t, rfl, _, _, hcalm, rfl⟩ | ⟨w, r, stage, rest, rfl, _, _, hcalm⟩ |
    ⟨hcalm, _⟩ | ⟨rfl, _⟩⟩ := next_cases hstep
  · exact hs
  · exact hs
  · exact hs
  · exact hcalm.destroyed.trans hs
  · exact hcalm.destroyed.trans hs
  · exact hcalm.destroyed.trans hs
  · exact absurd rfl hl

theorem told_step {s s' : State} {l : Label} (h : Told s) (hp : Proper s l)
    (hstep : next s l = some s') : Told s' := by
  have hs : s.destroyed = false := (next_cases hstep).1
  obtain ⟨hc, hphase⟩ := h.2 hs
  by_cases hl : l = .connectionDestoryed
  · subst hl
    obtain ⟨hest, rfl⟩ := next_connectionDestoryed hstep
    refine ⟨fun _ => Phase.reported hc hphase hest hp, ?_⟩
    intro hfalse
    cases hfalse
  · have hs' := destroyed_step hstep hl
    refine ⟨?_, fun _ => ⟨counted_step hc hstep hl, phase_step hc hphase hp hstep hl⟩⟩
    intro htrue
    rw [hs'] at htrue
    cases htrue

/-! ## Improper steps -/

/-- The report is wrong for good: a DOWN too many, or destroyed without one. -/
def Bad (s : State) : Prop :=
  3 ≤ s.log.length ∨ (s.destroyed = true ∧ s.conn.state_ ≠ .kDisconnected)

theorem log_step {s s' : State} {l : Label} (hstep : next s l = some s') :
    s.log.length ≤ s'.log.length := by
  obtain ⟨_, ⟨rfl, _, rfl⟩ | ⟨revents, rfl, _, _, rfl⟩ | ⟨rfl, _, rfl⟩ |
    ⟨w, r, stage, rest, t, rfl, _, _, hcalm, rfl⟩ | ⟨w, r, stage, rest, rfl, _, _, hcalm⟩ |
    ⟨hcalm, _⟩ | ⟨rfl, _, rfl⟩⟩ := next_cases hstep
  · show s.log.length ≤ (s.log ++ [StateE.kConnected]).length
    simp
  · exact Nat.le_refl _
  · exact Nat.le_refl _
  · rw [(call_handleClose t).1, hcalm.log]
    simp
  · rw [hcalm.log]
  · rw [hcalm.log]
  · show s.log.length ≤ (s.call connectionDestoryed).log.length
    rcases call_connectionDestoryed s with ⟨_, hlog, _⟩ | ⟨_, hlog, _⟩
    · rw [hlog]
      simp
    · rw [hlog]

theorem bad_step {s s' : State} {l : Label} (h : Bad s) (hstep : next s l = some s') :
    Bad s' := by
  rcases h with hlen | ⟨hdestroyed, _⟩
  · exact Or.inl (Nat.le_trans hlen (log_step hstep))
  · rw [(next_cases hstep).1] at hdestroyed
    cases hdestroyed

theorem improper_step {s s' : State} {l : Label} (hc : Counted s) (hp : ¬ Proper s l)
    (hstep : next s l = some s') : Bad s' := by
  cases l with
  | callback w r =>
    simp only [Proper, Classical.not_imp, not_not] at hp
    obtain ⟨hhead, rfl, hs⟩ := hp
    obtain ⟨stage, rest, hcurrent, ⟨_, t, hcalm, rfl⟩ | ⟨hopen, _⟩⟩ := next_callback hstep
    · -- the second close reports DOWN again
      left
      rw [(call_handleClose t).1, hcalm.log, List.length_append, List.length_singleton]
      exact Nat.succ_le_succ (hc.closed hs)
    · rw [hcurrent, List.head?_cons, Option.some.injEq] at hhead
      exact absurd (Or.inr ⟨hhead, rfl⟩) hopen
  | connectionDestoryed =>
    simp only [Proper, not_not] at hp
    obtain ⟨_, rfl⟩ := next_connectionDestoryed hstep
    refine Or.inr ⟨rfl, ?_⟩
    show (s.call connectionDestoryed).conn.state_ ≠ .kDisconnected
    rcases call_connectionDestoryed s with ⟨hs, _⟩ | ⟨_, _, hstate⟩
    · rw [hp] at hs
      cases hs
    · rw [hstate, hp]
      decide
  | connectionEstablished => exact absurd trivial hp
  | poll revents => exact absurd trivial hp
  | handleEvent => exact absurd trivial hp
  | send data w => exact absurd trivial hp
  | shutdown => exact absurd trivial hp
  | destroyServer => exact absurd trivial hp

theorem Reported.not_bad {s : State} (h : Reported s) : ¬ Bad s := by
  intro hcases
  rcases hcases with hlen | ⟨_, hs⟩
  · rw [h.1] at hlen
    exact absurd hlen (by decide)
  · exact hs h.2

/-- A run that ends well has taken proper steps only. -/
theorem proper_of_reported {s s' : State} {ls : List Label} (hc : s.destroyed = false → Counted s)
    (hrun : machine.run s ls = some s') (h : Reported s') : machine.Along Proper s ls := by
  induction ls generalizing s with
  | nil => trivial
  | cons l ls ih =>
    obtain ⟨t, hnext, hrest⟩ := machine.run_cons_some.mp hrun
    have hcount := hc (next_cases hnext).1
    have hp : Proper s l := by
      by_contra hp
      have hbad := machine.run_invariant (I := Bad) (fun _ _ _ => bad_step)
        (improper_step hcount hp hnext) hrest
      exact h.not_bad hbad
    refine ⟨hp, ?_⟩
    rw [hnext]
    apply ih _ hrest
    intro ht
    apply counted_step hcount hnext
    intro hl
    subst hl
    obtain ⟨_, rfl⟩ := next_connectionDestoryed hnext
    cases ht

/-- When the first `connectionDestoryed` of a connection has run, the user has been
    called once with the connection up and then once with it closed, and `state_` is
    `kDisconnected`, if and only if no step of the run read an end of file from a
    connection that was closed, or destroyed a connection that was being shut down. -/
theorem one_up_one_down_iff {s₀ s : State} {ls : List Label} (hinit : machine.init s₀)
    (hrun : machine.run s₀ ls = some s) (hdestroyed : s.destroyed = true) :
    (s.log = [.kConnected, .kDisconnected] ∧ s.conn.state_ = .kDisconnected) ↔
      machine.Along Proper s₀ ls := by
  have hcount := counted_init hinit
  constructor
  · intro h
    exact proper_of_reported (fun _ => hcount) hrun h
  · intro hp
    obtain ⟨hstate, hindex, heq⟩ := hinit
    have htold : Told s₀ := by
      refine ⟨?_, fun _ => ⟨hcount, Or.inl (hcount.fresh (by rw [heq]))⟩⟩
      intro htrue
      rw [heq] at htrue
      cases htrue
    exact (machine.run_invariant_along (I := Told) (fun _ _ _ => told_step) htold hp hrun).1
      hdestroyed

/-- A connection as `newConnection` creates it. -/
def exampleConn : TcpConnection :=
  { channel_ := { fd_ := 7 }, inputBuffer_ := .ctor 4, outputBuffer_ := .ctor 4 }

/-- The peer closes after a message, and the connection is removed. -/
theorem one_up_one_down_iff_peer_close :
    ∃ s ls, machine.run { conn := exampleConn } ls = some s ∧ s.destroyed = true ∧
      s.log = [.kConnected, .kDisconnected] ∧ s.conn.state_ = .kDisconnected := by
  have hrun : machine.run { conn := exampleConn }
      [.connectionEstablished, .poll EPOLLIN, .handleEvent,
       .callback (.wrote 0) (.read [1]), .send [2] (.wrote 1), .poll EPOLLIN,
       .handleEvent, .callback (.wrote 0) (.read []), .connectionDestoryed] = some _ := rfl
  have hproper := (one_up_one_down_iff ⟨rfl, rfl, rfl⟩ hrun rfl).mpr (by decide +kernel)
  exact ⟨_, _, hrun, rfl, hproper⟩

/-- `shutdown` and then the end of the server: no DOWN, and `state_` stays
    `kDisconnecting`.  EPOLLHUP and EPOLLPRI in one mask, and an end of file: two
    DOWNs. -/
theorem down_missing_or_doubled :
    (∃ s, machine.run { conn := exampleConn }
        [.connectionEstablished, .shutdown, .destroyServer, .connectionDestoryed] = some s ∧
      s.destroyed = true ∧ s.log = [.kConnected] ∧ s.conn.state_ = .kDisconnecting) ∧
    ∃ s, machine.run { conn := exampleConn }
        [.connectionEstablished, .poll (EPOLLHUP ||| EPOLLPRI), .handleEvent,
         .callback (.wrote 0) (.read []), .callback (.wrote 0) (.read []),
         .connectionDestoryed] = some s ∧
      s.destroyed = true ∧ s.log = [.kConnected, .kDisconnected, .kDisconnected] ∧
        s.conn.state_ = .kDisconnected :=
  ⟨⟨_, rfl, rfl, rfl, rfl⟩, ⟨_, rfl, rfl, rfl, rfl⟩⟩

end ConnectionCallbacks
