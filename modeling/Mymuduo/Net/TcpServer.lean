import Mathlib.Data.Finset.Basic
import Mathlib.Data.Fintype.Basic
import Mymuduo.Framework.Machine
import Mymuduo.Net.EPollPoller
import Mymuduo.Net.EventLoop
import Mymuduo.Net.TcpConnection

/-! # TcpServer with its loops and connections

    The base loop (number 0) accepts connections and removes them; each
    connection lives in one of the `n + 1` loops, with `n = 0` for a server that
    shares one loop.  A step is one call in one thread: accepting a connection,
    one callback of `handleEvent`, one functor, or a call by user code.

    The threads hold `Channel*` in the poller, in the kernel and in the list of
    active channels, and raw `this` pointers in the functors of `send` and
    `shutdown`; none of these owns the connection.  What owns it is the
    `connections_` entry, the functors with a bound `TcpConnectionPtr`, the guard
    of a running `handleEvent` and user copies.  An access to a connection that
    is gone sets `dangling`.
-/

/-- Identifies a `TcpConnection` object, by the order of creation. -/
abbrev ConnPtr := Nat

namespace TcpServer

/-! ## State -/

inductive Functor where
  | connectionEstablished (c : ConnPtr)
  | removeConnectionInLoop (c : ConnPtr)
  | connectionDestoryed (c : ConnPtr)
  /-- `writeCompleteCallback_` bound to the connection. -/
  | writeComplete (c : ConnPtr)
  /-- `highWaterMarkCallback_` bound to the connection. -/
  | highWaterMark (c : ConnPtr)
  /-- Bound to a raw `this`. -/
  | sendInLoop (c : ConnPtr) (data : List Byte)
  /-- Bound to a raw `this`. -/
  | shutdownInLoop (c : ConnPtr)
  deriving DecidableEq

namespace Functor

/-- The connection a functor is about. -/
def conn : Functor → ConnPtr
  | .connectionEstablished c | .removeConnectionInLoop c | .connectionDestoryed c
  | .writeComplete c | .highWaterMark c | .sendInLoop c _ | .shutdownInLoop c => c

/-- The functor holds a `TcpConnectionPtr`. -/
def owns : Functor → Bool
  | .sendInLoop _ _ | .shutdownInLoop _ => false
  | _ => true

end Functor

/-- The callbacks of `handleEventWithGuard`, and the call of `closeCallback_`
    that ends `handleClose`. -/
inductive Stage where
  | close
  | error
  | read
  | write
  | closeCallback
  deriving DecidableEq, Repr

/-- A loop with its thread. -/
structure LoopThread where
  loop : EventLoop Functor := {}
  poller : EPollPoller ConnPtr := {}
  /-- What is left of the list that `loop` iterates over. -/
  activeChannels_ : List ConnPtr := []
  /-- The channel in `handleEvent`, and the callbacks still to be called. -/
  current : Option (ConnPtr × List Stage) := none
  /-- In `doPendingFunctors`. -/
  running : Bool := false

/-- The functors of a loop, in the order in which they will run. -/
def LoopThread.queue (t : LoopThread) : List Functor := t.loop.functors ++ t.loop.pendingFunctors_

/-- A `TcpConnection` that has not been destroyed.  `up` says that it has been
    established and `connectionDestoryed` has not run yet. -/
structure Conn (n : Nat) where
  tcp : TcpConnection
  ioLoop : Fin (n + 1)
  /-- The number in its name. -/
  connId : Nat
  up : Bool := false

structure State (n : Nat) where
  conns : ConnPtr → Option (Conn n) := fun _ => none
  created : Nat := 0
  connections_ : Nat → Option ConnPtr := fun _ => none
  nextConnId_ : Nat := 1
  loops : Fin (n + 1) → LoopThread := fun _ => {}
  /-- The connections of which user code holds a copy. -/
  users : Finset ConnPtr := ∅
  openFds : Finset Nat := ∅
  dangling : Bool := false

variable {n : Nat}

namespace State

def setConn (s : State n) (c : ConnPtr) (conn : Conn n) : State n :=
  { s with conns := Function.update s.conns c (some conn) }

def setLoop (s : State n) (i : Fin (n + 1)) (t : LoopThread) : State n :=
  { s with loops := Function.update s.loops i t }

/-- `loops_[i]->queueInLoop(f)`. -/
def queueInLoop (s : State n) (i : Fin (n + 1)) (isInLoopThread : Bool) (f : Functor) : State n :=
  s.setLoop i { s.loops i with loop := (s.loops i).loop.queueInLoop isInLoopThread f }

/-! ## Effects of a connection's member functions -/

/-- The poller of the connection's loop answers with its new state and the new
    index of the channel. -/
def setRegistration (s : State n) (c : ConnPtr) (conn : Conn n)
    (r : EPollPoller ConnPtr × Channel) : State n :=
  (s.setLoop conn.ioLoop { s.loops conn.ioLoop with poller := r.1 }).setConn c
    -- updateChannel and removeChannel write the index back into the channel
    { conn with
      tcp := { conn.tcp with channel_ := { conn.tcp.channel_ with index_ := r.2.index_ } } }

/-- Carry out one effect; all of them happen in the connection's loop. -/
def applyEffect (c : ConnPtr) (s : State n) (e : Effect) : State n :=
  match s.conns c with
  | none => { s with dangling := true }
  | some conn =>
    match e with
    | .updateChannel events =>
      s.setRegistration c conn ((s.loops conn.ioLoop).poller.updateChannel c
        { conn.tcp.channel_ with events_ := events })
    | .removeChannel =>
      s.setRegistration c conn ((s.loops conn.ioLoop).poller.removeChannel c conn.tcp.channel_)
    | .queueWriteComplete => s.queueInLoop conn.ioLoop true (.writeComplete c)
    | .queueHighWaterMark _ => s.queueInLoop conn.ioLoop true (.highWaterMark c)
    | .closeCallback =>
      -- `handleClose` runs in the connection's `handleEvent`
      match (s.loops conn.ioLoop).current with
      | some (_, stages) =>
        s.setLoop conn.ioLoop
          { s.loops conn.ioLoop with current := some (c, .closeCallback :: stages) }
      | none => s
    | .write _ _ | .shutdownWrite | .connectionCallback _ | .messageCallback => s

/-- Call a member function of the connection. -/
def call (s : State n) (c : ConnPtr) (f : TcpConnection → TcpConnection × List Effect) :
    State n :=
  match s.conns c with
  | none => { s with dangling := true }
  | some conn =>
    (f conn.tcp).2.foldl (applyEffect c) (s.setConn c { conn with tcp := (f conn.tcp).1 })

def setUp (s : State n) (c : ConnPtr) (up : Bool) : State n :=
  match s.conns c with
  | none => s
  | some conn => s.setConn c { conn with up := up }

def connectionEstablished (s : State n) (c : ConnPtr) : State n :=
  (s.setUp c true).call c TcpConnection.connectionEstablished

def connectionDestoryed (s : State n) (c : ConnPtr) : State n :=
  (s.call c TcpConnection.connectionDestoryed).setUp c false

/-! ## TcpServer -/

/-- The first part of `newConnection`: the connection is created, under a new
    name, and entered in `connections_`. -/
def addConnection (s : State n) (ioLoop : Fin (n + 1)) (sockfd : Nat)
    (writeCompleteCallback_ : Bool) : State n :=
  { s with
    conns := Function.update s.conns s.created (some {
      tcp := { channel_ := { fd_ := sockfd }, writeCompleteCallback_ := writeCompleteCallback_ }
      ioLoop := ioLoop
      connId := s.nextConnId_ })
    created := s.created + 1
    connections_ := Function.update s.connections_ s.nextConnId_ (some s.created)
    nextConnId_ := s.nextConnId_ + 1
    openFds := insert sockfd s.openFds }

/-- `newConnection(sockfd, peerAddr)`; `ioLoop` is what `getNextLoop` returned. -/
def newConnection (s : State n) (ioLoop : Fin (n + 1)) (sockfd : Nat)
    (writeCompleteCallback_ : Bool) : State n :=
  let c := s.created
  let s := s.addConnection ioLoop sockfd writeCompleteCallback_
  -- runInLoop from the base loop's thread
  if ioLoop = 0 then s.connectionEstablished c
  else s.queueInLoop ioLoop false (.connectionEstablished c)

def removeConnectionInLoop (s : State n) (c : ConnPtr) : State n :=
  match s.conns c with
  | none => { s with dangling := true }
  | some conn =>
    -- between the erase and the enqueue the argument keeps the connection alive
    { s with connections_ := Function.update s.connections_ conn.connId none }.queueInLoop
      conn.ioLoop (conn.ioLoop = 0) (.connectionDestoryed c)

/-- `removeConnection(conn)` in the thread of loop `i`. -/
def removeConnection (s : State n) (i : Fin (n + 1)) (c : ConnPtr) : State n :=
  if i = 0 then s.removeConnectionInLoop c
  else s.queueInLoop 0 false (.removeConnectionInLoop c)

/-! ## Loop threads -/

/-- `channel->set_revents(revents)`. -/
def setRevents (s : State n) (ev : ConnPtr × EventMask) : State n :=
  match s.conns ev.1 with
  | none => { s with dangling := true }
  | some conn =>
    s.setConn ev.1 { conn with
      tcp := { conn.tcp with channel_ := { conn.tcp.channel_ with revents_ := ev.2 } } }

/-- One callback of `handleEvent`; `w` and `r` are the outcomes of the system
    calls it makes. -/
def callback (s : State n) (i : Fin (n + 1)) (c : ConnPtr) (w : WriteResult) (r : ReadvResult) :
    Stage → State n
  | .close => s.call c TcpConnection.handleClose
  -- handleError only logs
  | .error => s
  | .read => s.call c fun t => t.handleRead r
  | .write => s.call c fun t => t.handleWrite w
  | .closeCallback => s.removeConnection i c

/-- The `for` loop of `doPendingFunctors` comes to its next functor; `rest` is what
    is left.  The source lets go of a functor at the end of the pass; the model
    does so when it runs, and so lets its owner be destroyed earlier. -/
def dequeue (s : State n) (i : Fin (n + 1)) (rest : List Functor) : State n :=
  s.setLoop i { s.loops i with loop := { (s.loops i).loop with functors := rest } }

def runFunctor (s : State n) (w : WriteResult) : Functor → State n
  | .connectionEstablished c => s.connectionEstablished c
  | .removeConnectionInLoop c => s.removeConnectionInLoop c
  | .connectionDestoryed c => s.connectionDestoryed c
  | .writeComplete _ | .highWaterMark _ => s
  | .sendInLoop c data => s.call c fun t => t.sendInLoop data w
  | .shutdownInLoop c => s.call c TcpConnection.shutdownInLoop

/-- No owner is left. -/
def Unowned (s : State n) (c : ConnPtr) (conn : Conn n) : Prop :=
  s.connections_ conn.connId ≠ some c ∧ c ∉ s.users ∧
    (∀ i, ∀ f ∈ (s.loops i).queue, f.owns = true → f.conn ≠ c) ∧
    ∀ i, (s.loops i).current.map Prod.fst ≠ some c

instance (s : State n) (c : ConnPtr) (conn : Conn n) : Decidable (s.Unowned c conn) :=
  inferInstanceAs (Decidable (_ ∧ _))

/-- `~TcpConnection`: the channel is gone, and the kernel drops the closed
    descriptor from its interest sets. -/
def destroy (s : State n) (c : ConnPtr) (conn : Conn n) : State n :=
  { s with
    conns := Function.update s.conns c none
    openFds := s.openFds.erase conn.tcp.channel_.fd_
    loops := fun i =>
      { s.loops i with poller := (s.loops i).poller.closeFd conn.tcp.channel_.fd_ } }

end State

/-- The callbacks that `handleEventWithGuard` calls for a mask, in order. -/
def stages (revents : EventMask) : List Stage :=
  (if revents &&& EPOLLHUP ≠ 0 ∧ revents &&& EPOLLIN = 0 then [.close] else []) ++
  (if revents &&& EPOLLERR ≠ 0 then [.error] else []) ++
  (if revents &&& (EPOLLIN ||| EPOLLPRI) ≠ 0 then [.read] else []) ++
  (if revents &&& EPOLLOUT ≠ 0 then [.write] else [])

/-! ## Steps -/

inductive Label (n : Nat) where
  | newConnection (ioLoop : Fin (n + 1)) (sockfd : Nat) (writeCompleteCallback_ : Bool)
  /-- `epoll_wait` returned these descriptors with these masks. -/
  | poll (i : Fin (n + 1)) (events : List (Nat × EventMask))
  | handleEvent (i : Fin (n + 1))
  | callback (i : Fin (n + 1)) (w : WriteResult) (r : ReadvResult)
  | endEvent (i : Fin (n + 1))
  | beginFunctors (i : Fin (n + 1))
  | runFunctor (i : Fin (n + 1)) (w : WriteResult)
  | endFunctors (i : Fin (n + 1))
  /-- User code calls `send` in the connection's own loop, or in another thread.  A call of
      `send` or `shutdown` is one step, from the test of `state_` to the functor it queues. -/
  | send (c : ConnPtr) (isInLoopThread : Bool) (data : List Byte) (w : WriteResult)
  | shutdown (c : ConnPtr) (isInLoopThread : Bool)
  | setHighWaterMarkCallback (c : ConnPtr) (highWaterMark : Nat)
  | userCopy (c : ConnPtr)
  | userDrop (c : ConnPtr)
  /-- The last owner is gone. -/
  | destroy (c : ConnPtr)

/-- The largest value of `nextConnId_`; incrementing it there is undefined. -/
def INT_MAX : Nat := 2 ^ 31 - 1

def next (s : State n) : Label n → Option (State n)
  | .newConnection ioLoop sockfd wc =>
    -- the kernel gives out a descriptor that is not open
    if s.nextConnId_ < INT_MAX ∧ sockfd ∉ s.openFds then some (s.newConnection ioLoop sockfd wc)
    else none
  | .poll i events =>
    let t := s.loops i
    if t.activeChannels_ = [] ∧ t.current = none ∧ t.running = false then
      -- epoll_event::data.ptr is the Channel* that was registered
      (events.mapM fun ev => (t.poller.interest ev.1).map fun entry => (entry.2, ev.2)).map
        fun polled =>
          (polled.foldl State.setRevents s).setLoop i
            { t with activeChannels_ := polled.map Prod.fst }
    else none
  | .handleEvent i =>
    let t := s.loops i
    match t.activeChannels_, t.current with
    | c :: rest, none =>
      match s.conns c with
      | some conn =>
        -- the guard locks `tie_`
        some (s.setLoop i { t with
          activeChannels_ := rest, current := some (c, stages conn.tcp.channel_.revents_) })
      | none => some { s with dangling := true }
    | _, _ => none
  | .callback i w r =>
    let t := s.loops i
    match t.current with
    | some (c, stage :: rest) =>
      some ((s.setLoop i { t with current := some (c, rest) }).callback i c w r stage)
    | _ => none
  | .endEvent i =>
    let t := s.loops i
    match t.current with
    | some (_, []) => some (s.setLoop i { t with current := none })
    | _ => none
  | .beginFunctors i =>
    let t := s.loops i
    if t.activeChannels_ = [] ∧ t.current = none ∧ t.running = false then
      some (s.setLoop i { t with loop := t.loop.beginPending.swapFunctors, running := true })
    else none
  | .runFunctor i w =>
    let t := s.loops i
    match t.running, t.loop.functors with
    | true, f :: rest => some ((s.dequeue i rest).runFunctor w f)
    | _, _ => none
  | .endFunctors i =>
    let t := s.loops i
    if t.running = true ∧ t.loop.functors = [] then
      some (s.setLoop i { t with loop := t.loop.endPending, running := false })
    else none
  | .send c inLoop data w =>
    match s.conns c with
    | some conn =>
      if conn.tcp.state_ = .kConnected then
        if inLoop then some (s.call c fun t => t.sendInLoop data w)
        -- the functor binds a raw this
        else some (s.queueInLoop conn.ioLoop false (.sendInLoop c data))
      else none
    | none => none
  | .shutdown c inLoop =>
    match s.conns c with
    | some conn =>
      if conn.tcp.state_ = .kConnected then
        -- state_ is stored at once, in the calling thread
        let s := s.setConn c { conn with tcp := conn.tcp.shutdown.1 }
        if inLoop then some (s.call c TcpConnection.shutdownInLoop)
        else some (s.queueInLoop conn.ioLoop false (.shutdownInLoop c))
      else none
    | none => none
  | .setHighWaterMarkCallback c highWaterMark =>
    (s.conns c).map fun conn =>
      s.setConn c { conn with tcp := { conn.tcp with
        highWaterMarkCallback_ := true, highWaterMark_ := highWaterMark } }
  | .userCopy c =>
    if (s.conns c).isSome then some { s with users := insert c s.users } else none
  | .userDrop c => some { s with users := s.users.erase c }
  | .destroy c =>
    match s.conns c with
    | some conn => if s.Unowned c conn then some (s.destroy c conn) else none
    | none => none

/-- Starts with a server that has accepted no connection. -/
def machine (n : Nat) : Machine (State n) (Label n) where
  init := fun s => s = {}
  next := next

end TcpServer
