import Mathlib.Data.Int.CardIntervalMod
import Mymuduo.Net.Acceptor
import Mymuduo.Net.ConnectionDescriptors
import Mymuduo.Net.ThreadPoolStart

/-! # The server as a whole

    `TcpServer::start`, the loop threads, the acceptor and the connections in one machine.
    `start` may be called by any number of threads; the first call brings the loops up and has
    the base loop listen.  A connection that `Acceptor::handleRead` takes goes to
    `TcpServer::newConnection` in the same call, with the loop that `getNextLoop` gives out,
    and `~TcpConnection` closes its descriptor.

    The parts are the machines of their own modules.  What each of them takes for granted of
    the others is proved here: a new connection gets a descriptor that is not open, the
    acceptor hands nothing over before all loops are up, and `loops_[next_]` is in range.
    The loops of the threads run as long as the server does.
-/

namespace ServerSystem

variable {n : Nat}

/-! ## State -/

/-- A server with `n` loop threads. -/
structure State (n : Nat) where
  started_ : BitVec 32 := 0
  /-- `threadPool_`, with the call of its `start` and the threads. -/
  threadPool_ : PoolStart.State
  acceptor_ : Acceptor.State
  /-- The connections, and the loops they live in. -/
  server : TcpServer.State n := {}
  /-- The loops that `getNextLoop` has given out. -/
  assigned : List (Fin (n + 1)) := []

/-- The number of a loop; the base loop is number 0. -/
def toLoop (n : Nat) : Option Nat → Option (Fin (n + 1))
  | none => some ⟨0, Nat.succ_pos n⟩
  | some i => if h : i < n then some ⟨i + 1, Nat.succ_lt_succ h⟩ else none

/-- The base loop if there are no threads, and else one thread after the other. -/
def robin (n : Nat) (c : Nat) : Fin (n + 1) :=
  if h : n = 0 then ⟨0, Nat.succ_pos n⟩
  else ⟨c % n + 1, Nat.succ_lt_succ (Nat.mod_lt c (Nat.pos_of_ne_zero h))⟩

/-! ## Steps -/

inductive Label (n : Nat) where
  /-- Some thread calls `start`. -/
  | start
  /-- A step of `threadPool_->start` or of a new thread. -/
  | pool (l : PoolStart.Label)
  /-- `Acceptor::listen` in the base loop. -/
  | listen
  /-- The first `accept` of `Acceptor::handleRead`, and `newConnection`. -/
  | handleRead (writeCompleteCallback_ : Bool)
  /-- Another step of the acceptor, or one of the kernel. -/
  | acceptor (l : Acceptor.Label)
  /-- A step of the loops, of a connection or of user code. -/
  | server (l : TcpServer.Label n)
  /-- `~TcpConnection` closes the descriptor. -/
  | destroy (c : ConnPtr)

/-- The steps that `start` does not take itself; nobody ends the loop of a thread. -/
def poolStep : PoolStart.Label → Bool
  | .start | .loopReturns _ | .clear _ => false
  | _ => true

/-- The steps of the acceptor without a part in the other machines. -/
def acceptorStep : Acceptor.Label → Bool
  | .listen | .handleRead | .connClose _ => false
  | _ => true

def serverStep : TcpServer.Label n → Bool
  | .newConnection _ _ _ | .destroy _ => false
  | _ => true

/-- `TcpServer::newConnection(sockfd, peerAddr)` with its call of `getNextLoop`.  A `next_`
    out of range is undefined. -/
def State.newConnection (s : State n) (sockfd : Nat) (writeCompleteCallback_ : Bool) :
    Option (State n) :=
  match s.threadPool_.pool.getNextLoop with
  | some (loop, pool) =>
    match toLoop n loop with
    | some ioLoop =>
      (TcpServer.next s.server (.newConnection ioLoop sockfd writeCompleteCallback_)).map
        fun server =>
          { s with
            threadPool_ := { s.threadPool_ with pool := pool }
            server := server
            assigned := s.assigned ++ [ioLoop] }
    | none => none
  | none => none

def next (s : State n) : Label n → Option (State n)
  | .start =>
    -- the counter must not come back to zero
    if s.started_ + 1 = 0 then none
    else if s.started_ = 0 then
      (PoolStart.next s.threadPool_ .start).map fun threadPool_ =>
        { s with started_ := s.started_ + 1, threadPool_ := threadPool_ }
    else some { s with started_ := s.started_ + 1 }
  | .pool l =>
    if poolStep l then
      (PoolStart.next s.threadPool_ l).map fun threadPool_ => { s with threadPool_ := threadPool_ }
    else none
  | .listen =>
    match s.threadPool_.main with
    | .done _ =>
      -- queued once, by the call that has started the threads
      if s.acceptor_.listenning_ then none
      else (Acceptor.next s.acceptor_ .listen).map fun acceptor_ =>
        { s with acceptor_ := acceptor_ }
    | _ => none
  | .handleRead wc =>
    match Acceptor.next s.acceptor_ .handleRead with
    | some acceptor_ =>
      match s.acceptor_.accept with
      | .connection sockfd _ => State.newConnection { s with acceptor_ := acceptor_ } sockfd wc
      | .emfile | .wouldBlock => some { s with acceptor_ := acceptor_ }
    | none => none
  | .acceptor l =>
    if acceptorStep l then
      (Acceptor.next s.acceptor_ l).map fun acceptor_ => { s with acceptor_ := acceptor_ }
    else none
  | .server l =>
    if serverStep l then
      (TcpServer.next s.server l).map fun server => { s with server := server }
    else none
  | .destroy c =>
    match s.server.conns c with
    | some conn =>
      match TcpServer.next s.server (.destroy c),
        Acceptor.next s.acceptor_ (.connClose conn.tcp.channel_.fd_) with
      | some server, some acceptor_ => some { s with server := server, acceptor_ := acceptor_ }
      | _, _ => none
    | none => none

/-- `TcpServer::TcpServer` and `setThreadNum` in a process with the descriptors of `t`; the
    constructor always sets `newConnectionCallback_`. -/
def machine (n : Nat) : Machine (State n) (Label n) where
  init := fun s => ∃ (t : DescriptorTable) (acceptor_ : Acceptor.State) (name : List Byte)
    (numThreads : Int) (cb : Bool), numThreads.toNat = n ∧ Acceptor.ctor t true = some acceptor_ ∧
      s = { acceptor_ := acceptor_, threadPool_ := PoolStart.ctor name numThreads cb }
  next := next

/-! ## The parts -/

theorem reachable_server {s s' : TcpServer.State n} {l : TcpServer.Label n}
    (h : (TcpServer.machine n).Reachable s) (hnext : TcpServer.next s l = some s') :
    (TcpServer.machine n).Reachable s' :=
  h.of_next _ hnext

theorem reachable_acceptor {s s' : Acceptor.State} {l : Acceptor.Label}
    (h : Acceptor.machine.Reachable s) (hnext : Acceptor.next s l = some s') :
    Acceptor.machine.Reachable s' :=
  h.of_next _ hnext

/-- What a step of the start leaves alone. -/
structure PoolKept (s s' : PoolStart.State) : Prop where
  baseLoop_ : s'.pool.baseLoop_ = s.pool.baseLoop_
  next_ : s'.pool.next_ = s.pool.next_
  numThreads_ : s'.pool.numThreads_ = s.pool.numThreads_
  idle : s'.main = .idle ↔ s.main = .idle
  done : ∀ i, s.main = .done i → s'.main = .done i

theorem poolKept_advance {s s' : PoolStart.State} {i : Nat} {pc : PoolStart.ThreadPc}
    {f : PoolStart.Worker → PoolStart.Worker} (h : s.advance i pc f = some s') : PoolKept s s' := by
  obtain ⟨_, rfl⟩ := PoolStart.advance_some h
  exact ⟨rfl, rfl, rfl, Iff.rfl, fun _ hmain => hmain⟩

theorem poolKept_next {s s' : PoolStart.State} {l : PoolStart.Label} (hl : poolStep l = true)
    (h : PoolStart.next s l = some s') : PoolKept s s' := by
  cases l with
  | start | loopReturns i | clear i => cases hl
  | create | semWait | resume =>
    simp only [PoolStart.next] at h
    split at h
    · rename_i i hmain
      simp only [Option.ite_none_right_eq_some, Option.some.injEq] at h
      obtain ⟨_, rfl⟩ := h
      exact ⟨rfl, rfl, rfl, by simp [hmain], by simp [hmain]⟩
    · cases h
  | finish =>
    simp only [PoolStart.next] at h
    split at h
    · rename_i i hmain
      simp only [Option.ite_none_left_eq_some, Option.some.injEq] at h
      obtain ⟨_, rfl⟩ := h
      exact ⟨rfl, rfl, rfl, by simp [hmain], by simp [hmain]⟩
    · cases h
  | wake =>
    simp only [PoolStart.next] at h
    split at h
    · simp only [Option.ite_none_right_eq_some, Option.some.injEq] at h
      obtain ⟨_, rfl⟩ := h
      exact ⟨rfl, rfl, rfl, Iff.rfl, fun _ hmain => hmain⟩
    · cases h
  | check =>
    simp only [PoolStart.next] at h
    split at h
    · rename_i i hmain
      split at h
      · obtain rfl := Option.some.inj h
        exact ⟨rfl, rfl, rfl, by simp [hmain], by simp [hmain]⟩
      · obtain rfl := Option.some.inj h
        exact ⟨rfl, rfl, rfl, by simp [hmain], by simp [hmain]⟩
    · cases h
  | publish i c =>
    simp only [PoolStart.next] at h
    split at h
    · exact poolKept_advance h
    · cases h
  | setTid i | post i | construct i | init i | enter i =>
    simp only [PoolStart.next] at h
    exact poolKept_advance h

/-- What a step of the acceptor by itself leaves alone. -/
theorem acceptorStep_keeps {s s' : Acceptor.State} {l : Acceptor.Label}
    (hl : acceptorStep l = true) (h : Acceptor.next s l = some s') :
    s'.conns = s.conns ∧ s'.handed = s.handed ∧ s'.listenning_ = s.listenning_ ∧
      s'.newConnectionCallback_ = s.newConnectionCallback_ := by
  cases l with
  | listen | handleRead | connClose fd => cases hl
  | otherOpen =>
    obtain ⟨⟨fd, table⟩, _, rfl⟩ := Option.map_eq_some_iff.mp h
    exact ⟨rfl, rfl, rfl, rfl⟩
  | abort =>
    simp only [Acceptor.next, Option.ite_none_left_eq_some, Option.some.injEq] at h
    obtain ⟨_, rfl⟩ := h
    exact ⟨rfl, rfl, rfl, rfl⟩
  | connect | otherClose fd | handleReadError | closeIdle | closeAccepted =>
    simp only [Acceptor.next, Option.ite_none_right_eq_some, Option.some.injEq] at h
    obtain ⟨_, rfl⟩ := h
    exact ⟨rfl, rfl, rfl, rfl⟩
  | acceptIdle =>
    simp only [Acceptor.next, Option.ite_none_right_eq_some, Option.some.injEq] at h
    obtain ⟨_, rfl⟩ := h
    unfold Acceptor.State.acceptIdle
    split <;> exact ⟨rfl, rfl, rfl, rfl⟩
  | openIdle =>
    simp only [Acceptor.next, Option.ite_none_right_eq_some, Option.some.injEq] at h
    obtain ⟨_, rfl⟩ := h
    unfold Acceptor.State.openIdle
    split <;> exact ⟨rfl, rfl, rfl, rfl⟩

/-- A descriptor that the kernel gives out is not the one of a connection. -/
theorem fresh_of_accept {s : Acceptor.State} (h : Acceptor.machine.Reachable s) {fd : Nat}
    {table : DescriptorTable} (haccept : s.accept = .connection fd table) :
    fd ∉ s.conns := by
  intro hconn
  obtain ⟨halloc, _⟩ := Acceptor.accept_connection haccept
  obtain ⟨hfree, _⟩ := DescriptorTable.allocate_some halloc
  have howned := Acceptor.owned_reachable h fd
  rw [decide_eq_false hfree] at howned
  simp [Acceptor.State.owners, hconn] at howned

/-- With all loops in `loops_`, `getNextLoop` goes round them. -/
theorem getNextLoop_robin {p : EventLoopThreadPool (Option Nat)} {k : Nat}
    (hloops : p.loops_ = (List.range n).map some) (hbase : p.baseLoop_ = none)
    (hnext : p.next_ = if n = 0 then 0 else k % n) :
    ∃ loop, p.getNextLoop = some (loop,
        { p with next_ := if n = 0 then 0 else (k + 1) % n }) ∧
      toLoop n loop = some (robin n k) := by
  by_cases hn : n = 0
  · -- the base loop
    subst hn
    refine ⟨none, ?_, rfl⟩
    have hzero : p.next_ = 0 := hnext
    rw [EventLoopThreadPool.getNextLoop_base (by rw [hloops]; rfl), if_pos rfl, ← hzero]
    show some (p.baseLoop_, p) = some (none, p)
    rw [hbase]
  · rw [if_neg hn] at hnext
    have hlen : p.loops_.length = n := by rw [hloops, List.length_map, List.length_range]
    have hlt : k % n < n := Nat.mod_lt k (by omega)
    refine ⟨some (k % n), ?_, ?_⟩
    · have hget : p.loops_[p.next_]? = some (some (k % n)) := by
        rw [hloops, hnext, List.getElem?_map, List.getElem?_range hlt, Option.map_some]
      have hin : p.next_ < p.loops_.length := by omega
      rw [EventLoopThreadPool.getNextLoop_thread hin, hlen, if_neg hn]
      rw [List.getElem?_eq_getElem hin] at hget
      rw [Option.some.inj hget, hnext, Nat.mod_add_mod]
    · unfold toLoop robin
      simp only [dif_pos hlt, dif_neg hn]

/-! ## The invariant -/

/-- What the parts have to do with each other. -/
structure Joined (s : State n) : Prop where
  server : (TcpServer.machine n).Reachable s.server
  acceptor : Acceptor.machine.Reachable s.acceptor_
  pool : PoolStart.Inv s.threadPool_
  threads : s.threadPool_.pool.numThreads_.toNat = n
  base : s.threadPool_.pool.baseLoop_ = none
  callback : s.acceptor_.newConnectionCallback_ = true
  /-- The first call of `start` has the start of the threads to itself. -/
  started : s.started_ = 0 ↔ s.threadPool_.main = .idle
  /-- Nothing is accepted before all loops are up. -/
  listening : s.acceptor_.listenning_ = true → ∃ i, s.threadPool_.main = .done i
  next_ : s.threadPool_.pool.next_ = if n = 0 then 0 else s.server.created % n
  conns : s.acceptor_.conns = s.server.openFds
  handed : s.acceptor_.handed = s.server.created
  assigned : s.assigned = (List.range s.server.created).map (robin n)
  ioLoop : ∀ c id, s.server.ident c = some id → id.ioLoop = robin n c

section

variable {s s' : State n}

theorem joined_init (h : (machine n).init s) : Joined s := by
  obtain ⟨t, acceptor_, name, numThreads, cb, hn, hctor, rfl⟩ := h
  have hnew : acceptor_.newConnectionCallback_ = true ∧ acceptor_.listenning_ = false ∧
      acceptor_.conns = ∅ ∧ acceptor_.handed = 0 := by
    obtain ⟨⟨sockfd, t'⟩, _, rfl⟩ := Option.map_eq_some_iff.mp hctor
    simp only
    split <;> exact ⟨rfl, rfl, rfl, rfl⟩
  obtain ⟨hcallback, hlisten, hconns, hhanded⟩ := hnew
  exact {
    server := Machine.Reachable.of_init _ rfl
    acceptor := Machine.Reachable.of_init _ ⟨t, true, hctor⟩
    pool := PoolStart.inv_init ⟨name, numThreads, cb, rfl⟩
    threads := hn
    base := rfl
    callback := hcallback
    started := ⟨fun _ => rfl, fun _ => rfl⟩
    listening := by simp [hlisten]
    next_ := by simp [PoolStart.ctor, EventLoopThreadPool.ctor, EventLoopThreadPool.setThreadNum]
    conns := hconns
    handed := hhanded
    assigned := rfl
    ioLoop := by simp [TcpServer.State.ident] }

/-- A step of the start. -/
theorem Joined.poolStep (h : Joined s) {l : PoolStart.Label} {p : PoolStart.State}
    (hl : poolStep l = true) (hstep : PoolStart.next s.threadPool_ l = some p) :
    Joined { s with threadPool_ := p } := by
  have hk := poolKept_next hl hstep
  exact { h with
    pool := PoolStart.inv_step _ l p h.pool hstep
    threads := by rw [hk.numThreads_]; exact h.threads
    base := hk.baseLoop_.trans h.base
    started := h.started.trans hk.idle.symm
    listening := by
      intro hlisten
      obtain ⟨i, hmain⟩ := h.listening hlisten
      exact ⟨i, hk.done i hmain⟩
    next_ := hk.next_.trans h.next_ }

/-- A step of the acceptor that hands nothing over and takes nothing back. -/
theorem Joined.acceptorStep (h : Joined s) {l : Acceptor.Label} {a : Acceptor.State}
    (hstep : Acceptor.next s.acceptor_ l = some a) (hconns : a.conns = s.acceptor_.conns)
    (hhanded : a.handed = s.acceptor_.handed)
    (hlisten : a.listenning_ = true → ∃ i, s.threadPool_.main = .done i)
    (hcallback : a.newConnectionCallback_ = s.acceptor_.newConnectionCallback_) :
    Joined { s with acceptor_ := a } :=
  { h with
    acceptor := reachable_acceptor h.acceptor hstep
    callback := hcallback.trans h.callback
    listening := hlisten
    conns := hconns.trans h.conns
    handed := hhanded.trans h.handed }

/-- A step of the loops and the connections. -/
theorem Joined.serverStep (h : Joined s) {l : TcpServer.Label n} {t : TcpServer.State n}
    (hl : serverStep l = true) (hstep : TcpServer.next s.server l = some t) :
    Joined { s with server := t } := by
  have hk : TcpServer.Keeps s.server t := by
    rcases TcpServer.next_cases hstep with ⟨_, _, _, rfl, _⟩ | ⟨_, _, rfl, _⟩ | ⟨_, _, hk⟩
    · cases hl
    · cases hl
    · exact hk
  exact { h with
    server := reachable_server h.server hstep
    next_ := by rw [hk.created]; exact h.next_
    conns := h.conns.trans hk.openFds.symm
    handed := h.handed.trans hk.created.symm
    assigned := by rw [hk.created]; exact h.assigned
    ioLoop := by
      intro c id hid
      rw [hk.ident] at hid
      exact h.ioLoop c id hid }

/-- `start` finds the threads unstarted exactly at the first call. -/
theorem Joined.start (h : Joined s) (hlast : s.started_ + 1 ≠ 0) :
    ∃ s', next s .start = some s' ∧ Joined s' := by
  by_cases hfirst : s.started_ = 0
  · have hmain := h.started.mp hfirst
    have hstep : PoolStart.next s.threadPool_ .start = some { s.threadPool_ with
        pool := { s.threadPool_.pool with started_ := true }, main := .loop 0 } := by
      simp only [PoolStart.next, if_pos hmain]
    refine ⟨{ s with started_ := s.started_ + 1, threadPool_ := { s.threadPool_ with
        pool := { s.threadPool_.pool with started_ := true }, main := .loop 0 } },
      by simp only [next, if_neg hlast, if_pos hfirst, hstep, Option.map_some], ?_⟩
    exact { h with
      pool := PoolStart.inv_step _ _ _ h.pool hstep
      started := ⟨fun hzero => absurd hzero hlast, by simp⟩
      listening := by
        intro hlisten
        obtain ⟨i, hdone⟩ := h.listening hlisten
        rw [hmain] at hdone
        cases hdone }
  · refine ⟨{ s with started_ := s.started_ + 1 },
      by simp only [next, if_neg hlast, if_neg hfirst], ?_⟩
    have hmain : s.threadPool_.main ≠ .idle := fun hmain => hfirst (h.started.mpr hmain)
    exact { h with started := ⟨fun hzero => absurd hzero hlast, fun hidle => absurd hidle hmain⟩ }

/-- The acceptor hands a connection over: `newConnection` finds a loop, and the descriptor
    is one that no connection has. -/
theorem Joined.newConnection (h : Joined s) {a : Acceptor.State} {sockfd : Nat}
    {table : DescriptorTable} (hread : Acceptor.next s.acceptor_ .handleRead = some a)
    (haccept : s.acceptor_.accept = .connection sockfd table)
    (hid : s.server.nextConnId_ < TcpServer.INT_MAX) (wc : Bool) :
    ∃ s', State.newConnection { s with acceptor_ := a } sockfd wc = some s' ∧ Joined s' := by
  obtain ⟨⟨_, hlisten⟩, ha⟩ : (s.acceptor_.pc = .ready ∧ s.acceptor_.listenning_ = true) ∧
      s.acceptor_.handleRead = a := by
    simpa [Acceptor.next] using hread
  obtain ⟨i, hmain⟩ := h.listening hlisten
  have hfresh := fresh_of_accept h.acceptor haccept
  have hloops : s.threadPool_.pool.loops_ = (List.range n).map some := by
    rw [h.pool.loops, hmain, ← h.threads, ← (h.pool.done i hmain).1]
    rfl
  obtain ⟨loop, hnext, hloop⟩ := getNextLoop_robin hloops h.base h.next_
  have hfree : sockfd ∉ s.server.openFds := h.conns ▸ hfresh
  have hserver : TcpServer.next s.server (.newConnection (robin n s.server.created) sockfd wc) =
      some (s.server.newConnection (robin n s.server.created) sockfd wc) := by
    simp only [TcpServer.next, if_pos (And.intro hid hfree)]
  have hserver' := reachable_server h.server hserver
  have hk := TcpServer.keeps_newConnection s.server (robin n s.server.created) sockfd wc
  have hcreated : (s.server.newConnection (robin n s.server.created) sockfd wc).created =
      s.server.created + 1 := hk.created
  have haccepted : a.conns = insert sockfd s.acceptor_.conns ∧
      a.handed = s.acceptor_.handed + 1 ∧ a.listenning_ = s.acceptor_.listenning_ ∧
      a.newConnectionCallback_ = s.acceptor_.newConnectionCallback_ := by
    rw [← ha]
    simp only [Acceptor.State.handleRead, haccept, h.callback, if_true, and_self]
  refine ⟨{ s with
      acceptor_ := a
      threadPool_ := { s.threadPool_ with pool := { s.threadPool_.pool with
        next_ := if n = 0 then 0 else (s.server.created + 1) % n } }
      server := s.server.newConnection (robin n s.server.created) sockfd wc
      assigned := s.assigned ++ [robin n s.server.created] },
    by simp only [State.newConnection, hnext, hloop, hserver, Option.map_some], ?_⟩
  exact {
    server := hserver'
    acceptor := reachable_acceptor h.acceptor hread
    pool := { h.pool with }
    threads := h.threads
    base := h.base
    callback := haccepted.2.2.2.trans h.callback
    started := h.started
    listening := fun _ => ⟨i, hmain⟩
    next_ := by simp only [hcreated]
    conns := by
      show a.conns = _
      rw [haccepted.1, h.conns, hk.openFds]
      rfl
    handed := by
      show a.handed = _
      rw [haccepted.2.1, h.handed, hcreated]
    assigned := by
      show s.assigned ++ [robin n s.server.created] = _
      rw [hcreated, List.range_succ, List.map_append, h.assigned]
      rfl
    ioLoop := by
      intro c id hident
      rw [hk.ident, TcpServer.addConnection_ident] at hident
      split at hident
      · rename_i hc
        obtain rfl := Option.some.inj hident
        rw [hc]
      · exact h.ioLoop c id hident }

theorem newConnection_connId {sockfd : Nat} {wc : Bool}
    (h : s.newConnection sockfd wc = some s') : s.server.nextConnId_ < TcpServer.INT_MAX := by
  unfold State.newConnection at h
  split at h
  · split at h
    · obtain ⟨t, ht, _⟩ := Option.map_eq_some_iff.mp h
      simp only [TcpServer.next, Option.ite_none_right_eq_some] at ht
      exact ht.1.1
    · cases h
  · cases h

/-- The end of a connection closes its descriptor. -/
theorem Joined.destroy (h : Joined s) {c : ConnPtr} {conn : TcpServer.Conn n}
    {t : TcpServer.State n} {a : Acceptor.State} (hconn : s.server.conns c = some conn)
    (hserver : TcpServer.next s.server (.destroy c) = some t)
    (hclose : Acceptor.next s.acceptor_ (.connClose conn.tcp.channel_.fd_) = some a) :
    Joined { s with server := t, acceptor_ := a } := by
  obtain ⟨_, ha⟩ : conn.tcp.channel_.fd_ ∈ s.acceptor_.conns ∧
      { s.acceptor_ with
        table := s.acceptor_.table.close conn.tcp.channel_.fd_
        conns := s.acceptor_.conns.erase conn.tcp.channel_.fd_ } = a := by
    simpa [Acceptor.next] using hclose
  have ht : t = s.server.destroy c conn := by
    rcases TcpServer.next_cases hserver with ⟨_, _, _, hl, _⟩ | ⟨d, conn', hl, hconn', rfl⟩ |
      ⟨_, hnot, _⟩
    · cases hl
    · cases hl
      rw [hconn] at hconn'
      rw [Option.some.inj hconn']
    · exact absurd rfl (hnot c)
  have hserver' := reachable_server h.server hserver
  have hacceptor' := reachable_acceptor h.acceptor hclose
  subst ht ha
  exact { h with
    server := hserver'
    acceptor := hacceptor'
    conns := by
      show s.acceptor_.conns.erase _ = s.server.openFds.erase _
      rw [h.conns]
    ioLoop := by
      intro d id hid
      refine h.ioLoop d id ?_
      unfold TcpServer.State.ident TcpServer.State.destroy at hid
      by_cases hd : d = c
      · subst hd
        simp at hid
      · simpa [hd, TcpServer.State.ident] using hid }

theorem joined_step (s : State n) (l : Label n) (s' : State n) (h : Joined s)
    (hstep : next s l = some s') : Joined s' := by
  cases l with
  | start =>
    have hlast : s.started_ + 1 ≠ 0 := by
      intro hlast
      rw [next, if_pos hlast] at hstep
      cases hstep
    obtain ⟨t, ht, hjoined⟩ := h.start hlast
    rw [hstep] at ht
    exact Option.some.inj ht ▸ hjoined
  | pool l =>
    simp only [next, Option.ite_none_right_eq_some] at hstep
    obtain ⟨hl, hstep⟩ := hstep
    obtain ⟨p, hp, rfl⟩ := Option.map_eq_some_iff.mp hstep
    exact h.poolStep hl hp
  | listen =>
    simp only [next] at hstep
    split at hstep
    · rename_i i hmain
      simp only [Option.ite_none_left_eq_some] at hstep
      obtain ⟨a, ha, rfl⟩ := Option.map_eq_some_iff.mp hstep.2
      obtain ⟨_, rfl⟩ : s.acceptor_.pc = .ready ∧ { s.acceptor_ with listenning_ := true } = a := by
        simpa [Acceptor.next] using ha
      exact h.acceptorStep ha rfl rfl (fun _ => ⟨i, hmain⟩) rfl
    · cases hstep
  | handleRead wc =>
    simp only [next] at hstep
    split at hstep
    · rename_i a hread
      split at hstep
      · rename_i sockfd table haccept
        have hid := newConnection_connId (s := { s with acceptor_ := a }) hstep
        obtain ⟨t, ht, hjoined⟩ := h.newConnection hread haccept hid wc
        rw [hstep] at ht
        exact Option.some.inj ht ▸ hjoined
      · rename_i haccept
        obtain rfl := Option.some.inj hstep
        obtain ⟨_, rfl⟩ : _ ∧ { s.acceptor_ with pc := .emfile } = a := by
          simpa [Acceptor.next, Acceptor.State.handleRead, haccept] using hread
        exact h.acceptorStep hread rfl rfl h.listening rfl
      · rename_i haccept
        obtain rfl := Option.some.inj hstep
        obtain ⟨_, rfl⟩ : _ ∧ s.acceptor_ = a := by
          simpa [Acceptor.next, Acceptor.State.handleRead, haccept] using hread
        exact h
    · cases hstep
  | acceptor l =>
    simp only [next, Option.ite_none_right_eq_some] at hstep
    obtain ⟨hl, hstep⟩ := hstep
    obtain ⟨a, ha, rfl⟩ := Option.map_eq_some_iff.mp hstep
    obtain ⟨hconns, hhanded, hlisten, hcallback⟩ := acceptorStep_keeps hl ha
    exact h.acceptorStep ha hconns hhanded (fun hl => h.listening (hlisten ▸ hl)) hcallback
  | server l =>
    simp only [next, Option.ite_none_right_eq_some] at hstep
    obtain ⟨hl, hstep⟩ := hstep
    obtain ⟨t, ht, rfl⟩ := Option.map_eq_some_iff.mp hstep
    exact h.serverStep hl ht
  | destroy c =>
    simp only [next] at hstep
    split at hstep
    · rename_i conn hconn
      split at hstep
      · rename_i t a ht ha
        obtain rfl := Option.some.inj hstep
        exact h.destroy hconn ht ha
      · cases hstep
    · cases hstep

theorem joined_reachable (h : (machine n).Reachable s) : Joined s :=
  h.invariant (machine n) (fun _ => joined_init) joined_step

/-! ## Results -/

def twoThreadServer (a : Acceptor.State) : State 2 :=
  { acceptor_ := a, threadPool_ := PoolStart.ctor [] 2 true }

/-- Two threads call `start`; then three clients come. -/
def threeClients : List (Label 2) :=
  .start :: (PoolStart.twoThreads.drop 1).map .pool ++
    [.start, .listen, .acceptor .connect, .acceptor .connect, .acceptor .connect,
     .handleRead false, .handleRead false, .handleRead false]

theorem exists_threeClients (P : State 2 → Bool)
    (h : ((Acceptor.ctor ⟨8, {0, 1, 2}, by decide⟩ true).bind fun a =>
      ((machine 2).run (twoThreadServer a) threeClients).map P) = some true) :
    ∃ s₀ s, (machine 2).init s₀ ∧ (machine 2).run s₀ threeClients = some s ∧ P s = true := by
  obtain ⟨a, ha, hrest⟩ := Option.bind_eq_some_iff.mp h
  obtain ⟨s, hrun, hs⟩ := Option.map_eq_some_iff.mp hrest
  exact ⟨_, s, ⟨_, a, [], 2, true, rfl, ha, rfl⟩, hrun, hs⟩

/-- How many of the first `k` connections a thread gets. -/
theorem count_robin {i : Fin (n + 1)} (hi : i ≠ 0) (k : Nat) :
    ((List.range k).map (robin n)).count i =
      k / n + if (i.val - 1) % n < k % n then 1 else 0 := by
  have hpos : i.val ≠ 0 := fun h => hi (Fin.ext h)
  have hn : 0 < n := by omega
  rw [← Nat.count_modEq_card k hn (i.val - 1), List.count, List.countP_map, Nat.count]
  congr 1
  funext c
  have hlt : i.val - 1 < n := by omega
  -- the thread of c is i exactly if c is i - 1 modulo n
  have hiff : robin n c = i ↔ c ≡ i.val - 1 [MOD n] := by
    unfold robin Nat.ModEq
    rw [dif_neg (by omega), Nat.mod_eq_of_lt hlt, Fin.ext_iff]
    show c % n + 1 = i.val ↔ _
    omega
  rw [Function.comp_apply, Bool.eq_iff_iff, beq_iff_eq, decide_eq_true_iff]
  exact hiff

/-- The connections that have a descriptor. -/
def State.holders (s : State n) (fd : Nat) : Finset ConnPtr :=
  (Finset.range s.server.created).filter fun c => (s.server.ident c).map (·.fd_) = some fd

/-- There is one such connection, or the descriptor is not open. -/
theorem card_holders (h : (TcpServer.machine n).Reachable s.server) (fd : Nat) :
    (s.holders fd).card = (decide (fd ∈ s.server.openFds)).toNat := by
  have hone := TcpServer.oneFdEach_reachable h
  have hmem : ∀ c, c ∈ s.holders fd ↔ ∃ id, s.server.ident c = some id ∧ id.fd_ = fd := by
    intro c
    simp only [State.holders, Finset.mem_filter, Finset.mem_range, Option.map_eq_some_iff]
    refine ⟨fun hc => hc.2, fun hc => ⟨?_, hc⟩⟩
    obtain ⟨id, hid, _⟩ := hc
    by_contra hge
    rw [hone.fresh c (by omega)] at hid
    cases hid
  by_cases hopen : fd ∈ s.server.openFds
  · obtain ⟨c, id, hid, hfd⟩ := hone.back fd hopen
    have hsingle : s.holders fd = {c} := by
      ext d
      rw [hmem, Finset.mem_singleton]
      refine ⟨?_, ?_⟩
      · rintro ⟨id', hid', hfd'⟩
        exact hone.inj d c id' id hid' hid (hfd'.trans hfd.symm)
      · rintro rfl
        exact ⟨id, hid, hfd⟩
    rw [hsingle, decide_eq_true hopen]
    rfl
  · have hempty : s.holders fd = ∅ := by
      refine Finset.eq_empty_of_forall_notMem ?_
      intro c hc
      obtain ⟨id, hid, rfl⟩ := (hmem c).mp hc
      exact hopen (hone.live c id hid)
    rw [hempty, decide_eq_false hopen]
    rfl

/-- The connections of a server in the order in which they were accepted go to the loops of
    its threads in turn, one after the other and from the first again, whatever connections
    have ended since and however the threads interleave.  So no thread has been given more
    than one connection more than another, the base loop gets none unless it is alone, and a
    connection stays in the loop it was given to. -/
theorem connections_spread (h : (machine n).Reachable s) :
    s.assigned = (List.range s.server.created).map (robin n) ∧
    (∀ c conn, s.server.conns c = some conn → s.assigned[c]? = some conn.ioLoop) ∧
    (∀ i j : Fin (n + 1), i ≠ 0 → j ≠ 0 → s.assigned.count i ≤ s.assigned.count j + 1) ∧
    (0 < n → (0 : Fin (n + 1)) ∉ s.assigned) := by
  have hj := joined_reachable h
  refine ⟨hj.assigned, ?_, ?_, ?_⟩
  · intro c conn hconn
    have hident : s.server.ident c = some conn.ident := by
      rw [TcpServer.State.ident, hconn, Option.map_some]
    have hlt : c < s.server.created := by
      refine Nat.lt_of_not_le fun hge => ?_
      rw [(TcpServer.oneFdEach_reachable hj.server).fresh c hge] at hident
      cases hident
    rw [hj.assigned, List.getElem?_map, List.getElem?_range hlt, Option.map_some,
      ← hj.ioLoop c _ hident]
    rfl
  · intro i j hi hj'
    rw [hj.assigned, count_robin hi, count_robin hj']
    split <;> split <;> omega
  · intro hn hzero
    rw [hj.assigned] at hzero
    obtain ⟨c, _, hc⟩ := List.mem_map.mp hzero
    unfold robin at hc
    rw [dif_neg (by omega), Fin.ext_iff] at hc
    exact absurd hc (Nat.succ_ne_zero _)

theorem connections_spread_three :
    ∃ s₀ s, (machine 2).init s₀ ∧ (machine 2).run s₀ threeClients = some s ∧
      s.server.created = 3 ∧ s.assigned = [1, 2, 1] := by
  obtain ⟨s₀, s, hinit, hrun, hs⟩ := exists_threeClients (fun s => s.server.created = 3)
    (by decide +kernel)
  obtain ⟨hturn, _⟩ := connections_spread ⟨s₀, _, hinit, hrun⟩
  have hcreated : s.server.created = 3 := of_decide_eq_true hs
  rw [hcreated] at hturn
  exact ⟨s₀, s, hinit, hrun, hcreated, hturn⟩

/-- Nothing that the model leaves undefined can happen on the way of a connection into the
    server: where `accept` gives a connection, all loops are up, `loops_[next_]` is in range
    and the descriptor is none of another connection, so that `newConnection` goes through as
    long as `nextConnId_` does not overflow.  And every call of `start` but the first returns
    at once. -/
theorem handover_defined (h : (machine n).Reachable s)
    (hid : s.server.nextConnId_ < TcpServer.INT_MAX) :
    (∀ wc, s.acceptor_.pc = .ready → s.acceptor_.listenning_ = true →
      (∃ s', next s (.handleRead wc) = some s') ∧
        s.threadPool_.pool.loops_ = (List.range n).map some) ∧
    (s.started_ + 1 ≠ 0 → ∃ s', next s .start = some s' ∧
      (s.started_ ≠ 0 → s' = { s with started_ := s.started_ + 1 })) := by
  have hj := joined_reachable h
  refine ⟨?_, ?_⟩
  · intro wc hpc hlisten
    obtain ⟨i, hmain⟩ := hj.listening hlisten
    refine ⟨?_, ?_⟩
    · have hread : Acceptor.next s.acceptor_ .handleRead = some s.acceptor_.handleRead :=
        if_pos ⟨hpc, hlisten⟩
      simp only [next, hread]
      split
      · rename_i sockfd table haccept
        obtain ⟨s', hs', _⟩ := hj.newConnection hread haccept hid wc
        exact ⟨s', hs'⟩
      · exact ⟨_, rfl⟩
      · exact ⟨_, rfl⟩
    · rw [hj.pool.loops, hmain, ← hj.threads, ← (hj.pool.done i hmain).1]
      rfl
  · intro hlast
    obtain ⟨s', hs', _⟩ := hj.start hlast
    refine ⟨s', hs', ?_⟩
    intro hagain
    rw [next, if_neg hlast, if_neg hagain] at hs'
    exact (Option.some.inj hs').symm

theorem handover_defined_three :
    ∃ s₀ s, (machine 2).init s₀ ∧ (machine 2).run s₀ threeClients = some s ∧
      ∃ s', next s (.handleRead true) = some s' := by
  obtain ⟨s₀, s, hinit, hrun, hs⟩ := exists_threeClients (fun s => s.server.nextConnId_ = 4 ∧
    s.acceptor_.pc = .ready ∧ s.acceptor_.listenning_ = true) (by decide +kernel)
  obtain ⟨hid, hpc, hlisten⟩ := of_decide_eq_true hs
  have hdefined := handover_defined ⟨s₀, _, hinit, hrun⟩ (by rw [hid]; decide)
  exact ⟨s₀, s, hinit, hrun, (hdefined.1 true hpc hlisten).1⟩

/-- Every client that has connected is waiting, has been turned away, has given up or has got
    one `TcpConnection`; and every open descriptor of the process belongs to the listening
    socket, to the reserve, to one connection or to the rest of the process, and to only one
    of these. -/
theorem clients_and_descriptors (h : (machine n).Reachable s) :
    s.acceptor_.arrived =
      s.acceptor_.backlog + s.server.created + s.acceptor_.dropped + s.acceptor_.aborted ∧
    ∀ fd, (decide (fd = s.acceptor_.acceptSocket_)).toNat +
        (decide (s.acceptor_.idle = some fd)).toNat + (s.holders fd).card +
        (decide (fd ∈ s.acceptor_.others)).toNat =
      if fd ∈ s.acceptor_.table.used then 1 else 0 := by
  have hj := joined_reachable h
  refine ⟨?_, ?_⟩
  · rw [← hj.handed]
    exact Acceptor.accounted_reachable hj.acceptor
  · intro fd
    have howned := Acceptor.owned_reachable hj.acceptor fd
    unfold Acceptor.State.owners at howned
    rw [hj.conns] at howned
    rw [card_holders hj.server fd, howned]
    by_cases hfd : fd ∈ s.acceptor_.table.used <;> simp [hfd]

theorem clients_and_descriptors_three :
    ∃ s₀ s, (machine 2).init s₀ ∧ (machine 2).run s₀ threeClients = some s ∧
      s.acceptor_.table.used = {0, 1, 2, 3, 4, 5, 6, 7} ∧ (s.holders 6).card = 1 := by
  obtain ⟨s₀, s, hinit, hrun, hs⟩ := exists_threeClients (fun s =>
    s.acceptor_.table.used = {0, 1, 2, 3, 4, 5, 6, 7} ∧ s.acceptor_.acceptSocket_ = 3 ∧
      s.acceptor_.idle = some 4 ∧ s.acceptor_.others = {0, 1, 2}) (by decide +kernel)
  obtain ⟨hused, hsock, hidle, hothers⟩ := of_decide_eq_true hs
  have howner := (clients_and_descriptors ⟨s₀, _, hinit, hrun⟩).2 6
  rw [hsock, hidle, hothers, hused] at howner
  exact ⟨s₀, s, hinit, hrun, hused, by simpa using howner⟩

end

end ServerSystem
