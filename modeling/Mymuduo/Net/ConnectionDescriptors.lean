import Mymuduo.Net.ConnectionRuns

/-! # Connections and their descriptors

    A connection keeps the descriptor, the loop and the number it was created with, and
    `~TcpConnection` closes the descriptor.  So the open descriptors of a server are those of
    the connections that have not been destroyed, each of them with one connection.

    `next_cases` is what the other steps have in common: apart from `newConnection` and the
    end of a connection, no step makes or unmakes a connection or changes what it was
    created with.
-/

namespace TcpServer

variable {n : Nat}

/-! ## What a connection is created with -/

/-- What never changes in a connection. -/
structure Ident (n : Nat) where
  fd_ : Nat
  ioLoop : Fin (n + 1)
  connId : Nat
  deriving DecidableEq

/-- What `newConnection` gave the connection. -/
def Conn.ident (conn : Conn n) : Ident n := ⟨conn.tcp.channel_.fd_, conn.ioLoop, conn.connId⟩

/-- The same for a connection that has not been destroyed. -/
def State.ident (s : State n) (c : ConnPtr) : Option (Ident n) := (s.conns c).map Conn.ident

/-- The table without the entries under these numbers. -/
def eraseAll (table : Nat → Option ConnPtr) (ms : List Nat) : Nat → Option ConnPtr :=
  ms.foldl (fun table m => Function.update table m none) table

/-- The same connections, created with the same things.  Some of them may have lost their
    entries in `connections_`; nothing else happens to the table. -/
structure Keeps (s s' : State n) : Prop where
  created : s'.created = s.created
  nextConnId_ : s'.nextConnId_ = s.nextConnId_
  openFds : s'.openFds = s.openFds
  ident : ∀ c, s'.ident c = s.ident c
  connections_ : ∃ ms, (∀ m ∈ ms, ∃ c id, s.ident c = some id ∧ id.connId = m) ∧
    s'.connections_ = eraseAll s.connections_ ms

section

variable {s s' s'' : State n} {c : ConnPtr} {conn conn' : Conn n}

/-- The table is as it was. -/
theorem keeps_of_table (hcreated : s'.created = s.created)
    (hnext : s'.nextConnId_ = s.nextConnId_) (hfds : s'.openFds = s.openFds)
    (hident : ∀ c, s'.ident c = s.ident c) (htable : s'.connections_ = s.connections_) :
    Keeps s s' :=
  ⟨hcreated, hnext, hfds, hident, [], by simp, htable⟩

theorem Keeps.refl (s : State n) : Keeps s s := keeps_of_table rfl rfl rfl (fun _ => rfl) rfl

/-- The entries erased by both parts; a connection of the second part is one of the first. -/
theorem Keeps.trans (h : Keeps s s') (k : Keeps s' s'') : Keeps s s'' := by
  obtain ⟨ms, hms, htable⟩ := h.connections_
  obtain ⟨ks, hks, htable'⟩ := k.connections_
  refine ⟨k.created.trans h.created, k.nextConnId_.trans h.nextConnId_,
    k.openFds.trans h.openFds, fun c => (k.ident c).trans (h.ident c), ms ++ ks, ?_, ?_⟩
  · intro m hm
    rcases List.mem_append.mp hm with hm | hm
    · exact hms m hm
    · obtain ⟨c, id, hid, hm⟩ := hks m hm
      exact ⟨c, id, (h.ident c).symm.trans hid, hm⟩
  · rw [htable', htable, eraseAll, eraseAll, eraseAll, List.foldl_append]

/-- A step that finds the connection gone. -/
theorem keeps_dangling (s : State n) : Keeps s { s with dangling := true } :=
  keeps_of_table rfl rfl rfl (fun _ => rfl) rfl

theorem keeps_setLoop (s : State n) (i : Fin (n + 1)) (t : LoopThread) : Keeps s (s.setLoop i t) :=
  keeps_of_table rfl rfl rfl (fun _ => rfl) rfl

theorem keeps_queueInLoop (s : State n) (i : Fin (n + 1)) (b : Bool) (f : Functor) :
    Keeps s (s.queueInLoop i b f) :=
  keeps_setLoop s i _

/-- A store into a connection that leaves alone what it was created with. -/
theorem keeps_setConn (hconn : s.conns c = some conn) (hident : conn'.ident = conn.ident) :
    Keeps s (s.setConn c conn') := by
  refine keeps_of_table rfl rfl rfl ?_ rfl
  intro d
  unfold State.ident
  by_cases hd : d = c
  · subst hd
    rw [setConn_self, hconn, Option.map_some, Option.map_some, hident]
  · rw [setConn_of_ne hd]

theorem keeps_setRegistration (hconn : s.conns c = some conn)
    (r : EPollPoller ConnPtr × Channel) : Keeps s (s.setRegistration c conn r) :=
  (keeps_setLoop s _ _).trans (keeps_setConn (s := s.setLoop _ _) hconn rfl)

/-- The effects of a member function go to the poller and to the queues of the loops. -/
theorem keeps_applyEffect (s : State n) (c : ConnPtr) (e : Effect) :
    Keeps s (State.applyEffect c s e) := by
  unfold State.applyEffect
  split
  · exact keeps_dangling s
  · rename_i conn hconn
    -- by the kind of effect: only the two for the poller store into the connection
    cases e with
    | updateChannel events => exact keeps_setRegistration hconn _
    | removeChannel => exact keeps_setRegistration hconn _
    | queueWriteComplete => exact keeps_queueInLoop s _ _ _
    | queueHighWaterMark size => exact keeps_queueInLoop s _ _ _
    | closeCallback =>
      -- the callback itself is a later step of `handleEvent`
      simp only
      split
      · exact keeps_setLoop s _ _
      · exact Keeps.refl s
    | write data r => exact Keeps.refl s
    | shutdownWrite => exact Keeps.refl s
    | connectionCallback state => exact Keeps.refl s
    | messageCallback => exact Keeps.refl s

/-- All effects of a call, one after the other. -/
theorem keeps_foldl (c : ConnPtr) (es : List Effect) (s : State n) :
    Keeps s (es.foldl (State.applyEffect c) s) := by
  induction es generalizing s with
  | nil => exact Keeps.refl s
  | cons e es ih => exact (keeps_applyEffect s c e).trans (ih _)

/-- A member function that leaves the descriptor alone. -/
theorem keeps_call (s : State n) (c : ConnPtr) {f : TcpConnection → TcpConnection × List Effect}
    (hf : ∀ t, (f t).1.channel_.fd_ = t.channel_.fd_) : Keeps s (s.call c f) := by
  unfold State.call
  split
  · exact keeps_dangling s
  · rename_i conn hconn
    refine (keeps_setConn hconn ?_).trans (keeps_foldl c _ _)
    simp only [Conn.ident, hf]

/-- `up` is not part of what a connection was created with. -/
theorem keeps_setUp (s : State n) (c : ConnPtr) (up : Bool) : Keeps s (s.setUp c up) := by
  unfold State.setUp
  split
  · exact Keeps.refl s
  · rename_i conn hconn
    exact keeps_setConn hconn rfl

end

/-! ## Member functions -/

section

variable (t : TcpConnection)

theorem handleClose_fd_ : t.handleClose.1.channel_.fd_ = t.channel_.fd_ := rfl

theorem handleRead_fd_ (r : ReadvResult) : (t.handleRead r).1.channel_.fd_ = t.channel_.fd_ := by
  -- data, the end of the stream, or an error
  obtain ⟨buf, h | h | h⟩ := TcpConnection.handleRead_cases t r
  · rw [h]
  · rw [h]
    exact handleClose_fd_ _
  · rw [h]

theorem handleWrite_fd_ (w : WriteResult) : (t.handleWrite w).1.channel_.fd_ = t.channel_.fd_ :=
  (TcpConnection.handleWrite_mild t w).2.1.1

theorem sendInLoop_fd_ (data : List Byte) (w : WriteResult) :
    (t.sendInLoop data w).1.channel_.fd_ = t.channel_.fd_ :=
  (TcpConnection.sendInLoop_mild t data w).2.1.1

theorem shutdownInLoop_fd_ : t.shutdownInLoop.1.channel_.fd_ = t.channel_.fd_ := by
  rw [(TcpConnection.shutdownInLoop_mild t).1]

theorem connectionDestoryed_fd_ : t.connectionDestoryed.1.channel_.fd_ = t.channel_.fd_ := by
  unfold TcpConnection.connectionDestoryed
  split <;> rfl

end

/-! ## Steps -/

section

variable {s s' : State n} {c : ConnPtr}

theorem keeps_connectionEstablished (s : State n) (c : ConnPtr) :
    Keeps s (s.connectionEstablished c) :=
  (keeps_setUp s c true).trans (keeps_call _ c fun _ => rfl)

/-- `connectionDestoryed` closes nothing: the descriptor lives as long as the object. -/
theorem keeps_connectionDestoryed (s : State n) (c : ConnPtr) :
    Keeps s (s.connectionDestoryed c) :=
  (keeps_call s c connectionDestoryed_fd_).trans (keeps_setUp _ c false)

/-- The one step that takes an entry out of the table. -/
theorem keeps_removeConnectionInLoop (s : State n) (c : ConnPtr) :
    Keeps s (s.removeConnectionInLoop c) := by
  unfold State.removeConnectionInLoop
  split
  · exact keeps_dangling s
  · rename_i conn hconn
    refine ⟨rfl, rfl, rfl, fun _ => rfl, [conn.connId], ?_, rfl⟩
    intro m hm
    obtain rfl := List.mem_singleton.mp hm
    exact ⟨c, conn.ident, by rw [State.ident, hconn, Option.map_some], rfl⟩

/-- In the base loop the entry goes at once, from another loop the removal is queued. -/
theorem keeps_removeConnection (s : State n) (i : Fin (n + 1)) (c : ConnPtr) :
    Keeps s (s.removeConnection i c) := by
  unfold State.removeConnection
  split
  · exact keeps_removeConnectionInLoop s c
  · exact keeps_queueInLoop s _ _ _

/-- One callback of `handleEvent`. -/
theorem keeps_callback (s : State n) (i : Fin (n + 1)) (c : ConnPtr) (w : WriteResult)
    (r : ReadvResult) (stage : Stage) : Keeps s (s.callback i c w r stage) := by
  cases stage with
  | close => exact keeps_call s c handleClose_fd_
  | error => exact Keeps.refl s
  | read => exact keeps_call s c fun t => handleRead_fd_ t r
  | write => exact keeps_call s c fun t => handleWrite_fd_ t w
  | closeCallback => exact keeps_removeConnection s i c

/-- One functor of `doPendingFunctors`. -/
theorem keeps_runFunctor (s : State n) (w : WriteResult) (f : Functor) :
    Keeps s (s.runFunctor w f) := by
  cases f with
  | connectionEstablished c => exact keeps_connectionEstablished s c
  | removeConnectionInLoop c => exact keeps_removeConnectionInLoop s c
  | connectionDestoryed c => exact keeps_connectionDestoryed s c
  | writeComplete c => exact Keeps.refl s
  | highWaterMark c => exact Keeps.refl s
  | sendInLoop c data => exact keeps_call s c fun t => sendInLoop_fd_ t data w
  | shutdownInLoop c => exact keeps_call s c shutdownInLoop_fd_

theorem keeps_setRevents (s : State n) (ev : ConnPtr × EventMask) : Keeps s (s.setRevents ev) := by
  unfold State.setRevents
  split
  · exact keeps_dangling s
  · rename_i conn hconn
    exact keeps_setConn hconn rfl

/-- What `epoll_wait` reports goes into the channels, one event after the other. -/
theorem keeps_foldl_setRevents (polled : List (ConnPtr × EventMask)) (s : State n) :
    Keeps s (polled.foldl State.setRevents s) := by
  induction polled generalizing s with
  | nil => exact Keeps.refl s
  | cons ev polled ih => exact (keeps_setRevents s ev).trans (ih _)

/-- A new connection; `connectionEstablished` runs at once or is queued. -/
theorem keeps_newConnection (s : State n) (ioLoop : Fin (n + 1)) (sockfd : Nat) (wc : Bool) :
    Keeps (s.addConnection ioLoop sockfd wc) (s.newConnection ioLoop sockfd wc) := by
  unfold State.newConnection
  split
  · exact keeps_connectionEstablished _ _
  · exact keeps_queueInLoop _ _ _ _

/-- Every step but the two that make and unmake connections. -/
theorem keeps_next {l : Label n} (h : next s l = some s')
    (hnew : ∀ ioLoop sockfd wc, l ≠ .newConnection ioLoop sockfd wc) (hend : ∀ c, l ≠ .destroy c) :
    Keeps s s' := by
  cases l with
  | newConnection ioLoop sockfd wc => exact absurd rfl (hnew ioLoop sockfd wc)
  | destroy c => exact absurd rfl (hend c)
  | poll i events =>
    simp only [next] at h
    split at h
    -- set_revents for each event, then the list of active channels
    · obtain ⟨polled, _, rfl⟩ := Option.map_eq_some_iff.mp h
      exact (keeps_foldl_setRevents polled s).trans (keeps_setLoop _ _ _)
    · cases h
  | handleEvent i =>
    simp only [next] at h
    split at h
    · split at h
      · obtain rfl := Option.some.inj h
        exact keeps_setLoop s _ _
      · obtain rfl := Option.some.inj h
        exact keeps_dangling s
    · cases h
  | callback i w r =>
    simp only [next] at h
    split at h
    -- the callback is taken off the list before it is called
    · obtain rfl := Option.some.inj h
      exact (keeps_setLoop s _ _).trans (keeps_callback _ _ _ _ _ _)
    · cases h
  | endEvent i =>
    simp only [next] at h
    split at h
    · obtain rfl := Option.some.inj h
      exact keeps_setLoop s _ _
    · cases h
  | beginFunctors i =>
    simp only [next] at h
    split at h
    · obtain rfl := Option.some.inj h
      exact keeps_setLoop s _ _
    · cases h
  | runFunctor i w =>
    simp only [next] at h
    split at h
    -- the functor is out of the queue before it runs
    · obtain rfl := Option.some.inj h
      exact (keeps_setLoop s _ _).trans (keeps_runFunctor _ _ _)
    · cases h
  | endFunctors i =>
    simp only [next] at h
    split at h
    · obtain rfl := Option.some.inj h
      exact keeps_setLoop s _ _
    · cases h
  | send c inLoop data w =>
    simp only [next] at h
    split at h
    · split at h
      · split at h
        · obtain rfl := Option.some.inj h
          exact keeps_call s c fun t => sendInLoop_fd_ t data w
        · obtain rfl := Option.some.inj h
          exact keeps_queueInLoop s _ _ _
      · cases h
    · cases h
  | shutdown c inLoop =>
    simp only [next] at h
    split at h
    · rename_i conn hconn
      split at h
      · -- the store of state_ comes first
        have hstore : Keeps s (s.setConn c { conn with tcp := conn.tcp.shutdown.1 }) := by
          refine keeps_setConn hconn ?_
          unfold Conn.ident TcpConnection.shutdown
          split <;> rfl
        -- in the loop's own thread the rest runs at once, else it is queued
        split at h
        · obtain rfl := Option.some.inj h
          exact hstore.trans (keeps_call _ c shutdownInLoop_fd_)
        · obtain rfl := Option.some.inj h
          exact hstore.trans (keeps_queueInLoop _ _ _ _)
      · cases h
    · cases h
  | setHighWaterMarkCallback c highWaterMark =>
    obtain ⟨conn, hconn, rfl⟩ := Option.map_eq_some_iff.mp h
    exact keeps_setConn hconn rfl
  | userCopy c =>
    simp only [next] at h
    split at h
    · obtain rfl := Option.some.inj h
      exact keeps_of_table rfl rfl rfl (fun _ => rfl) rfl
    · cases h
  | userDrop c =>
    obtain rfl := Option.some.inj h
    exact keeps_of_table rfl rfl rfl (fun _ => rfl) rfl

/-- What a step does to the set of connections. -/
theorem next_cases {l : Label n} (h : next s l = some s') :
    (∃ ioLoop sockfd wc, l = .newConnection ioLoop sockfd wc ∧ s.nextConnId_ < INT_MAX ∧
      sockfd ∉ s.openFds ∧ Keeps (s.addConnection ioLoop sockfd wc) s') ∨
    (∃ c conn, l = .destroy c ∧ s.conns c = some conn ∧ s' = s.destroy c conn) ∨
    ((∀ ioLoop sockfd wc, l ≠ .newConnection ioLoop sockfd wc) ∧ (∀ c, l ≠ .destroy c) ∧
      Keeps s s') := by
  cases l with
  | newConnection ioLoop sockfd wc =>
    simp only [next, Option.ite_none_right_eq_some, Option.some.injEq] at h
    obtain ⟨⟨hsmall, hfree⟩, rfl⟩ := h
    exact Or.inl ⟨ioLoop, sockfd, wc, rfl, hsmall, hfree, keeps_newConnection s ioLoop sockfd wc⟩
  | destroy c =>
    simp only [next] at h
    split at h
    · rename_i conn hconn
      simp only [Option.ite_none_right_eq_some, Option.some.injEq] at h
      exact Or.inr (Or.inl ⟨c, conn, rfl, hconn, h.2.symm⟩)
    · cases h
  | poll | handleEvent | callback | endEvent | beginFunctors | runFunctor | endFunctors | send
  | shutdown | setHighWaterMarkCallback | userCopy | userDrop =>
    exact Or.inr (Or.inr ⟨by simp, by simp, keeps_next h (by simp) (by simp)⟩)

end

/-! ## Descriptors -/

/-- The open descriptors are those of the connections, one for each. -/
structure OneFdEach (s : State n) : Prop where
  /-- The pointers still to be given out point to no connection. -/
  fresh : ∀ c, s.created ≤ c → s.ident c = none
  /-- No descriptor is closed under its connection. -/
  live : ∀ c id, s.ident c = some id → id.fd_ ∈ s.openFds
  /-- No descriptor is leaked. -/
  back : ∀ fd ∈ s.openFds, ∃ c id, s.ident c = some id ∧ id.fd_ = fd
  inj : ∀ c d id id', s.ident c = some id → s.ident d = some id' → id.fd_ = id'.fd_ → c = d

section

variable {s s' : State n}

/-- All four parts speak of nothing that such a step changes. -/
theorem OneFdEach.keeps (h : OneFdEach s) (hk : Keeps s s') : OneFdEach s' := by
  refine ⟨?_, ?_, ?_, ?_⟩
  · intro c hc
    rw [hk.ident, h.fresh c (hk.created ▸ hc)]
  · intro c id hid
    rw [hk.ident] at hid
    rw [hk.openFds]
    exact h.live c id hid
  · intro fd hfd
    rw [hk.openFds] at hfd
    obtain ⟨c, id, hid, hfd'⟩ := h.back fd hfd
    exact ⟨c, id, (hk.ident c).trans hid, hfd'⟩
  · intro c d id id' hid hid'
    rw [hk.ident] at hid hid'
    exact h.inj c d id id' hid hid'

/-- A new connection has what `newConnection` was given, the others keep theirs. -/
theorem addConnection_ident (s : State n) (ioLoop : Fin (n + 1)) (sockfd : Nat) (wc : Bool)
    (c : ConnPtr) : (s.addConnection ioLoop sockfd wc).ident c =
      if c = s.created then some ⟨sockfd, ioLoop, s.nextConnId_⟩ else s.ident c := by
  unfold State.ident State.addConnection
  by_cases hc : c = s.created
  · subst hc
    rw [if_pos rfl]
    simp [Conn.ident]
  · rw [if_neg hc]
    simp [hc]

/-- The kernel gives a descriptor that is not open, so no two connections share one. -/
theorem OneFdEach.addConnection (h : OneFdEach s) {sockfd : Nat} (hfree : sockfd ∉ s.openFds)
    (ioLoop : Fin (n + 1)) (wc : Bool) : OneFdEach (s.addConnection ioLoop sockfd wc) := by
  have hident := addConnection_ident s ioLoop sockfd wc
  -- an old connection has an open descriptor, so not the new one
  have hother : ∀ c id, s.ident c = some id → id.fd_ ≠ sockfd := by
    intro c id hid heq
    exact hfree (heq ▸ h.live c id hid)
  refine ⟨?_, ?_, ?_, ?_⟩
  -- in each part the new connection and the old ones are two cases
  · intro c hc
    have hlt : s.created < c := hc
    rw [hident, if_neg (Nat.ne_of_gt hlt), h.fresh c (Nat.le_of_lt hlt)]
  · intro c id hid
    show id.fd_ ∈ insert sockfd s.openFds
    rw [hident] at hid
    split at hid
    · obtain rfl := Option.some.inj hid
      exact Finset.mem_insert_self _ _
    · exact Finset.mem_insert_of_mem (h.live c id hid)
  · intro fd hfd
    rcases Finset.mem_insert.mp hfd with rfl | hfd
    · exact ⟨s.created, _, by rw [hident, if_pos rfl], rfl⟩
    · obtain ⟨c, id, hid, hfd'⟩ := h.back fd hfd
      refine ⟨c, id, ?_, hfd'⟩
      rw [hident, if_neg ?_, hid]
      intro heq
      rw [h.fresh c (Nat.le_of_eq heq.symm)] at hid
      cases hid
  · intro c d id id' hid hid' hfd
    rw [hident] at hid hid'
    split at hid <;> split at hid'
    · rename_i hc hd
      rw [hc, hd]
    · obtain rfl := Option.some.inj hid
      exact absurd hfd.symm (hother d id' hid')
    · obtain rfl := Option.some.inj hid'
      exact absurd hfd (hother c id hid)
    · exact h.inj c d id id' hid hid' hfd

/-- `~TcpConnection` takes one connection away. -/
theorem destroy_ident (s : State n) (c : ConnPtr) (conn : Conn n) (d : ConnPtr) :
    (s.destroy c conn).ident d = if d = c then none else s.ident d := by
  unfold State.ident State.destroy
  by_cases hd : d = c
  · subst hd
    simp
  · simp [hd]

/-- The descriptor that is closed is that of the connection, and of no other. -/
theorem OneFdEach.destroy (h : OneFdEach s) {c : ConnPtr} {conn : Conn n}
    (hconn : s.conns c = some conn) : OneFdEach (s.destroy c conn) := by
  have hident := destroy_ident s c conn
  have hself : s.ident c = some conn.ident := by rw [State.ident, hconn, Option.map_some]
  refine ⟨?_, ?_, ?_, ?_⟩
  · intro d hd
    rw [hident]
    split
    · rfl
    · exact h.fresh d hd
  · intro d id hid
    rw [hident] at hid
    split at hid
    · cases hid
    · rename_i hd
      -- no other connection has the descriptor that is closed
      refine Finset.mem_erase.mpr ⟨?_, h.live d id hid⟩
      intro heq
      exact hd (h.inj d c id conn.ident hid hself heq)
  · intro fd hfd
    obtain ⟨hne, hfd⟩ := Finset.mem_erase.mp hfd
    obtain ⟨d, id, hid, rfl⟩ := h.back fd hfd
    refine ⟨d, id, ?_, rfl⟩
    rw [hident, if_neg ?_, hid]
    -- it would be the one that has been closed
    intro heq
    rw [heq, hself] at hid
    exact hne (congrArg Ident.fd_ (Option.some.inj hid)).symm
  · intro d e id id' hid hid'
    rw [hident] at hid hid'
    split at hid
    · cases hid
    · split at hid'
      · cases hid'
      · exact h.inj d e id id' hid hid'

/-- A step adds one connection, takes one away, or keeps them all. -/
theorem oneFdEach_step (s : State n) (l : Label n) (s' : State n) (h : OneFdEach s)
    (hstep : next s l = some s') : OneFdEach s' := by
  rcases next_cases hstep with ⟨ioLoop, sockfd, wc, _, _, hfree, hk⟩ | ⟨c, conn, _, hconn, rfl⟩ |
    ⟨_, _, hk⟩
  · exact (h.addConnection hfree ioLoop wc).keeps hk
  · exact h.destroy hconn
  · exact h.keeps hk

theorem oneFdEach_reachable (h : (machine n).Reachable s) : OneFdEach s := by
  refine h.invariant (machine n) ?_ oneFdEach_step
  rintro s rfl
  exact ⟨fun _ _ => rfl, by simp [State.ident], by simp, by simp [State.ident]⟩

/-- The first of two peers closes its connection. -/
def firstCloses : List (Label 0) :=
  [.newConnection 0 5 false, .newConnection 0 7 false, .poll 0 [(5, EPOLLIN)], .handleEvent 0,
   .callback 0 (.wrote 0) (.read []), .callback 0 (.wrote 0) (.read []),
   .endEvent 0, .beginFunctors 0, .runFunctor 0 (.wrote 0), .endFunctors 0, .destroy 0]

/-- In every reachable state of the server a descriptor is open exactly if one connection that
    has not been destroyed has it: none is leaked, none is closed under a live connection, and
    no two connections share one. -/
theorem descriptors_exact (h : (machine n).Reachable s) (fd : Nat) :
    (fd ∈ s.openFds ↔ ∃ c conn, s.conns c = some conn ∧ conn.tcp.channel_.fd_ = fd) ∧
      ∀ c d conn conn', s.conns c = some conn → s.conns d = some conn' →
        conn.tcp.channel_.fd_ = fd → conn'.tcp.channel_.fd_ = fd → c = d := by
  have hinv := oneFdEach_reachable h
  have hident : ∀ {c conn}, s.conns c = some conn → s.ident c = some conn.ident := by
    intro c conn hconn
    rw [State.ident, hconn, Option.map_some]
  refine ⟨⟨?_, ?_⟩, ?_⟩
  · intro hfd
    obtain ⟨c, id, hid, rfl⟩ := hinv.back fd hfd
    obtain ⟨conn, hconn, rfl⟩ := Option.map_eq_some_iff.mp hid
    exact ⟨c, conn, hconn, rfl⟩
  · rintro ⟨c, conn, hconn, rfl⟩
    exact hinv.live c conn.ident (hident hconn)
  · intro c d conn conn' hc hd hfd hfd'
    exact hinv.inj c d _ _ (hident hc) (hident hd) (hfd.trans hfd'.symm)

theorem descriptors_exact_first_closes :
    ∃ s, (machine 0).run {} firstCloses = some s ∧ s.openFds = {7} ∧
      (¬ ∃ c conn, s.conns c = some conn ∧ conn.tcp.channel_.fd_ = 5) ∧
      ∃ c conn, s.conns c = some conn ∧ conn.tcp.channel_.fd_ = 7 := by
  have hfds : ((machine 0).run {} firstCloses).map (fun s => s.openFds) = some {7} := by
    decide +kernel
  obtain ⟨s, hrun, hs⟩ := Option.map_eq_some_iff.mp hfds
  have hreach : (machine 0).Reachable s := ⟨{}, _, rfl, hrun⟩
  refine ⟨s, hrun, hs, ?_, ?_⟩
  · rw [← (descriptors_exact hreach 5).1, hs]
    decide
  · rw [← (descriptors_exact hreach 7).1, hs]
    decide

end

end TcpServer
