import Mymuduo.Net.ConnectionCalls

/-! # Every run keeps registered channels alive

    The events of the loops, the calls of user code and the destruction of a
    connection keep the invariant of `ConnectionLifetime`; so does every step, and
    what follows holds in every reachable state.
-/

namespace TcpServer

variable {n : Nat}

/-! ## Events -/

section

variable {s : State n} {i : Fin (n + 1)} {c : ConnPtr} {conn : Conn n}

/-- `fillActiveChannels` writes the masks into channels that exist. -/
theorem Inv.setRevents (h : Inv s) (hconn : s.conns c = some conn) (mask : EventMask) :
    Inv (s.setRevents (c, mask)) := by
  unfold State.setRevents
  simp only [hconn]
  exact h.of_concerns (concerns_setConn hconn rfl) setConn_self
    ((h.present c conn hconn).store ⟨rfl, rfl, rfl, rfl, rfl⟩ rfl)

/-- Setting the masks keeps what the pollers know and where each connection lives. -/
theorem foldl_setRevents (h : Inv s) {polled : List (ConnPtr × EventMask)}
    (hpolled : ∀ ev ∈ polled, (s.conns ev.1).isSome = true) :
    Inv (polled.foldl State.setRevents s) ∧ (polled.foldl State.setRevents s).loops = s.loops := by
  induction polled generalizing s with
  | nil => exact ⟨h, rfl⟩
  | cons ev polled ih =>
    obtain ⟨conn, hconn⟩ := Option.isSome_iff_exists.mp (hpolled ev List.mem_cons_self)
    have hstep : s.setRevents ev = s.setConn ev.1 { conn with
        tcp := { conn.tcp with channel_ := { conn.tcp.channel_ with revents_ := ev.2 } } } := by
      unfold State.setRevents
      simp only [hconn]
    have hrest : ∀ ev' ∈ polled, ((s.setRevents ev).conns ev'.1).isSome = true := by
      intro ev' hev'
      rw [hstep]
      -- one channel can be in the list twice
      by_cases heq : ev'.1 = ev.1
      · rw [heq, setConn_self]
        rfl
      · rw [setConn_of_ne heq]
        exact hpolled ev' (List.mem_cons_of_mem ev hev')
    obtain ⟨hinv, hloops⟩ := ih (h.setRevents hconn ev.2) hrest
    refine ⟨hinv, ?_⟩
    rw [List.foldl_cons, hloops, hstep, setConn_loops]

theorem mapM_some_mem {α β : Type} {f : α → Option β} {xs : List α} {ys : List β}
    (h : xs.mapM f = some ys) {y : β} (hy : y ∈ ys) : ∃ x, f x = some y := by
  induction xs generalizing ys with
  | nil =>
    obtain rfl : [] = ys := by simpa using h
    cases hy
  | cons x xs ih =>
    rw [List.mapM_cons] at h
    obtain ⟨z, hz, h⟩ := Option.bind_eq_some_iff.mp h
    obtain ⟨zs, hzs, h⟩ := Option.bind_eq_some_iff.mp h
    obtain rfl := Option.some.inj h
    rcases List.mem_cons.mp hy with rfl | hy
    · exact ⟨x, hz⟩
    · exact ih hzs hy

/-- The list of active channels is filled from the interest set. -/
theorem Inv.poll (h : Inv s) {polled : List (ConnPtr × EventMask)}
    (hstopped : (s.loops i).running = false)
    (hpolled : ∀ ev ∈ polled, ∃ fd mask, (s.loops i).poller.interest fd = some (mask, ev.1)) :
    Inv ((polled.foldl State.setRevents s).setLoop i
      { s.loops i with activeChannels_ := polled.map Prod.fst }) := by
  -- what the kernel returns was registered, so it belongs to a live connection
  have hsome : ∀ ev ∈ polled, (s.conns ev.1).isSome = true := by
    intro ev hev
    obtain ⟨fd, mask, hint⟩ := hpolled ev hev
    cases hconn : s.conns ev.1 with
    | some conn => rfl
    | none => exact absurd hint ((h.absent ev.1 hconn).interest i fd mask)
  obtain ⟨h', hloops⟩ := foldl_setRevents h hsome
  generalize polled.foldl State.setRevents s = s' at h' hloops
  rw [← hloops] at hstopped hpolled ⊢
  refine ⟨h'.toFrame.step ⟨rfl, rfl, rfl, ?_⟩ fun d conn hd => ⟨conn, hd, rfl⟩, ?_, ?_⟩
  · intro hsound j
    by_cases hj : j = i
    · subst hj
      rw [setLoop_self]
      refine ⟨?_, (hsound j).2⟩
      intro hrun
      rw [show (s'.loops j).running = true from hrun] at hstopped
      cases hstopped
    · rw [setLoop_of_ne hj]
      exact hsound j
  · -- an active channel is in the interest set, so it is up and in this loop
    intro d conn hd
    have hp := h'.present d conn hd
    refine hp.setThread (Kin.refl conn) rfl rfl (Or.inr rfl) rfl ?_ (hp.current i) (hp.channels i)
      (hp.interest i)
    intro hactive
    obtain ⟨ev, hev, rfl⟩ := List.mem_map.mp hactive
    obtain ⟨fd, mask, hint⟩ := hpolled ev hev
    obtain ⟨hup, hio, _⟩ := hp.interest i fd mask hint
    exact ⟨hup, hio⟩
  · intro d hd
    refine (h'.absent d hd).setThread rfl ?_ (fun _ => (h'.absent d hd).current i _) rfl
    intro hactive
    obtain ⟨ev, hev, rfl⟩ := List.mem_map.mp hactive
    obtain ⟨fd, mask, hint⟩ := hpolled ev hev
    exact (h'.absent ev.1 hd).interest i fd mask hint

/-- `handleEvent` starts, or goes on to its next callback, for a channel that is
    up in loop `i`. -/
theorem Inv.setCurrent (h : Inv s) (hconn : s.conns c = some conn) (hup : conn.up = true)
    (hio : i = conn.ioLoop) {active : List ConnPtr} {stages : List Stage}
    (hactive : ∀ d, d ∈ active → d ∈ (s.loops i).activeChannels_)
    (hstopped : (s.loops i).running = false)
    (hclosed : .closeCallback ∈ stages → conn.tcp.state_ = .kDisconnected) :
    Inv (s.setLoop i
      { s.loops i with activeChannels_ := active, current := some (c, stages) }) := by
  have hconcerns : Concerns c s (s.setLoop i
      { s.loops i with activeChannels_ := active, current := some (c, stages) }) := by
    refine concerns_setLoop rfl ?_ (fun _ _ _ => id) (fun _ _ _ _ => id) (fun d _ => hactive d) ?_
    · intro hsound
      refine ⟨?_, hsound.2⟩
      intro hrun
      rw [show (s.loops i).running = true from hrun] at hstopped
      cases hstopped
    · intro d stages' hd heq
      simp only [Option.some.injEq, Prod.mk.injEq] at heq
      exact absurd heq.1.symm hd
  have hp := h.present c conn hconn
  refine h.of_concerns hconcerns hconn (hp.setThread (Kin.refl conn) rfl rfl (Or.inl hio) rfl
    (fun _ => ⟨hup, hio⟩) ?_ (hp.channels i) (hp.interest i))
  intro stages' heq
  simp only [Option.some.injEq, Prod.mk.injEq] at heq
  obtain ⟨_, rfl⟩ := heq
  exact ⟨hup, hio, hclosed⟩

theorem closeCallback_not_mem_stages (revents : EventMask) : .closeCallback ∉ stages revents := by
  unfold stages
  simp only [List.mem_append, not_or]
  refine ⟨⟨⟨?_, ?_⟩, ?_⟩, ?_⟩
  all_goals split <;> simp

/-- A callback of `handleEvent` for a channel that is up. -/
theorem Inv.callback (h : Inv s) (hconn : s.conns c = some conn) (hup : conn.up = true)
    (w : WriteResult) (r : ReadvResult) {stage : Stage}
    (hclosed : stage = .closeCallback → conn.tcp.state_ = .kDisconnected) :
    Inv (s.callback i c w r stage) := by
  cases stage with
  | close => exact h.handleClose hconn hup
  | error => exact h
  | read => exact h.handleRead hconn hup r
  | write => exact h.handleWrite hconn hup w
  -- handleClose has run, so the state is kDisconnected
  | closeCallback => exact h.removeConnection hconn hup (hclosed rfl) i

/-! ## User code -/

/-- A connection that can be sent to is up and in `connections_`, so the functor
    of a cross-thread `send` or `shutdown` is queued ahead of its end. -/
theorem Inv.queueRaw (h : Inv s) (hconn : s.conns c = some conn)
    (hopened : conn.tcp.state_ = .kConnected ∨ conn.tcp.state_ = .kDisconnecting) {f : Functor}
    (hf : f.conn = c) (hfits : f.Fits conn conn.ioLoop) :
    Inv (s.queueInLoop conn.ioLoop false f) := by
  have hp := h.present c conn hconn
  obtain ⟨hup, hlisted⟩ := hp.opened hopened
  exact h.of_concerns (concerns_queueInLoop s _ false hf) hconn
    (hp.queueInLoop hup hf hfits fun _ => hlisted)

/-- The store of `shutdown`. -/
theorem Inv.storeDisconnecting (h : Inv s) (hconn : s.conns c = some conn)
    (hstate : conn.tcp.state_ = .kConnected) :
    Inv (s.setConn c { conn with tcp := conn.tcp.shutdown.1 }) := by
  have hp := h.present c conn hconn
  have hshutdown : conn.tcp.shutdown.1 = { conn.tcp with state_ := .kDisconnecting } := by
    simp [TcpConnection.shutdown, hstate]
  rw [hshutdown]
  refine h.of_concerns (concerns_setConn hconn rfl) setConn_self
    ⟨⟨hp.name, hp.channels, hp.interest, hp.active, ?_, ?_⟩, ?_, ?_, hp.held, hp.raw⟩
  · intro j stages hj
    obtain ⟨hup, hio, hclosed⟩ := hp.current j stages hj
    refine ⟨hup, hio, fun hmem => ?_⟩
    -- closeCallback_ is pending only after handleClose
    have hcontra := hclosed hmem
    rw [hstate] at hcontra
    cases hcontra
  · -- no functor of the beginning or the end of the connection is queued
    intro j f hf
    have hfits := hp.functors j f hf
    cases f with
    | connectionEstablished d => cases hstate.symm.trans hfits
    | removeConnectionInLoop d => cases hstate.symm.trans hfits
    | connectionDestoryed d => cases hstate.symm.trans hfits.1
    | writeComplete d => trivial
    | highWaterMark d => trivial
    | sendInLoop d data => exact hfits
    | shutdownInLoop d => exact hfits
  · intro hconnecting
    cases hconnecting
  · exact fun _ => hp.opened (Or.inl hstate)

/-! ## Destruction -/

/-- A connection without owners is down, and no functor is about it. -/
theorem Present.unowned (h : Present s c conn) (hunowned : s.Unowned c conn) :
    conn.up = false ∧ ∀ j, s.about j c = [] := by
  obtain ⟨hlisted, _, hqueues, _⟩ := hunowned
  have howned : ∀ j f, f ∈ s.about j c → f.owns ≠ true := by
    intro j f hf howns
    obtain ⟨hmem, hfc⟩ := mem_about.mp hf
    exact hqueues j f hmem howns hfc
  constructor
  · -- while it is up the library owns it, through one of three references
    by_contra hnot
    have hup : conn.up = true := by simpa using hnot
    rcases h.held hup with hname | ⟨j, hj⟩ | ⟨j, hj⟩
    · exact hlisted hname
    · exact howned j _ hj rfl
    · exact howned j _ hj rfl
  · intro j
    rw [List.eq_nil_iff_forall_not_mem]
    intro f hf
    have hraw : f.owns = false := by simpa using howned j f hf
    -- a raw functor would have an owner queued behind it
    obtain ⟨pre, post, hsplit⟩ := List.append_of_mem hf
    rcases h.raw j pre f post hsplit hraw with hname | ⟨k, hk⟩ | hpost
    · exact hlisted hname
    · exact howned k _ hk rfl
    · refine howned j (.connectionDestoryed c) ?_ rfl
      rw [hsplit]
      exact List.mem_append_right _ (List.mem_cons_of_mem f hpost)

theorem destroy_concerns (s : State n) (c : ConnPtr) (conn : Conn n) :
    Concerns c s (s.destroy c conn) := by
  refine ⟨⟨rfl, rfl, rfl, fun hsound j => hsound j⟩, ?_, ?_⟩
  · intro d hd
    refine ⟨Function.update_of_ne hd _ _, fun _ => Iff.rfl, fun _ => rfl, fun _ _ => id, ?_,
      fun _ => id, fun _ _ => id⟩
    intro j fd mask hj
    exact EPollPoller.closeFd_interest hj
  · intro conn' hconn'
    rw [show (s.destroy c conn).conns c = none from Function.update_self _ _ _] at hconn'
    cases hconn'

theorem Inv.destroy (h : Inv s) (hconn : s.conns c = some conn) (hunowned : s.Unowned c conn) :
    Inv (s.destroy c conn) := by
  have hp := h.present c conn hconn
  obtain ⟨hdown, habout⟩ := hp.unowned hunowned
  have hnot : conn.up ≠ true := by simp [hdown]
  refine ((h.others c).step (destroy_concerns s c conn)).inv_absent (Function.update_self _ _ _)
    ⟨?_, habout, fun j fd hj => hnot (hp.channels j fd hj).1, ?_,
      fun j hj => hnot (hp.active j hj).1, fun j stages hj => hnot (hp.current j stages hj).1⟩
  · intro m hm
    rw [show (s.destroy c conn).connections_ = s.connections_ from rfl] at hm
    rw [hp.name m hm] at hm
    exact hunowned.1 hm
  · intro j fd mask hj
    exact hnot (hp.interest j fd mask (EPollPoller.closeFd_interest hj)).1

end

/-! ## Runs -/

theorem inv_init (n : Nat) : Inv ({} : State n) := by
  refine ⟨⟨?_, ?_, fun _ _ => rfl, ?_, rfl⟩, ?_, ?_⟩
  · intro c d conn conn' hconn
    cases hconn
  · intro c conn hconn
    cases hconn
  · intro i
    refine ⟨?_, fun _ => rfl⟩
    intro hrun
    cases hrun
  · intro c conn hconn
    cases hconn
  · intro c _
    refine ⟨?_, fun _ => rfl, ?_, ?_, ?_, ?_⟩
    all_goals simp

section

variable {s s' : State n}

/-- A change to one thread that keeps its queue and its poller and empties its
    lists: no connection is concerned. -/
theorem Inv.setThread (h : Inv s) {i : Fin (n + 1)} {t : LoopThread}
    (hqueue : t.queue = (s.loops i).queue) (hpoller : t.poller = (s.loops i).poller)
    (hactive : t.activeChannels_ = (s.loops i).activeChannels_) (hcurrent : t.current = none)
    (hsound : t.Sound) : Inv (s.setLoop i t) := by
  have hconcerns : ∀ c, Concerns c s (s.setLoop i t) := by
    intro c
    refine concerns_setLoop hqueue (fun _ => hsound) ?_ ?_ ?_ ?_
    · rw [hpoller]
      exact fun _ _ _ => id
    · rw [hpoller]
      exact fun _ _ _ _ => id
    · rw [hactive]
      exact fun _ _ => id
    · rw [hcurrent]
      -- any other connection serves as the one concerned
      intro d stages _ heq
      cases heq
  refine h.step_none (hconcerns 0).globals ?_
  intro d
  exact (hconcerns (d + 1)).other d (Nat.ne_of_lt (Nat.lt_succ_self d))

/-- The references that the user holds may change at will. -/
theorem Inv.setUsers (h : Inv s) (users : Finset ConnPtr) : Inv { s with users := users } :=
  h.step_none ⟨rfl, rfl, rfl, id⟩ fun _ => ⟨rfl, fun _ => Iff.rfl, fun _ => rfl,
    fun _ _ => id, fun _ _ _ => id, fun _ => id, fun _ _ => id⟩

/-- A loop that handles events is not in `doPendingFunctors`. -/
theorem Inv.not_running (h : Inv s) {i : Fin (n + 1)}
    (hbusy : (s.loops i).activeChannels_ ≠ [] ∨ (s.loops i).current ≠ none) :
    (s.loops i).running = false := by
  by_contra hrun
  obtain ⟨hactive, hcurrent⟩ := (h.threads i).1 (by simpa using hrun)
  rcases hbusy with hbusy | hbusy
  · exact hbusy hactive
  · exact hbusy hcurrent

theorem inv_step (h : Inv s) {l : Label n} (hstep : next s l = some s') : Inv s' := by
  cases l with
  | newConnection ioLoop sockfd wc =>
    simp only [next] at hstep
    split at hstep
    · obtain rfl := Option.some.inj hstep
      exact h.newConnection ioLoop sockfd wc
    · cases hstep
  | poll i events =>
    simp only [next] at hstep
    split at hstep
    · rename_i hidle
      obtain ⟨polled, hpolled, rfl⟩ := Option.map_eq_some_iff.mp hstep
      refine h.poll hidle.2.2 ?_
      intro ev hev
      obtain ⟨ev', hev'⟩ := mapM_some_mem hpolled hev
      obtain ⟨entry, hentry, rfl⟩ := Option.map_eq_some_iff.mp hev'
      exact ⟨ev'.1, entry.1, hentry⟩
    · cases hstep
  | handleEvent i =>
    simp only [next] at hstep
    split at hstep
    · rename_i c rest hactive hcurrent
      have hmem : c ∈ (s.loops i).activeChannels_ := by simp [hactive]
      have hstopped := h.not_running (Or.inl (by rw [hactive]; simp))
      cases hconn : s.conns c with
      -- tie_.lock() would fail here
      | none => exact absurd hmem ((h.absent c hconn).active i)
      | some conn =>
        rw [hconn] at hstep
        obtain rfl := Option.some.inj hstep
        obtain ⟨hup, hio⟩ := (h.present c conn hconn).active i hmem
        refine h.setCurrent hconn hup hio ?_ hstopped
          fun hclose => absurd hclose (closeCallback_not_mem_stages _)
        intro d hd
        rw [hactive]
        exact List.mem_cons_of_mem c hd
    · cases hstep
  | callback i w r =>
    simp only [next] at hstep
    split at hstep
    · rename_i c stage rest hcurrent
      obtain rfl := Option.some.inj hstep
      have hstopped := h.not_running (Or.inr (by rw [hcurrent]; simp))
      cases hconn : s.conns c with
      | none => exact absurd hcurrent ((h.absent c hconn).current i _)
      | some conn =>
        obtain ⟨hup, hio, hclosed⟩ := (h.present c conn hconn).current i _ hcurrent
        -- first the callback is taken off the agenda, then it is called
        have h' := h.setCurrent hconn hup hio (fun _ => id) hstopped
          fun hmem => hclosed (List.mem_cons_of_mem stage hmem)
        refine Inv.callback h' hconn hup w r ?_
        intro heq
        subst heq
        exact hclosed List.mem_cons_self
    · cases hstep
  | endEvent i =>
    simp only [next] at hstep
    split at hstep
    · obtain rfl := Option.some.inj hstep
      refine h.setThread rfl rfl rfl rfl ⟨?_, (h.threads i).2⟩
      exact fun hrun => ⟨((h.threads i).1 hrun).1, rfl⟩
    · cases hstep
  | beginFunctors i =>
    simp only [next] at hstep
    split at hstep
    · rename_i hidle
      obtain rfl := Option.some.inj hstep
      obtain ⟨hactive, hcurrent, hstopped⟩ := hidle
      refine h.setThread ?_ rfl rfl hcurrent ⟨fun _ => ⟨hactive, hcurrent⟩, ?_⟩
      · -- the local vector is empty outside doPendingFunctors
        simp [LoopThread.queue, EventLoop.swapFunctors, EventLoop.beginPending,
          (h.threads i).2 hstopped]
      · intro hcontra
        cases hcontra
    · cases hstep
  | runFunctor i w =>
    simp only [next] at hstep
    split at hstep
    · rename_i f rest hrun hf
      obtain rfl := Option.some.inj hstep
      exact h.runFunctor hrun hf w
    · cases hstep
  | endFunctors i =>
    simp only [next] at hstep
    split at hstep
    · rename_i hdone
      obtain rfl := Option.some.inj hstep
      obtain ⟨_, hcurrent⟩ := (h.threads i).1 hdone.1
      refine h.setThread rfl rfl rfl hcurrent ⟨?_, fun _ => hdone.2⟩
      intro hcontra
      cases hcontra
    · cases hstep
  | send c inLoop data w =>
    simp only [next] at hstep
    split at hstep
    · rename_i conn hconn
      split at hstep
      · rename_i hstate
        split at hstep
        · obtain rfl := Option.some.inj hstep
          exact h.sendInLoop hconn (Or.inl ((h.present c conn hconn).opened (Or.inl hstate)).1)
            data w
        · obtain rfl := Option.some.inj hstep
          exact h.queueRaw hconn (Or.inl hstate) rfl rfl
      · cases hstep
    · cases hstep
  | shutdown c inLoop =>
    simp only [next] at hstep
    split at hstep
    · rename_i conn hconn
      split at hstep
      · rename_i hstate
        -- the store and the enqueue are one step
        have h' := h.storeDisconnecting hconn hstate
        have hstate' : conn.tcp.shutdown.1.state_ = .kDisconnecting := by
          simp [TcpConnection.shutdown, hstate]
        split at hstep
        · obtain rfl := Option.some.inj hstep
          exact h'.shutdownInLoop setConn_self
        · obtain rfl := Option.some.inj hstep
          exact h'.queueRaw setConn_self (Or.inr hstate') rfl rfl
      · cases hstep
    · cases hstep
  | setHighWaterMarkCallback c highWaterMark =>
    obtain ⟨conn, hconn, rfl⟩ := Option.map_eq_some_iff.mp hstep
    exact h.of_concerns (concerns_setConn hconn rfl) setConn_self
      ((h.present c conn hconn).store ⟨rfl, rfl, rfl, rfl, rfl⟩ rfl)
  | userCopy c =>
    simp only [next] at hstep
    split at hstep
    · obtain rfl := Option.some.inj hstep
      exact h.setUsers _
    · cases hstep
  | userDrop c =>
    obtain rfl := Option.some.inj hstep
    exact h.setUsers _
  | destroy c =>
    simp only [next] at hstep
    split at hstep
    · rename_i conn hconn
      split at hstep
      · rename_i hunowned
        obtain rfl := Option.some.inj hstep
        exact h.destroy hconn hunowned
      · cases hstep
    · cases hstep

theorem inv_reachable (h : (machine n).Reachable s) : Inv s :=
  h.invariant (machine n)
    (by
      intro s heq
      subst heq
      exact inv_init n)
    fun _ _ _ hinv hstep => inv_step hinv hstep

theorem Present.libraryRef {c : ConnPtr} {conn : Conn n} (h : Present s c conn)
    (hup : conn.up = true) : LibraryRef s c := by
  rcases h.held hup with hname | ⟨i, hi⟩ | ⟨i, hi⟩
  · exact Or.inl ⟨conn.connId, hname⟩
  · exact Or.inr ⟨i, _, (mem_about.mp hi).1, rfl, rfl⟩
  · exact Or.inr ⟨i, _, (mem_about.mp hi).1, rfl, rfl⟩

/-- A registered channel belongs to a connection that is up. -/
theorem Inv.registered_up {c : ConnPtr} (h : Inv s) (hreg : Registered s c) :
    ∃ conn, s.conns c = some conn ∧ conn.up = true := by
  cases hconn : s.conns c with
  | none =>
    have ha := h.absent c hconn
    rcases hreg with ⟨i, fd, hi⟩ | ⟨i, fd, mask, hi⟩ | ⟨i, hi⟩ | ⟨i, stages, hi⟩
    · exact absurd hi (ha.channels i fd)
    · exact absurd hi (ha.interest i fd mask)
    · exact absurd hi (ha.active i)
    · exact absurd hi (ha.current i stages)
  | some conn =>
    have hp := h.present c conn hconn
    refine ⟨conn, rfl, ?_⟩
    rcases hreg with ⟨i, fd, hi⟩ | ⟨i, fd, mask, hi⟩ | ⟨i, hi⟩ | ⟨i, stages, hi⟩
    · exact (hp.channels i fd hi).1
    · exact (hp.interest i fd mask hi).1
    · exact (hp.active i hi).1
    · exact (hp.current i stages hi).1

/-- In every reachable state the library owns each connection whose channel is in
    a poller, in the kernel's interest set or in a list of active channels; such a
    connection exists and is not destroyed in the next step.  No guard has failed
    to lock, and no thread has touched a connection that is gone. -/
theorem registered_channel_owned (h : (machine n).Reachable s) :
    (∀ c, Registered s c →
      (s.conns c).isSome = true ∧ LibraryRef s c ∧ (machine n).next s (.destroy c) = none) ∧
      s.dangling = false := by
  have hinv := inv_reachable h
  refine ⟨?_, hinv.no_dangling⟩
  intro c hreg
  obtain ⟨conn, hconn, hup⟩ := hinv.registered_up hreg
  have hp := hinv.present c conn hconn
  refine ⟨by rw [hconn]; rfl, hp.libraryRef hup, ?_⟩
  -- the guard of the destructor step fails: there is an owner
  have hnot : ¬ s.Unowned c conn := by
    intro hunowned
    rw [(hp.unowned hunowned).1] at hup
    cases hup
  show next s (.destroy c) = none
  simp only [next, hconn, if_neg hnot]

/-- The peer hangs up while there is urgent data: the base loop has erased the
    entry, and the connection is still in `handleEvent` in its own loop. -/
theorem registered_channel_owned_hangup :
    ∃ s : State 1, (machine 1).Reachable s ∧ Registered s 0 ∧ s.connections_ 1 = none ∧
      (s.conns 0).isSome = true ∧ LibraryRef s 0 := by
  have hrun : (machine 1).run {}
      [.newConnection 1 5 false, .beginFunctors 1, .runFunctor 1 (.wrote 0), .endFunctors 1,
        .poll 1 [(5, EPOLLHUP ||| EPOLLPRI)], .handleEvent 1,
        .callback 1 (.wrote 0) (.failed (.other 0)),
        .callback 1 (.wrote 0) (.failed (.other 0)), .beginFunctors 0,
        .runFunctor 0 (.wrote 0)] = some _ := rfl
  have hreach := Machine.Reachable.of_run (machine 1)
    (Machine.Reachable.of_init (machine 1) rfl) hrun
  have howned := (registered_channel_owned hreach).1 0
    (Or.inr (Or.inr (Or.inr ⟨1, [.read], rfl⟩)))
  exact ⟨_, hreach, Or.inr (Or.inr (Or.inr ⟨1, [.read], rfl⟩)), rfl, howned.1, howned.2.1⟩

end

end TcpServer
