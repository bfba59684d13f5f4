import Mymuduo.Net.ConnectionDescriptors

/-! # Closed connections do not linger

    `handleClose` stores `kDisconnected` and calls `closeCallback_`, which leads to
    `removeConnectionInLoop` in the base loop, now or through its queue.  So a closed
    connection that is still in `connections_` has its removal under way (`removal_pending`),
    and when the loops have nothing left to do, `connections_` holds the open connections and
    nothing else; a closed one lives on only where user code keeps a copy
    (`quiet_connections`).  Throughout, a call of `send` or `shutdown` is one step, from the
    test of `state_` to the functor it queues.
-/

namespace TcpServer

variable {n : Nat}

/-! ## Removals under way -/

/-- A closed connection that is still in the table. -/
def Lingers (s : State n) (c : ConnPtr) : Prop :=
  ∃ conn, s.conns c = some conn ∧ conn.tcp.state_ = .kDisconnected ∧
    s.connections_ conn.connId = some c

/-- `closeCallback_` is about to be called, or `removeConnectionInLoop` is queued in the base
    loop. -/
def Leaving (s : State n) (c : ConnPtr) : Prop :=
  (∃ i stages, (s.loops i).current = some (c, stages) ∧ .closeCallback ∈ stages) ∨
    .removeConnectionInLoop c ∈ (s.loops ⟨0, Nat.succ_pos n⟩).queue

/-- The removal of every closed connection but `x` is under way. -/
def Tidy (x : Option ConnPtr) (s : State n) : Prop :=
  ∀ c, some c ≠ x → Lingers s c → Leaving s c

/-- No connection but `x` is closed, and no removal but that of `x` is given up. -/
structure Calm (x : Option ConnPtr) (s s' : State n) : Prop where
  lingers : ∀ c, some c ≠ x → Lingers s' c → Lingers s c
  leaving : ∀ c, some c ≠ x → Leaving s c → Leaving s' c

section

variable {s s' s'' : State n} {c : ConnPtr} {conn conn' : Conn n} {x : Option ConnPtr}

theorem Tidy.calm (h : Tidy x s) (hcalm : Calm x s s') : Tidy x s' := by
  intro c hc hlingers
  exact hcalm.leaving c hc (h c hc (hcalm.lingers c hc hlingers))

/-- The exception has gone, or is on its way. -/
theorem Tidy.settle (h : Tidy (some c) s) (hc : Lingers s c → Leaving s c) : Tidy none s := by
  intro d _ hlingers
  by_cases hd : d = c
  · rw [hd] at hlingers ⊢
    exact hc hlingers
  · exact h d (by simpa using hd) hlingers

theorem Tidy.weaken (h : Tidy none s) : Tidy x s := fun c _ => h c (by simp)

theorem Calm.refl (x : Option ConnPtr) (s : State n) : Calm x s s :=
  ⟨fun _ _ => id, fun _ _ => id⟩

theorem Calm.trans (h : Calm x s s') (k : Calm x s' s'') : Calm x s s'' :=
  ⟨fun c hc hl => h.lingers c hc (k.lingers c hc hl),
    fun c hc hl => k.leaving c hc (h.leaving c hc hl)⟩

/-- The threads take nothing off their lists. -/
theorem calm_loops (hconns : s'.conns = s.conns) (hnames : s'.connections_ = s.connections_)
    (hcurrent : ∀ i c stages, some c ≠ x → (s.loops i).current = some (c, stages) →
      .closeCallback ∈ stages →
      ∃ stages', (s'.loops i).current = some (c, stages') ∧ .closeCallback ∈ stages')
    (hqueue : ∀ i c, some c ≠ x → .removeConnectionInLoop c ∈ (s.loops i).queue →
      .removeConnectionInLoop c ∈ (s'.loops i).queue) : Calm x s s' := by
  refine ⟨?_, ?_⟩
  · intro c _ hlingers
    unfold Lingers at hlingers ⊢
    rw [hconns, hnames] at hlingers
    exact hlingers
  · intro c hc hleaving
    rcases hleaving with ⟨i, stages, hcur, hmem⟩ | hmem
    · obtain ⟨stages', hcur', hmem'⟩ := hcurrent i c stages hc hcur hmem
      exact Or.inl ⟨i, stages', hcur', hmem'⟩
    · exact Or.inr (hqueue 0 c hc hmem)

/-- One thread changes, with its list of callbacks and its functors. -/
theorem calm_setLoop (s : State n) {i : Fin (n + 1)} {t : LoopThread}
    (hcurrent : ∀ c stages, some c ≠ x → (s.loops i).current = some (c, stages) →
      .closeCallback ∈ stages → ∃ stages', t.current = some (c, stages') ∧
        .closeCallback ∈ stages')
    (hqueue : ∀ c, some c ≠ x → .removeConnectionInLoop c ∈ (s.loops i).queue →
      .removeConnectionInLoop c ∈ t.queue) : Calm x s (s.setLoop i t) := by
  refine calm_loops rfl rfl ?_ ?_
  · intro j c stages hc hcur hmem
    by_cases hj : j = i
    · subst hj
      rw [setLoop_self]
      exact hcurrent c stages hc hcur hmem
    · rw [setLoop_of_ne hj]
      exact ⟨stages, hcur, hmem⟩
  · intro j c hc hmem
    by_cases hj : j = i
    · subst hj
      rw [setLoop_self]
      exact hqueue c hc hmem
    · rw [setLoop_of_ne hj]
      exact hmem

/-- The same callbacks and functors. -/
theorem calm_setLoop_same (s : State n) {i : Fin (n + 1)} {t : LoopThread}
    (hcurrent : t.current = (s.loops i).current) (hqueue : t.queue = (s.loops i).queue) :
    Calm x s (s.setLoop i t) := by
  refine calm_setLoop s ?_ ?_
  · intro c stages _ hcur hmem
    exact ⟨stages, hcurrent.trans hcur, hmem⟩
  · intro c _ hmem
    rw [hqueue]
    exact hmem

theorem calm_queueInLoop (s : State n) (i : Fin (n + 1)) (b : Bool) (f : Functor) :
    Calm x s (s.queueInLoop i b f) := by
  refine calm_loops rfl rfl ?_ ?_
  · intro j c stages _ hcur hmem
    exact ⟨stages, (queueInLoop_channels s i b f j).current.trans hcur, hmem⟩
  · intro j c _ hmem
    by_cases hj : j = i
    · subst hj
      rw [queueInLoop_queue]
      exact List.mem_append_left _ hmem
    · unfold State.queueInLoop
      rw [setLoop_of_ne hj]
      exact hmem

/-- A connection is stored that is not closed now unless it was before. -/
theorem calm_setConn (hconn : s.conns c = some conn) (hid : conn'.connId = conn.connId)
    (hstate : some c ≠ x → conn'.tcp.state_ = .kDisconnected → conn.tcp.state_ = .kDisconnected) :
    Calm x s (s.setConn c conn') := by
  refine ⟨?_, fun _ _ => id⟩
  rintro d hd ⟨conn'', hconn'', hclosed, hname⟩
  by_cases hdc : d = c
  · subst hdc
    rw [setConn_self] at hconn''
    obtain rfl := Option.some.inj hconn''
    exact ⟨conn, hconn, hstate hd hclosed, hid ▸ hname⟩
  · rw [setConn_of_ne hdc] at hconn''
    exact ⟨conn'', hconn'', hclosed, hname⟩

theorem calm_dangling (s : State n) : Calm x s { s with dangling := true } :=
  ⟨fun _ _ => id, fun _ _ => id⟩

theorem calm_setRegistration (hconn : s.conns c = some conn)
    (r : EPollPoller ConnPtr × Channel) : Calm x s (s.setRegistration c conn r) := by
  have hloop : Calm x s (s.setLoop conn.ioLoop { s.loops conn.ioLoop with poller := r.1 }) :=
    calm_setLoop_same s rfl rfl
  refine hloop.trans (calm_setConn (s := s.setLoop _ _) hconn rfl ?_)
  intro _ hclosed
  exact hclosed

theorem calm_applyEffect (s : State n) (c : ConnPtr) {e : Effect} (he : e ≠ .closeCallback) :
    Calm x s (State.applyEffect c s e) ∧
      ∀ i, ((State.applyEffect c s e).loops i).current = (s.loops i).current := by
  unfold State.applyEffect
  split
  · exact ⟨calm_dangling s, fun _ => rfl⟩
  · rename_i conn hconn
    have hreg : ∀ (r : EPollPoller ConnPtr × Channel) (i : Fin (n + 1)),
        ((s.setRegistration c conn r).loops i).current = (s.loops i).current := by
      intro r i
      unfold State.setRegistration
      rw [setConn_loops]
      by_cases hi : i = conn.ioLoop
      · rw [hi, setLoop_self]
      · rw [setLoop_of_ne hi]
    cases e with
    | updateChannel events => exact ⟨calm_setRegistration hconn _, hreg _⟩
    | removeChannel => exact ⟨calm_setRegistration hconn _, hreg _⟩
    | queueWriteComplete =>
      exact ⟨calm_queueInLoop s _ _ _, fun i => (queueInLoop_channels s _ _ _ i).current⟩
    | queueHighWaterMark size =>
      exact ⟨calm_queueInLoop s _ _ _, fun i => (queueInLoop_channels s _ _ _ i).current⟩
    | closeCallback => exact absurd rfl he
    | write data r => exact ⟨Calm.refl x s, fun _ => rfl⟩
    | shutdownWrite => exact ⟨Calm.refl x s, fun _ => rfl⟩
    | connectionCallback state => exact ⟨Calm.refl x s, fun _ => rfl⟩
    | messageCallback => exact ⟨Calm.refl x s, fun _ => rfl⟩

theorem calm_foldl (c : ConnPtr) {es : List Effect} (hes : .closeCallback ∉ es) (s : State n) :
    Calm x s (es.foldl (State.applyEffect c) s) ∧
      ∀ i, ((es.foldl (State.applyEffect c) s).loops i).current = (s.loops i).current := by
  induction es generalizing s with
  | nil => exact ⟨Calm.refl x s, fun _ => rfl⟩
  | cons e es ih =>
    rw [List.mem_cons, not_or] at hes
    obtain ⟨he, hes⟩ := hes
    obtain ⟨hfirst, hcur⟩ := calm_applyEffect (x := x) s c (Ne.symm he)
    obtain ⟨hrest, hcur'⟩ := ih hes (State.applyEffect c s e)
    exact ⟨hfirst.trans hrest, fun i => (hcur' i).trans (hcur i)⟩

/-- A member function that does not close. -/
theorem calm_call (s : State n) (c : ConnPtr) {f : TcpConnection → TcpConnection × List Effect}
    (hstate : ∀ conn, s.conns c = some conn → (f conn.tcp).1.state_ = .kDisconnected →
      conn.tcp.state_ = .kDisconnected)
    (heffects : ∀ conn, s.conns c = some conn → .closeCallback ∉ (f conn.tcp).2) :
    Calm x s (s.call c f) := by
  unfold State.call
  split
  · exact calm_dangling s
  · rename_i conn hconn
    have hstore : Calm x s (s.setConn c { conn with tcp := (f conn.tcp).1 }) :=
      calm_setConn hconn rfl fun _ => hstate conn hconn
    exact hstore.trans (calm_foldl c (heffects conn hconn) _).1

theorem not_mem_of_mild {es : List Effect} (h : ∀ e ∈ es, TcpConnection.Mild e) :
    .closeCallback ∉ es := fun hmem => (h _ hmem).1 rfl

/-! ## Closing and removing -/

/-- `handleClose` in the `handleEvent` of the connection: it is closed, and its callback is
    next. -/
theorem call_handleClose (hconn : s.conns c = some conn) {stages : List Stage}
    (hcurrent : (s.loops conn.ioLoop).current = some (c, stages))
    {f : TcpConnection → TcpConnection × List Effect} {t : TcpConnection}
    (hf : f conn.tcp = t.handleClose) :
    Calm (some c) s (s.call c f) ∧ Leaving (s.call c f) c := by
  rw [call_some hconn, hf]
  let s₁ := s.setConn c { conn with tcp := t.handleClose.1 }
  have hstore : Calm (some c) s s₁ := calm_setConn hconn rfl fun hne => absurd rfl hne
  -- the update of the channel, then closeCallback
  let s₂ := State.applyEffect c s₁ (.updateChannel t.handleClose.1.channel_.events_)
  obtain ⟨hupdate, hcur⟩ := calm_applyEffect (x := some c) s₁ c
    (e := .updateChannel t.handleClose.1.channel_.events_) (by simp)
  have hkeeps := keeps_applyEffect s₁ c (.updateChannel t.handleClose.1.channel_.events_)
  obtain ⟨conn₂, hconn₂, hio⟩ : ∃ conn₂, s₂.conns c = some conn₂ ∧
      conn₂.ioLoop = conn.ioLoop := by
    have hident := hkeeps.ident c
    rw [State.ident, State.ident, setConn_self, Option.map_some] at hident
    obtain ⟨conn₂, hconn₂, heq⟩ := Option.map_eq_some_iff.mp hident
    exact ⟨conn₂, hconn₂, congrArg Ident.ioLoop heq⟩
  have hcurrent₂ : (s₂.loops conn.ioLoop).current = some (c, stages) :=
    (hcur conn.ioLoop).trans hcurrent
  have hlast : t.handleClose.2.foldl (State.applyEffect c) s₁ =
      s₂.setLoop conn.ioLoop { s₂.loops conn.ioLoop with
        current := some (c, .closeCallback :: stages) } := by
    show State.applyEffect c (State.applyEffect c s₂ _) .closeCallback = _
    have hskip : ∀ state, State.applyEffect c s₂ (.connectionCallback state) = s₂ := by
      intro state
      simp only [State.applyEffect, hconn₂]
    rw [hskip]
    simp only [State.applyEffect, hconn₂, hio, hcurrent₂]
  show Calm (some c) s (t.handleClose.2.foldl (State.applyEffect c) s₁) ∧
    Leaving (t.handleClose.2.foldl (State.applyEffect c) s₁) c
  rw [hlast]
  refine ⟨(hstore.trans hupdate).trans (calm_setLoop s₂ ?_ fun _ _ => id), ?_⟩
  · intro d stages' hd hcur' _
    rw [hcurrent₂] at hcur'
    obtain ⟨rfl, _⟩ := Prod.mk.inj (Option.some.inj hcur')
    exact absurd rfl hd
  · exact Or.inl ⟨conn.ioLoop, .closeCallback :: stages, by rw [setLoop_self],
      List.mem_cons_self⟩

theorem removeConnectionInLoop_removes (hconn : s.conns c = some conn) :
    Calm (some c) s (s.removeConnectionInLoop c) ∧ ¬ Lingers (s.removeConnectionInLoop c) c := by
  unfold State.removeConnectionInLoop
  rw [hconn]
  simp only
  have herase : Calm (some c) s
      { s with connections_ := Function.update s.connections_ conn.connId none } := by
    refine ⟨?_, fun _ _ => id⟩
    rintro d _ ⟨conn', hconn', hclosed, hname⟩
    refine ⟨conn', hconn', hclosed, ?_⟩
    by_cases hid : conn'.connId = conn.connId
    · simp [hid] at hname
    · simpa [hid] using hname
  refine ⟨herase.trans (calm_queueInLoop _ _ _ _), ?_⟩
  · rintro ⟨conn', hconn', _, hname⟩
    have heq : conn' = conn := by
      have hsame : some conn' = some conn := hconn'.symm.trans hconn
      exact Option.some.inj hsame
    rw [heq] at hname
    simp at hname

theorem removeConnection_leaves (hconn : s.conns c = some conn) (i : Fin (n + 1)) :
    Calm (some c) s (s.removeConnection i c) ∧
      (Lingers (s.removeConnection i c) c → Leaving (s.removeConnection i c) c) := by
  unfold State.removeConnection
  split
  · obtain ⟨hcalm, hgone⟩ := removeConnectionInLoop_removes hconn
    exact ⟨hcalm, fun hlingers => absurd hlingers hgone⟩
  · refine ⟨calm_queueInLoop s _ _ _, fun _ => Or.inr ?_⟩
    show _ ∈ ((s.queueInLoop 0 false (.removeConnectionInLoop c)).loops 0).queue
    rw [queueInLoop_queue]
    exact List.mem_append_right _ List.mem_cons_self

/-! ## Steps -/

/-- The next callback is taken off the list. -/
theorem calm_pop {i : Fin (n + 1)} {stage : Stage} {rest : List Stage}
    (hcurrent : (s.loops i).current = some (c, stage :: rest))
    (hx : stage = .closeCallback → x = some c) :
    Calm x s (s.setLoop i { s.loops i with current := some (c, rest) }) := by
  refine calm_setLoop s ?_ fun _ _ => id
  intro d stages hd hcur hmem
  rw [hcurrent] at hcur
  obtain ⟨rfl, rfl⟩ := Prod.mk.inj (Option.some.inj hcur)
  refine ⟨rest, rfl, ?_⟩
  rcases List.mem_cons.mp hmem with hstage | hmem
  · exact absurd (hx hstage.symm).symm hd
  · exact hmem

/-- The next functor is taken off the queue. -/
theorem calm_dequeue {i : Fin (n + 1)} {f : Functor} {rest : List Functor}
    (hf : (s.loops i).loop.functors = f :: rest)
    (hx : ∀ d, f = .removeConnectionInLoop d → x = some d) : Calm x s (s.dequeue i rest) := by
  refine calm_setLoop s (fun d stages _ hcur hmem => ⟨stages, hcur, hmem⟩) ?_
  intro d hd hmem
  rw [LoopThread.queue, hf, List.cons_append, List.mem_cons] at hmem
  rcases hmem with hhead | hmem
  · exact absurd (hx d hhead.symm).symm hd
  · exact hmem

theorem calm_setUp (s : State n) (c : ConnPtr) (up : Bool) : Calm x s (s.setUp c up) := by
  unfold State.setUp
  split
  · exact Calm.refl x s
  · rename_i conn hconn
    exact calm_setConn hconn rfl fun _ => id

theorem calm_setRevents (s : State n) (ev : ConnPtr × EventMask) : Calm x s (s.setRevents ev) := by
  unfold State.setRevents
  split
  · exact calm_dangling s
  · rename_i conn hconn
    exact calm_setConn hconn rfl fun _ => id

theorem calm_foldl_setRevents (polled : List (ConnPtr × EventMask)) (s : State n) :
    Calm x s (polled.foldl State.setRevents s) := by
  induction polled generalizing s with
  | nil => exact Calm.refl x s
  | cons ev polled ih => exact (calm_setRevents s ev).trans (ih (s.setRevents ev))

theorem calm_connectionEstablished (s : State n) (c : ConnPtr) :
    Calm x s (s.connectionEstablished c) := by
  refine (calm_setUp s c true).trans (calm_call _ c ?_ ?_)
  · intro conn _ hclosed
    cases hclosed
  · intro conn _
    simp [TcpConnection.connectionEstablished]

theorem calm_connectionDestoryed (hconn : s.conns c = some conn)
    (hclosed : conn.tcp.state_ = .kDisconnected) : Calm x s (s.connectionDestoryed c) := by
  refine (calm_call s c ?_ ?_).trans (calm_setUp _ c false)
  · intro conn' hconn' _
    obtain rfl := Option.some.inj (hconn.symm.trans hconn')
    exact hclosed
  · intro conn' _
    unfold TcpConnection.connectionDestoryed
    split <;> simp

/-- A new connection is not closed, and has a new name. -/
theorem calm_addConnection (h : Inv s) (ioLoop : Fin (n + 1)) (sockfd : Nat) (wc : Bool) :
    Calm x s (s.addConnection ioLoop sockfd wc) := by
  refine ⟨?_, fun _ _ => id⟩
  rintro d _ ⟨conn, hconn, hclosed, hname⟩
  by_cases hd : d = s.created
  · subst hd
    simp only [State.addConnection, Function.update_self] at hconn
    obtain rfl := Option.some.inj hconn
    cases hclosed
  · simp only [State.addConnection, Function.update_of_ne hd] at hconn hname
    have hlt := h.fresh_name d conn hconn
    rw [Function.update_of_ne (Nat.ne_of_lt hlt)] at hname
    exact ⟨conn, hconn, hclosed, hname⟩

theorem calm_newConnection (h : Inv s) (ioLoop : Fin (n + 1)) (sockfd : Nat) (wc : Bool) :
    Calm x s (s.newConnection ioLoop sockfd wc) := by
  have hadd := calm_addConnection (x := x) h ioLoop sockfd wc
  unfold State.newConnection
  simp only
  split
  · exact hadd.trans (calm_connectionEstablished _ _)
  · exact hadd.trans (calm_queueInLoop _ _ _ _)

theorem calm_destroy (s : State n) (c : ConnPtr) (conn : Conn n) :
    Calm x s (s.destroy c conn) := by
  refine ⟨?_, fun _ _ => id⟩
  rintro d _ ⟨conn', hconn', hclosed, hname⟩
  by_cases hd : d = c
  · subst hd
    simp only [State.destroy, Function.update_self] at hconn'
    cases hconn'
  · simp only [State.destroy, Function.update_of_ne hd] at hconn'
    exact ⟨conn', hconn', hclosed, hname⟩

theorem calm_sendInLoop (s : State n) (c : ConnPtr) (data : List Byte) (w : WriteResult) :
    Calm x s (s.call c fun t => t.sendInLoop data w) := by
  refine calm_call s c ?_ ?_
  · intro conn _ hclosed
    exact (TcpConnection.sendInLoop_mild conn.tcp data w).1 ▸ hclosed
  · intro conn _
    exact not_mem_of_mild (TcpConnection.sendInLoop_mild conn.tcp data w).2.2

theorem calm_shutdownInLoop (s : State n) (c : ConnPtr) :
    Calm x s (s.call c TcpConnection.shutdownInLoop) := by
  refine calm_call s c ?_ ?_
  · intro conn _ hclosed
    exact (TcpConnection.shutdownInLoop_mild conn.tcp).1 ▸ hclosed
  · intro conn _
    exact not_mem_of_mild (TcpConnection.shutdownInLoop_mild conn.tcp).2

/-- A callback of `handleEvent`, already taken off the list. -/
theorem callback_tidy {i : Fin (n + 1)} (hconn : s.conns c = some conn) (hio : i = conn.ioLoop)
    {stage : Stage} {rest : List Stage} (hcurrent : (s.loops i).current = some (c, rest))
    (h : Tidy (some c) s) (hothers : stage ≠ .closeCallback → Tidy none s)
    (w : WriteResult) (r : ReadvResult) : Tidy none (s.callback i c w r stage) := by
  subst hio
  have hclose : ∀ {f : TcpConnection → TcpConnection × List Effect} {t : TcpConnection},
      f conn.tcp = t.handleClose → Tidy none (s.call c f) := by
    intro f t hf
    obtain ⟨hcalm, hleaving⟩ := call_handleClose hconn hcurrent hf
    exact (h.calm hcalm).settle fun _ => hleaving
  have hopen : stage ≠ .closeCallback → ∀ {f : TcpConnection → TcpConnection × List Effect},
      (f conn.tcp).1.state_ = conn.tcp.state_ → .closeCallback ∉ (f conn.tcp).2 →
      Tidy none (s.call c f) := by
    intro hne f hstate heffects
    refine (hothers hne).calm (calm_call s c ?_ ?_)
    all_goals
      intro conn' hconn'
      obtain rfl := Option.some.inj (hconn.symm.trans hconn')
    · rw [hstate]
      exact id
    · exact heffects
  cases stage with
  | close => exact hclose rfl
  | error => exact hothers (by simp)
  | read =>
    obtain ⟨buf, hread | hclosed | hnothing⟩ := TcpConnection.handleRead_cases conn.tcp r
    · exact hopen (by simp) (by rw [hread]) (by simp [hread])
    · exact hclose hclosed
    · exact hopen (by simp) (by rw [hnothing]) (by simp [hnothing])
  | write =>
    obtain ⟨hstate, _, hmild⟩ := TcpConnection.handleWrite_mild conn.tcp w
    exact hopen (by simp) hstate (not_mem_of_mild hmild)
  | closeCallback =>
    obtain ⟨hcalm, hleaves⟩ := removeConnection_leaves hconn conn.ioLoop
    exact (h.calm hcalm).settle hleaves

/-- A functor of loop `i`. -/
theorem runFunctor_tidy (hinv : Inv s) (h : Tidy none s) {i : Fin (n + 1)} {f : Functor}
    {rest : List Functor} (hf : (s.loops i).loop.functors = f :: rest) (w : WriteResult) :
    Tidy none ((s.dequeue i rest).runFunctor w f) := by
  have habout : f ∈ s.about i f.conn := by
    refine mem_about.mpr ⟨?_, rfl⟩
    rw [LoopThread.queue, hf]
    exact List.mem_cons_self
  -- a functor is about a connection that exists
  obtain ⟨conn, hconn⟩ : ∃ conn, s.conns f.conn = some conn := by
    cases hconn : s.conns f.conn with
    | some conn => exact ⟨conn, rfl⟩
    | none =>
      rw [(hinv.absent _ hconn).about i] at habout
      cases habout
  have hfits := (hinv.present _ conn hconn).functors i f habout
  have hconn' : (s.dequeue i rest).conns f.conn = some conn := hconn
  cases f with
  | removeConnectionInLoop d =>
    have hdequeue : Calm (some d) s (s.dequeue i rest) :=
      calm_dequeue hf fun e he => by
        cases he
        rfl
    obtain ⟨hcalm, hgone⟩ := removeConnectionInLoop_removes hconn'
    exact (h.weaken.calm (hdequeue.trans hcalm)).settle fun hlingers => absurd hlingers hgone
  | connectionEstablished d =>
    exact h.calm ((calm_dequeue hf (by simp)).trans (calm_connectionEstablished _ d))
  | connectionDestoryed d =>
    exact h.calm ((calm_dequeue hf (by simp)).trans (calm_connectionDestoryed hconn' hfits.1))
  | writeComplete d => exact h.calm (calm_dequeue hf (by simp))
  | highWaterMark d => exact h.calm (calm_dequeue hf (by simp))
  | sendInLoop d data =>
    exact h.calm ((calm_dequeue hf (by simp)).trans (calm_sendInLoop _ d data w))
  | shutdownInLoop d =>
    exact h.calm ((calm_dequeue hf (by simp)).trans (calm_shutdownInLoop _ d))

theorem tidy_step (hinv : Inv s) (h : Tidy none s) {l : Label n} (hstep : next s l = some s') :
    Tidy none s' := by
  cases l with
  | newConnection ioLoop sockfd wc =>
    simp only [next] at hstep
    split at hstep
    · obtain rfl := Option.some.inj hstep
      exact h.calm (calm_newConnection hinv ioLoop sockfd wc)
    · cases hstep
  | poll i events =>
    simp only [next] at hstep
    split at hstep
    · obtain ⟨polled, hpolled, rfl⟩ := Option.map_eq_some_iff.mp hstep
      have hloops : ∀ (polled : List (ConnPtr × EventMask)) (s : State n),
          (polled.foldl State.setRevents s).loops = s.loops := by
        intro polled
        induction polled with
        | nil => exact fun _ => rfl
        | cons ev polled ih =>
          intro s
          rw [List.foldl_cons, ih]
          unfold State.setRevents
          split <;> rfl
      refine h.calm ((calm_foldl_setRevents polled s).trans (calm_setLoop_same _ ?_ ?_))
      all_goals rw [hloops]
      rfl
    · cases hstep
  | handleEvent i =>
    simp only [next] at hstep
    split at hstep
    · rename_i c rest hactive hcurrent
      cases hconn : s.conns c with
      | none =>
        rw [hconn] at hstep
        obtain rfl := Option.some.inj hstep
        exact h.calm (calm_dangling s)
      | some conn =>
        rw [hconn] at hstep
        obtain rfl := Option.some.inj hstep
        refine h.calm (calm_setLoop s ?_ fun _ _ => id)
        intro d stages _ hcur
        rw [hcurrent] at hcur
        cases hcur
    · cases hstep
  | callback i w r =>
    simp only [next] at hstep
    split at hstep
    · rename_i c stage rest hcurrent
      obtain rfl := Option.some.inj hstep
      cases hconn : s.conns c with
      | none => exact absurd hcurrent ((hinv.absent c hconn).current i _)
      | some conn =>
        obtain ⟨_, hio, _⟩ := (hinv.present c conn hconn).current i _ hcurrent
        let s₁ := s.setLoop i { s.loops i with current := some (c, rest) }
        have hconn₁ : s₁.conns c = some conn := hconn
        have hcurrent₁ : (s₁.loops i).current = some (c, rest) := by rw [setLoop_self]
        refine callback_tidy hconn₁ hio hcurrent₁
          (h.weaken.calm (calm_pop hcurrent fun _ => rfl)) ?_ w r
        exact fun hne => h.calm (calm_pop hcurrent fun heq => absurd heq hne)
    · cases hstep
  | endEvent i =>
    simp only [next] at hstep
    split at hstep
    · rename_i c hcurrent
      obtain rfl := Option.some.inj hstep
      refine h.calm (calm_setLoop s ?_ fun _ _ => id)
      intro d stages _ hcur hmem
      rw [hcurrent] at hcur
      obtain ⟨_, rfl⟩ := Prod.mk.inj (Option.some.inj hcur)
      cases hmem
    · cases hstep
  | beginFunctors i =>
    simp only [next] at hstep
    split at hstep
    · rename_i hidle
      obtain rfl := Option.some.inj hstep
      refine h.calm (calm_setLoop_same s rfl ?_)
      -- the swap moves the queue, it loses nothing
      simp [LoopThread.queue, EventLoop.swapFunctors, EventLoop.beginPending,
        (hinv.threads i).2 hidle.2.2]
    · cases hstep
  | runFunctor i w =>
    simp only [next] at hstep
    split at hstep
    · rename_i f rest _ hf
      obtain rfl := Option.some.inj hstep
      exact runFunctor_tidy hinv h hf w
    · cases hstep
  | endFunctors i =>
    simp only [next] at hstep
    split at hstep
    · obtain rfl := Option.some.inj hstep
      exact h.calm (calm_setLoop_same s rfl rfl)
    · cases hstep
  | send c inLoop data w =>
    simp only [next] at hstep
    split at hstep
    · split at hstep
      · split at hstep
        · obtain rfl := Option.some.inj hstep
          exact h.calm (calm_sendInLoop s c data w)
        · obtain rfl := Option.some.inj hstep
          exact h.calm (calm_queueInLoop s _ _ _)
      · cases hstep
    · cases hstep
  | shutdown c inLoop =>
    simp only [next] at hstep
    split at hstep
    · rename_i conn hconn
      split at hstep
      · rename_i hstate
        have hstore : Calm none s (s.setConn c { conn with tcp := conn.tcp.shutdown.1 }) := by
          refine calm_setConn hconn rfl ?_
          intro _ hclosed
          simp [TcpConnection.shutdown, hstate] at hclosed
        split at hstep
        · obtain rfl := Option.some.inj hstep
          exact h.calm (hstore.trans (calm_shutdownInLoop _ c))
        · obtain rfl := Option.some.inj hstep
          exact h.calm (hstore.trans (calm_queueInLoop _ _ _ _))
      · cases hstep
    · cases hstep
  | setHighWaterMarkCallback c highWaterMark =>
    obtain ⟨conn, hconn, rfl⟩ := Option.map_eq_some_iff.mp hstep
    exact h.calm (calm_setConn hconn rfl fun _ => id)
  | userCopy c =>
    simp only [next] at hstep
    split at hstep
    · obtain rfl := Option.some.inj hstep
      exact h
    · cases hstep
  | userDrop c =>
    obtain rfl := Option.some.inj hstep
    exact h
  | destroy c =>
    simp only [next] at hstep
    split at hstep
    · rename_i conn hconn
      split at hstep
      · obtain rfl := Option.some.inj hstep
        exact h.calm (calm_destroy s c conn)
      · cases hstep
    · cases hstep

theorem tidy_reachable (h : (machine n).Reachable s) : Tidy none s := by
  have hboth : Inv s ∧ Tidy none s := by
    refine h.invariant (machine n) (I := fun s => Inv s ∧ Tidy none s) ?_ ?_
    · rintro s rfl
      refine ⟨inv_init n, ?_⟩
      rintro c _ ⟨conn, hconn, _⟩
      cases hconn
    · rintro s l s' ⟨hinv, htidy⟩ hstep
      exact ⟨inv_step hinv hstep, tidy_step hinv htidy hstep⟩
  exact hboth.2

end

/-! ## Results -/

/-- A thread that waits in `poll`, with nothing to do. -/
structure LoopThread.Idle (t : LoopThread) : Prop where
  active : t.activeChannels_ = []
  current : t.current = none
  stopped : t.running = false
  queue : t.queue = []

section

variable {s : State n} {c : ConnPtr} {conn : Conn n}

theorem not_leaving_of_idle (hidle : ∀ i, (s.loops i).Idle) (c : ConnPtr) : ¬ Leaving s c := by
  rintro (⟨i, stages, hcurrent, _⟩ | hmem)
  · rw [(hidle i).current] at hcurrent
    cases hcurrent
  · rw [(hidle _).queue] at hmem
    cases hmem

theorem about_of_idle (hidle : ∀ i, (s.loops i).Idle) (i : Fin (n + 1)) (c : ConnPtr) :
    s.about i c = [] := by
  unfold State.about
  rw [(hidle i).queue, List.filter_nil]

/-- A connection that is closed, in a server whose loops are idle, is down and listed nowhere. -/
theorem down_of_idle (h : (machine n).Reachable s) (hidle : ∀ i, (s.loops i).Idle)
    (hconn : s.conns c = some conn) (hclosed : conn.tcp.state_ = .kDisconnected) :
    conn.up = false ∧ s.connections_ conn.connId ≠ some c := by
  have hunlisted : s.connections_ conn.connId ≠ some c := by
    intro hname
    exact not_leaving_of_idle hidle c
      (tidy_reachable h c (by simp) ⟨conn, hconn, hclosed, hname⟩)
  refine ⟨?_, hunlisted⟩
  by_contra hnot
  have hup : conn.up = true := by simpa using hnot
  -- the library would hold it, by its name or by a functor
  rcases ((inv_reachable h).present c conn hconn).held hup with hname | ⟨i, hi⟩ | ⟨i, hi⟩
  · exact hunlisted hname
  · rw [about_of_idle hidle] at hi
    cases hi
  · rw [about_of_idle hidle] at hi
    cases hi

/-- In every reachable state a connection that is closed and still in `connections_` has its
    removal under way: `closeCallback_` is about to be called for it in its loop, or
    `removeConnectionInLoop` is in a queue. -/
theorem removal_pending (h : (machine n).Reachable s) (hconn : s.conns c = some conn)
    (hclosed : conn.tcp.state_ = .kDisconnected) (hname : s.connections_ conn.connId = some c) :
    (∃ stages, (s.loops conn.ioLoop).current = some (c, stages) ∧ .closeCallback ∈ stages) ∨
      .removeConnectionInLoop c ∈ (s.loops 0).queue := by
  have hlingers : Lingers s c := ⟨conn, hconn, hclosed, hname⟩
  rcases tidy_reachable h c (by simp) hlingers with ⟨i, stages, hi, hmem⟩ | hmem
  · -- a connection is handled in its own loop only
    obtain ⟨_, rfl, _⟩ := ((inv_reachable h).present c conn hconn).current i stages hi
    exact Or.inl ⟨stages, hi, hmem⟩
  · exact Or.inr hmem

/-- The peer closes; the other loop has called `closeCallback_`, and the base loop has not run
    the functor yet. -/
theorem removal_pending_queued :
    ∃ s : State 1, ∃ conn, (machine 1).Reachable s ∧ s.conns 0 = some conn ∧
      conn.tcp.state_ = .kDisconnected ∧ s.connections_ conn.connId = some 0 ∧
      .removeConnectionInLoop 0 ∈ (s.loops 0).queue := by
  have hfacts : ((machine 1).run {}
      [.newConnection 1 5 false, .beginFunctors 1, .runFunctor 1 (.wrote 0), .endFunctors 1,
        .poll 1 [(5, EPOLLHUP)], .handleEvent 1, .callback 1 (.wrote 0) (.failed (.other 0)),
        .callback 1 (.wrote 0) (.failed (.other 0))]).map (fun s => decide
      ((s.loops 1).current = some (0, []) ∧ s.connections_ 1 = some 0 ∧
        (s.conns 0).map (fun conn => (conn.ioLoop, conn.connId, conn.tcp.state_)) =
          some (1, 1, .kDisconnected))) = some true := by
    decide +kernel
  obtain ⟨s, hrun, hs⟩ := Option.map_eq_some_iff.mp hfacts
  obtain ⟨hcurrent, hname, hconn⟩ := of_decide_eq_true hs
  obtain ⟨conn, hconn, heq⟩ := Option.map_eq_some_iff.mp hconn
  simp only [Prod.mk.injEq] at heq
  obtain ⟨hio, hid, hstate⟩ := heq
  have hname : s.connections_ conn.connId = some 0 := by rw [hid, hname]
  have hreach : (machine 1).Reachable s := ⟨{}, _, rfl, hrun⟩
  refine ⟨s, conn, hreach, hconn, hstate, hname, ?_⟩
  rcases removal_pending hreach hconn hstate hname with ⟨stages, hstages, hmem⟩ | hmem
  · rw [hio, hcurrent] at hstages
    obtain ⟨_, rfl⟩ := Prod.mk.inj (Option.some.inj hstages)
    cases hmem
  · exact hmem

/-- When every loop is idle, `connections_` holds the open connections under their names and
    nothing else; a closed connection is not registered anywhere, and unless user code holds a
    copy of it the next step can destroy it.

    This is about runs in which every call of `send` or `shutdown` is one step.  A thread that
    tests `state_` before `handleClose` and stores `kDisconnecting` after it brings the
    connection back behind its removal. -/
theorem quiet_connections (h : (machine n).Reachable s) (hidle : ∀ i, (s.loops i).Idle) :
    (∀ m c, s.connections_ m = some c ↔ ∃ conn, s.conns c = some conn ∧ conn.connId = m ∧
      (conn.tcp.state_ = .kConnected ∨ conn.tcp.state_ = .kDisconnecting)) ∧
    ∀ c conn, s.conns c = some conn → conn.tcp.state_ = .kDisconnected →
      ¬ Registered s c ∧
        (c ∈ s.users ∨ (machine n).next s (.destroy c) = some (s.destroy c conn)) := by
  have hinv := inv_reachable h
  refine ⟨?_, ?_⟩
  · intro m c
    constructor
    · intro hname
      cases hconn : s.conns c with
      | none => exact absurd hname ((hinv.absent c hconn).name m)
      | some conn =>
        have hp := hinv.present c conn hconn
        obtain rfl := hp.name m hname
        refine ⟨conn, rfl, rfl, ?_⟩
        cases hstate : conn.tcp.state_ with
        | kConnected => exact Or.inl rfl
        | kDisconnecting => exact Or.inr rfl
        | kDisconnected => exact absurd hname (down_of_idle h hidle hconn hstate).2
        | kConnecting =>
          -- connectionEstablished would be queued
          have habout := (hp.connecting hstate).2.2 conn.ioLoop
          rw [about_of_idle hidle, if_pos rfl] at habout
          cases habout
    · rintro ⟨conn, hconn, rfl, hopened⟩
      exact ((hinv.present c conn hconn).opened hopened).2
  · intro c conn hconn hclosed
    obtain ⟨hdown, hunlisted⟩ := down_of_idle h hidle hconn hclosed
    refine ⟨?_, ?_⟩
    · intro hreg
      obtain ⟨conn', hconn', hup⟩ := hinv.registered_up hreg
      obtain rfl := Option.some.inj (hconn.symm.trans hconn')
      rw [hdown] at hup
      cases hup
    · by_cases huser : c ∈ s.users
      · exact Or.inl huser
      · have hunowned : s.Unowned c conn := by
          refine ⟨hunlisted, huser, ?_, ?_⟩
          · intro i f hf
            rw [(hidle i).queue] at hf
            cases hf
          · intro i
            rw [(hidle i).current]
            simp
        refine Or.inr ?_
        show next s (.destroy c) = _
        simp only [next, hconn, if_pos hunowned]

/-- Two peers connect, the first of them closes, and the loop has done what there was to do. -/
theorem quiet_connections_first_closed :
    ∃ s : State 0, (machine 0).Reachable s ∧ (∀ i, (s.loops i).Idle) ∧
      s.connections_ 1 ≠ some 0 ∧ s.connections_ 2 = some 1 ∧
      ∃ conn, s.conns 0 = some conn ∧ ¬ Registered s 0 ∧
        (machine 0).next s (.destroy 0) = some (s.destroy 0 conn) := by
  have hfacts : ((machine 0).run {} (firstCloses.take 10)).map (fun s => decide
      (((s.loops 0).activeChannels_ = [] ∧ (s.loops 0).current = none ∧
        (s.loops 0).running = false ∧ (s.loops 0).queue = []) ∧
        (s.conns 0).map (fun conn => conn.tcp.state_) = some .kDisconnected ∧
        (s.conns 1).map (fun conn => (conn.connId, conn.tcp.state_)) = some (2, .kConnected) ∧
        s.users = ∅)) = some true := by
    decide +kernel
  obtain ⟨s, hrun, hs⟩ := Option.map_eq_some_iff.mp hfacts
  obtain ⟨⟨hactive, hcurrent, hstopped, hqueue⟩, hfirst, hsecond, husers⟩ :=
    of_decide_eq_true hs
  obtain ⟨conn, hconn, hstate⟩ := Option.map_eq_some_iff.mp hfirst
  obtain ⟨conn', hconn', hother⟩ := Option.map_eq_some_iff.mp hsecond
  obtain ⟨hid, hopen⟩ := Prod.mk.inj hother
  have hreach : (machine 0).Reachable s := ⟨{}, _, rfl, hrun⟩
  have hidle : ∀ i, (s.loops i).Idle := by
    intro i
    rw [Fin.fin_one_eq_zero i]
    exact ⟨hactive, hcurrent, hstopped, hqueue⟩
  obtain ⟨hnames, hclosed⟩ := quiet_connections hreach hidle
  refine ⟨s, hreach, hidle, ?_, (hnames 2 1).mpr ⟨conn', hconn', hid, Or.inl hopen⟩, conn,
    hconn, ?_⟩
  · rw [Ne, hnames]
    rintro ⟨conn₀, hconn₀, _, hopened⟩
    obtain rfl := Option.some.inj (hconn.symm.trans hconn₀)
    rw [hstate] at hopened
    rcases hopened with hopened | hopened <;> cases hopened
  · obtain ⟨hreg, huser | hdestroy⟩ := hclosed 0 conn hconn hstate
    · rw [husers] at huser
      cases huser
    · exact ⟨hreg, hdestroy⟩

end

end TcpServer
