import Mymuduo.Net.TcpServer

/-! # Registered channels belong to live connections

    A connection is up from `connectionEstablished` to `connectionDestoryed`, and
    its channel can be in the poller, in the kernel's interest set or in a list
    of active channels only while it is up.  While it is up the library owns it:
    through its `connections_` entry, then through `removeConnectionInLoop` in
    the base loop, then through `connectionDestoryed` in its own loop
    (`Present.held`).  The functors of `send` and `shutdown` own nothing, but
    each of them is queued ahead of the `connectionDestoryed` that ends the
    connection (`Present.raw`).

    The invariant is stated per connection.  A step concerns one connection; for
    the others nothing it looks at changes (`Same`).
-/

namespace TcpServer

variable {n : Nat}

/-! ## Ownership -/

/-- The functors of loop `i` about connection `c`, in order. -/
def State.about (s : State n) (i : Fin (n + 1)) (c : ConnPtr) : List Functor :=
  (s.loops i).queue.filter fun f => f.conn = c

/-- The channel of the connection is known to a poller or to the kernel, or is in
    a list of active channels that is being iterated. -/
def Registered (s : State n) (c : ConnPtr) : Prop :=
  (∃ i fd, (s.loops i).poller.channels_ fd = some c) ∨
  (∃ i fd mask, (s.loops i).poller.interest fd = some (mask, c)) ∨
  (∃ i, c ∈ (s.loops i).activeChannels_) ∨
  ∃ i stages, (s.loops i).current = some (c, stages)

/-- The library holds a strong reference: the `connections_` entry or a functor
    with a bound `TcpConnectionPtr`. -/
def LibraryRef (s : State n) (c : ConnPtr) : Prop :=
  (∃ m, s.connections_ m = some c) ∨
    ∃ i, ∃ f ∈ (s.loops i).queue, f.owns = true ∧ f.conn = c

theorem mem_about {s : State n} {i : Fin (n + 1)} {c : ConnPtr} {f : Functor} :
    f ∈ s.about i c ↔ f ∈ (s.loops i).queue ∧ f.conn = c := by
  simp [State.about]

/-! ## What the operations change -/

section

variable {s : State n} {i j : Fin (n + 1)} {c d : ConnPtr} {conn : Conn n}

@[simp] theorem setConn_self : (s.setConn c conn).conns c = some conn :=
  Function.update_self _ _ _

theorem setConn_of_ne (h : d ≠ c) : (s.setConn c conn).conns d = s.conns d :=
  Function.update_of_ne h _ _

@[simp] theorem setConn_loops : (s.setConn c conn).loops = s.loops := rfl

@[simp] theorem setConn_connections_ : (s.setConn c conn).connections_ = s.connections_ := rfl

@[simp] theorem setConn_about : (s.setConn c conn).about i d = s.about i d := rfl

@[simp] theorem setLoop_self {t : LoopThread} : (s.setLoop i t).loops i = t :=
  Function.update_self _ _ _

theorem setLoop_of_ne {t : LoopThread} (h : j ≠ i) : (s.setLoop i t).loops j = s.loops j :=
  Function.update_of_ne h _ _

@[simp] theorem setLoop_connections_ {t : LoopThread} :
    (s.setLoop i t).connections_ = s.connections_ := rfl

/-- A change to a thread that leaves its queue alone. -/
theorem setLoop_about {t : LoopThread} (h : t.queue = (s.loops i).queue) :
    (s.setLoop i t).about j d = s.about j d := by
  unfold State.about
  by_cases hj : j = i
  · subst hj
    rw [setLoop_self, h]
  · rw [setLoop_of_ne hj]

@[simp] theorem queueInLoop_conns {b : Bool} {f : Functor} :
    (s.queueInLoop i b f).conns = s.conns := rfl

@[simp] theorem queueInLoop_connections_ {b : Bool} {f : Functor} :
    (s.queueInLoop i b f).connections_ = s.connections_ := rfl

/-- Two states of a thread that differ in the functors at most. -/
structure SameChannels (t t' : LoopThread) : Prop where
  poller : t'.poller = t.poller
  active : t'.activeChannels_ = t.activeChannels_
  current : t'.current = t.current
  running : t'.running = t.running

/-- `queueInLoop` changes the pending functors of one loop. -/
theorem queueInLoop_channels (s : State n) (i : Fin (n + 1)) (b : Bool) (f : Functor)
    (j : Fin (n + 1)) : SameChannels (s.loops j) ((s.queueInLoop i b f).loops j) := by
  unfold State.queueInLoop
  by_cases hj : j = i
  · subst hj
    rw [setLoop_self]
    exact ⟨rfl, rfl, rfl, rfl⟩
  · rw [setLoop_of_ne hj]
    exact ⟨rfl, rfl, rfl, rfl⟩

theorem queueInLoop_functors {b : Bool} {f : Functor} :
    ((s.queueInLoop i b f).loops j).loop.functors = (s.loops j).loop.functors := by
  unfold State.queueInLoop
  by_cases hj : j = i
  · subst hj
    simp
  · rw [setLoop_of_ne hj]

theorem queueInLoop_queue {b : Bool} {f : Functor} :
    ((s.queueInLoop i b f).loops i).queue = (s.loops i).queue ++ [f] := by
  simp [State.queueInLoop, LoopThread.queue]

theorem queueInLoop_about_self {b : Bool} {f : Functor} (h : f.conn = c) :
    (s.queueInLoop i b f).about i c = s.about i c ++ [f] := by
  unfold State.about
  rw [queueInLoop_queue, List.filter_append]
  simp [h]

theorem queueInLoop_about_of_ne {b : Bool} {f : Functor} (h : j ≠ i) :
    (s.queueInLoop i b f).about j c = s.about j c := by
  unfold State.about State.queueInLoop
  rw [setLoop_of_ne h]

theorem queueInLoop_about_other {b : Bool} {f : Functor} (h : f.conn ≠ d) :
    (s.queueInLoop i b f).about j d = s.about j d := by
  by_cases hj : j = i
  · subst hj
    unfold State.about
    rw [queueInLoop_queue, List.filter_append]
    simp [h]
  · exact queueInLoop_about_of_ne hj

end

/-! ## The invariant of one connection -/

/-- The state of a connection, and the loop, in which a functor can be queued. -/
def Functor.Fits (conn : Conn n) (i : Fin (n + 1)) : Functor → Prop
  | .connectionEstablished _ => conn.tcp.state_ = .kConnecting
  | .removeConnectionInLoop _ => conn.tcp.state_ = .kDisconnected
  | .connectionDestoryed _ => conn.tcp.state_ = .kDisconnected ∧ i = conn.ioLoop
  | .writeComplete _ | .highWaterMark _ => True
  | .sendInLoop _ _ | .shutdownInLoop _ => i = conn.ioLoop

/-- Where a connection and its functors can be. -/
structure Base (s : State n) (c : ConnPtr) (conn : Conn n) : Prop where
  name : ∀ m, s.connections_ m = some c → m = conn.connId
  channels : ∀ i fd, (s.loops i).poller.channels_ fd = some c →
    conn.up = true ∧ i = conn.ioLoop ∧ fd = conn.tcp.channel_.fd_
  interest : ∀ i fd mask, (s.loops i).poller.interest fd = some (mask, c) →
    conn.up = true ∧ i = conn.ioLoop ∧ fd = conn.tcp.channel_.fd_ ∧
      conn.tcp.channel_.index_ = .kAdded
  active : ∀ i, c ∈ (s.loops i).activeChannels_ → conn.up = true ∧ i = conn.ioLoop
  current : ∀ i stages, (s.loops i).current = some (c, stages) →
    conn.up = true ∧ i = conn.ioLoop ∧
      (.closeCallback ∈ stages → conn.tcp.state_ = .kDisconnected)
  functors : ∀ i, ∀ f ∈ s.about i c, f.Fits conn i

/-- A connection that has not been destroyed. -/
structure Present (s : State n) (c : ConnPtr) (conn : Conn n) : Prop extends Base s c conn where
  connecting : conn.tcp.state_ = .kConnecting →
    conn.up = false ∧ s.connections_ conn.connId = some c ∧
      ∀ i, s.about i c = if i = conn.ioLoop then [.connectionEstablished c] else []
  opened : conn.tcp.state_ = .kConnected ∨ conn.tcp.state_ = .kDisconnecting →
    conn.up = true ∧ s.connections_ conn.connId = some c
  /-- The library owns a connection that is up. -/
  held : conn.up = true → s.connections_ conn.connId = some c ∨
    (∃ i, .removeConnectionInLoop c ∈ s.about i c) ∨ ∃ i, .connectionDestoryed c ∈ s.about i c
  /-- A functor with a raw pointer runs before the connection is let go. -/
  raw : ∀ i pre f post, s.about i c = pre ++ f :: post → f.owns = false →
    s.connections_ conn.connId = some c ∨ (∃ j, .removeConnectionInLoop c ∈ s.about j c) ∨
      .connectionDestoryed c ∈ post

/-- A connection that does not exist. -/
structure Absent (s : State n) (c : ConnPtr) : Prop where
  name : ∀ m, s.connections_ m ≠ some c
  about : ∀ i, s.about i c = []
  channels : ∀ i fd, (s.loops i).poller.channels_ fd ≠ some c
  interest : ∀ i fd mask, (s.loops i).poller.interest fd ≠ some (mask, c)
  active : ∀ i, c ∉ (s.loops i).activeChannels_
  current : ∀ i stages, (s.loops i).current ≠ some (c, stages)

/-- Functors run when no channel is being handled, and are taken off the queue
    for that only. -/
def LoopThread.Sound (t : LoopThread) : Prop :=
  (t.running = true → t.activeChannels_ = [] ∧ t.current = none) ∧
    (t.running = false → t.loop.functors = [])

/-- Names and pointers are fresh, threads are sound, and nothing has gone wrong. -/
structure Frame (s : State n) : Prop where
  names : ∀ c d conn conn', s.conns c = some conn → s.conns d = some conn' →
    conn.connId = conn'.connId → c = d
  fresh_name : ∀ c conn, s.conns c = some conn → conn.connId < s.nextConnId_
  fresh_ptr : ∀ c, s.created ≤ c → s.conns c = none
  threads : ∀ i, (s.loops i).Sound
  no_dangling : s.dangling = false

structure Inv (s : State n) : Prop extends Frame s where
  present : ∀ c conn, s.conns c = some conn → Present s c conn
  absent : ∀ c, s.conns c = none → Absent s c

/-- The invariant of every connection but `c`, for the middle of a step about `c`. -/
structure Others (s : State n) (c : ConnPtr) : Prop extends Frame s where
  present : ∀ d conn, d ≠ c → s.conns d = some conn → Present s d conn
  absent : ∀ d, d ≠ c → s.conns d = none → Absent s d

/-! ## Steps that do not concern a connection -/

/-- Nothing that the invariant of `d` looks at changes, except that `d` may be
    registered in fewer places. -/
structure Same (s s' : State n) (d : ConnPtr) : Prop where
  conns : s'.conns d = s.conns d
  names : ∀ m, s'.connections_ m = some d ↔ s.connections_ m = some d
  about : ∀ i, s'.about i d = s.about i d
  channels : ∀ i fd, (s'.loops i).poller.channels_ fd = some d →
    (s.loops i).poller.channels_ fd = some d
  interest : ∀ i fd mask, (s'.loops i).poller.interest fd = some (mask, d) →
    (s.loops i).poller.interest fd = some (mask, d)
  active : ∀ i, d ∈ (s'.loops i).activeChannels_ → d ∈ (s.loops i).activeChannels_
  current : ∀ i stages, (s'.loops i).current = some (d, stages) →
    (s.loops i).current = some (d, stages)

section

variable {s s' s'' : State n} {c d : ConnPtr} {conn : Conn n}

theorem Same.refl (s : State n) (d : ConnPtr) : Same s s d :=
  ⟨rfl, fun _ => Iff.rfl, fun _ => rfl, fun _ _ => id, fun _ _ _ => id, fun _ => id,
    fun _ _ => id⟩

theorem Same.trans (h : Same s s' d) (k : Same s' s'' d) : Same s s'' d where
  conns := k.conns.trans h.conns
  names := fun m => (k.names m).trans (h.names m)
  about := fun i => (k.about i).trans (h.about i)
  channels := fun i fd hd => h.channels i fd (k.channels i fd hd)
  interest := fun i fd mask hd => h.interest i fd mask (k.interest i fd mask hd)
  active := fun i hd => h.active i (k.active i hd)
  current := fun i stages hd => h.current i stages (k.current i stages hd)

theorem Base.same (h : Base s d conn) (hs : Same s s' d) : Base s' d conn where
  name := fun m hm => h.name m ((hs.names m).mp hm)
  channels := fun i fd hd => h.channels i fd (hs.channels i fd hd)
  interest := fun i fd mask hd => h.interest i fd mask (hs.interest i fd mask hd)
  active := fun i hd => h.active i (hs.active i hd)
  current := fun i stages hd => h.current i stages (hs.current i stages hd)
  functors := fun i f hd => h.functors i f (hs.about i ▸ hd)

theorem Present.same (h : Present s d conn) (hs : Same s s' d) : Present s' d conn := by
  refine ⟨h.toBase.same hs, ?_, ?_, ?_, ?_⟩
  · intro hstate
    obtain ⟨hup, hname, habout⟩ := h.connecting hstate
    exact ⟨hup, (hs.names _).mpr hname, fun i => (hs.about i).trans (habout i)⟩
  · intro hstate
    obtain ⟨hup, hname⟩ := h.opened hstate
    exact ⟨hup, (hs.names _).mpr hname⟩
  · intro hup
    simp only [hs.names, hs.about]
    exact h.held hup
  · intro i pre f post habout hraw
    simp only [hs.names, hs.about] at habout ⊢
    exact h.raw i pre f post habout hraw

theorem Absent.same (h : Absent s d) (hs : Same s s' d) : Absent s' d where
  name := fun m hm => h.name m ((hs.names m).mp hm)
  about := fun i => (hs.about i).trans (h.about i)
  channels := fun i fd hd => h.channels i fd (hs.channels i fd hd)
  interest := fun i fd mask hd => h.interest i fd mask (hs.interest i fd mask hd)
  active := fun i hd => h.active i (hs.active i hd)
  current := fun i stages hd => h.current i stages (hs.current i stages hd)

/-- The rest of the state: counters and threads. -/
structure Globals (s s' : State n) : Prop where
  nextConnId_ : s'.nextConnId_ = s.nextConnId_
  created : s'.created = s.created
  dangling : s'.dangling = s.dangling
  threads : (∀ i, (s.loops i).Sound) → ∀ i, (s'.loops i).Sound

theorem Globals.refl (s : State n) : Globals s s := ⟨rfl, rfl, rfl, id⟩

theorem Globals.trans (h : Globals s s') (k : Globals s' s'') : Globals s s'' :=
  ⟨k.nextConnId_.trans h.nextConnId_, k.created.trans h.created, k.dangling.trans h.dangling,
    fun hs => k.threads (h.threads hs)⟩

/-- No connection appears or changes its name. -/
theorem Frame.step (h : Frame s) (hg : Globals s s')
    (hback : ∀ d conn', s'.conns d = some conn' →
      ∃ conn, s.conns d = some conn ∧ conn.connId = conn'.connId) : Frame s' := by
  refine ⟨?_, ?_, ?_, hg.threads h.threads, hg.dangling.trans h.no_dangling⟩
  · intro d e conn₁ conn₂ hd he hids
    obtain ⟨conn₃, hd', hid3⟩ := hback d conn₁ hd
    obtain ⟨conn₄, he', hid4⟩ := hback e conn₂ he
    exact h.names d e conn₃ conn₄ hd' he' (by rw [hid3, hid4, hids])
  · intro d conn₁ hd
    obtain ⟨conn₃, hd', hid3⟩ := hback d conn₁ hd
    rw [hg.nextConnId_, ← hid3]
    exact h.fresh_name d conn₃ hd'
  · -- a pointer beyond the counter would have had a record before
    intro d hd
    rw [hg.created] at hd
    cases hd' : s'.conns d with
    | none => rfl
    | some conn' =>
      obtain ⟨conn, hconn, _⟩ := hback d conn' hd'
      rw [h.fresh_ptr d hd] at hconn
      cases hconn

/-- A step that concerns no connection. -/
theorem Inv.step_none (h : Inv s) (hg : Globals s s') (hall : ∀ d, Same s s' d) : Inv s' := by
  refine ⟨h.toFrame.step hg ?_, ?_, ?_⟩
  · intro d conn hd
    rw [(hall d).conns] at hd
    exact ⟨conn, hd, rfl⟩
  · intro d conn hd
    rw [(hall d).conns] at hd
    exact (h.present d conn hd).same (hall d)
  · intro d hd
    rw [(hall d).conns] at hd
    exact (h.absent d hd).same (hall d)

/-! A step about one connection: first the others, then the connection itself. -/

theorem Inv.others (h : Inv s) (c : ConnPtr) : Others s c :=
  ⟨h.toFrame, fun d conn _ => h.present d conn, fun d _ => h.absent d⟩

theorem Others.inv (h : Others s c) (hconn : s.conns c = some conn) (hp : Present s c conn) :
    Inv s := by
  refine ⟨h.toFrame, ?_, ?_⟩
  · intro d conn' hd
    by_cases hdc : d = c
    · subst hdc
      obtain rfl := Option.some.inj (hconn.symm.trans hd)
      exact hp
    · exact h.present d conn' hdc hd
  · intro d hd
    by_cases hdc : d = c
    · rw [hdc, hconn] at hd
      cases hd
    · exact h.absent d hdc hd

theorem Others.inv_absent (h : Others s c) (hconn : s.conns c = none) (ha : Absent s c) :
    Inv s := by
  refine ⟨h.toFrame, ?_, ?_⟩
  · intro d conn' hd
    by_cases hdc : d = c
    · rw [hdc, hconn] at hd
      cases hd
    · exact h.present d conn' hdc hd
  · intro d hd
    by_cases hdc : d = c
    · rw [hdc]
      exact ha
    · exact h.absent d hdc hd

/-- `s'` is `s` after something that concerns `c` only. -/
structure Concerns (c : ConnPtr) (s s' : State n) : Prop where
  globals : Globals s s'
  other : ∀ d, d ≠ c → Same s s' d
  back : ∀ conn', s'.conns c = some conn' →
    ∃ conn, s.conns c = some conn ∧ conn.connId = conn'.connId

theorem Concerns.refl (c : ConnPtr) (s : State n) : Concerns c s s :=
  ⟨Globals.refl s, fun d _ => Same.refl s d, fun conn h => ⟨conn, h, rfl⟩⟩

theorem Concerns.trans (h : Concerns c s s') (k : Concerns c s' s'') : Concerns c s s'' := by
  refine ⟨h.globals.trans k.globals, fun d hd => (h.other d hd).trans (k.other d hd), ?_⟩
  intro conn₂ h₂
  obtain ⟨conn₁, h₁, hid₁⟩ := k.back conn₂ h₂
  obtain ⟨conn₀, h₀, hid₀⟩ := h.back conn₁ h₁
  exact ⟨conn₀, h₀, hid₀.trans hid₁⟩

theorem Others.step (h : Others s c) (hc : Concerns c s s') : Others s' c := by
  refine ⟨h.toFrame.step hc.globals ?_, ?_, ?_⟩
  · intro d conn' hd
    by_cases hdc : d = c
    · rw [hdc] at hd ⊢
      exact hc.back conn' hd
    · rw [(hc.other d hdc).conns] at hd
      exact ⟨conn', hd, rfl⟩
  · intro d conn' hdc hd
    rw [(hc.other d hdc).conns] at hd
    exact (h.present d conn' hdc hd).same (hc.other d hdc)
  · intro d hdc hd
    rw [(hc.other d hdc).conns] at hd
    exact (h.absent d hdc hd).same (hc.other d hdc)

/-- A step that concerns one connection. -/
theorem Inv.of_concerns (h : Inv s) (hc : Concerns c s s') (hconn : s'.conns c = some conn)
    (hp : Present s' c conn) : Inv s' :=
  ((h.others c).step hc).inv hconn hp

end

/-! ## Effects

    An effect of `c` concerns `c` only, and keeps everything about it but the
    index of its channel. -/

/-- The two records differ in the buffers, masks and index at most. -/
structure Kin (conn conn' : Conn n) : Prop where
  ioLoop : conn'.ioLoop = conn.ioLoop
  connId : conn'.connId = conn.connId
  up : conn'.up = conn.up
  state_ : conn'.tcp.state_ = conn.tcp.state_
  fd_ : conn'.tcp.channel_.fd_ = conn.tcp.channel_.fd_

section

variable {s s' s'' : State n} {c d : ConnPtr} {conn conn' : Conn n} {i j : Fin (n + 1)}

theorem Kin.refl (conn : Conn n) : Kin conn conn := ⟨rfl, rfl, rfl, rfl, rfl⟩

theorem Kin.trans {conn'' : Conn n} (h : Kin conn conn') (k : Kin conn' conn'') :
    Kin conn conn'' :=
  ⟨k.ioLoop.trans h.ioLoop, k.connId.trans h.connId, k.up.trans h.up, k.state_.trans h.state_,
    k.fd_.trans h.fd_⟩

theorem concerns_setConn (hconn : s.conns c = some conn) (hid : conn'.connId = conn.connId) :
    Concerns c s (s.setConn c conn') := by
  refine ⟨⟨rfl, rfl, rfl, id⟩, ?_, ?_⟩
  · intro d hd
    exact ⟨setConn_of_ne hd, fun _ => Iff.rfl, fun _ => rfl, fun _ _ => id, fun _ _ _ => id,
      fun _ => id, fun _ _ => id⟩
  · intro conn₁ h₁
    obtain rfl := Option.some.inj (setConn_self.symm.trans h₁)
    exact ⟨conn, hconn, hid.symm⟩

theorem concerns_queueInLoop (s : State n) (i : Fin (n + 1)) (b : Bool) {f : Functor}
    (hf : f.conn = c) : Concerns c s (s.queueInLoop i b f) := by
  have hsame := queueInLoop_channels s i b f
  refine ⟨⟨rfl, rfl, rfl, ?_⟩, ?_, fun conn h => ⟨conn, h, rfl⟩⟩
  · intro hsound j
    unfold LoopThread.Sound
    rw [(hsame j).active, (hsame j).current, (hsame j).running, queueInLoop_functors]
    exact hsound j
  · intro d hd
    have hne : f.conn ≠ d := fun h => hd (h.symm.trans hf)
    refine ⟨rfl, fun _ => Iff.rfl, fun j => queueInLoop_about_other hne, ?_, ?_, ?_, ?_⟩
    all_goals intro j
    · rw [(hsame j).poller]
      exact fun _ => id
    · rw [(hsame j).poller]
      exact fun _ _ => id
    · rw [(hsame j).active]
      exact id
    · rw [(hsame j).current]
      exact fun _ => id

/-- A change to a thread that keeps its queue, and concerns `c` only. -/
theorem concerns_setLoop {t : LoopThread} (hqueue : t.queue = (s.loops i).queue)
    (hsound : (s.loops i).Sound → t.Sound)
    (hchannels : ∀ d fd, d ≠ c → t.poller.channels_ fd = some d →
      (s.loops i).poller.channels_ fd = some d)
    (hinterest : ∀ d fd mask, d ≠ c → t.poller.interest fd = some (mask, d) →
      (s.loops i).poller.interest fd = some (mask, d))
    (hactive : ∀ d, d ≠ c → d ∈ t.activeChannels_ → d ∈ (s.loops i).activeChannels_)
    (hcurrent : ∀ d stages, d ≠ c → t.current = some (d, stages) →
      (s.loops i).current = some (d, stages)) :
    Concerns c s (s.setLoop i t) := by
  refine ⟨⟨rfl, rfl, rfl, ?_⟩, ?_, fun conn h => ⟨conn, h, rfl⟩⟩
  · intro hall j
    by_cases hj : j = i
    · subst hj
      rw [setLoop_self]
      exact hsound (hall j)
    · rw [setLoop_of_ne hj]
      exact hall j
  · intro d hd
    -- in loop i by hypothesis, elsewhere nothing changes
    refine ⟨rfl, fun _ => Iff.rfl, fun j => setLoop_about hqueue, ?_, ?_, ?_, ?_⟩
    all_goals
      intro j
      by_cases hj : j = i
    · subst hj
      rw [setLoop_self]
      exact fun fd => hchannels d fd hd
    · rw [setLoop_of_ne hj]
      exact fun _ => id
    · subst hj
      rw [setLoop_self]
      exact fun fd mask => hinterest d fd mask hd
    · rw [setLoop_of_ne hj]
      exact fun _ _ => id
    · subst hj
      rw [setLoop_self]
      exact hactive d hd
    · rw [setLoop_of_ne hj]
      exact id
    · subst hj
      rw [setLoop_self]
      exact fun stages => hcurrent d stages hd
    · rw [setLoop_of_ne hj]
      exact fun _ => id

theorem concerns_setRegistration (hconn : s.conns c = some conn)
    {r : EPollPoller ConnPtr × Channel}
    (hchannels : ∀ d fd, d ≠ c → r.1.channels_ fd = some d →
      (s.loops conn.ioLoop).poller.channels_ fd = some d)
    (hinterest : ∀ d fd mask, d ≠ c → r.1.interest fd = some (mask, d) →
      (s.loops conn.ioLoop).poller.interest fd = some (mask, d)) :
    Concerns c s (s.setRegistration c conn r) :=
  (concerns_setLoop (t := { s.loops conn.ioLoop with poller := r.1 }) rfl id hchannels hinterest
    (fun _ _ => id) (fun _ _ _ => id)).trans (concerns_setConn hconn rfl)

/-- What an effect does to the rest of the system, and to the record of `c`. -/
theorem applyEffect_concerns (hconn : s.conns c = some conn) (e : Effect) :
    Concerns c s (State.applyEffect c s e) ∧
      ∃ conn', (State.applyEffect c s e).conns c = some conn' ∧ Kin conn conn' := by
  unfold State.applyEffect
  rw [hconn]
  cases e with
  | updateChannel events =>
    refine ⟨concerns_setRegistration hconn ?_ ?_, _, setConn_self, ⟨rfl, rfl, rfl, rfl, rfl⟩⟩
    · intro d fd hd h
      -- updateChannel registers the channel it is given and no other
      rcases EPollPoller.updateChannel_channels_ h with hold | ⟨_, rfl⟩
      · exact hold
      · exact absurd rfl hd
    · intro d fd mask hd h
      rcases EPollPoller.updateChannel_interest h with ⟨hold, _⟩ | ⟨_, rfl, _⟩
      · exact hold
      · exact absurd rfl hd
  | removeChannel =>
    refine ⟨concerns_setRegistration hconn ?_ ?_, _, setConn_self, ⟨rfl, rfl, rfl, rfl, rfl⟩⟩
    · intro d fd _ h
      exact (EPollPoller.removeChannel_channels_ h).1
    · intro d fd mask _ h
      exact (EPollPoller.removeChannel_interest h).1
  | queueWriteComplete => exact ⟨concerns_queueInLoop s _ true rfl, conn, hconn, Kin.refl conn⟩
  | queueHighWaterMark size =>
    exact ⟨concerns_queueInLoop s _ true rfl, conn, hconn, Kin.refl conn⟩
  | closeCallback =>
    simp only
    split
    · rename_i d stages hcur
      refine ⟨concerns_setLoop rfl ?_ (fun _ _ _ => id) (fun _ _ _ _ => id) (fun _ _ => id) ?_,
        conn, hconn, Kin.refl conn⟩
      · intro hsound
        -- a thread in handleEvent is not running functors
        refine ⟨?_, hsound.2⟩
        intro hrun
        have := (hsound.1 hrun).2
        rw [hcur] at this
        cases this
      · intro d' stages' hd h
        simp only [Option.some.injEq, Prod.mk.injEq] at h
        exact absurd h.1.symm hd
    · exact ⟨Concerns.refl c s, conn, hconn, Kin.refl conn⟩
  | write data r => exact ⟨Concerns.refl c s, conn, hconn, Kin.refl conn⟩
  | shutdownWrite => exact ⟨Concerns.refl c s, conn, hconn, Kin.refl conn⟩
  | connectionCallback state => exact ⟨Concerns.refl c s, conn, hconn, Kin.refl conn⟩
  | messageCallback => exact ⟨Concerns.refl c s, conn, hconn, Kin.refl conn⟩

theorem foldl_applyEffect_concerns (hconn : s.conns c = some conn) (es : List Effect) :
    Concerns c s (es.foldl (State.applyEffect c) s) ∧
      ∃ conn', (es.foldl (State.applyEffect c) s).conns c = some conn' ∧ Kin conn conn' := by
  induction es generalizing s conn with
  | nil => exact ⟨Concerns.refl c s, conn, hconn, Kin.refl conn⟩
  | cons e es ih =>
    obtain ⟨h1, conn₁, hconn₁, hk1⟩ := applyEffect_concerns hconn e
    obtain ⟨h2, conn₂, hconn₂, hk2⟩ := ih hconn₁
    exact ⟨h1.trans h2, conn₂, hconn₂, hk1.trans hk2⟩

end

/-! ## The invariant of `c` after an effect -/

section

variable {s s' : State n} {c : ConnPtr} {conn conn' : Conn n}

/-- A functor looks at `state_` and at the loop. -/
theorem Functor.Fits.congr {f : Functor} {i : Fin (n + 1)} (h : f.Fits conn i)
    (hstate : conn'.tcp.state_ = conn.tcp.state_) (hloop : conn'.ioLoop = conn.ioLoop) :
    f.Fits conn' i := by
  cases f with
  | connectionEstablished c => exact hstate.trans h
  | removeConnectionInLoop c => exact hstate.trans h
  | connectionDestoryed c => exact ⟨hstate.trans h.1, h.2.trans hloop.symm⟩
  | writeComplete c => trivial
  | highWaterMark c => trivial
  | sendInLoop c data => exact Eq.trans h hloop.symm
  | shutdownInLoop c => exact Eq.trans h hloop.symm

/-- A functor with a raw pointer is in the connection's loop. -/
theorem Functor.Fits.raw {f : Functor} {i : Fin (n + 1)} (h : f.Fits conn i)
    (hraw : f.owns = false) : i = conn.ioLoop := by
  cases f with
  | sendInLoop c data => exact h
  | shutdownInLoop c => exact h
  | _ => cases hraw

/-- A connection that is up is past kConnecting. -/
theorem Present.not_connecting (h : Present s c conn) (hup : conn.up = true) :
    conn.tcp.state_ ≠ .kConnecting := by
  intro hstate
  rw [(h.connecting hstate).1] at hup
  cases hup

/-- A disconnected connection: what is left to say is who holds it. -/
theorem Base.disconnected (h : Base s c conn) (hstate : conn.tcp.state_ = .kDisconnected)
    (hheld : conn.up = true → s.connections_ conn.connId = some c ∨
      (∃ i, .removeConnectionInLoop c ∈ s.about i c) ∨
      ∃ i, .connectionDestoryed c ∈ s.about i c)
    (hraw : ∀ i pre f post, s.about i c = pre ++ f :: post → f.owns = false →
      s.connections_ conn.connId = some c ∨ (∃ j, .removeConnectionInLoop c ∈ s.about j c) ∨
        .connectionDestoryed c ∈ post) : Present s c conn := by
  refine ⟨h, ?_, ?_, hheld, hraw⟩
  · intro hconnecting
    rw [hstate] at hconnecting
    cases hconnecting
  · intro hopened
    rw [hstate] at hopened
    rcases hopened with hopened | hopened
    · cases hopened
    · cases hopened

/-- Functors come and go, and the channel stays where it is. -/
theorem Base.requeue (h : Base s c conn)
    (hname : ∀ m, s'.connections_ m = some c → m = conn.connId)
    (hsame : ∀ j, SameChannels (s.loops j) (s'.loops j))
    (hmem : ∀ j f, f ∈ s'.about j c → f ∈ s.about j c ∨ f.Fits conn j) : Base s' c conn := by
  refine ⟨hname, ?_, ?_, ?_, ?_, ?_⟩
  · intro j
    rw [(hsame j).poller]
    exact h.channels j
  · intro j
    rw [(hsame j).poller]
    exact h.interest j
  · intro j
    rw [(hsame j).active]
    exact h.active j
  · intro j
    rw [(hsame j).current]
    exact h.current j
  · intro j f hf
    rcases hmem j f hf with hold | hfits
    · exact h.functors j f hold
    · exact hfits

/-- A change of the record and of the registration, with the functors and the
    `connections_` entry as they were. -/
theorem Present.move (h : Present s c conn) (hkin : Kin conn conn')
    (hnames : s'.connections_ = s.connections_) (habout : ∀ i, s'.about i c = s.about i c)
    (hactive : ∀ i, c ∈ (s'.loops i).activeChannels_ → conn.up = true ∧ i = conn.ioLoop)
    (hcurrent : ∀ i stages, (s'.loops i).current = some (c, stages) →
      conn.up = true ∧ i = conn.ioLoop ∧
        (.closeCallback ∈ stages → conn.tcp.state_ = .kDisconnected))
    (hchannels : ∀ i fd, (s'.loops i).poller.channels_ fd = some c →
      conn.up = true ∧ i = conn.ioLoop ∧ fd = conn.tcp.channel_.fd_)
    (hinterest : ∀ i fd mask, (s'.loops i).poller.interest fd = some (mask, c) →
      conn.up = true ∧ i = conn.ioLoop ∧ fd = conn.tcp.channel_.fd_ ∧
        conn'.tcp.channel_.index_ = .kAdded) : Present s' c conn' := by
  -- rewrite the new record into the old one, field by field of Present
  obtain ⟨hk1, hk2, hk3, hk4, hk5⟩ := hkin
  refine ⟨⟨?_, ?_, ?_, ?_, ?_, ?_⟩, ?_, ?_, ?_, ?_⟩
  · rw [hnames, hk2]
    exact h.name
  · rw [hk1, hk3, hk5]
    exact hchannels
  · rw [hk1, hk3, hk5]
    exact hinterest
  · rw [hk1, hk3]
    exact hactive
  · rw [hk1, hk3, hk4]
    exact hcurrent
  · intro i f hf
    rw [habout] at hf
    exact (h.functors i f hf).congr hk4 hk1
  · simp only [habout, hk1, hk2, hk3, hk4, hnames]
    exact h.connecting
  · simp only [hk2, hk3, hk4, hnames]
    exact h.opened
  · simp only [habout, hk2, hk3, hnames]
    exact h.held
  · simp only [habout, hk2, hnames]
    exact h.raw

/-- A change of the record alone. -/
theorem Present.store (h : Present s c conn) (hkin : Kin conn conn')
    (hindex : conn'.tcp.channel_.index_ = conn.tcp.channel_.index_) :
    Present (s.setConn c conn') c conn' := by
  refine h.move hkin rfl (fun _ => rfl) h.active h.current h.channels ?_
  rw [hindex]
  exact h.interest

/-- A change of the record and of one thread. -/
theorem Present.setThread (h : Present s c conn) (hkin : Kin conn conn') {i : Fin (n + 1)}
    {t : LoopThread} (hloops : s'.loops = (s.setLoop i t).loops)
    (hnames : s'.connections_ = s.connections_)
    (hindex : i = conn.ioLoop ∨ conn'.tcp.channel_.index_ = conn.tcp.channel_.index_)
    (hqueue : t.queue = (s.loops i).queue)
    (hactive : c ∈ t.activeChannels_ → conn.up = true ∧ i = conn.ioLoop)
    (hcurrent : ∀ stages, t.current = some (c, stages) → conn.up = true ∧ i = conn.ioLoop ∧
      (.closeCallback ∈ stages → conn.tcp.state_ = .kDisconnected))
    (hchannels : ∀ fd, t.poller.channels_ fd = some c →
      conn.up = true ∧ i = conn.ioLoop ∧ fd = conn.tcp.channel_.fd_)
    (hinterest : ∀ fd mask, t.poller.interest fd = some (mask, c) →
      conn.up = true ∧ i = conn.ioLoop ∧ fd = conn.tcp.channel_.fd_ ∧
        conn'.tcp.channel_.index_ = .kAdded) : Present s' c conn' := by
  have habout : ∀ j, s'.about j c = s.about j c := by
    intro j
    have hset : (s.setLoop i t).about j c = s.about j c := setLoop_about hqueue
    rw [← hset, State.about, State.about, hloops]
  refine h.move hkin hnames habout ?_ ?_ ?_ ?_
  all_goals
    intro j
    rw [hloops]
    by_cases hj : j = i
  · subst hj
    rw [setLoop_self]
    exact hactive
  · rw [setLoop_of_ne hj]
    exact h.active j
  · subst hj
    rw [setLoop_self]
    exact hcurrent
  · rw [setLoop_of_ne hj]
    exact h.current j
  · subst hj
    rw [setLoop_self]
    exact hchannels
  · rw [setLoop_of_ne hj]
    exact h.channels j
  · subst hj
    rw [setLoop_self]
    exact hinterest
  · rw [setLoop_of_ne hj]
    intro fd mask hint
    obtain ⟨hup, hio, hfd, hadded⟩ := h.interest j fd mask hint
    refine ⟨hup, hio, hfd, ?_⟩
    rcases hindex with hself | hsame
    · -- the connection is registered in its own loop only
      exact absurd (hio.trans hself.symm) hj
    · rw [hsame]
      exact hadded

/-- A change of one thread, for a connection that does not exist. -/
theorem Absent.setThread (h : Absent s c) {i : Fin (n + 1)} {t : LoopThread}
    (hqueue : t.queue = (s.loops i).queue) (hactive : c ∉ t.activeChannels_)
    (hcurrent : ∀ stages, t.current ≠ some (c, stages))
    (hpoller : t.poller = (s.loops i).poller) : Absent (s.setLoop i t) c := by
  refine ⟨h.name, fun j => (setLoop_about hqueue).trans (h.about j), ?_, ?_, ?_, ?_⟩
  all_goals
    intro j
    by_cases hj : j = i
  · subst hj
    rw [setLoop_self, hpoller]
    exact h.channels j
  · rw [setLoop_of_ne hj]
    exact h.channels j
  · subst hj
    rw [setLoop_self, hpoller]
    exact h.interest j
  · rw [setLoop_of_ne hj]
    exact h.interest j
  · subst hj
    rw [setLoop_self]
    exact hactive
  · rw [setLoop_of_ne hj]
    exact h.active j
  · subst hj
    rw [setLoop_self]
    exact hcurrent
  · rw [setLoop_of_ne hj]
    exact h.current j

theorem Present.updateChannel (h : Present s c conn) (hconn : s.conns c = some conn)
    (hup : conn.up = true) (events : EventMask) :
    ∃ conn', (State.applyEffect c s (.updateChannel events)).conns c = some conn' ∧
      Present (State.applyEffect c s (.updateChannel events)) c conn' := by
  unfold State.applyEffect
  rw [hconn]
  refine ⟨_, setConn_self, h.setThread ⟨rfl, rfl, rfl, rfl, rfl⟩ rfl rfl (Or.inl rfl) rfl
    (h.active conn.ioLoop) (h.current conn.ioLoop) ?_ ?_⟩
  · intro fd hfd
    rcases EPollPoller.updateChannel_channels_ hfd with hold | ⟨hself, _⟩
    · exact h.channels _ fd hold
    · exact ⟨hup, rfl, hself⟩
  · intro fd mask hint
    -- an old entry survives only if the channel is still added
    rcases EPollPoller.updateChannel_interest hint with ⟨hold, hadded⟩ | ⟨hself, _, hadded⟩
    · obtain ⟨_, _, hfd, _⟩ := h.interest _ fd mask hold
      exact ⟨hup, rfl, hfd, hadded hfd⟩
    · exact ⟨hup, rfl, hself, hadded⟩

/-- Work about a connection that is up is added to a queue.  A functor with a raw
    pointer is queued only while the connection has its `connections_` entry. -/
theorem Present.queueInLoop (h : Present s c conn) (hup : conn.up = true) {i : Fin (n + 1)}
    {b : Bool} {f : Functor} (hf : f.conn = c) (hfits : f.Fits conn i)
    (hraw : f.owns = false → s.connections_ conn.connId = some c) :
    Present (s.queueInLoop i b f) c conn := by
  have hmem : ∀ j g, g ∈ (s.queueInLoop i b f).about j c →
      g ∈ s.about j c ∨ g.Fits conn j := by
    intro j g hg
    by_cases hj : j = i
    · subst hj
      rw [queueInLoop_about_self hf] at hg
      rcases List.mem_append.mp hg with hg | hg
      · exact Or.inl hg
      · rw [List.mem_singleton.mp hg]
        exact Or.inr hfits
    · rw [queueInLoop_about_of_ne hj] at hg
      exact Or.inl hg
  have hkeep : ∀ j g, g ∈ s.about j c → g ∈ (s.queueInLoop i b f).about j c := by
    intro j g hg
    by_cases hj : j = i
    · subst hj
      rw [queueInLoop_about_self hf]
      exact List.mem_append_left _ hg
    · rw [queueInLoop_about_of_ne hj]
      exact hg
  refine ⟨h.toBase.requeue h.name (queueInLoop_channels s i b f) hmem, ?_, h.opened, ?_, ?_⟩
  · intro hstate
    exact absurd hstate (h.not_connecting hup)
  · intro hup
    rcases h.held hup with hname | ⟨j, hj⟩ | ⟨j, hj⟩
    · exact Or.inl hname
    · exact Or.inr (Or.inl ⟨j, hkeep j _ hj⟩)
    · exact Or.inr (Or.inr ⟨j, hkeep j _ hj⟩)
  · intro j pre g post habout hg
    -- where the functor was before, or that it is the new one
    have hcases : (g = f ∧ post = []) ∨
        ∃ post', s.about j c = pre ++ g :: post' ∧ post' ⊆ post := by
      by_cases hj : j = i
      · subst hj
        rw [queueInLoop_about_self hf] at habout
        rcases append_singleton_split habout with ⟨hpost, hfg, _⟩ | ⟨post', rfl, hold⟩
        · exact Or.inl ⟨hfg.symm, hpost⟩
        · exact Or.inr ⟨post', hold, List.subset_append_left _ _⟩
      · rw [queueInLoop_about_of_ne hj] at habout
        exact Or.inr ⟨post, habout, List.Subset.refl _⟩
    rcases hcases with ⟨rfl, _⟩ | ⟨post', hold, hsub⟩
    · exact Or.inl (hraw hg)
    · rcases h.raw j pre g post' hold hg with hname | ⟨k, hk⟩ | hdes
      · exact Or.inl hname
      · exact Or.inr (Or.inl ⟨k, hkeep k _ hk⟩)
      · exact Or.inr (Or.inr (hsub hdes))

/-- `closeCallback_` is put on the agenda of the `handleEvent` in progress. -/
theorem Present.closeCallback (h : Present s c conn) (hconn : s.conns c = some conn)
    (hup : conn.up = true) (hstate : conn.tcp.state_ = .kDisconnected) :
    (State.applyEffect c s .closeCallback).conns c = some conn ∧
      Present (State.applyEffect c s .closeCallback) c conn := by
  unfold State.applyEffect
  rw [hconn]
  simp only
  split
  · exact ⟨hconn, h.setThread (Kin.refl conn) rfl rfl (Or.inl rfl) rfl (h.active conn.ioLoop)
      (fun _ _ => ⟨hup, rfl, fun _ => hstate⟩) (h.channels conn.ioLoop)
      (h.interest conn.ioLoop)⟩
  · -- outside handleEvent the effect is not carried out
    exact ⟨hconn, h⟩

/-- The effects of `sendInLoop`, `handleWrite` and `shutdownInLoop`. -/
theorem Present.applyEffect_mild (h : Present s c conn) (hconn : s.conns c = some conn)
    (hup : conn.up = true) {e : Effect} (he : TcpConnection.Mild e) :
    ∃ conn', (State.applyEffect c s e).conns c = some conn' ∧ Kin conn conn' ∧
      Present (State.applyEffect c s e) c conn' := by
  obtain ⟨_, conn₁, hconn₁, hkin⟩ := applyEffect_concerns hconn e
  -- the record after the effect is known already; what is left is Present
  suffices hp : ∃ conn', (State.applyEffect c s e).conns c = some conn' ∧
      Present (State.applyEffect c s e) c conn' by
    obtain ⟨conn', hconn', hp⟩ := hp
    obtain rfl := Option.some.inj (hconn₁.symm.trans hconn')
    exact ⟨_, hconn₁, hkin, hp⟩
  cases e with
  | updateChannel events => exact h.updateChannel hconn hup events
  | removeChannel => exact absurd rfl he.2
  | closeCallback => exact absurd rfl he.1
  | queueWriteComplete =>
    unfold State.applyEffect
    rw [hconn]
    exact ⟨conn, hconn, h.queueInLoop hup rfl trivial (by simp [Functor.owns])⟩
  | queueHighWaterMark size =>
    unfold State.applyEffect
    rw [hconn]
    exact ⟨conn, hconn, h.queueInLoop hup rfl trivial (by simp [Functor.owns])⟩
  | write data r =>
    unfold State.applyEffect
    rw [hconn]
    exact ⟨conn, hconn, h⟩
  | shutdownWrite =>
    unfold State.applyEffect
    rw [hconn]
    exact ⟨conn, hconn, h⟩
  | connectionCallback state =>
    unfold State.applyEffect
    rw [hconn]
    exact ⟨conn, hconn, h⟩
  | messageCallback =>
    unfold State.applyEffect
    rw [hconn]
    exact ⟨conn, hconn, h⟩

theorem Present.foldl_mild (h : Present s c conn) (hconn : s.conns c = some conn)
    (hup : conn.up = true) {es : List Effect} (hes : ∀ e ∈ es, TcpConnection.Mild e) :
    ∃ conn', (es.foldl (State.applyEffect c) s).conns c = some conn' ∧
      Present (es.foldl (State.applyEffect c) s) c conn' := by
  induction es generalizing s conn with
  | nil => exact ⟨conn, hconn, h⟩
  | cons e es ih =>
    -- the connection is still up after the first effect
    obtain ⟨conn₁, hconn₁, hkin, h₁⟩ := h.applyEffect_mild hconn hup (hes e List.mem_cons_self)
    exact ih h₁ hconn₁ (hkin.up.trans hup) fun e' he' => hes e' (List.mem_cons_of_mem e he')

end

end TcpServer
