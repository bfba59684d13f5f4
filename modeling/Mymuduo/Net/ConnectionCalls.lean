import Mymuduo.Net.ConnectionLifetime

/-! # The life of a connection

    The calls of a connection's member functions, its creation and its removal,
    and the functors of the loops, each shown to keep the invariant of
    `ConnectionLifetime`.
-/

namespace TcpServer

variable {n : Nat}

/-! ## Member functions -/

section

variable {s : State n} {c : ConnPtr} {conn : Conn n}

theorem call_some (hconn : s.conns c = some conn)
    (f : TcpConnection → TcpConnection × List Effect) :
    s.call c f =
      (f conn.tcp).2.foldl (State.applyEffect c)
        (s.setConn c { conn with tcp := (f conn.tcp).1 }) := by
  unfold State.call
  rw [hconn]

/-- A member function concerns its own connection. -/
theorem call_concerns (hconn : s.conns c = some conn)
    (f : TcpConnection → TcpConnection × List Effect) : Concerns c s (s.call c f) := by
  rw [call_some hconn]
  have hstored : Concerns c s (s.setConn c { conn with tcp := (f conn.tcp).1 }) :=
    concerns_setConn hconn rfl
  exact hstored.trans (foldl_applyEffect_concerns setConn_self _).1

/-- A member function that keeps `state_` and ends nothing.  When the connection
    is down, all it may do is shut the socket down. -/
theorem Inv.call_mild (h : Inv s) (hconn : s.conns c = some conn)
    {f : TcpConnection → TcpConnection × List Effect}
    (hstate : (f conn.tcp).1.state_ = conn.tcp.state_)
    (hsocket : TcpConnection.SameSocket conn.tcp (f conn.tcp).1)
    (hmild : ∀ e ∈ (f conn.tcp).2, TcpConnection.Mild e)
    (hup : conn.up = true ∨ ∀ e ∈ (f conn.tcp).2, e = .shutdownWrite) :
    Inv (s.call c f) := by
  have hconcerns := call_concerns hconn f
  rw [call_some hconn] at hconcerns ⊢
  have hstored : Present (s.setConn c { conn with tcp := (f conn.tcp).1 }) c
      { conn with tcp := (f conn.tcp).1 } :=
    (h.present c conn hconn).store ⟨rfl, rfl, rfl, hstate, hsocket.1⟩ hsocket.2
  rcases hup with hup | hquiet
  · obtain ⟨conn', hconn', hp⟩ := hstored.foldl_mild setConn_self hup hmild
    exact h.of_concerns hconcerns hconn' hp
  · -- down: shutdownWrite touches the socket only, so the effects do nothing here
    have hskip : ∀ (t : State n) (es : List Effect), (t.conns c).isSome = true →
        (∀ e ∈ es, e = .shutdownWrite) → es.foldl (State.applyEffect c) t = t := by
      intro t es ht hes
      induction es with
      | nil => rfl
      | cons e es ih =>
        obtain ⟨conn', hconn'⟩ := Option.isSome_iff_exists.mp ht
        have hone : State.applyEffect c t e = t := by
          rw [hes e List.mem_cons_self]
          unfold State.applyEffect
          rw [hconn']
        rw [List.foldl_cons, hone]
        exact ih fun e' he' => hes e' (List.mem_cons_of_mem e he')
    rw [hskip _ _ (by simp) hquiet] at hconcerns ⊢
    exact h.of_concerns hconcerns setConn_self hstored

/-- `state_` becomes kDisconnected while the connection is up. -/
theorem Present.disconnect (h : Present s c conn) (hup : conn.up = true) {t : TcpConnection}
    (hstate : t.state_ = .kDisconnected) (hsocket : TcpConnection.SameSocket conn.tcp t) :
    Present (s.setConn c { conn with tcp := t }) c { conn with tcp := t } := by
  obtain ⟨hfd, hindex⟩ := hsocket
  refine Base.disconnected ⟨h.name, ?_, ?_, h.active, ?_, ?_⟩ hstate h.held h.raw
  · simp only [hfd]
    exact h.channels
  · simp only [hfd, hindex]
    exact h.interest
  · intro i stages hi
    obtain ⟨_, hio, _⟩ := h.current i stages hi
    exact ⟨hup, hio, fun _ => hstate⟩
  · intro i f hf
    have hfits := h.functors i f hf
    cases f with
    -- it is queued only before the connection is up
    | connectionEstablished d => exact absurd hfits (h.not_connecting hup)
    | removeConnectionInLoop d => exact hstate
    | connectionDestoryed d => exact ⟨hstate, hfits.2⟩
    | writeComplete d => trivial
    | highWaterMark d => trivial
    | sendInLoop d data => exact hfits
    | shutdownInLoop d => exact hfits

/-- A call that ends in `handleClose`, in an event of the connection. -/
theorem Inv.call_close (h : Inv s) (hconn : s.conns c = some conn) (hup : conn.up = true)
    {f : TcpConnection → TcpConnection × List Effect} {t : TcpConnection}
    (hf : f conn.tcp = t.handleClose) (hsocket : TcpConnection.SameSocket conn.tcp t) :
    Inv (s.call c f) := by
  have hconcerns := call_concerns hconn f
  rw [call_some hconn] at hconcerns ⊢
  simp only [hf, TcpConnection.handleClose, List.foldl_cons, List.foldl_nil] at hconcerns ⊢
  have hp := (h.present c conn hconn).disconnect hup
    (t := { t with state_ := .kDisconnected, channel_ := t.channel_.disableAll }) rfl hsocket
  -- disableAll, then the callback of the user, then closeCallback_
  obtain ⟨conn₁, hconn₁, hkin₁, hp₁⟩ := hp.applyEffect_mild setConn_self hup
    (e := .updateChannel t.channel_.disableAll.events_) ⟨by simp, by simp⟩
  obtain ⟨conn₂, hconn₂, hkin₂, hp₂⟩ := hp₁.applyEffect_mild hconn₁ (hkin₁.up.trans hup)
    (e := .connectionCallback .kDisconnected) ⟨by simp, by simp⟩
  have hkin := hkin₁.trans hkin₂
  obtain ⟨hconn₃, hp₃⟩ := hp₂.closeCallback hconn₂ (hkin.up.trans hup) (hkin.state_.trans rfl)
  exact h.of_concerns hconcerns hconn₃ hp₃

/-- A connection that is not up does nothing in `sendInLoop`. -/
theorem Inv.sendInLoop (h : Inv s) (hconn : s.conns c = some conn)
    (hup : conn.up = true ∨ conn.tcp.state_ = .kDisconnected) (data : List Byte)
    (r : WriteResult) : Inv (s.call c fun t => t.sendInLoop data r) := by
  obtain ⟨hstate, hsocket, hmild⟩ := TcpConnection.sendInLoop_mild conn.tcp data r
  refine h.call_mild hconn hstate hsocket hmild (hup.imp_right ?_)
  intro hdisconnected
  rw [TcpConnection.sendInLoop_disconnected hdisconnected]
  simp

theorem Inv.shutdownInLoop (h : Inv s) (hconn : s.conns c = some conn) :
    Inv (s.call c TcpConnection.shutdownInLoop) := by
  obtain ⟨hsame, hmild⟩ := TcpConnection.shutdownInLoop_mild conn.tcp
  refine h.call_mild hconn (by rw [hsame]) ?_ hmild (Or.inr ?_)
  · rw [hsame]
    exact ⟨rfl, rfl⟩
  · unfold TcpConnection.shutdownInLoop
    split <;> simp

theorem Inv.handleWrite (h : Inv s) (hconn : s.conns c = some conn) (hup : conn.up = true)
    (r : WriteResult) : Inv (s.call c fun t => t.handleWrite r) := by
  obtain ⟨hstate, hsocket, hmild⟩ := TcpConnection.handleWrite_mild conn.tcp r
  exact h.call_mild hconn hstate hsocket hmild (Or.inl hup)

theorem Inv.handleRead (h : Inv s) (hconn : s.conns c = some conn) (hup : conn.up = true)
    (r : ReadvResult) : Inv (s.call c fun t => t.handleRead r) := by
  obtain ⟨buf, hread | hclose | hnothing⟩ := TcpConnection.handleRead_cases conn.tcp r
  · refine h.call_mild hconn ?_ ?_ ?_ (Or.inl hup)
    all_goals rw [hread]
    · exact ⟨rfl, rfl⟩
    · simp [TcpConnection.Mild]
  · -- readv returned 0: the peer has closed
    exact h.call_close hconn hup hclose ⟨rfl, rfl⟩
  · refine h.call_mild hconn ?_ ?_ ?_ (Or.inl hup)
    all_goals rw [hnothing]
    · exact ⟨rfl, rfl⟩
    · simp

theorem Inv.handleClose (h : Inv s) (hconn : s.conns c = some conn) (hup : conn.up = true) :
    Inv (s.call c TcpConnection.handleClose) :=
  h.call_close hconn hup rfl ⟨rfl, rfl⟩

end

/-! ## Establishing a connection -/

/-- A connection before its `connectionEstablished`: only `connections_` knows it. -/
structure Nascent (s : State n) (c : ConnPtr) (conn : Conn n) : Prop where
  state : conn.tcp.state_ = .kConnecting
  down : conn.up = false
  listed : s.connections_ conn.connId = some c
  name : ∀ m, s.connections_ m = some c → m = conn.connId
  about : ∀ i, s.about i c = []
  channels : ∀ i fd, (s.loops i).poller.channels_ fd ≠ some c
  interest : ∀ i fd mask, (s.loops i).poller.interest fd ≠ some (mask, c)
  active : ∀ i, c ∉ (s.loops i).activeChannels_
  current : ∀ i stages, (s.loops i).current ≠ some (c, stages)

section

variable {s : State n} {c : ConnPtr} {conn : Conn n}

/-- A connection that is nowhere but in `connections_`, up and connected. -/
theorem Nascent.connect (h : Nascent s c conn) {t : TcpConnection}
    (hstate : t.state_ = .kConnected) :
    Present (s.setConn c { conn with tcp := t, up := true }) c
      { conn with tcp := t, up := true } := by
  have hnone : ∀ i f, f ∉ s.about i c := by
    intro i f hf
    rw [h.about i] at hf
    cases hf
  refine ⟨⟨h.name, ?_, ?_, ?_, ?_, ?_⟩, ?_, ?_, ?_, ?_⟩
  · exact fun i fd hi => absurd hi (h.channels i fd)
  · exact fun i fd mask hi => absurd hi (h.interest i fd mask)
  · exact fun i hi => absurd hi (h.active i)
  · exact fun i stages hi => absurd hi (h.current i stages)
  · exact fun i f hi => absurd hi (hnone i f)
  · intro hconnecting
    rw [hstate] at hconnecting
    cases hconnecting
  · exact fun _ => ⟨rfl, h.listed⟩
  · exact fun _ => Or.inl h.listed
  · exact fun _ _ _ _ _ _ => Or.inl h.listed

theorem Nascent.connectionEstablished (h : Nascent s c conn) (ho : Others s c)
    (hconn : s.conns c = some conn) : Inv (s.connectionEstablished c) := by
  have hup : s.setUp c true = s.setConn c { conn with up := true } := by
    unfold State.setUp
    rw [hconn]
  unfold State.connectionEstablished
  rw [hup]
  have hconcerns : Concerns c s
      ((s.setConn c { conn with up := true }).call c TcpConnection.connectionEstablished) := by
    have hstored : Concerns c s (s.setConn c { conn with up := true }) :=
      concerns_setConn hconn rfl
    exact hstored.trans (call_concerns setConn_self _)
  rw [call_some setConn_self] at hconcerns ⊢
  -- the flag and the new state are stored one after the other
  have htwice : ∀ conn₁ conn₂ : Conn n,
      (s.setConn c conn₁).setConn c conn₂ = s.setConn c conn₂ := by
    intro conn₁ conn₂
    simp [State.setConn]
  rw [htwice] at hconcerns ⊢
  have hp := h.connect (t := (TcpConnection.connectionEstablished conn.tcp).1) rfl
  have hmild : ∀ e ∈ (TcpConnection.connectionEstablished conn.tcp).2, TcpConnection.Mild e := by
    simp [TcpConnection.connectionEstablished, TcpConnection.Mild]
  obtain ⟨conn', hconn', hp'⟩ := hp.foldl_mild setConn_self rfl hmild
  exact (ho.step hconcerns).inv hconn' hp'

/-- `connectionEstablished` is queued in the connection's loop. -/
theorem Nascent.queue (h : Nascent s c conn) (b : Bool) :
    Present (s.queueInLoop conn.ioLoop b (.connectionEstablished c)) c conn := by
  have habout : ∀ i, (s.queueInLoop conn.ioLoop b (.connectionEstablished c)).about i c =
      if i = conn.ioLoop then [.connectionEstablished c] else [] := by
    intro i
    split
    · rename_i hi
      have hself : (s.queueInLoop conn.ioLoop b (.connectionEstablished c)).about conn.ioLoop c =
          s.about conn.ioLoop c ++ [.connectionEstablished c] := queueInLoop_about_self rfl
      rw [hi, hself, h.about, List.nil_append]
    · rename_i hi
      rw [queueInLoop_about_of_ne hi, h.about]
  have hmem : ∀ i f, f ∈ (s.queueInLoop conn.ioLoop b (.connectionEstablished c)).about i c →
      f = .connectionEstablished c := by
    intro i f hf
    rw [habout i] at hf
    split at hf
    · exact List.mem_singleton.mp hf
    · cases hf
  have hsame := queueInLoop_channels s conn.ioLoop b (.connectionEstablished c)
  refine ⟨⟨h.name, ?_, ?_, ?_, ?_, ?_⟩, ?_, ?_, ?_, ?_⟩
  · intro i fd hi
    rw [(hsame i).poller] at hi
    exact absurd hi (h.channels i fd)
  · intro i fd mask hi
    rw [(hsame i).poller] at hi
    exact absurd hi (h.interest i fd mask)
  · intro i hi
    rw [(hsame i).active] at hi
    exact absurd hi (h.active i)
  · intro i stages hi
    rw [(hsame i).current] at hi
    exact absurd hi (h.current i stages)
  · intro i f hf
    rw [hmem i f hf]
    exact h.state
  · exact fun _ => ⟨h.down, h.listed, habout⟩
  · rw [h.state]
    intro hcases
    rcases hcases with hopened | hopened
    · cases hopened
    · cases hopened
  · rw [h.down]
    intro hup
    cases hup
  · exact fun _ _ _ _ _ _ => Or.inl h.listed

/-- A new connection does not disturb the others. -/
theorem addConnection_same (h : Inv s) (ioLoop : Fin (n + 1)) (sockfd : Nat) (wc : Bool)
    {d : ConnPtr} (hd : d ≠ s.created) : Same s (s.addConnection ioLoop sockfd wc) d := by
  refine ⟨Function.update_of_ne hd _ _, ?_, fun _ => rfl, fun _ _ => id, fun _ _ _ => id,
    fun _ => id, fun _ _ => id⟩
  intro m
  show Function.update s.connections_ s.nextConnId_ (some s.created) m = some d ↔ _
  by_cases hm : m = s.nextConnId_
  · rw [hm, Function.update_self]
    constructor
    · intro heq
      exact absurd (Option.some.inj heq).symm hd
    · intro hentry
      -- an entry under the next name would belong to nobody
      cases hconn : s.conns d with
      | none => exact absurd hentry ((h.absent d hconn).name _)
      | some conn =>
        have hname := (h.present d conn hconn).name _ hentry
        have hlt := h.fresh_name d conn hconn
        omega
  · rw [Function.update_of_ne hm]

theorem addConnection_others (h : Inv s) (ioLoop : Fin (n + 1)) (sockfd : Nat) (wc : Bool) :
    Others (s.addConnection ioLoop sockfd wc) s.created := by
  have hsame : ∀ d, d ≠ s.created → Same s (s.addConnection ioLoop sockfd wc) d :=
    fun d => addConnection_same h ioLoop sockfd wc
  -- every record is the new one or an old one
  have hcases : ∀ d conn, (s.addConnection ioLoop sockfd wc).conns d = some conn →
      (d = s.created ∧ conn.connId = s.nextConnId_) ∨
        (d ≠ s.created ∧ s.conns d = some conn ∧ conn.connId < s.nextConnId_) := by
    intro d conn hconn
    by_cases hd : d = s.created
    · refine Or.inl ⟨hd, ?_⟩
      rw [hd] at hconn
      simp only [State.addConnection, Function.update_self, Option.some.injEq] at hconn
      rw [← hconn]
    · rw [(hsame d hd).conns] at hconn
      exact Or.inr ⟨hd, hconn, h.fresh_name d conn hconn⟩
  refine ⟨⟨?_, ?_, ?_, h.threads, h.no_dangling⟩, ?_, ?_⟩
  · -- the new name is above all the old ones
    intro d e conn₁ conn₂ hd he hid
    rcases hcases d conn₁ hd with ⟨hdc, hid₁⟩ | ⟨hdc, hd', hid₁⟩
    · rcases hcases e conn₂ he with ⟨hec, _⟩ | ⟨_, _, hid₂⟩
      · rw [hdc, hec]
      · omega
    · rcases hcases e conn₂ he with ⟨_, hid₂⟩ | ⟨_, he', _⟩
      · omega
      · exact h.names d e conn₁ conn₂ hd' he' hid
  · intro d conn hd
    show conn.connId < s.nextConnId_ + 1
    rcases hcases d conn hd with ⟨_, hid⟩ | ⟨_, _, hid⟩
    · omega
    · omega
  · intro d hd
    have hlt : s.created + 1 ≤ d := hd
    rw [(hsame d (by omega)).conns]
    exact h.fresh_ptr d (by omega)
  · intro d conn hd hconn
    rw [(hsame d hd).conns] at hconn
    exact (h.present d conn hconn).same (hsame d hd)
  · intro d hd hconn
    rw [(hsame d hd).conns] at hconn
    exact (h.absent d hconn).same (hsame d hd)

theorem addConnection_nascent (h : Inv s) (ioLoop : Fin (n + 1)) (sockfd : Nat) (wc : Bool) :
    ∃ conn, (s.addConnection ioLoop sockfd wc).conns s.created = some conn ∧
      conn.ioLoop = ioLoop ∧ Nascent (s.addConnection ioLoop sockfd wc) s.created conn := by
  have habsent := h.absent s.created (h.fresh_ptr s.created (Nat.le_refl _))
  refine ⟨_, Function.update_self _ _ _, rfl, ⟨rfl, rfl, Function.update_self _ _ _, ?_,
    habsent.about, habsent.channels, habsent.interest, habsent.active, habsent.current⟩⟩
  -- before it was created nothing was entered for this pointer
  intro m hm
  by_contra hne
  exact habsent.name m ((Function.update_of_ne hne _ _).symm.trans hm)

theorem Inv.newConnection (h : Inv s) (ioLoop : Fin (n + 1)) (sockfd : Nat) (wc : Bool) :
    Inv (s.newConnection ioLoop sockfd wc) := by
  obtain ⟨conn, hconn, hloop, hnascent⟩ := addConnection_nascent h ioLoop sockfd wc
  have hothers := addConnection_others h ioLoop sockfd wc
  unfold State.newConnection
  simp only
  split
  · exact hnascent.connectionEstablished hothers hconn
  · have hp := hnascent.queue false
    rw [hloop] at hp
    exact (hothers.step (concerns_queueInLoop _ _ _ rfl)).inv hconn hp

end

/-! ## Removing a connection -/

section

variable {s : State n} {c : ConnPtr} {conn : Conn n}

/-- `removeConnectionInLoop` erases the entry of its own connection. -/
theorem concerns_eraseEntry (h : Others s c) (hconn : s.conns c = some conn) :
    Concerns c s
      { s with connections_ := Function.update s.connections_ conn.connId none } := by
  refine ⟨⟨rfl, rfl, rfl, id⟩, ?_, fun conn' h' => ⟨conn', h', rfl⟩⟩
  intro d hd
  refine ⟨rfl, ?_, fun _ => rfl, fun _ _ => id, fun _ _ _ => id, fun _ => id, fun _ _ => id⟩
  intro m
  show Function.update s.connections_ conn.connId none m = some d ↔ _
  by_cases hm : m = conn.connId
  · rw [hm, Function.update_self]
    constructor
    · intro heq
      cases heq
    · intro hentry
      -- names are unique
      cases hd' : s.conns d with
      | none => exact absurd hentry ((h.absent d hd hd').name _)
      | some conn' =>
        have hname := (h.present d conn' hd hd').name _ hentry
        exact absurd (h.names c d conn conn' hconn hd' hname).symm hd
  · rw [Function.update_of_ne hm]

/-- After `removeConnectionInLoop` the connection is owned by the
    `connectionDestoryed` in its loop, behind all functors with a raw pointer. -/
theorem Base.removeConnectionInLoop (h : Base s c conn) (hconn : s.conns c = some conn)
    (hstate : conn.tcp.state_ = .kDisconnected) :
    Present (s.removeConnectionInLoop c) c conn := by
  unfold State.removeConnectionInLoop
  rw [hconn]
  simp only
  generalize hs' : ({ s with
    connections_ := Function.update s.connections_ conn.connId none } : State n) = s'
  have hloops : s'.loops = s.loops := by rw [← hs']
  have hnames : s'.connections_ = Function.update s.connections_ conn.connId none := by
    rw [← hs']
  have habout : ∀ i, s'.about i c = s.about i c := by
    intro i
    rw [State.about, hloops]
    rfl
  have hself : (s'.queueInLoop conn.ioLoop (conn.ioLoop = 0) (.connectionDestoryed c)).about
      conn.ioLoop c = s.about conn.ioLoop c ++ [.connectionDestoryed c] := by
    rw [← habout]
    exact queueInLoop_about_self rfl
  have hmem : ∀ i f, f ∈ (s'.queueInLoop conn.ioLoop (conn.ioLoop = 0)
      (.connectionDestoryed c)).about i c → f ∈ s.about i c ∨ f.Fits conn i := by
    intro i f hf
    by_cases hi : i = conn.ioLoop
    · subst hi
      rw [hself] at hf
      rcases List.mem_append.mp hf with hf | hf
      · exact Or.inl hf
      · rw [List.mem_singleton.mp hf]
        exact Or.inr ⟨hstate, rfl⟩
    · rw [queueInLoop_about_of_ne hi, habout] at hf
      exact Or.inl hf
  have hsame := queueInLoop_channels s' conn.ioLoop (conn.ioLoop = 0) (.connectionDestoryed c)
  rw [hloops] at hsame
  have hname : ∀ m, (s'.queueInLoop conn.ioLoop (conn.ioLoop = 0)
      (.connectionDestoryed c)).connections_ m = some c → m = conn.connId := by
    intro m hm
    rw [queueInLoop_connections_, hnames] at hm
    by_cases hne : m = conn.connId
    · exact hne
    · rw [Function.update_of_ne hne] at hm
      exact h.name m hm
  have hbase := h.requeue hname hsame hmem
  refine hbase.disconnected hstate ?_ ?_
  · intro _
    refine Or.inr (Or.inr ⟨conn.ioLoop, ?_⟩)
    rw [hself]
    exact List.mem_append_right _ List.mem_cons_self
  · intro i pre f post hsplit hraw
    -- the functor is in the connection's loop, where the new one is the last
    have hfmem : f ∈ (s'.queueInLoop conn.ioLoop (conn.ioLoop = 0)
        (.connectionDestoryed c)).about i c := by
      rw [hsplit]
      exact List.mem_append_right _ List.mem_cons_self
    obtain rfl := (hbase.functors i f hfmem).raw hraw
    rw [hself] at hsplit
    rcases append_singleton_split hsplit with ⟨_, rfl, _⟩ | ⟨post', rfl, _⟩
    · cases hraw
    · exact Or.inr (Or.inr (List.mem_append_right _ List.mem_cons_self))

theorem Others.removeConnectionInLoop (h : Others s c) (hconn : s.conns c = some conn)
    (hbase : Base s c conn) (hstate : conn.tcp.state_ = .kDisconnected) :
    Inv (s.removeConnectionInLoop c) := by
  have hconcerns : Concerns c s (s.removeConnectionInLoop c) := by
    unfold State.removeConnectionInLoop
    rw [hconn]
    exact (concerns_eraseEntry h hconn).trans (concerns_queueInLoop _ _ _ rfl)
  have hconn' : (s.removeConnectionInLoop c).conns c = some conn := by
    unfold State.removeConnectionInLoop
    simp only [hconn, queueInLoop_conns]
  exact (h.step hconcerns).inv hconn' (hbase.removeConnectionInLoop hconn hstate)

/-- `closeCallback_` in the connection's loop. -/
theorem Inv.removeConnection (h : Inv s) (hconn : s.conns c = some conn) (hup : conn.up = true)
    (hstate : conn.tcp.state_ = .kDisconnected) (i : Fin (n + 1)) :
    Inv (s.removeConnection i c) := by
  have hp := h.present c conn hconn
  unfold State.removeConnection
  split
  · exact (h.others c).removeConnectionInLoop hconn hp.toBase hstate
  · have hp' : Present (s.queueInLoop 0 false (.removeConnectionInLoop c)) c conn :=
      hp.queueInLoop hup rfl hstate (by simp [Functor.owns])
    exact h.of_concerns (concerns_queueInLoop _ _ _ rfl) hconn hp'

end

/-! ## Functors -/

section

variable {s : State n} {i : Fin (n + 1)} {f : Functor} {rest : List Functor} {conn : Conn n}

/-- The functors about a connection after `f` has been taken off the queue. -/
theorem dequeue_about (hf : (s.loops i).loop.functors = f :: rest) (j : Fin (n + 1))
    (d : ConnPtr) :
    s.about j d =
      if j = i ∧ f.conn = d then f :: (s.dequeue i rest).about j d
      else (s.dequeue i rest).about j d := by
  unfold State.dequeue State.about
  by_cases hj : j = i
  · subst hj
    rw [setLoop_self]
    simp only [LoopThread.queue, hf, List.cons_append]
    by_cases hd : f.conn = d
    · -- f is about d exactly when the filter keeps it
      simp [hd]
    · simp [hd]
  · rw [setLoop_of_ne hj]
    simp [hj]

theorem dequeue_mem (hf : (s.loops i).loop.functors = f :: rest) {j : Fin (n + 1)}
    {d : ConnPtr} {g : Functor} :
    g ∈ s.about j d ↔ (j = i ∧ f.conn = d ∧ g = f) ∨ g ∈ (s.dequeue i rest).about j d := by
  rw [dequeue_about hf j d]
  split
  · rename_i hj
    simp [hj]
  · rename_i hj
    constructor
    · exact Or.inr
    · intro hcases
      rcases hcases with ⟨hji, hd, _⟩ | hg
      · exact absurd ⟨hji, hd⟩ hj
      · exact hg

theorem dequeue_channels (s : State n) (i : Fin (n + 1)) (rest : List Functor)
    (j : Fin (n + 1)) : SameChannels (s.loops j) ((s.dequeue i rest).loops j) := by
  unfold State.dequeue
  by_cases hj : j = i
  · subst hj
    rw [setLoop_self]
    exact ⟨rfl, rfl, rfl, rfl⟩
  · rw [setLoop_of_ne hj]
    exact ⟨rfl, rfl, rfl, rfl⟩

theorem concerns_dequeue (hrun : (s.loops i).running = true)
    (hf : (s.loops i).loop.functors = f :: rest) : Concerns f.conn s (s.dequeue i rest) := by
  have hsame := dequeue_channels s i rest
  refine ⟨⟨rfl, rfl, rfl, ?_⟩, ?_, fun conn h => ⟨conn, h, rfl⟩⟩
  · intro hsound j
    by_cases hj : j = i
    · subst hj
      unfold State.dequeue
      rw [setLoop_self]
      refine ⟨(hsound j).1, ?_⟩
      intro hstopped
      rw [show (s.loops j).running = false from hstopped] at hrun
      cases hrun
    · unfold State.dequeue
      rw [setLoop_of_ne hj]
      exact hsound j
  · intro d hd
    refine ⟨rfl, fun _ => Iff.rfl, ?_, ?_, ?_, ?_, ?_⟩
    all_goals intro j
    · rw [dequeue_about hf j d, if_neg]
      intro ⟨_, hfd⟩
      exact hd hfd.symm
    · rw [(hsame j).poller]
      exact fun _ => id
    · rw [(hsame j).poller]
      exact fun _ _ => id
    · rw [(hsame j).active]
      exact id
    · rw [(hsame j).current]
      exact fun _ => id

theorem Base.dequeue {c : ConnPtr} (h : Base s c conn)
    (hf : (s.loops i).loop.functors = f :: rest) : Base (s.dequeue i rest) c conn :=
  h.requeue h.name (dequeue_channels s i rest)
    fun _ _ hg => Or.inl ((dequeue_mem hf).mpr (Or.inr hg))

/-- The order of the functors with a raw pointer survives, unless
    `removeConnectionInLoop` is taken off the queue. -/
theorem Present.dequeue_raw {c : ConnPtr} (h : Present s c conn)
    (hf : (s.loops i).loop.functors = f :: rest) (hne : f ≠ .removeConnectionInLoop c)
    (j : Fin (n + 1)) (pre : List Functor) (g : Functor) (post : List Functor)
    (habout : (s.dequeue i rest).about j c = pre ++ g :: post) (hraw : g.owns = false) :
    s.connections_ conn.connId = some c ∨
      (∃ k, .removeConnectionInLoop c ∈ (s.dequeue i rest).about k c) ∨
      .connectionDestoryed c ∈ post := by
  -- the functor g had the same ones behind it before
  have hlift : ∀ pre', s.about j c = pre' ++ g :: post →
      s.connections_ conn.connId = some c ∨
        (∃ k, .removeConnectionInLoop c ∈ (s.dequeue i rest).about k c) ∨
        .connectionDestoryed c ∈ post := by
    intro pre' hold
    rcases h.raw j pre' g post hold hraw with hname | ⟨k, hk⟩ | hpost
    · exact Or.inl hname
    · rcases (dequeue_mem hf).mp hk with ⟨_, _, heq⟩ | hk
      · exact absurd heq.symm hne
      · exact Or.inr (Or.inl ⟨k, hk⟩)
    · exact Or.inr (Or.inr hpost)
  have hold := dequeue_about hf j c
  rw [habout] at hold
  split at hold
  · exact hlift (f :: pre) hold
  · exact hlift pre hold

/-- A functor that is not part of the connection's life is taken off the queue. -/
theorem Present.dequeue {c : ConnPtr} (h : Present s c conn)
    (hf : (s.loops i).loop.functors = f :: rest) (hest : f ≠ .connectionEstablished c)
    (hrem : f ≠ .removeConnectionInLoop c) (hdes : f ≠ .connectionDestoryed c) :
    Present (s.dequeue i rest) c conn := by
  refine ⟨h.toBase.dequeue hf, ?_, h.opened, ?_, h.dequeue_raw hf hrem⟩
  · intro hstate
    obtain ⟨hdown, hname, habout⟩ := h.connecting hstate
    refine ⟨hdown, hname, ?_⟩
    intro j
    rw [← habout j, dequeue_about hf j c, if_neg]
    intro hcases
    obtain ⟨rfl, hfc⟩ := hcases
    -- the one functor of a connecting connection is `connectionEstablished`
    have hmem : f ∈ s.about j c := (dequeue_mem hf).mpr (Or.inl ⟨rfl, hfc, rfl⟩)
    rw [habout j] at hmem
    split at hmem
    · exact hest (List.mem_singleton.mp hmem)
    · cases hmem
  · intro hup
    rcases h.held hup with hname | ⟨k, hk⟩ | ⟨k, hk⟩
    · exact Or.inl hname
    · rcases (dequeue_mem hf).mp hk with ⟨_, _, heq⟩ | hk
      · exact absurd heq.symm hrem
      · exact Or.inr (Or.inl ⟨k, hk⟩)
    · rcases (dequeue_mem hf).mp hk with ⟨_, _, heq⟩ | hk
      · exact absurd heq.symm hdes
      · exact Or.inr (Or.inr ⟨k, hk⟩)

/-- The queued `connectionEstablished` is all there is about a connecting
    connection. -/
theorem Present.nascent {c : ConnPtr} (h : Present s c conn)
    (hf : (s.loops i).loop.functors = .connectionEstablished c :: rest) :
    Nascent (s.dequeue i rest) c conn := by
  have hmem : .connectionEstablished c ∈ s.about i c :=
    (dequeue_mem hf).mpr (Or.inl ⟨rfl, rfl, rfl⟩)
  have hstate : conn.tcp.state_ = .kConnecting := h.functors i _ hmem
  obtain ⟨hdown, hname, habout⟩ := h.connecting hstate
  have hio : i = conn.ioLoop := by
    rw [habout i] at hmem
    split at hmem
    · assumption
    · cases hmem
  have hnot : conn.up ≠ true := by simp [hdown]
  have hbase := h.toBase.dequeue hf
  refine ⟨hstate, hdown, hname, h.name, ?_, fun j fd hj => hnot (hbase.channels j fd hj).1,
    fun j fd mask hj => hnot (hbase.interest j fd mask hj).1,
    fun j hj => hnot (hbase.active j hj).1,
    fun j stages hj => hnot (hbase.current j stages hj).1⟩
  intro j
  have hold := dequeue_about hf j c
  rw [habout j] at hold
  by_cases hj : j = i
  · rw [if_pos (hj.trans hio), if_pos ⟨hj, rfl⟩] at hold
    exact (List.cons.inj hold).2.symm
  · rw [if_neg (fun heq => hj (heq.trans hio.symm)), if_neg (fun heq => hj heq.1)] at hold
    exact hold.symm

end

section

variable {s : State n} {c : ConnPtr} {conn : Conn n}

/-- What the poller answers to `connectionDestoryed`. -/
def removedFrom (s : State n) (c : ConnPtr) (conn : Conn n) : EPollPoller ConnPtr × Channel :=
  (s.loops conn.ioLoop).poller.removeChannel c conn.tcp.channel_

/-- The record after `connectionDestoryed`. -/
def takenDown (s : State n) (c : ConnPtr) (conn : Conn n) : Conn n :=
  { conn with
    tcp := { conn.tcp with
      channel_ := { conn.tcp.channel_ with index_ := (removedFrom s c conn).2.index_ } }
    up := false }

/-- After `handleClose`, `connectionDestoryed` takes the channel out of the poller
    and does nothing else. -/
theorem connectionDestoryed_eq (hconn : s.conns c = some conn)
    (hstate : conn.tcp.state_ = .kDisconnected) :
    s.connectionDestoryed c =
      (s.setLoop conn.ioLoop
        { s.loops conn.ioLoop with poller := (removedFrom s c conn).1 }).setConn c
        (takenDown s c conn) := by
  have hcall : TcpConnection.connectionDestoryed conn.tcp = (conn.tcp, [.removeChannel]) := by
    simp [TcpConnection.connectionDestoryed, hstate]
  unfold State.connectionDestoryed
  rw [call_some hconn, hcall]
  simp [State.applyEffect, State.setRegistration, State.setUp, State.setConn, State.setLoop,
    takenDown, removedFrom]

theorem Others.connectionDestoryed (h : Others s c) (hconn : s.conns c = some conn)
    (hbase : Base s c conn) (hstate : conn.tcp.state_ = .kDisconnected)
    (hactive : (s.loops conn.ioLoop).activeChannels_ = [])
    (hcurrent : (s.loops conn.ioLoop).current = none)
    (hraw : ∀ i pre f post, s.about i c = pre ++ f :: post → f.owns = false →
      s.connections_ conn.connId = some c ∨ (∃ j, .removeConnectionInLoop c ∈ s.about j c) ∨
        .connectionDestoryed c ∈ post) : Inv (s.connectionDestoryed c) := by
  rw [connectionDestoryed_eq hconn hstate]
  have hloop : Concerns c s (s.setLoop conn.ioLoop
      { s.loops conn.ioLoop with poller := (removedFrom s c conn).1 }) := by
    refine concerns_setLoop rfl id ?_ ?_ (fun _ _ => id) (fun _ _ _ => id)
    · intro d fd _ hd
      exact (EPollPoller.removeChannel_channels_ hd).1
    · intro d fd mask _ hd
      exact (EPollPoller.removeChannel_interest hd).1
  have hconn' : (s.setLoop conn.ioLoop
      { s.loops conn.ioLoop with poller := (removedFrom s c conn).1 }).conns c = some conn := hconn
  have hset : Concerns c _ (State.setConn _ c (takenDown s c conn)) := concerns_setConn hconn' rfl
  refine ((h.step hloop).step hset).inv setConn_self ?_
  have habout : ∀ j, (s.setLoop conn.ioLoop
      { s.loops conn.ioLoop with poller := (removedFrom s c conn).1 }).about j c = s.about j c :=
    fun j => setLoop_about rfl
  refine Base.disconnected ⟨hbase.name, ?_, ?_, ?_, ?_, ?_⟩ hstate ?_ ?_
  all_goals simp only [setConn_loops, setConn_about, setConn_connections_, setLoop_connections_,
    habout]
  · intro i fd hi
    by_cases hio : i = conn.ioLoop
    · subst hio
      rw [setLoop_self] at hi
      -- the entry of this descriptor has just been erased
      obtain ⟨hold, hne⟩ := EPollPoller.removeChannel_channels_ hi
      exact absurd (hbase.channels _ fd hold).2.2 hne
    · rw [setLoop_of_ne hio] at hi
      exact absurd (hbase.channels i fd hi).2.1 hio
  · intro i fd mask hi
    by_cases hio : i = conn.ioLoop
    · subst hio
      rw [setLoop_self] at hi
      obtain ⟨hold, hne⟩ := EPollPoller.removeChannel_interest hi
      obtain ⟨_, _, hfd, hadded⟩ := hbase.interest _ fd mask hold
      -- an entry that is left would have a channel that is not added
      exact absurd hadded (hne hfd)
    · rw [setLoop_of_ne hio] at hi
      exact absurd (hbase.interest i fd mask hi).2.1 hio
  · intro i hi
    by_cases hio : i = conn.ioLoop
    · subst hio
      rw [setLoop_self, hactive] at hi
      cases hi
    · rw [setLoop_of_ne hio] at hi
      exact absurd (hbase.active i hi).2 hio
  · intro i stages hi
    by_cases hio : i = conn.ioLoop
    · subst hio
      rw [setLoop_self, hcurrent] at hi
      cases hi
    · rw [setLoop_of_ne hio] at hi
      exact absurd (hbase.current i stages hi).2.1 hio
  · exact fun i f hf => (hbase.functors i f hf).congr rfl rfl
  · intro hup
    cases hup
  · exact hraw

end

section

variable {s : State n} {i : Fin (n + 1)} {f : Functor} {rest : List Functor}

/-- One functor of `doPendingFunctors`. -/
theorem Inv.runFunctor (h : Inv s) (hrun : (s.loops i).running = true)
    (hf : (s.loops i).loop.functors = f :: rest) (w : WriteResult) :
    Inv ((s.dequeue i rest).runFunctor w f) := by
  have hmem : f ∈ s.about i f.conn := (dequeue_mem hf).mpr (Or.inl ⟨rfl, rfl, rfl⟩)
  -- a functor is about a connection that exists, also when it does not own it
  obtain ⟨conn, hconn⟩ : ∃ conn, s.conns f.conn = some conn := by
    cases hconn : s.conns f.conn with
    | some conn => exact ⟨conn, rfl⟩
    | none =>
      rw [(h.absent f.conn hconn).about i] at hmem
      cases hmem
  have hp := h.present f.conn conn hconn
  have hothers : Others (s.dequeue i rest) f.conn :=
    (h.others f.conn).step (concerns_dequeue hrun hf)
  have hbase := hp.toBase.dequeue hf
  have hconn' : (s.dequeue i rest).conns f.conn = some conn := hconn
  -- the functors that only use the connection leave its life as it is
  have hgo : f ≠ .connectionEstablished f.conn → f ≠ .removeConnectionInLoop f.conn →
      f ≠ .connectionDestoryed f.conn → Inv (s.dequeue i rest) :=
    fun hest hrem hdes => hothers.inv hconn' (hp.dequeue hf hest hrem hdes)
  cases f with
  | connectionEstablished c => exact (hp.nascent hf).connectionEstablished hothers hconn'
  | removeConnectionInLoop c =>
    exact hothers.removeConnectionInLoop hconn' hbase (hp.functors i _ hmem)
  | connectionDestoryed c =>
    obtain ⟨hstate, hio⟩ : conn.tcp.state_ = .kDisconnected ∧ i = conn.ioLoop :=
      hp.functors i _ hmem
    -- the loop is running functors, so it is not in the middle of its events
    obtain ⟨hactive, hcurrent⟩ := (h.threads i).1 hrun
    have hsame := dequeue_channels s i rest conn.ioLoop
    refine hothers.connectionDestoryed hconn' hbase hstate ?_ ?_ (hp.dequeue_raw hf (by simp))
    · rw [hsame.active, ← hio]
      exact hactive
    · rw [hsame.current, ← hio]
      exact hcurrent
  | writeComplete c => exact hgo (by simp) (by simp) (by simp)
  | highWaterMark c => exact hgo (by simp) (by simp) (by simp)
  | sendInLoop c data =>
    refine (hgo (by simp) (by simp) (by simp)).sendInLoop hconn' ?_ data w
    cases hstate : conn.tcp.state_ with
    | kDisconnected => exact Or.inr rfl
    | kConnected => exact Or.inl (hp.opened (Or.inl hstate)).1
    | kDisconnecting => exact Or.inl (hp.opened (Or.inr hstate)).1
    | kConnecting =>
      -- a connecting connection has `connectionEstablished` queued and nothing else
      rw [(hp.connecting hstate).2.2 i] at hmem
      split at hmem
      · cases List.mem_singleton.mp hmem
      · cases hmem
  | shutdownInLoop c => exact (hgo (by simp) (by simp) (by simp)).shutdownInLoop hconn'

end

end TcpServer
