import Mymuduo.Example.EchoServer
import Mymuduo.Framework.Progress

/-! # What a request of the stress client gets from the echo server

    The client's side of the exchange: what it has received is what the server's kernel has
    accepted so far.  With the invariant of the server this says what a success of the client
    means, and that a request whose message the server has read whole can always be completed.
-/

namespace EchoServer

open TcpConnection

/-! ## The client's side -/

structure ClientInv (s : State) : Prop where
  nonempty : s.client.message ≠ []
  received : s.client.received <+: s.wire.accepted
  fresh : s.client.phase = .writeAll → s.client.received = []
  written : s.client.written ≤ s.client.message.length
  writing : s.client.phase = .writeAll ∨ s.client.phase = .sendFail →
    s.client.written < s.client.message.length
  reading : s.client.phase = .readExpected → s.client.received.length < s.client.message.length
  done : s.client.phase = .success → s.client.received.length = s.client.message.length

/-- The kernel takes nothing back. -/
theorem accepted_prefix_foldl (es : List Effect) (w : Wire) :
    w.accepted <+: (es.foldl Wire.apply w).accepted := by
  induction es generalizing w with
  | nil => exact List.prefix_refl _
  | cons e es ih =>
    have hone : w.accepted <+: (w.apply e).accepted := by
      cases e with
      | write data r => exact List.prefix_append _ _
      | _ => exact List.prefix_refl _
    exact hone.trans (ih (w.apply e))

/-- The server's steps let the client be. -/
theorem ClientInv.perform {s s' : State} (h : ClientInv s) (hclient : s'.client = s.client)
    (hwire : s.wire.accepted <+: s'.wire.accepted) : ClientInv s' := by
  obtain ⟨hne, hrec, hfresh, hle, hwriting, hreading, hdone⟩ := h
  rw [← hclient] at hne hrec hfresh hle hwriting hreading hdone
  exact ⟨hne, hrec.trans hwire, hfresh, hle, hwriting, hreading, hdone⟩

theorem ClientInv.send {s : State} (h : ClientInv s) {n : Int}
    (hphase : s.client.phase = .writeAll)
    (hn : n ≤ (s.client.message.length - s.client.written : Nat)) (toServer : List Byte) :
    ClientInv { s with client := s.client.send n, toServer := toServer } := by
  have hlt := h.writing (Or.inl hphase)
  by_cases hneg : n ≤ 0
  · have hsend : s.client.send n = { s.client with phase := .sendFail } := if_pos hneg
    rw [hsend]
    exact ⟨h.nonempty, h.received, by simp, h.written, fun _ => hlt, by simp, by simp⟩
  · have hsend : s.client.send n = { s.client with
        written := s.client.written + n.toNat
        phase := if s.client.written + n.toNat < s.client.message.length then .writeAll
          else .readExpected } := if_neg hneg
    rw [hsend]
    refine ⟨h.nonempty, h.received, fun _ => h.fresh hphase, ?_, ?_, ?_, ?_⟩
    · simp only
      omega
    · simp only
      split
      · rename_i hmore
        intro _
        exact hmore
      · simp
    · intro _
      show s.client.received.length < s.client.message.length
      rw [h.fresh hphase]
      exact List.length_pos_iff.mpr h.nonempty
    · simp only
      split <;> simp

/-- Reading on in a stream of which a prefix has been received. -/
theorem append_take_drop_prefix {α : Type} {xs ys : List α} (h : xs <+: ys) (n : Nat) :
    xs ++ (ys.drop xs.length).take n <+: ys := by
  obtain ⟨zs, rfl⟩ := h
  rw [List.drop_left, List.prefix_append_right_inj]
  exact List.take_prefix n zs

theorem ClientInv.recv {s : State} (h : ClientInv s) {n : Int}
    (hphase : s.client.phase = .readExpected) (hwant : n ≤ s.client.want)
    (hn : n ≤ s.toClient.length) :
    ClientInv { s with client := s.client.recv n (s.toClient.take n.toNat) } := by
  by_cases hneg : n ≤ 0
  · have hrecv : s.client.recv n (s.toClient.take n.toNat) =
        { s.client with phase := .recvFail } := if_pos hneg
    rw [hrecv]
    exact ⟨h.nonempty, h.received, by simp, h.written, by simp, by simp, by simp⟩
  · have hlen : (s.toClient.take n.toNat).length = n.toNat := by
      rw [List.length_take]
      omega
    have hrecv : s.client.recv n (s.toClient.take n.toNat) = { s.client with
        received := s.client.received ++ s.toClient.take n.toNat
        phase := if s.client.received.length + n.toNat < s.client.message.length
          then .readExpected else .success } := by
      rw [Client.recv, if_neg hneg, hlen]
    have hmax : s.client.received.length + n.toNat ≤ s.client.message.length := by
      have := h.reading hphase
      unfold Client.want at hwant
      omega
    rw [hrecv]
    refine ⟨h.nonempty, append_take_drop_prefix h.received n.toNat, ?_, h.written, ?_, ?_, ?_⟩
    · simp only
      split <;> simp
    · simp only
      split <;> simp
    · simp only [List.length_append, hlen]
      split
      · rename_i hmore
        intro _
        exact hmore
      · simp
    · simp only [List.length_append, hlen]
      split
      · simp
      · intro _
        omega

theorem clientInv_step (s : State) (l : Label) (s' : State) (h : ClientInv s)
    (hnext : next s l = some s') : ClientInv s' := by
  cases l with
  | send n =>
    simp only [next, Option.ite_none_right_eq_some, Option.some.injEq] at hnext
    obtain ⟨⟨hphase, hn⟩, rfl⟩ := hnext
    exact h.send hphase hn _
  | recv n =>
    simp only [next, Option.ite_none_right_eq_some, Option.some.injEq] at hnext
    obtain ⟨⟨hphase, hwant, hn⟩, rfl⟩ := hnext
    exact h.recv hphase hwant hn
  | connectionDestoryed =>
    simp only [next, Option.some.injEq] at hnext
    subst hnext
    exact h.perform rfl (accepted_prefix_foldl _ _)
  | connectionEstablished | handleRead _ _ | handleWrite _ | handleClose =>
    simp only [next, Option.ite_none_right_eq_some, Option.some.injEq] at hnext
    obtain ⟨_, rfl⟩ := hnext
    exact h.perform rfl (accepted_prefix_foldl _ _)

theorem reachable_inv {s : State} (h : machine.Reachable s) : Inv s ∧ ClientInv s := by
  refine ⟨h.invariant machine (fun s => inv_init) inv_step, ?_⟩
  refine h.invariant machine ?_ clientInv_step
  rintro s ⟨fd, wc, message, hne, rfl⟩
  have hpos := List.length_pos_iff.mpr hne
  exact ⟨hne, List.prefix_refl _, fun _ => rfl, Nat.zero_le _, fun _ => hpos, by simp, by simp⟩

/-- A message of three bytes, of which the server writes two at first. -/
def partialEcho : List Label :=
  [.connectionEstablished, .send 1, .send 2, .handleRead (.read [1, 2, 3]) (.wrote 2)]

def partialEchoStart : State :=
  { conn := { channel_ := { fd_ := 7 } }, client := { message := [1, 2, 3] } }

/-! ## What the exchange guarantees -/

/-- What the server sends back, and what the client gets of it, in every state of every run.
    Nothing but the message of the first read is ever written, in order; the FIN follows its
    last byte and no `write` follows the FIN. -/
theorem echo_exchange {s : State} (h : machine.Reachable s) :
    s.client.received <+: s.wire.accepted ∧
    s.wire.accepted ++ s.conn.outputBuffer_.content = (if s.fault then [] else s.first.getD []) ∧
    s.first.getD [] <+: s.client.message ∧
    (s.wire.fin = true → s.first ≠ none ∧ s.conn.outputBuffer_.content = []) ∧
    s.wire.lateWrite = false := by
  obtain ⟨hinv, hclient⟩ := reachable_inv h
  cases hfirst : s.first with
  | none =>
    have hb := hinv.before hfirst
    refine ⟨hclient.received, ?_, List.nil_prefix, ?_, hinv.late⟩
    · simp [hb.wire, hb.output]
    · simp [hb.wire]
  | some m =>
    have ha := hinv.after m hfirst
    refine ⟨hclient.received, ha.output, ha.message.trans (List.take_prefix _ _), ?_, hinv.late⟩
    intro hfin
    exact ⟨by simp, (ha.sealed hfin).1⟩

theorem echo_exchange_partial :
    ∃ s, machine.run partialEchoStart (partialEcho ++ [.recv 1]) = some s ∧
      s.conn.outputBuffer_.content = [3] ∧ s.wire.accepted ++ [3] = s.first.getD [] ∧
      s.client.received <+: s.wire.accepted := by
  have hstate : (machine.run partialEchoStart (partialEcho ++ [.recv 1])).map
      (fun s => (s.conn.outputBuffer_.content, s.fault)) = some ([3], false) := by decide +kernel
  obtain ⟨s, hrun, hs⟩ := Option.map_eq_some_iff.mp hstate
  simp only [Prod.mk.injEq] at hs
  obtain ⟨hcontent, hfault⟩ := hs
  have hinit : machine.init partialEchoStart := ⟨7, false, [1, 2, 3], by decide, rfl⟩
  obtain ⟨hreceived, haccepted, _⟩ := echo_exchange ⟨_, _, hinit, hrun⟩
  rw [hcontent, hfault] at haccepted
  exact ⟨s, hrun, hcontent, haccepted, hreceived⟩

/-- A request is counted as a success only where the first read of the server delivered the
    whole message, so only for a message that fits into what the first `readFd` offers; and
    then the bytes received, which the client does not look at, are the message. -/
theorem success_whole_first_read {s : State} (h : machine.Reachable s)
    (hsuccess : s.client.phase = .success) :
    s.first = some s.client.message ∧ s.client.received = s.client.message ∧
      s.client.message.length ≤ Buffer.kInitialSize + Buffer.extrabufSize := by
  obtain ⟨hinv, hclient⟩ := reachable_inv h
  have hlen := hclient.done hsuccess
  have hpos := List.length_pos_iff.mpr hclient.nonempty
  cases hfirst : s.first with
  | none =>
    -- nothing has been written yet
    have hnil := hclient.received
    rw [(hinv.before hfirst).wire, List.prefix_nil] at hnil
    rw [hnil, List.length_nil] at hlen
    omega
  | some m =>
    have ha := hinv.after m hfirst
    have hall : s.client.received <+: if s.fault then [] else m := by
      rw [← ha.output]
      exact hclient.received.trans (List.prefix_append _ _)
    split at hall
    · rw [List.prefix_nil] at hall
      rw [hall, List.length_nil] at hlen
      omega
    · -- received, the first read and the message are prefixes of each other
      have hm : m <+: s.client.message := ha.message.trans (List.take_prefix _ _)
      have hle := hall.length_le
      have heq : m = s.client.message := hm.eq_of_length_le (by omega)
      subst heq
      exact ⟨rfl, hall.eq_of_length hlen, ha.length⟩

theorem success_whole_first_read_partial :
    ∃ s, machine.run partialEchoStart
        (partialEcho ++ [.recv 1, .handleWrite (.wrote 1), .recv 2]) = some s ∧
      s.client.phase = .success ∧ s.first = some s.client.message ∧
      s.client.received = s.client.message := by
  have hphase : (machine.run partialEchoStart
      (partialEcho ++ [.recv 1, .handleWrite (.wrote 1), .recv 2])).map
        (fun s => s.client.phase) = some .success := by decide +kernel
  obtain ⟨s, hrun, hs⟩ := Option.map_eq_some_iff.mp hphase
  have hinit : machine.init partialEchoStart := ⟨7, false, [1, 2, 3], by decide, rfl⟩
  obtain ⟨hfirst, hreceived, _⟩ := success_whole_first_read ⟨_, _, hinit, hrun⟩ hs
  exact ⟨s, hrun, hs, hfirst, hreceived⟩

/-- The steps that carry the answer to the client. -/
def Label.helps : Label → Bool
  | .handleWrite w => decide (0 < w.ret)
  | .recv n => decide (0 < n)
  | _ => false

/-- What is still to be received and to be written. -/
def State.rest (s : State) : Nat :=
  (s.client.message.length - s.client.received.length) + s.conn.outputBuffer_.content.length

/-- The server has read the whole message and is sending it back. -/
structure Answering (s : State) : Prop where
  inv : Inv s ∧ ClientInv s
  first : s.first = some s.client.message
  sound : s.fault = false
  state : s.conn.state_ = .kDisconnecting
  reading : s.client.phase = .readExpected

/-- With nothing on the way, the rest of the message is in the output buffer and the channel
    watches for writability. -/
theorem Answering.buffered {s : State} (h : Answering s) (hto : s.toClient = []) :
    s.conn.outputBuffer_.content ≠ [] ∧ s.conn.channel_.isWriting = true := by
  have ha := h.inv.1.after _ h.first
  have hlt := h.inv.2.reading h.reading
  have hout := ha.output
  rw [h.sound, if_neg Bool.false_ne_true] at hout
  have hgot : s.client.received = s.wire.accepted := by
    apply h.inv.2.received.eq_of_length_le
    exact List.drop_eq_nil_iff.mp hto
  have hne : s.conn.outputBuffer_.content ≠ [] := by
    intro hnil
    rw [hnil, List.append_nil, ← hgot] at hout
    rw [hout] at hlt
    omega
  exact ⟨hne, ((ha.fin h.state).2).mpr hne⟩

theorem Answering.handleWrite {s : State} (h : Answering s) (hto : s.toClient = []) :
    ∃ w s', 0 < w.ret ∧ next s (.handleWrite w) = some s' ∧ s'.rest < s.rest ∧ Answering s' := by
  obtain ⟨hne, hwriting⟩ := h.buffered hto
  have hpos := List.length_pos_iff.mpr hne
  let w : WriteResult := ⟨s.conn.outputBuffer_.content.length, .EWOULDBLOCK, .EWOULDBLOCK⟩
  have hret : 0 < w.ret := by
    show (0 : Int) < s.conn.outputBuffer_.content.length
    omega
  have hnext : next s (.handleWrite w) = some (s.perform (s.conn.handleWrite w)) := by
    refine if_pos ⟨by rw [h.state]; decide, Or.inr (Or.inl ⟨hpos, ?_, Int.le_refl _⟩)⟩
    omega
  have hdrain : (s.conn.handleWrite w).1 = s.conn.drained w := by
    rcases handleWrite_cases s.conn w with ⟨hw, _⟩ | ⟨_, hnone, _⟩ | ⟨_, _, hrest, _⟩ |
      ⟨_, _, _, hcall⟩
    · rw [hwriting] at hw
      cases hw
    · omega
    · exact absurd (by simp [w]) hrest
    · rw [hcall]
  have hclient := clientInv_step s _ _ h.inv.2 hnext
  refine ⟨w, _, hret, hnext, ?_, ⟨h.inv.1.handleWrite w, hclient⟩, h.first, h.sound, ?_, h.reading⟩
  · simp only [State.rest, State.perform, hdrain]
    simp [drained, w]
    omega
  · simp [State.perform, hdrain, drained, h.state]

theorem Answering.recv {s : State} (h : Answering s) (hto : s.toClient ≠ []) :
    ∃ (n : Int) (s' : State), 0 < n ∧ next s (.recv n) = some s' ∧ s'.rest < s.rest ∧
      (Answering s' ∨ s'.client.phase = .success) := by
  have hlt := h.inv.2.reading h.reading
  have hpos := List.length_pos_iff.mpr hto
  let k : Nat := min s.client.want s.toClient.length
  have hk : 0 < k ∧ k ≤ s.client.want ∧ k ≤ s.toClient.length := by
    have : 0 < s.client.want := by
      unfold Client.want Client.recvSize
      omega
    omega
  have hnext : next s (.recv k) = some { s with
      client := s.client.recv k (s.toClient.take k) } :=
    if_pos ⟨h.reading, by omega, by omega⟩
  have hlen : (s.toClient.take k).length = k := by
    rw [List.length_take]
    omega
  have hrecv : s.client.recv k (s.toClient.take k) = { s.client with
      received := s.client.received ++ s.toClient.take k
      phase := if s.client.received.length + k < s.client.message.length
        then .readExpected else .success } := by
    rw [Client.recv, if_neg (by omega), hlen]
  have hinv := inv_step s _ _ h.inv.1 hnext
  have hclient := clientInv_step s _ _ h.inv.2 hnext
  refine ⟨k, _, by omega, hnext, ?_, ?_⟩
  · simp only [State.rest, hrecv, List.length_append, hlen]
    omega
  · by_cases hmore : s.client.received.length + k < s.client.message.length
    · refine Or.inl ⟨⟨hinv, hclient⟩, ?_, h.sound, h.state, ?_⟩
      · simp only [hrecv]
        exact h.first
      · simp only [hrecv, if_pos hmore]
    · refine Or.inr ?_
      simp only [hrecv, if_neg hmore]

/-- While the client waits, a byte can be moved. -/
theorem Answering.progress {s : State} (h : Answering s) :
    ∃ l s', l.helps = true ∧ next s l = some s' ∧
      (Answering s' ∨ s'.client.phase = .success) ∧ s'.rest < s.rest := by
  by_cases hto : s.toClient = []
  · obtain ⟨w, s', hret, hnext, hrest, hnew⟩ := h.handleWrite hto
    exact ⟨.handleWrite w, s', decide_eq_true hret, hnext, Or.inl hnew, hrest⟩
  · obtain ⟨n, s', hn, hnext, hrest, hnew⟩ := h.recv hto
    exact ⟨.recv n, s', decide_eq_true hn, hnext, hnew, hrest⟩

/-- Once the server has read the whole message and while the connection stays open, the
    exchange is never stuck: from every such state the client's success can be reached by
    writes and reads that make progress, whatever partial writes and reads came before. -/
theorem success_reachable {s : State} (h : machine.Reachable s)
    (hfirst : s.first = some s.client.message) (hsound : s.fault = false)
    (hopen : s.conn.state_ = .kDisconnecting) (hwaits : s.client.phase ≠ .recvFail) :
    machine.CanReach (fun l => l.helps = true) (fun s' => s'.client.phase = .success) s := by
  have hinv := reachable_inv h
  -- the client has written all of it
  have hwritten : ¬ s.client.written < s.client.message.length := by
    have hle := (hinv.1.after _ hfirst).message.length_le
    rw [List.length_take] at hle
    omega
  cases hphase : s.client.phase with
  | writeAll => exact absurd (hinv.2.writing (Or.inl hphase)) hwritten
  | sendFail => exact absurd (hinv.2.writing (Or.inr hphase)) hwritten
  | recvFail => exact absurd hphase hwaits
  | success => exact Machine.CanReach.of_goal hphase
  | readExpected =>
    refine Machine.canReach_of_rank (I := fun t => Answering t ∨ t.client.phase = .success)
      State.rest ?_ (Or.inl ⟨hinv, hfirst, hsound, hopen, hphase⟩)
    intro t ht hgoal
    exact (ht.resolve_right hgoal).progress

theorem success_reachable_partial :
    ∃ s ls s', machine.run partialEchoStart partialEcho = some s ∧
      machine.run s ls = some s' ∧ s'.client.phase = .success := by
  have hstate : (machine.run partialEchoStart partialEcho).map
      (fun s => (s.first, s.client.message, s.fault, s.conn.state_, s.client.phase)) =
        some (some [1, 2, 3], [1, 2, 3], false, .kDisconnecting, .readExpected) := by
    decide +kernel
  obtain ⟨s, hrun, hs⟩ := Option.map_eq_some_iff.mp hstate
  simp only [Prod.mk.injEq] at hs
  obtain ⟨hfirst, hmessage, hfault, hopen, hphase⟩ := hs
  have hinit : machine.init partialEchoStart := ⟨7, false, [1, 2, 3], by decide, rfl⟩
  obtain ⟨ls, s', hrun', _, hdone⟩ := success_reachable ⟨_, _, hinit, hrun⟩
    (by rw [hfirst, hmessage]) hfault hopen (by rw [hphase]; decide)
  exact ⟨s, ls, s', hrun, hrun', hdone⟩

end EchoServer
