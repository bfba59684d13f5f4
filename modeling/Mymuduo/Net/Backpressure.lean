import Mymuduo.Net.TcpOutput

/-! # Backpressure notifications

    A user who throttles does so on two functors: the one of `highWaterMarkCallback_`
    when the output buffer reaches `highWaterMark_`, and that of
    `writeCompleteCallback_` when it is empty again.  The functions decide about them
    before or between their changes to the buffer; the results here are in terms of the
    buffer before and after the call.
-/

namespace Backpressure

open TcpConnection TcpOutput

/-! ## Notices -/

/-- The effect queues one of the two functors. -/
def isNotice : Effect → Bool
  | .queueWriteComplete | .queueHighWaterMark _ => true
  | _ => false

def notices (effects : List Effect) : List Effect := effects.filter isNotice

theorem notices_append (es fs : List Effect) : notices (es ++ fs) = notices es ++ notices fs :=
  List.filter_append ..

/-- `readableBytes()` of the output buffer. -/
def pending (c : TcpConnection) : Nat := c.outputBuffer_.readableBytes

/-- The call takes the output buffer from below the mark to the mark or above it. -/
def Crosses (c c' : TcpConnection) : Prop :=
  pending c < c.highWaterMark_ ∧ c.highWaterMark_ ≤ pending c'

instance (c c' : TcpConnection) : Decidable (Crosses c c') := inferInstanceAs (Decidable (_ ∧ _))

/-- The call hands bytes to the kernel and leaves nothing to be written. -/
def Completes (effects : List Effect) (c' : TcpConnection) : Prop :=
  acceptedBytes effects ≠ [] ∧ pending c' = 0

instance (effects : List Effect) (c' : TcpConnection) : Decidable (Completes effects c') :=
  inferInstanceAs (Decidable (_ ∧ _))

/-- What is due after a call that went from `c` to `c'`. -/
def due (c c' : TcpConnection) (effects : List Effect) : List Effect :=
  (if Crosses c c' then [.queueHighWaterMark (pending c')] else []) ++
    if Completes effects c' then [.queueWriteComplete] else []

/-- The two callbacks are set. -/
def BothSet (c : TcpConnection) : Prop :=
  c.writeCompleteCallback_ = true ∧ c.highWaterMarkCallback_ = true

variable {c : TcpConnection}

theorem pending_eq (c : TcpConnection) : pending c = c.outputBuffer_.content.length :=
  WFBuffer.readableBytes_eq ..

theorem not_crosses_self : ¬ Crosses c c := by
  intro h
  have hlt := h.1
  have hle := h.2
  omega

/-- A call that changes nothing and accepts nothing owes nothing. -/
theorem due_of_same {c' : TcpConnection} {effects : List Effect}
    (hpending : pending c' = pending c) (hnone : acceptedBytes effects = []) :
    due c c' effects = [] := by
  have hcross : ¬ Crosses c c' := by
    intro h
    rw [Crosses, hpending] at h
    omega
  have hcomplete : ¬ Completes effects c' := fun h => h.1 hnone
  rw [due, if_neg hcross, if_neg hcomplete]
  rfl

/-! ## sendInLoop -/

theorem bufferRest_pending (c : TcpConnection) (rest : List Byte) :
    pending (c.bufferRest rest).1 = pending c + rest.length := by
  rw [pending_eq, pending_eq, (bufferRest_output c rest).1, List.length_append]

theorem bufferRest_notices (hset : BothSet c) (rest : List Byte) :
    notices (c.bufferRest rest).2 =
      if Crosses c (c.bufferRest rest).1 then
        [.queueHighWaterMark (pending (c.bufferRest rest).1)]
      else [] := by
  have hcond : (c.outputBuffer_.readableBytes + rest.length ≥ c.highWaterMark_ ∧
      c.outputBuffer_.readableBytes < c.highWaterMark_ ∧ c.highWaterMarkCallback_ = true) ↔
      Crosses c (c.bufferRest rest).1 := by
    rw [Crosses, bufferRest_pending]
    exact ⟨fun h => ⟨h.2.1, h.1⟩, fun h => ⟨h.2, h.1, hset.2⟩⟩
  have hsize : pending (c.bufferRest rest).1 = c.outputBuffer_.readableBytes + rest.length :=
    bufferRest_pending c rest
  rw [hsize]
  by_cases hcross : Crosses c (c.bufferRest rest).1
  · rw [if_pos hcross]
    unfold bufferRest
    simp only [if_pos (hcond.mpr hcross)]
    split <;> rfl
  · rw [if_neg hcross]
    unfold bufferRest
    simp only [if_neg (fun h => hcross (hcond.mp h))]
    split <;> rfl

/-- A write that returns a positive count had a byte to accept. -/
theorem take_ne_nil {data : List Byte} {r : WriteResult} (h : r.Possible data.length)
    (hpos : 0 < r.ret) : data.take r.ret.toNat ≠ [] := by
  intro hnil
  rcases List.take_eq_nil_iff.mp hnil with hzero | rfl
  · omega
  · rcases h with h | ⟨h, _⟩ | ⟨_, h⟩
    · omega
    · simp at h
    · omega

theorem directWrite_notices (hset : BothSet c) (data : List Byte) (r : WriteResult)
    (hr : c.writesDirectly = true → r.Possible data.length) :
    notices (c.directWrite data r).effects =
      if (c.directWrite data r).remaining = 0 ∧ data.take (c.directWrite data r).nwrote ≠ []
      then [.queueWriteComplete] else [] := by
  unfold directWrite
  by_cases hd : c.writesDirectly = true
  · rw [if_pos hd]
    by_cases hpos : 0 < r.ret
    · rw [if_pos hpos]
      have htake : data.take r.ret.toNat ≠ [] := take_ne_nil (hr hd) hpos
      by_cases hrem : data.length - r.ret.toNat = 0
      · simp only [if_pos (And.intro hrem hset.1), if_pos (And.intro hrem htake)]
        rfl
      · simp only [if_neg (fun h : _ ∧ _ => hrem h.1)]
        rfl
    · rw [if_neg hpos, if_neg (fun h => h.2 (List.take_zero ..))]
      rfl
  · rw [if_neg hd, if_neg (fun h => h.2 (List.take_zero ..))]
    rfl

theorem sendInLoop_notices (hset : BothSet c) (data : List Byte) (r : WriteResult)
    (hp : Possible c (.sendInLoop data r)) :
    notices (c.sendInLoop data r).2 = due c (c.sendInLoop data r).1 (c.sendInLoop data r).2 := by
  by_cases hs : c.state_ = .kDisconnected
  · rw [sendInLoop_disconnected hs, due_of_same rfl rfl]
    rfl
  · obtain ⟨hacc, hrem, hfault⟩ := directWrite_spec c data r (hp hs)
    have hdirect := directWrite_notices hset data r (hp hs)
    unfold TcpConnection.sendInLoop
    rw [if_neg hs]
    simp only
    split
    next hrest =>
      -- a rest is buffered: the output is not complete
      obtain ⟨_, hnone⟩ := bufferRest_output c (data.drop (c.directWrite data r).nwrote)
      have hcomplete : ∀ effects, ¬ Completes effects
          (c.bufferRest (data.drop (c.directWrite data r).nwrote)).1 := by
        intro effects h
        have hzero := h.2
        rw [bufferRest_pending] at hzero
        omega
      rw [due, if_neg (hcomplete _), List.append_nil, notices_append, hdirect,
        if_neg (fun h => absurd h.1 (by omega)), List.nil_append, bufferRest_notices hset]
    next hnot =>
      -- the buffer stays as it is
      rw [due, if_neg not_crosses_self, List.nil_append, hdirect]
      by_cases htake : data.take (c.directWrite data r).nwrote = []
      · rw [if_neg (fun h => h.2 htake), if_neg (fun h => h.1 (hacc.trans htake))]
      · have hn : (c.directWrite data r).nwrote ≠ 0 := fun h => htake (by rw [h, List.take_zero])
        have hnofault : (c.directWrite data r).faultError = false := by
          by_contra hf
          exact hn (hfault (by simpa using hf)).1
        have hzero : (c.directWrite data r).remaining = 0 := by
          simp only [hnofault] at hnot
          simpa using hnot
        -- only a direct write accepts bytes, and it finds the buffer empty
        have hd : c.writesDirectly = true := by
          by_contra hd
          apply hn
          simp [directWrite, hd]
        have hempty : pending c = 0 := by
          rw [pending_eq, writesDirectly_empty hd, List.length_nil]
        rw [if_pos ⟨hzero, htake⟩, if_pos ⟨fun h => htake (hacc.symm.trans h), hempty⟩]

/-! ## handleWrite -/

theorem notices_completeEffects (hset : BothSet c) (fin : List Effect) :
    notices (c.completeEffects ++ fin) = .queueWriteComplete :: notices fin := by
  rw [completeEffects, if_pos hset.1]
  rfl

/-- The write that empties the buffer owes the one functor. -/
theorem due_drained {r : WriteResult} (hr : r.Possible c.outputBuffer_.content.length)
    (hpos : 0 < r.ret) (hempty : c.outputBuffer_.content.drop r.ret.toNat = [])
    (effects : List Effect) :
    due c (c.drained r) (.write c.outputBuffer_.content r :: effects) = [.queueWriteComplete] := by
  have hpending : pending (c.drained r) = 0 := by
    rw [pending_eq, drained, WFBuffer.retrieve_content, hempty, List.length_nil]
  have haccepted : acceptedBytes (.write c.outputBuffer_.content r :: effects) ≠ [] := by
    intro hnil
    rw [acceptedBytes_cons] at hnil
    exact take_ne_nil hr hpos (List.append_eq_nil_iff.mp hnil).1
  have hcross : ¬ Crosses c (c.drained r) := by
    intro h
    have hle := h.2
    have hlt := h.1
    omega
  have hcomplete : Completes (.write c.outputBuffer_.content r :: effects) (c.drained r) :=
    ⟨haccepted, hpending⟩
  rw [due, if_neg hcross, if_pos hcomplete, List.nil_append]

theorem handleWrite_notices (hset : BothSet c) (r : WriteResult)
    (hp : Possible c (.handleWrite r)) :
    notices (c.handleWrite r).2 = due c (c.handleWrite r).1 (c.handleWrite r).2 := by
  rcases handleWrite_cases c r with ⟨_, hcall⟩ | ⟨_, hret, hcall⟩ | ⟨_, _, hrest, hcall⟩ |
    ⟨hw, hret, hempty, hcall⟩
  · rw [hcall, due_of_same rfl rfl]
    rfl
  · rw [hcall, due_of_same rfl]
    · rfl
    · exact acceptedBytes_of_ret_nonpos hret _
  · -- something is left, and less than before
    have hpending : pending { c with outputBuffer_ := c.outputBuffer_.retrieve r.ret.toNat } =
        (c.outputBuffer_.content.drop r.ret.toNat).length := by
      rw [pending_eq, WFBuffer.retrieve_content]
    rw [hcall, due, if_neg, if_neg]
    · rfl
    · intro h
      have hzero := h.2
      rw [hpending] at hzero
      exact hrest (List.eq_nil_of_length_eq_zero hzero)
    · intro h
      have hlt := h.1
      have hle := h.2
      rw [hpending, List.length_drop] at hle
      rw [pending_eq] at hlt
      omega
  · -- all of the buffer was accepted
    rw [hcall]
    show notices (c.completeEffects ++ _) = due c (c.drained r) _
    rw [due_drained (hp hw) hret hempty, notices_completeEffects hset]
    split <;> rfl

/-! ## Runs -/

/-- The other member functions owe nothing and queue nothing. -/
theorem call_notices (hset : BothSet c) (l : Label) (hp : Possible c l) :
    notices (call c l).2 = due c (call c l).1 (call c l).2 := by
  cases l with
  | sendInLoop data r => exact sendInLoop_notices hset data r hp
  | handleWrite r => exact handleWrite_notices hset r hp
  | handleRead r =>
    obtain ⟨buf, hcall | hcall | hcall⟩ := handleRead_cases c r
    · rw [call, hcall]
      exact (due_of_same rfl rfl).symm
    · rw [call, hcall]
      exact (due_of_same rfl rfl).symm
    · rw [call, hcall]
      exact (due_of_same rfl rfl).symm
  | handleClose | connectionEstablished => exact (due_of_same rfl rfl).symm
  | shutdown =>
    rw [call, due_of_same _ rfl]
    · rfl
    · unfold TcpConnection.shutdown
      split <;> rfl
  | shutdownInLoop =>
    obtain ⟨hconn, hacc⟩ := shutdownInLoop_output c
    rw [call, due_of_same (by rw [hconn]) hacc]
    unfold TcpConnection.shutdownInLoop
    split <;> rfl
  | connectionDestoryed =>
    simp only [call, TcpConnection.connectionDestoryed]
    split
    · exact (due_of_same rfl rfl).symm
    · exact (due_of_same rfl rfl).symm

/-- The calls leave the callbacks set. -/
theorem call_bothSet (hset : BothSet c) (l : Label) : BothSet (call c l).1 := by
  cases l with
  | sendInLoop data r =>
    simp only [call, TcpConnection.sendInLoop]
    split
    · exact hset
    · split
      · simp only [bufferRest]
        split <;> exact hset
      · exact hset
  | handleWrite r =>
    rcases handleWrite_cases c r with ⟨_, hcall⟩ | ⟨_, _, hcall⟩ | ⟨_, _, _, hcall⟩ |
      ⟨_, _, _, hcall⟩ <;> (rw [call, hcall]; exact hset)
  | handleRead r =>
    obtain ⟨buf, hcall | hcall | hcall⟩ := handleRead_cases c r <;> (rw [call, hcall]; exact hset)
  | handleClose | connectionEstablished => exact hset
  | shutdown =>
    simp only [call, TcpConnection.shutdown]
    split <;> exact hset
  | shutdownInLoop =>
    rw [call, (shutdownInLoop_output c).1]
    exact hset
  | connectionDestoryed =>
    simp only [call, TcpConnection.connectionDestoryed]
    split <;> exact hset

def isHighWaterMark : Effect → Bool
  | .queueHighWaterMark _ => true
  | _ => false

/-- The notifications of a call are exact. -/
structure Notified (c c' : TcpConnection) (effects : List Effect) : Prop where
  highWaterMark : (∃ size, .queueHighWaterMark size ∈ effects) ↔
    pending c < c.highWaterMark_ ∧ c.highWaterMark_ ≤ pending c'
  size : ∀ size, .queueHighWaterMark size ∈ effects → size = pending c'
  writeComplete : .queueWriteComplete ∈ effects ↔ acceptedBytes effects ≠ [] ∧ pending c' = 0
  highWaterMark_once : effects.countP isHighWaterMark ≤ 1
  writeComplete_once : effects.count .queueWriteComplete ≤ 1

theorem mem_notices {e : Effect} (he : isNotice e = true) (effects : List Effect) :
    e ∈ effects ↔ e ∈ notices effects := by
  rw [notices, List.mem_filter]
  exact ⟨fun h => ⟨h, he⟩, fun h => h.1⟩

theorem notified_of_due {c c' : TcpConnection} {effects : List Effect}
    (h : notices effects = due c c' effects) : Notified c c' effects := by
  have hhigh : ∀ size, .queueHighWaterMark size ∈ effects ↔
      Crosses c c' ∧ size = pending c' := by
    intro size
    rw [mem_notices rfl, h, due]
    split <;> split <;> simp_all
  have hcomplete : .queueWriteComplete ∈ effects ↔ Completes effects c' := by
    rw [mem_notices rfl, h, due]
    split <;> split <;> simp_all
  have hcount : effects.countP isHighWaterMark = (notices effects).countP isHighWaterMark := by
    rw [notices, List.countP_filter]
    apply List.countP_congr
    intro e _
    cases e <;> simp [isHighWaterMark, isNotice]
  exact
    { highWaterMark := by
        constructor
        · intro hmem
          obtain ⟨size, hsize⟩ := hmem
          exact ((hhigh size).mp hsize).1
        · intro hcross
          exact ⟨pending c', (hhigh _).mpr ⟨hcross, rfl⟩⟩
      size := fun size hsize => ((hhigh size).mp hsize).2
      writeComplete := hcomplete
      highWaterMark_once := by
        rw [hcount, h, due]
        split <;> split <;> simp [List.countP_cons, isHighWaterMark]
      writeComplete_once := by
        rw [← List.count_filter (p := isNotice) rfl]
        show (notices effects).count _ ≤ 1
        rw [h, due]
        split <;> split <;> simp }

/-- Along every run of a connection with both callbacks set, with any mark and any
    outcome of each `::write`: `highWaterMarkCallback_` is queued in exactly the steps in
    which the output buffer goes from below the mark to it or above, with the size it
    has then; `writeCompleteCallback_` in exactly those that hand bytes to the kernel
    and leave the buffer empty; and neither more than once in a step. -/
theorem backpressure_exact {s₀ s : TcpOutput.State} {ls : List Label}
    (hwrite : s₀.conn.writeCompleteCallback_ = true)
    (hhigh : s₀.conn.highWaterMarkCallback_ = true) (hrun : machine.run s₀ ls = some s) :
    machine.Along (fun s l => Notified s.conn (call s.conn l).1 (call s.conn l).2) s₀ ls := by
  apply machine.along_of_run (I := fun s => BothSet s.conn) _ ⟨hwrite, hhigh⟩ hrun
  intro t l t' hset hnext
  change TcpOutput.next t l = some t' at hnext
  simp only [TcpOutput.next, Option.ite_none_right_eq_some, Option.some.injEq] at hnext
  obtain ⟨hp, rfl⟩ := hnext
  exact ⟨notified_of_due (call_notices hset l hp), call_bothSet hset l⟩

/-- A mark of two bytes: a message of three, of which one is accepted, reaches it, and
    the write of the rest completes the output. -/
theorem backpressure_exact_mark_two :
    ∃ s₀ s : TcpOutput.State, s₀.conn.highWaterMark_ = 2 ∧
      machine.run s₀ [.connectionEstablished, .sendInLoop [1, 2, 3] (.wrote 1),
        .handleWrite (.wrote 2)] = some s ∧ s.kernel = [1, 2, 3] ∧
      machine.Along (fun s l => Notified s.conn (call s.conn l).1 (call s.conn l).2) s₀
        [.connectionEstablished, .sendInLoop [1, 2, 3] (.wrote 1),
          .handleWrite (.wrote 2)] := by
  have hrun : machine.run
      { conn := { channel_ := { fd_ := 7 }, outputBuffer_ := .ctor 4, highWaterMark_ := 2,
                  writeCompleteCallback_ := true, highWaterMarkCallback_ := true } }
      [.connectionEstablished, .sendInLoop [1, 2, 3] (.wrote 1),
        .handleWrite (.wrote 2)] = some _ := rfl
  exact ⟨_, _, rfl, hrun, by decide +kernel, backpressure_exact rfl rfl hrun⟩

end Backpressure
