import Mymuduo.Framework.Machine
import Mymuduo.Net.Buffer

/-! # Buffer refines a byte queue

    The abstract view of a `Buffer` is a queue of bytes: `append` and `readFd`
    enqueue at the back, the `retrieve` family dequeues from the front.  Both
    sides are machines over the same operations, with the strings returned so
    far as part of the state, and `bufferSimulation` relates them.  The
    buffer's machine has no step where an access would leave `buffer_`, so the
    simulation also says that no access does.
-/

namespace BufferFifo

/-- The operations of `Buffer`. -/
inductive Op where
  | append (data : List Byte)
  | retrieve (len : Nat)
  | retrieveAll
  | retrieveAllAsString
  | retrieveAsString (len : Nat)
  | ensureWriteableBytes (len : Nat)
  | readFd (r : ReadvResult)
  deriving DecidableEq, Repr

/-! ## The two machines -/

/-- A buffer and the strings its operations have returned. -/
structure State where
  buf : Buffer
  returned : List (List Byte) := []
  deriving DecidableEq, Repr

def next (s : State) : Op → Option State
  | .append data => do
    let b ← s.buf.append data
    return { s with buf := b }
  | .retrieve len => some { s with buf := s.buf.retrieve len }
  | .retrieveAll => some { s with buf := s.buf.retrieveAll }
  | .retrieveAllAsString => do
    let (str, b) ← s.buf.retrieveAllAsString
    return { buf := b, returned := s.returned ++ [str] }
  | .retrieveAsString len => do
    let (str, b) ← s.buf.retrieveAsString len
    return { buf := b, returned := s.returned ++ [str] }
  | .ensureWriteableBytes len => do
    let b ← s.buf.ensureWriteableBytes len
    return { s with buf := b }
  | .readFd r => do
    let (_, b) ← s.buf.readFd r
    return { s with buf := b }

/-- A buffer of the given initial size under any sequence of operations. -/
def machine (initialSize : Nat) : Machine State Op where
  init := fun s => s = { buf := Buffer.ctor initialSize }
  next := next

/-- The reference queue and the strings it has returned. -/
structure Fifo where
  queue : List Byte := []
  returned : List (List Byte) := []
  deriving DecidableEq, Repr

def Fifo.next (s : Fifo) : Op → Fifo
  | .append data => { s with queue := s.queue ++ data }
  | .retrieve len => { s with queue := s.queue.drop len }
  | .retrieveAll => { s with queue := [] }
  | .retrieveAllAsString => { queue := [], returned := s.returned ++ [s.queue] }
  | .retrieveAsString len =>
    { queue := s.queue.drop len, returned := s.returned ++ [s.queue.take len] }
  | .ensureWriteableBytes _ => s
  | .readFd (.failed _) => s
  | .readFd (.read data) => { s with queue := s.queue ++ data }

def fifo : Machine Fifo Op where
  init := fun s => s = {}
  next := fun s op => some (s.next op)

/-- What a caller owes: `retrieveAsString` asks for no more than is readable,
    and `readv` delivers no more than it was offered. -/
def Pre (s : State) : Op → Prop
  | .retrieveAsString len => len ≤ s.buf.readableBytes
  | .readFd (.read data) => data.length ≤ s.buf.readvOffered
  | _ => True

instance (s : State) : (op : Op) → Decidable (Pre s op)
  | .retrieveAsString _ => inferInstanceAs (Decidable (_ ≤ _))
  | .readFd (.read _) => inferInstanceAs (Decidable (_ ≤ _))
  | .append _ | .retrieve _ | .retrieveAll | .retrieveAllAsString | .ensureWriteableBytes _
  | .readFd (.failed _) => isTrue trivial

/-! ## The simulation -/

/-- The queue a buffer stands for. -/
def State.abs (s : State) : Fifo := ⟨s.buf.content, s.returned⟩

/-- One operation: defined, keeps the index discipline, and is the queue's
    operation on the content. -/
theorem step_refines (s : State) (op : Op) (h : s.buf.WF) (hpre : Pre s op) :
    ∃ s', next s op = some s' ∧ s'.buf.WF ∧ s'.abs = s.abs.next op := by
  cases op with
  | append data =>
    obtain ⟨b, happend, hwf, hcontent⟩ := Buffer.append_spec s.buf data h
    refine ⟨{ s with buf := b }, by simp [next, happend], hwf, ?_⟩
    simp [State.abs, Fifo.next, hcontent]
  | retrieve len =>
    obtain ⟨hwf, hcontent⟩ := Buffer.retrieve_spec s.buf len h
    refine ⟨_, rfl, hwf, ?_⟩
    simp [State.abs, Fifo.next, hcontent]
  | retrieveAll =>
    obtain ⟨hwf, hcontent⟩ := Buffer.retrieveAll_spec s.buf h
    refine ⟨_, rfl, hwf, ?_⟩
    simp [State.abs, Fifo.next, hcontent]
  | retrieveAllAsString =>
    have hret := Buffer.retrieveAllAsString_spec s.buf h
    obtain ⟨hwf, hcontent⟩ := Buffer.retrieve_spec s.buf s.buf.readableBytes h
    -- taking everything leaves nothing
    have hempty : s.buf.content.drop s.buf.readableBytes = [] :=
      List.drop_eq_nil_of_le (Nat.le_of_eq h.length_content)
    refine ⟨⟨s.buf.retrieve s.buf.readableBytes, s.returned ++ [s.buf.content]⟩, ?_, hwf, ?_⟩
    · simp [next, hret]
    · simp [State.abs, Fifo.next, hcontent, hempty]
  | retrieveAsString len =>
    have hret := Buffer.retrieveAsString_spec s.buf len h hpre
    obtain ⟨hwf, hcontent⟩ := Buffer.retrieve_spec s.buf len h
    refine ⟨⟨s.buf.retrieve len, s.returned ++ [s.buf.content.take len]⟩, ?_, hwf, ?_⟩
    · simp [next, hret]
    · simp [State.abs, Fifo.next, hcontent]
  | ensureWriteableBytes len =>
    obtain ⟨b, hensure, hwf, hcontent, _⟩ := Buffer.ensureWriteableBytes_spec s.buf len h
    refine ⟨{ s with buf := b }, by simp [next, hensure], hwf, ?_⟩
    simp [State.abs, Fifo.next, hcontent]
  | readFd r =>
    cases r with
    | failed e => exact ⟨s, rfl, h, rfl⟩
    | read data =>
      obtain ⟨b, hread, hwf, hcontent⟩ := Buffer.readFd_spec s.buf data h
      refine ⟨{ s with buf := b }, by simp [next, hread], hwf, ?_⟩
      simp [State.abs, Fifo.next, hcontent]

theorem next_wf_of_pre {s s' : State} {op : Op} (h : s.buf.WF) (hnext : next s op = some s')
    (hpre : Pre s op) : s'.buf.WF := by
  obtain ⟨t, ht, hwf, _⟩ := step_refines s op h hpre
  rw [hnext] at ht
  cases ht
  exact hwf

/-- Every operation that is defined keeps the index discipline, whatever it is asked
    for. -/
theorem next_wf {s s' : State} {op : Op} (h : s.buf.WF) (hnext : next s op = some s') :
    s'.buf.WF := by
  cases op with
  | retrieveAsString len =>
    simp only [next, Buffer.retrieveAsString, Option.bind_eq_bind, Option.bind_eq_some_iff] at hnext
    obtain ⟨⟨str, b⟩, ⟨result, _, hb⟩, hs⟩ := hnext
    cases hb
    cases hs
    exact (Buffer.retrieve_spec s.buf len h).1
  | readFd r =>
    cases r with
    | failed e =>
      cases hnext
      exact h
    | read data =>
      obtain ⟨b, hread, hwf, _⟩ := Buffer.readFd_spec s.buf data h
      simp only [next, hread] at hnext
      cases hnext
      exact hwf
  | append _ | retrieve _ | retrieveAll | retrieveAllAsString | ensureWriteableBytes _ =>
    exact next_wf_of_pre h hnext trivial

theorem wf_of_reachable {initialSize : Nat} {s : State} (h : (machine initialSize).Reachable s) :
    s.buf.WF := by
  apply h.invariant
  · intro s₀ hinit
    rw [show s₀ = _ from hinit]
    exact Buffer.ctor_wf initialSize
  · intro t op t' ht hnext
    exact next_wf ht hnext

def bufferSimulation (initialSize : Nat) : Simulation (machine initialSize) fifo Pre where
  Inv := fun s => s.buf.WF
  abs := State.abs
  init := by
    -- a new buffer is the empty queue
    intro s heq
    subst heq
    refine ⟨Buffer.ctor_wf initialSize, ?_⟩
    change State.abs _ = _
    rw [State.abs, Buffer.ctor_content]
  step := by
    intro s op hwf hpre
    obtain ⟨s', hnext, hwf', habs⟩ := step_refines s op hwf hpre
    exact ⟨s', hnext, hwf', by rw [habs]; rfl⟩

/-- `Buffer` refines a byte FIFO.  From every initial size and for every
    sequence of operations: no access leaves `buffer_` (the run is defined), the
    index discipline holds, the readable bytes and the strings returned are the
    reference queue's, and a failing `readFd` changes nothing. -/
theorem buffer_refines_fifo (initialSize : Nat) (ops : List Op)
    (hpre : (machine initialSize).Along Pre { buf := Buffer.ctor initialSize } ops) :
    ∃ s, (machine initialSize).run { buf := Buffer.ctor initialSize } ops = some s ∧
      (Buffer.kCheapPrepend ≤ s.buf.readerIndex_ ∧ s.buf.readerIndex_ ≤ s.buf.writerIndex_ ∧
        s.buf.writerIndex_ ≤ s.buf.buffer_.length) ∧
      fifo.run {} ops = some ⟨s.buf.content, s.returned⟩ ∧
      ∀ e, next s (.readFd (.failed e)) = some s := by
  have hinit : (bufferSimulation initialSize).Inv { buf := Buffer.ctor initialSize } :=
    Buffer.ctor_wf initialSize
  obtain ⟨s, hrun, hwf, hfifo⟩ := (bufferSimulation initialSize).run hinit hpre
  have hwf : s.buf.WF := hwf
  have hstart : (bufferSimulation initialSize).abs { buf := Buffer.ctor initialSize } = {} := by
    change State.abs _ = _
    rw [State.abs, Buffer.ctor_content]
  rw [hstart] at hfifo
  exact ⟨s, hrun, ⟨hwf.prepend, hwf.indices, hwf.size⟩, hfifo, fun _ => rfl⟩

/-- A buffer of initial size 4 through an exact fit, a compaction, a growth and a
    read that spills into `extrabuf`. -/
theorem buffer_refines_fifo_small :
    ∃ s, (machine 4).run { buf := Buffer.ctor 4 }
        [.append [1, 2, 3, 4], .retrieveAsString 3, .append [5, 6], .readFd (.read [7, 8, 9]),
         .retrieve 2, .readFd (.failed .EWOULDBLOCK)] = some s ∧
      fifo.run {} [.append [1, 2, 3, 4], .retrieveAsString 3, .append [5, 6],
        .readFd (.read [7, 8, 9]), .retrieve 2, .readFd (.failed .EWOULDBLOCK)] =
          some ⟨s.buf.content, s.returned⟩ ∧
      s.buf.content = [6, 7, 8, 9] ∧ s.returned = [[1, 2, 3]] := by
  obtain ⟨s, hrun, _, hfifo, _⟩ := buffer_refines_fifo 4
    [.append [1, 2, 3, 4], .retrieveAsString 3, .append [5, 6], .readFd (.read [7, 8, 9]),
     .retrieve 2, .readFd (.failed .EWOULDBLOCK)] (by decide)
  refine ⟨s, hrun, hfifo, ?_⟩
  -- evaluate the reference rather than the buffer
  have hval : some (⟨[6, 7, 8, 9], [[1, 2, 3]]⟩ : Fifo) = some ⟨s.buf.content, s.returned⟩ := by
    rw [← hfifo]
    rfl
  have hs := Fifo.mk.inj (Option.some.inj hval)
  exact ⟨hs.1.symm, hs.2.symm⟩

end BufferFifo
