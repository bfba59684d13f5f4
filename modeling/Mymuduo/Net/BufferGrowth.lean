import Mymuduo.Net.BufferFifo

/-! # How large a Buffer gets

    `makeSpace` grows the vector without moving the readable bytes to the front, so every
    growth keeps the free space before them.  It grows only where that space and the one
    at the end together are too small for the request, which bounds the waste by the
    request: the vector never gets larger than twice what was asked of it at once.
-/

namespace Buffer

/-! ## One operation -/

theorem length_retrieve (b : Buffer) (len : Nat) :
    (b.retrieve len).buffer_.length = b.buffer_.length := by
  unfold retrieve
  split <;> rfl

/-- Where the vector grows, the free space before the readable bytes is less than the
    request and the prepend area together. -/
theorem makeSpace_size {b b' : Buffer} {len : Nat} (h : b.WF) (hspace : b.makeSpace len = some b') :
    b'.buffer_.length ≤ max b.buffer_.length (2 * (b.readableBytes + len) + 7) := by
  have hadd := h.add_readable
  have hs := h.size
  unfold makeSpace at hspace
  split at hspace
  next hsmall =>
    cases hspace
    show (resize b.buffer_ (b.writerIndex_ + len)).length ≤ _
    rw [length_resize]
    unfold wirteableBytes prependableBytes kCheapPrepend at hsmall
    omega
  next =>
    -- the bytes move inside the vector
    have hprepend := h.prepend
    obtain ⟨buffer, hmove, hlength, _⟩ :=
      Region.move_spec hprepend (show b.readerIndex_ + b.readableBytes ≤ b.buffer_.length by omega)
    simp only [hmove] at hspace
    cases hspace
    show buffer.length ≤ _
    rw [hlength]
    exact Nat.le_max_left _ _

theorem ensureWriteableBytes_size {b b' : Buffer} {len : Nat} (h : b.WF)
    (hensure : b.ensureWriteableBytes len = some b') :
    b'.buffer_.length ≤ max b.buffer_.length (2 * (b.readableBytes + len) + 7) := by
  unfold ensureWriteableBytes at hensure
  split at hensure
  · exact makeSpace_size h hensure
  · cases hensure
    exact Nat.le_max_left _ _

theorem append_size {b b' : Buffer} {data : List Byte} (h : b.WF)
    (happend : b.append data = some b') :
    b'.buffer_.length ≤ max b.buffer_.length (2 * (b.readableBytes + data.length) + 7) := by
  obtain ⟨b₁, hensure, hwf, _, hroom⟩ := ensureWriteableBytes_spec b data.length h
  obtain ⟨buffer, hcopy, hlength, _⟩ := copyIn_spec b₁ data hwf hroom
  have hsize := ensureWriteableBytes_size h hensure
  rw [append, hensure] at happend
  simp only [Option.bind_eq_bind, Option.bind_some, hcopy] at happend
  cases happend
  show buffer.length ≤ _
  rw [hlength]
  exact hsize

/-- `readFd` fills the free space at the end before it asks for more. -/
theorem readFd_size {b b' : Buffer} {r : ReadvResult} {n : Int} (h : b.WF)
    (hread : b.readFd r = some (n, b')) :
    b'.buffer_.length ≤ max b.buffer_.length (2 * b'.readableBytes + 7) := by
  cases r with
  | failed e =>
    cases hread
    exact Nat.le_max_left _ _
  | read data =>
    obtain ⟨b₁, hread₁, hwf₁, hcontent⟩ := readFd_spec b data h
    rw [hread] at hread₁
    cases hread₁
    have hreadable : b'.readableBytes = b.readableBytes + data.length := by
      rw [← hwf₁.length_content, hcontent, List.length_append, h.length_content]
    have hfit : (data.take b.wirteableBytes).length ≤ b.wirteableBytes :=
      List.length_take_le _ _
    obtain ⟨buffer, hcopy, hlength, hwf, _⟩ := copyIn_spec b (data.take b.wirteableBytes) h hfit
    rw [readFd] at hread
    simp only [Option.bind_eq_bind, hcopy, Option.bind_some] at hread
    split at hread
    · cases hread
      show buffer.length ≤ _
      rw [hlength]
      exact Nat.le_max_left _ _
    next hgt =>
      simp only [Option.bind_eq_some_iff] at hread
      obtain ⟨b₂, happend, heq⟩ := hread
      cases heq
      -- the end is full, and what was read before the append counts as readable
      have hfull : b.writerIndex_ + (data.take b.wirteableBytes).length = buffer.length := by
        have := h.size
        rw [List.length_take, hlength]
        unfold wirteableBytes at hgt ⊢
        omega
      rw [hfull] at hwf
      have hsize := append_size hwf happend
      have hadd := h.add_readable
      have hi := h.indices
      simp only [readableBytes, List.length_drop] at hsize hreadable ⊢
      unfold wirteableBytes at hsize hfull hgt
      rw [List.length_take] at hfull
      omega

end Buffer

namespace BufferFifo

/-! ## Runs -/

/-- `readableBytes()` plus the length that the operation asks for; for `readFd`, what is
    readable after it. -/
def demand (s : State) : Op → Nat
  | .append data => s.buf.readableBytes + data.length
  | .ensureWriteableBytes len => s.buf.readableBytes + len
  | .readFd r =>
    match s.buf.readFd r with
    | some (_, b) => b.readableBytes
    | none => 0
  | .retrieve _ | .retrieveAll | .retrieveAllAsString | .retrieveAsString _ => s.buf.readableBytes

/-- The maximum of the demands of a run. -/
def peak : State → List Op → Nat
  | _, [] => 0
  | s, op :: ops =>
    max (demand s op)
      (match next s op with
      | some s' => peak s' ops
      | none => 0)

theorem next_size {s s' : State} {op : Op} (h : s.buf.WF) (hnext : next s op = some s') :
    s'.buf.buffer_.length ≤ max s.buf.buffer_.length (2 * demand s op + 7) := by
  cases op with
  | append data =>
    simp only [next, Option.bind_eq_bind, Option.bind_eq_some_iff] at hnext
    obtain ⟨b, happend, heq⟩ := hnext
    cases heq
    exact Buffer.append_size h happend
  | ensureWriteableBytes len =>
    simp only [next, Option.bind_eq_bind, Option.bind_eq_some_iff] at hnext
    obtain ⟨b, hensure, heq⟩ := hnext
    cases heq
    exact Buffer.ensureWriteableBytes_size h hensure
  | readFd r =>
    simp only [next, Option.bind_eq_bind, Option.bind_eq_some_iff] at hnext
    obtain ⟨⟨n, b⟩, hread, heq⟩ := hnext
    cases heq
    simp only [demand, hread]
    exact Buffer.readFd_size h hread
  -- the vector stays as it is
  | retrieve len =>
    cases hnext
    rw [Buffer.length_retrieve]
    exact Nat.le_max_left _ _
  | retrieveAll =>
    cases hnext
    exact Nat.le_max_left _ _
  | retrieveAllAsString =>
    simp only [next, Buffer.retrieveAllAsString_spec s.buf h] at hnext
    cases hnext
    rw [Buffer.length_retrieve]
    exact Nat.le_max_left _ _
  | retrieveAsString len =>
    simp only [next, Buffer.retrieveAsString, Option.bind_eq_bind, Option.bind_eq_some_iff] at hnext
    obtain ⟨⟨str, b⟩, ⟨result, _, hb⟩, hs⟩ := hnext
    cases hb
    cases hs
    rw [Buffer.length_retrieve]
    exact Nat.le_max_left _ _

theorem run_size {initialSize : Nat} {s s' : State} {ops : List Op} (h : s.buf.WF)
    (hrun : (machine initialSize).run s ops = some s') :
    s'.buf.buffer_.length ≤ max s.buf.buffer_.length (2 * peak s ops + 7) := by
  induction ops generalizing s with
  | nil =>
    obtain rfl : s = s' := by simpa using hrun
    exact Nat.le_max_left _ _
  | cons op ops ih =>
    obtain ⟨t, hnext, hrest⟩ := (machine initialSize).run_cons_some.mp hrun
    change next s op = some t at hnext
    have hstep := next_size h hnext
    have hafter := ih (next_wf h hnext) hrest
    rw [peak, hnext]
    simp only
    omega

/-- From every initial size and for every sequence of operations the storage is at most
    as large as at the beginning or twice the largest demand of the run and 7 bytes. -/
theorem size_le_twice_peak {initialSize : Nat} {s : State} {ops : List Op}
    (hrun : (machine initialSize).run { buf := Buffer.ctor initialSize } ops = some s) :
    s.buf.buffer_.length ≤
      max (initialSize + Buffer.kCheapPrepend)
        (2 * peak { buf := Buffer.ctor initialSize } ops + 7) := by
  have hsize := run_size (Buffer.ctor_wf initialSize) hrun
  have hinitial : (Buffer.ctor initialSize).buffer_.length =
      initialSize + Buffer.kCheapPrepend := List.length_replicate
  rw [← hinitial]
  exact hsize

/-- Three bytes are left at the end of a buffer of four, and five more are asked for: the
    vector grows behind the free space. -/
theorem size_le_twice_peak_growth :
    ∃ s, (machine 4).run { buf := Buffer.ctor 4 } [.append [1, 2, 3, 4], .retrieve 3,
        .append [5, 6, 7, 8, 9]] = some s ∧
      peak { buf := Buffer.ctor 4 } [.append [1, 2, 3, 4], .retrieve 3,
        .append [5, 6, 7, 8, 9]] = 6 ∧
      s.buf.buffer_.length = 17 ∧ s.buf.buffer_.length ≤ max 12 19 := by
  have hrun : (machine 4).run { buf := Buffer.ctor 4 } [.append [1, 2, 3, 4], .retrieve 3,
      .append [5, 6, 7, 8, 9]] = some _ := rfl
  exact ⟨_, hrun, by decide, by decide, size_le_twice_peak hrun⟩

end BufferFifo
