import Mymuduo.Framework.Region
import Mymuduo.Net.Syscall

/-! # Buffer

    `Buffer` of the source: a vector with a reader and a writer index.  Every
    access to `buffer_` goes through the checked operations of `Region`, so an
    operation that returns `some` has stayed inside the vector.

    * `WF` is the index discipline `kCheapPrepend <= readerIndex_ <=
      writerIndex_ <= buffer_.size()`.
    * Each operation has one specification lemma (`*_spec`): on a well-formed
      buffer it is defined, keeps `WF`, and does to `content` what it should.
    * `WFBuffer` packs a buffer with its `WF`; the connection model uses it.
-/

/-- `Buffer`. -/
structure Buffer where
  buffer_ : List Byte
  readerIndex_ : Nat
  writerIndex_ : Nat
  deriving DecidableEq, Repr

namespace Buffer

/-! ## Definitions -/

def kCheapPrepend : Nat := 8

def kInitialSize : Nat := 1024

/-- `Buffer::Buffer(initialSize)`. -/
def ctor (initialSize : Nat) : Buffer where
  buffer_ := List.replicate (initialSize + kCheapPrepend) 0
  readerIndex_ := kCheapPrepend
  writerIndex_ := kCheapPrepend

def readableBytes (b : Buffer) : Nat := b.writerIndex_ - b.readerIndex_

def wirteableBytes (b : Buffer) : Nat := b.buffer_.length - b.writerIndex_

def prependableBytes (b : Buffer) : Nat := b.readerIndex_

def retrieveAll (b : Buffer) : Buffer :=
  { b with readerIndex_ := kCheapPrepend, writerIndex_ := kCheapPrepend }

def retrieve (b : Buffer) (len : Nat) : Buffer :=
  if len < b.readableBytes then { b with readerIndex_ := b.readerIndex_ + len }
  else b.retrieveAll

/-- `retrieveAsString`: the string is copied from `peek()` before the indices
    move, with no check of `len`. -/
def retrieveAsString (b : Buffer) (len : Nat) : Option (List Byte × Buffer) := do
  let result ← Region.copyOut b.buffer_ b.readerIndex_ len
  return (result, b.retrieve len)

def retrieveAllAsString (b : Buffer) : Option (List Byte × Buffer) :=
  b.retrieveAsString b.readableBytes

/-- `std::vector::resize`: cut off or fill up with zeros. -/
def resize (buffer : List Byte) (size : Nat) : List Byte :=
  buffer.take size ++ List.replicate (size - buffer.length) 0

/-- `makeSpace`: grow the vector, or move the readable bytes to the front with
    the overlapping forward `std::copy`. -/
def makeSpace (b : Buffer) (len : Nat) : Option Buffer :=
  if b.wirteableBytes + b.prependableBytes < len + kCheapPrepend then
    some { b with buffer_ := resize b.buffer_ (b.writerIndex_ + len) }
  else do
    let readable := b.readableBytes
    let buffer ← Region.move b.buffer_ b.readerIndex_ kCheapPrepend readable
    return {
      buffer_ := buffer
      readerIndex_ := kCheapPrepend
      writerIndex_ := kCheapPrepend + readable }

def ensureWriteableBytes (b : Buffer) (len : Nat) : Option Buffer :=
  if b.wirteableBytes < len then b.makeSpace len else some b

def append (b : Buffer) (data : List Byte) : Option Buffer := do
  let b ← b.ensureWriteableBytes data.length
  let buffer ← Region.copyIn b.buffer_ b.writerIndex_ data
  return { b with buffer_ := buffer, writerIndex_ := b.writerIndex_ + data.length }

/-- `sizeof extrabuf` in `readFd`. -/
def extrabufSize : Nat := 65536

/-- The total length of the iovecs `readFd` offers to `readv`. -/
def readvOffered (b : Buffer) : Nat :=
  if b.wirteableBytes < extrabufSize then b.wirteableBytes + extrabufSize else b.wirteableBytes

/-- `readFd`: the value returned and the buffer after it.  `readv` fills the
    vector's tail first and `extrabuf` with what does not fit there. -/
def readFd (b : Buffer) : ReadvResult → Option (Int × Buffer)
  | .failed _ => some (-1, b)
  | .read data => do
    let writeable := b.wirteableBytes
    let buffer ← Region.copyIn b.buffer_ b.writerIndex_ (data.take writeable)
    let extrabuf := data.drop writeable
    let b := { b with buffer_ := buffer }
    if data.length ≤ writeable then
      return (data.length, { b with writerIndex_ := b.writerIndex_ + data.length })
    else
      let b ← { b with writerIndex_ := b.buffer_.length }.append extrabuf
      return (data.length, b)

/-- The bytes `writeFd` passes to `::write`: `readableBytes()` bytes from
    `peek()`.  The caller retrieves what was written. -/
def writeFd (b : Buffer) : Option (List Byte) :=
  Region.copyOut b.buffer_ b.readerIndex_ b.readableBytes

/-- The bytes in `[readerIndex_, writerIndex_)`. -/
def content (b : Buffer) : List Byte :=
  Region.slice b.buffer_ b.readerIndex_ b.readableBytes

/-- The index discipline of the source. -/
structure WF (b : Buffer) : Prop where
  prepend : kCheapPrepend ≤ b.readerIndex_
  indices : b.readerIndex_ ≤ b.writerIndex_
  size : b.writerIndex_ ≤ b.buffer_.length

/-! ## Specifications -/

theorem ctor_wf (initialSize : Nat) : (ctor initialSize).WF where
  prepend := Nat.le_refl _
  indices := Nat.le_refl _
  size := by simp [ctor]

theorem ctor_content (initialSize : Nat) : (ctor initialSize).content = [] := by
  simp [content, ctor, readableBytes, Region.slice]

theorem WF.length_content {b : Buffer} (h : b.WF) : b.content.length = b.readableBytes := by
  have := h.indices
  have := h.size
  apply Region.length_slice
  unfold readableBytes
  omega

theorem WF.add_readable {b : Buffer} (h : b.WF) :
    b.readerIndex_ + b.readableBytes = b.writerIndex_ := by
  have := h.indices
  unfold readableBytes
  omega

theorem content_eq_slice (buffer : List Byte) (r n : Nat) :
    (Buffer.mk buffer r (r + n)).content = Region.slice buffer r n := by
  unfold content readableBytes
  rw [Nat.add_sub_cancel_left]

theorem retrieveAll_spec (b : Buffer) (h : b.WF) :
    b.retrieveAll.WF ∧ b.retrieveAll.content = [] := by
  have hp := h.prepend
  have hi := h.indices
  have hs := h.size
  refine ⟨⟨Nat.le_refl _, Nat.le_refl _, ?_⟩, ?_⟩
  · simp only [retrieveAll]
    omega
  · simp [content, retrieveAll, readableBytes, Region.slice]

theorem retrieve_spec (b : Buffer) (len : Nat) (h : b.WF) :
    (b.retrieve len).WF ∧ (b.retrieve len).content = b.content.drop len := by
  have hp := h.prepend
  have hi := h.indices
  have hs := h.size
  unfold retrieve
  split
  · -- part of the content is retrieved: the reader index moves
    rename_i hlt
    have hlt' : len < b.writerIndex_ - b.readerIndex_ := hlt
    refine ⟨⟨?_, ?_, hs⟩, ?_⟩
    · simp only
      omega
    · simp only
      omega
    · unfold content readableBytes Region.slice
      simp only
      rw [List.drop_take, List.drop_drop]
      congr 1
      omega
  · -- all of it, or more than there is: both indices go back
    rename_i hge
    obtain ⟨hwf, hcontent⟩ := retrieveAll_spec b h
    refine ⟨hwf, ?_⟩
    rw [hcontent, List.drop_eq_nil_of_le]
    rw [h.length_content]
    omega

theorem retrieveAsString_spec (b : Buffer) (len : Nat) (h : b.WF) (hlen : len ≤ b.readableBytes) :
    b.retrieveAsString len = some (b.content.take len, b.retrieve len) := by
  have hadd := h.add_readable
  have hs := h.size
  -- `len` is checked by the caller, so the copy stays below `writerIndex_`
  have hcopy := Region.copyOut_eq (show b.readerIndex_ + len ≤ b.buffer_.length by omega)
  have htake : Region.slice b.buffer_ b.readerIndex_ len = b.content.take len := by
    unfold content Region.slice
    rw [List.take_take, Nat.min_eq_left hlen]
  rw [retrieveAsString, hcopy, htake]
  rfl

theorem retrieveAllAsString_spec (b : Buffer) (h : b.WF) :
    b.retrieveAllAsString = some (b.content, b.retrieve b.readableBytes) := by
  have hspec := retrieveAsString_spec b b.readableBytes h (Nat.le_refl _)
  rwa [List.take_of_length_le (Nat.le_of_eq h.length_content)] at hspec

theorem writeFd_spec (b : Buffer) (h : b.WF) : b.writeFd = some b.content := by
  have hadd := h.add_readable
  have hs := h.size
  exact Region.copyOut_eq (by omega)

theorem length_resize (buffer : List Byte) (size : Nat) : (resize buffer size).length = size := by
  unfold resize
  rw [List.length_append, List.length_take, List.length_replicate]
  omega

/-- Growing keeps every old cell. -/
theorem getElem?_resize {buffer : List Byte} {size i : Nat} (hle : buffer.length ≤ size)
    (hi : i < buffer.length) : (resize buffer size)[i]? = buffer[i]? := by
  unfold resize
  rw [List.take_of_length_le hle, List.getElem?_append_left hi]

theorem makeSpace_spec (b : Buffer) (len : Nat) (h : b.WF) (hfull : b.wirteableBytes < len) :
    ∃ b', b.makeSpace len = some b' ∧ b'.WF ∧ b'.content = b.content ∧
      len ≤ b'.wirteableBytes := by
  have hp := h.prepend
  have hi := h.indices
  have hs := h.size
  have hadd := h.add_readable
  unfold wirteableBytes at hfull
  unfold makeSpace
  split
  · -- the vector grows behind `writerIndex_`
    refine ⟨_, rfl, ⟨hp, hi, ?_⟩, ?_, ?_⟩
    · simp only [length_resize]
      omega
    · apply Region.slice_congr
      intro i hlt
      have hcell : b.readerIndex_ + i < b.buffer_.length := by
        change i < b.writerIndex_ - b.readerIndex_ at hlt
        omega
      exact getElem?_resize (by omega) hcell
    · simp only [wirteableBytes, length_resize]
      omega
  · -- the readable bytes move down to `kCheapPrepend`; source and target may overlap
    rename_i hroom
    unfold wirteableBytes prependableBytes at hroom
    obtain ⟨buffer, hmove, hlength, hget⟩ :=
      Region.move_spec hp (show b.readerIndex_ + b.readableBytes ≤ b.buffer_.length by omega)
    refine ⟨⟨buffer, kCheapPrepend, kCheapPrepend + b.readableBytes⟩, ?_,
      ⟨Nat.le_refl _, ?_, ?_⟩, ?_, ?_⟩
    · simp only [hmove]
      rfl
    · simp only
      omega
    · simp only
      omega
    · rw [content_eq_slice]
      apply Region.slice_congr
      intro i hlt
      rw [hget, if_pos (by omega), Nat.add_sub_cancel_left]
    · simp only [wirteableBytes]
      omega

theorem ensureWriteableBytes_spec (b : Buffer) (len : Nat) (h : b.WF) :
    ∃ b', b.ensureWriteableBytes len = some b' ∧ b'.WF ∧ b'.content = b.content ∧
      len ≤ b'.wirteableBytes := by
  unfold ensureWriteableBytes
  split
  · rename_i hfull
    exact makeSpace_spec b len h hfull
  · rename_i hroom
    exact ⟨b, rfl, h, rfl, by omega⟩

/-- Writing `data` behind `writerIndex_` and advancing it appends to the
    content. -/
theorem copyIn_spec (b : Buffer) (data : List Byte) (h : b.WF)
    (hroom : data.length ≤ b.wirteableBytes) :
    ∃ buffer, Region.copyIn b.buffer_ b.writerIndex_ data = some buffer ∧
      buffer.length = b.buffer_.length ∧
      ({ buffer_ := buffer, readerIndex_ := b.readerIndex_,
         writerIndex_ := b.writerIndex_ + data.length } : Buffer).WF ∧
      ({ buffer_ := buffer, readerIndex_ := b.readerIndex_,
         writerIndex_ := b.writerIndex_ + data.length } : Buffer).content =
        b.content ++ data := by
  have hp := h.prepend
  have hi := h.indices
  have hs := h.size
  have hadd := h.add_readable
  unfold wirteableBytes at hroom
  obtain ⟨buffer, hcopy, hlength, hget⟩ :=
    Region.copyIn_spec (show b.writerIndex_ + data.length ≤ b.buffer_.length by omega)
  refine ⟨buffer, hcopy, hlength, ⟨hp, ?_, ?_⟩, ?_⟩
  · simp only
    omega
  · simp only
    omega
  · -- the cells below `writerIndex_` are not written
    have hnew := Region.copyIn_slice hget
    have hold : Region.slice buffer b.readerIndex_ b.readableBytes = b.content := by
      apply Region.slice_congr
      intro i hlt
      rw [hget, if_neg (by omega)]
    rw [← hadd] at hnew ⊢
    rw [Nat.add_assoc, content_eq_slice, ← Region.slice_append_slice, hnew, hold]

theorem append_spec (b : Buffer) (data : List Byte) (h : b.WF) :
    ∃ b', b.append data = some b' ∧ b'.WF ∧ b'.content = b.content ++ data := by
  obtain ⟨b₁, hensure, hwf₁, hcontent₁, hroom⟩ := ensureWriteableBytes_spec b data.length h
  obtain ⟨buffer, hcopy, _, hwf, hcontent⟩ := copyIn_spec b₁ data hwf₁ hroom
  refine ⟨_, ?_, hwf, ?_⟩
  · rw [append, hensure]
    simp only [Option.bind_eq_bind, Option.bind_some, hcopy]
    rfl
  · rw [hcontent, hcontent₁]

theorem readFd_spec (b : Buffer) (data : List Byte) (h : b.WF) :
    ∃ b', b.readFd (.read data) = some ((data.length : Int), b') ∧ b'.WF ∧
      b'.content = b.content ++ data := by
  have hs := h.size
  have hfit : (data.take b.wirteableBytes).length ≤ b.wirteableBytes := by
    rw [List.length_take]
    omega
  obtain ⟨buffer, hcopy, hlength, hwf, hcontent⟩ :=
    copyIn_spec b (data.take b.wirteableBytes) h hfit
  rw [readFd]
  simp only [Option.bind_eq_bind, hcopy, Option.bind_some]
  split
  · -- everything fits into the tail of the vector
    rename_i hle
    rw [List.take_of_length_le hle] at hwf hcontent
    exact ⟨_, rfl, hwf, hcontent⟩
  · -- the tail is full: the rest comes out of `extrabuf`
    rename_i hgt
    have hfull : b.writerIndex_ + (data.take b.wirteableBytes).length = buffer.length := by
      rw [List.length_take, hlength]
      unfold wirteableBytes at hgt ⊢
      omega
    rw [hfull] at hwf hcontent
    obtain ⟨b', happend, hwf', hcontent'⟩ := append_spec _ (data.drop b.wirteableBytes) hwf
    refine ⟨b', ?_, hwf', ?_⟩
    · rw [happend]
      rfl
    · rw [hcontent', hcontent, List.append_assoc, List.take_append_drop]

end Buffer

/-! ## Well-formed buffers -/

/-- A buffer that keeps the index discipline. -/
structure WFBuffer where
  buf : Buffer
  wf : buf.WF

namespace WFBuffer

def ctor (initialSize : Nat) : WFBuffer := ⟨Buffer.ctor initialSize, Buffer.ctor_wf initialSize⟩

def content (b : WFBuffer) : List Byte := b.buf.content

def readableBytes (b : WFBuffer) : Nat := b.buf.readableBytes

def retrieve (b : WFBuffer) (len : Nat) : WFBuffer :=
  ⟨b.buf.retrieve len, (Buffer.retrieve_spec b.buf len b.wf).1⟩

theorem append_isSome (b : WFBuffer) (data : List Byte) : (b.buf.append data).isSome := by
  obtain ⟨b', h, _⟩ := Buffer.append_spec b.buf data b.wf
  rw [h]
  rfl

theorem append_get_wf (b : WFBuffer) (data : List Byte) :
    ((b.buf.append data).get (b.append_isSome data)).WF := by
  obtain ⟨b', h, hwf, _⟩ := Buffer.append_spec b.buf data b.wf
  simpa [h] using hwf

def append (b : WFBuffer) (data : List Byte) : WFBuffer :=
  ⟨(b.buf.append data).get (b.append_isSome data), b.append_get_wf data⟩

theorem readFd_isSome (b : WFBuffer) (r : ReadvResult) : (b.buf.readFd r).isSome := by
  cases r with
  | failed e => rfl
  | read data =>
    obtain ⟨b', h, _⟩ := Buffer.readFd_spec b.buf data b.wf
    rw [h]
    rfl

theorem readFd_get_wf (b : WFBuffer) (r : ReadvResult) :
    ((b.buf.readFd r).get (b.readFd_isSome r)).2.WF := by
  cases r with
  | failed e => exact b.wf
  | read data =>
    obtain ⟨b', h, hwf, _⟩ := Buffer.readFd_spec b.buf data b.wf
    simpa [h] using hwf

theorem writeFd_isSome (b : WFBuffer) : b.buf.writeFd.isSome := by
  rw [Buffer.writeFd_spec b.buf b.wf]
  rfl

def writeFd (b : WFBuffer) : List Byte := b.buf.writeFd.get b.writeFd_isSome

/-- `readFd`: the value returned and the buffer after it. -/
def readFd (b : WFBuffer) (r : ReadvResult) : Int × WFBuffer :=
  let res := (b.buf.readFd r).get (b.readFd_isSome r)
  (res.1, ⟨res.2, b.readFd_get_wf r⟩)

@[simp] theorem ctor_content (initialSize : Nat) : (ctor initialSize).content = [] :=
  Buffer.ctor_content initialSize

@[simp] theorem readableBytes_eq (b : WFBuffer) : b.readableBytes = b.content.length :=
  b.wf.length_content.symm

@[simp] theorem retrieve_content (b : WFBuffer) (len : Nat) :
    (b.retrieve len).content = b.content.drop len :=
  (Buffer.retrieve_spec b.buf len b.wf).2

@[simp] theorem writeFd_eq (b : WFBuffer) : b.writeFd = b.content := by
  simp [writeFd, content, Buffer.writeFd_spec b.buf b.wf]

@[simp] theorem append_content (b : WFBuffer) (data : List Byte) :
    (b.append data).content = b.content ++ data := by
  obtain ⟨b', h, _, hcontent⟩ := Buffer.append_spec b.buf data b.wf
  simpa [append, content, h] using hcontent

end WFBuffer
