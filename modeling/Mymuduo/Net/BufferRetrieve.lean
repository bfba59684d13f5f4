import Mymuduo.Net.BufferFifo

/-! # retrieveAsString

    `retrieveAsString(len)` copies and then consumes.  `retrieve` takes no more than there
    is to read; the copy takes `len` bytes from `peek()` whatever stands there.
-/

namespace Buffer

/-- The cells of `buffer_` that the copy in `retrieveAsString(len)` reads. -/
def retrieveAsStringReads (b : Buffer) (len : Nat) : List Nat := List.range' b.readerIndex_ len

/-- These are its loads, one for each byte of the string. -/
theorem retrieveAsString_eq_loads (b : Buffer) (len : Nat) :
    b.retrieveAsString len =
      ((b.retrieveAsStringReads len).mapM (Region.load b.buffer_)).map
        fun result => (result, b.retrieve len) := by
  rw [retrieveAsString, Region.copyOut_eq_mapM, retrieveAsStringReads]
  cases (List.range' b.readerIndex_ len).mapM (Region.load b.buffer_) <;> rfl

/-- What is returned and what stays make up what was there, and nothing else was read. -/
def Splits (b : Buffer) (len : Nat) : Prop :=
  (∃ result b', b.retrieveAsString len = some (result, b') ∧
    b.content = result ++ b'.content) ∧
  ∀ i ∈ b.retrieveAsStringReads len, b.readerIndex_ ≤ i ∧ i < b.writerIndex_

theorem splits_of_le {b : Buffer} (h : b.WF) {len : Nat} (hlen : len ≤ b.readableBytes) :
    b.Splits len := by
  have hret := retrieveAsString_spec b len h hlen
  obtain ⟨_, hcontent⟩ := retrieve_spec b len h
  refine ⟨⟨_, _, hret, ?_⟩, ?_⟩
  · rw [hcontent, List.take_append_drop]
  · intro i hi
    have hadd := h.add_readable
    obtain ⟨hlow, hhigh⟩ := List.mem_range'_1.mp hi
    omega

/-- A longer request reads the byte at `writerIndex_`. -/
theorem le_of_splits {b : Buffer} (h : b.WF) {len : Nat} (hsplit : b.Splits len) :
    len ≤ b.readableBytes := by
  by_contra hlt
  have hadd := h.add_readable
  have hread : b.writerIndex_ ∈ b.retrieveAsStringReads len := by
    apply List.mem_range'_1.mpr
    omega
  exact Nat.lt_irrefl _ (hsplit.2 _ hread).2

end Buffer

namespace BufferFifo

/-- For every buffer that operations on it have led to and every `len`: the content is
    the string that `retrieveAsString(len)` returns followed by what is left, and only
    readable bytes are read, if and only if `len` bytes are readable. -/
theorem retrieveAsString_splits_iff {initialSize : Nat} {s : State}
    (h : (machine initialSize).Reachable s) (len : Nat) :
    s.buf.Splits len ↔ len ≤ s.buf.readableBytes := by
  have hwf := wf_of_reachable h
  exact ⟨Buffer.le_of_splits hwf, Buffer.splits_of_le hwf⟩

/-- Four bytes of which one was retrieved; two more are asked for. -/
theorem retrieveAsString_splits_iff_partial :
    ∃ s, (machine 4).Reachable s ∧ s.buf.content = [2, 3, 4] ∧ s.buf.Splits 2 := by
  have hrun : (machine 4).run { buf := Buffer.ctor 4 } [.append [1, 2, 3, 4], .retrieve 1] =
      some _ := rfl
  have hreach : (machine 4).Reachable _ := ⟨_, _, rfl, hrun⟩
  exact ⟨_, hreach, rfl, (retrieveAsString_splits_iff hreach 2).mpr (by decide)⟩

/-- Three bytes of a buffer that has two: the third byte of the string is the one
    behind `writerIndex_`. -/
theorem retrieveAsString_reads_behind :
    ∃ s, (machine 4).Reachable s ∧ s.buf.content = [1, 2] ∧
      (s.buf.retrieveAsString 3).map Prod.fst = some [1, 2, 0] ∧ ¬ s.buf.Splits 3 := by
  have hrun : (machine 4).run { buf := Buffer.ctor 4 } [.append [1, 2]] = some _ := rfl
  refine ⟨_, ⟨_, _, rfl, hrun⟩, rfl, rfl, ?_⟩
  rintro ⟨_, hreads⟩
  exact absurd (hreads 10 (by decide)).2 (by decide)

end BufferFifo
