import Mathlib.Order.Lattice

/-! # Ordered sets

    A finite set over a linear order that is kept as the strictly increasing list
    of its elements, with the operations a search tree offers: insertion and
    removal of one element, the first element, and the elements below a bound.
    The order is part of the type, so iteration order needs no separate argument.
-/

/-- A finite set, listed in strictly increasing order. -/
structure OrderedSet (α : Type*) [LinearOrder α] where
  elems : List α
  sorted : elems.Pairwise (· < ·)

namespace OrderedSet

variable {α : Type*} [LinearOrder α]

instance : Membership α (OrderedSet α) := ⟨fun s a => a ∈ s.elems⟩

instance (a : α) (s : OrderedSet α) : Decidable (a ∈ s) :=
  inferInstanceAs (Decidable (a ∈ s.elems))

theorem mem_elems {a : α} {s : OrderedSet α} : a ∈ s.elems ↔ a ∈ s := Iff.rfl

/-! ## Operations -/

def empty : OrderedSet α := ⟨[], List.Pairwise.nil⟩

/-- Insertion into an increasing list; an element that is there stays as it is. -/
def insertSorted (a : α) : List α → List α
  | [] => [a]
  | b :: l => if a < b then a :: b :: l else if a = b then b :: l else b :: insertSorted a l

theorem mem_insertSorted {a x : α} {l : List α} : x ∈ insertSorted a l ↔ x = a ∨ x ∈ l := by
  induction l with
  | nil => simp [insertSorted]
  | cons b l ih =>
    unfold insertSorted
    split
    · simp
    · split
      · rename_i heq
        simp [heq]
      · rw [List.mem_cons, ih, List.mem_cons]
        exact or_left_comm

theorem insertSorted_sorted (a : α) {l : List α} (h : l.Pairwise (· < ·)) :
    (insertSorted a l).Pairwise (· < ·) := by
  induction l with
  | nil => exact List.pairwise_singleton _ _
  | cons b l ih =>
    obtain ⟨hb, hl⟩ := List.pairwise_cons.mp h
    unfold insertSorted
    split
    · rename_i hab
      -- a goes to the front, below all of the list
      refine List.pairwise_cons.mpr ⟨?_, h⟩
      intro x hx
      rcases List.mem_cons.mp hx with rfl | hx
      · exact hab
      · exact lt_trans hab (hb x hx)
    · rename_i hab
      split
      · exact h
      · rename_i hne
        -- a goes somewhere behind b, and is above it
        refine List.pairwise_cons.mpr ⟨?_, ih hl⟩
        intro x hx
        rcases mem_insertSorted.mp hx with rfl | hx
        · exact lt_of_le_of_ne (not_lt.mp hab) (Ne.symm hne)
        · exact hb x hx

def insert (s : OrderedSet α) (a : α) : OrderedSet α :=
  ⟨insertSorted a s.elems, insertSorted_sorted a s.sorted⟩

def erase (s : OrderedSet α) (a : α) : OrderedSet α :=
  ⟨s.elems.filter (· ≠ a), s.sorted.filter _⟩

/-- The first element, if there is one. -/
def first (s : OrderedSet α) : Option α := s.elems.head?

/-- The elements before the lower bound of `x`, in order. -/
def below (s : OrderedSet α) (x : α) : List α := s.elems.takeWhile (· < x)

/-- The set without the elements before the lower bound of `x`. -/
def eraseBelow (s : OrderedSet α) (x : α) : OrderedSet α :=
  ⟨s.elems.dropWhile (· < x), s.sorted.sublist (List.dropWhile_sublist _)⟩

/-! ## Membership -/

@[simp] theorem not_mem_empty (a : α) : a ∉ (empty : OrderedSet α) := List.not_mem_nil

@[simp] theorem mem_insert {s : OrderedSet α} {a x : α} : x ∈ s.insert a ↔ x = a ∨ x ∈ s :=
  mem_insertSorted

@[simp] theorem mem_erase {s : OrderedSet α} {a x : α} : x ∈ s.erase a ↔ x ∈ s ∧ x ≠ a := by
  show x ∈ s.elems.filter (· ≠ a) ↔ x ∈ s.elems ∧ x ≠ a
  simp

theorem length_erase_add_one {s : OrderedSet α} {a : α} (h : a ∈ s) :
    (s.erase a).elems.length + 1 = s.elems.length := by
  have hnodup : s.elems.Nodup := s.sorted.imp ne_of_lt
  have herase : (s.erase a).elems = s.elems.erase a := by
    rw [hnodup.erase_eq_filter]
    apply List.filter_congr
    intro b _
    rw [bne, beq_eq_decide, decide_not]
  rw [herase, List.length_erase_of_mem h]
  exact Nat.sub_add_cancel (List.length_pos_of_mem h)

/-- On an increasing list the elements below a bound are a prefix. -/
theorem sorted_split (x : α) {l : List α} (h : l.Pairwise (· < ·)) :
    (∀ a ∈ l.takeWhile (· < x), a < x) ∧ ∀ a ∈ l.dropWhile (· < x), x ≤ a := by
  induction l with
  | nil => simp
  | cons b l ih =>
    obtain ⟨hb, hl⟩ := List.pairwise_cons.mp h
    by_cases hbx : b < x
    · obtain ⟨h1, h2⟩ := ih hl
      simp only [hbx, decide_true, List.takeWhile_cons_of_pos, List.dropWhile_cons_of_pos]
      refine ⟨?_, h2⟩
      intro a ha
      rcases List.mem_cons.mp ha with rfl | ha
      · exact hbx
      · exact h1 a ha
    · have hle : x ≤ b := not_lt.mp hbx
      simp only [hbx, decide_false, Bool.false_eq_true, not_false_eq_true,
        List.takeWhile_cons_of_neg, List.dropWhile_cons_of_neg]
      refine ⟨by simp, ?_⟩
      intro a ha
      rcases List.mem_cons.mp ha with rfl | ha
      · exact hle
      · exact le_of_lt (lt_of_le_of_lt hle (hb a ha))

theorem below_append (s : OrderedSet α) (x : α) :
    s.below x ++ (s.eraseBelow x).elems = s.elems :=
  List.takeWhile_append_dropWhile

theorem mem_below {s : OrderedSet α} {x a : α} : a ∈ s.below x ↔ a ∈ s ∧ a < x := by
  obtain ⟨h1, h2⟩ := sorted_split x s.sorted
  rw [← mem_elems, ← below_append s x, List.mem_append]
  constructor
  · intro ha
    exact ⟨Or.inl ha, h1 a ha⟩
  · intro hcases
    rcases hcases with ⟨ha | ha, hlt⟩
    · exact ha
    · exact absurd hlt (not_lt.mpr (h2 a ha))

theorem mem_eraseBelow {s : OrderedSet α} {x a : α} : a ∈ s.eraseBelow x ↔ a ∈ s ∧ x ≤ a := by
  obtain ⟨h1, h2⟩ := sorted_split x s.sorted
  constructor
  · intro ha
    refine ⟨?_, h2 a ha⟩
    rw [← mem_elems, ← below_append s x, List.mem_append]
    exact Or.inr ha
  · intro ⟨ha, hle⟩
    rw [← mem_elems, ← below_append s x, List.mem_append] at ha
    rcases ha with ha | ha
    · exact absurd (h1 a ha) (not_lt.mpr hle)
    · exact ha

theorem below_sorted (s : OrderedSet α) (x : α) : (s.below x).Pairwise (· < ·) :=
  s.sorted.sublist (List.takeWhile_sublist _)

/-! ## The first element -/

theorem first_eq_none {s : OrderedSet α} : s.first = none ↔ ∀ a, a ∉ s := by
  unfold first
  rw [List.head?_eq_none_iff, List.eq_nil_iff_forall_not_mem]
  rfl

theorem first_mem {s : OrderedSet α} {b : α} (h : s.first = some b) : b ∈ s :=
  List.mem_of_mem_head? h

theorem first_le {s : OrderedSet α} {a b : α} (h : s.first = some b) (ha : a ∈ s) : b ≤ a := by
  obtain ⟨l, hl⟩ := List.head?_eq_some_iff.mp h
  have hs := s.sorted
  rw [← mem_elems, hl] at ha
  rw [hl] at hs
  -- the head of an increasing list is its least element
  rcases List.mem_cons.mp ha with rfl | ha
  · exact le_rfl
  · exact le_of_lt ((List.pairwise_cons.mp hs).1 a ha)

end OrderedSet
