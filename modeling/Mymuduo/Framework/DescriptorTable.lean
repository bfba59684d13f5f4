import Mathlib.Data.Finset.Basic
import Mathlib.Data.Finset.Range
import Mathlib.Data.List.Basic

/-! # Descriptor tables

    The open descriptors of a process with a limit on their number.  A call that makes a
    descriptor gets the lowest one that is free, and fails when the table is full.

    `OwnedBy` is for programs whose descriptors belong to objects or threads: each open
    descriptor has exactly one owner, and each owner at most one descriptor.
-/

structure DescriptorTable where
  limit : Nat
  used : Finset Nat
  bounded : used ⊆ Finset.range limit

namespace DescriptorTable

variable {t t' : DescriptorTable} {fd : Nat}

/-! ## Operations -/

/-- The lowest free descriptor. -/
def lowest (t : DescriptorTable) : Option Nat :=
  (List.range t.limit).find? fun fd => fd ∉ t.used

def Full (t : DescriptorTable) : Prop := t.used = Finset.range t.limit

instance (t : DescriptorTable) : Decidable t.Full := inferInstanceAs (Decidable (_ = _))

theorem lowest_spec (h : t.lowest = some fd) : fd ∉ t.used ∧ fd < t.limit := by
  have hfree := List.find?_some h
  have hmem := List.mem_of_find?_eq_some h
  exact ⟨by simpa using hfree, List.mem_range.mp hmem⟩

/-- The new descriptor and the table with it; `none` is EMFILE. -/
def allocate (t : DescriptorTable) : Option (Nat × DescriptorTable) :=
  match h : t.lowest with
  | some fd =>
    some (fd, {
      limit := t.limit
      used := insert fd t.used
      bounded := by
        rw [Finset.insert_subset_iff]
        exact ⟨Finset.mem_range.mpr (lowest_spec h).2, t.bounded⟩ })
  | none => none

/-- `close`, which fails on a descriptor that is not open. -/
def close (t : DescriptorTable) (fd : Nat) : DescriptorTable where
  limit := t.limit
  used := t.used.erase fd
  bounded := (Finset.erase_subset fd t.used).trans t.bounded

/-! ## What they do -/

@[ext] theorem ext (hlimit : t.limit = t'.limit) (hused : t.used = t'.used) : t = t' := by
  cases t
  cases t'
  cases hlimit
  cases hused
  rfl

theorem allocate_some (h : t.allocate = some (fd, t')) :
    fd ∉ t.used ∧ t'.used = insert fd t.used ∧ t'.limit = t.limit := by
  unfold allocate at h
  split at h
  · rename_i fd' hlow
    simp only [Option.some.injEq, Prod.mk.injEq] at h
    obtain ⟨rfl, rfl⟩ := h
    exact ⟨(lowest_spec hlow).1, rfl, rfl⟩
  · cases h

theorem allocate_none_iff : t.allocate = none ↔ t.Full := by
  have hlow : t.lowest = none ↔ t.Full := by
    unfold lowest Full
    rw [List.find?_eq_none]
    constructor
    · intro h
      refine Finset.Subset.antisymm t.bounded ?_
      intro fd hfd
      simpa using h fd (List.mem_range.mpr (Finset.mem_range.mp hfd))
    · intro h fd hfd
      rw [h]
      simpa using hfd
  rw [← hlow]
  unfold allocate
  split
  · rename_i fd' h
    simp [h]
  · rename_i h
    simp [h]

theorem not_full_close (h : fd ∈ t.used) : ¬ (t.close fd).Full := by
  intro hfull
  have hmem : fd ∈ (t.close fd).used := by
    rw [hfull]
    exact t.bounded h
  exact Finset.notMem_erase fd t.used hmem

/-- Closing makes no table full. -/
theorem not_full_of_not_full (h : ¬ t.Full) : ¬ (t.close fd).Full := by
  intro hfull
  apply h
  refine Finset.Subset.antisymm t.bounded ?_
  have hused : t.used.erase fd = Finset.range t.limit := hfull
  rw [← hused]
  exact Finset.erase_subset fd t.used

/-- Closing what was allocated. -/
theorem close_allocate (h : t.allocate = some (fd, t')) : t'.close fd = t := by
  obtain ⟨hfree, hused, hlimit⟩ := allocate_some h
  refine ext hlimit ?_
  show t'.used.erase fd = t.used
  rw [hused, Finset.erase_insert hfree]

end DescriptorTable

/-! ## Owners -/

/-- The open descriptors are the ones that the owners hold, each held by one of them. -/
structure OwnedBy {ι : Type*} (used : Finset Nat) (fd : ι → Option Nat) : Prop where
  mem : ∀ x, x ∈ used ↔ ∃ i, fd i = some x
  inj : ∀ i j x, fd i = some x → fd j = some x → i = j

namespace OwnedBy

variable {ι : Type*} [DecidableEq ι] {used : Finset Nat} {fd : ι → Option Nat} {i : ι} {x : Nat}

/-- An owner without a descriptor gets a new one. -/
theorem opens (h : OwnedBy used fd) (hnone : fd i = none) (hfree : x ∉ used) :
    OwnedBy (insert x used) (Function.update fd i (some x)) := by
  -- nobody else holds the new one
  have hother : ∀ j, fd j ≠ some x := fun j hj => hfree ((h.mem x).mpr ⟨j, hj⟩)
  refine ⟨?_, ?_⟩
  · intro y
    rw [Finset.mem_insert, h.mem]
    constructor
    · rintro (rfl | ⟨j, hj⟩)
      · exact ⟨i, Function.update_self _ _ _⟩
      · have hji : j ≠ i := by
          rintro rfl
          rw [hnone] at hj
          cases hj
        exact ⟨j, by rw [Function.update_of_ne hji, hj]⟩
    · rintro ⟨j, hj⟩
      by_cases hji : j = i
      · subst hji
        rw [Function.update_self] at hj
        exact Or.inl (Option.some.inj hj).symm
      · rw [Function.update_of_ne hji] at hj
        exact Or.inr ⟨j, hj⟩
  · intro j k y hj hk
    by_cases hji : j = i <;> by_cases hki : k = i
    · rw [hji, hki]
    · subst hji
      rw [Function.update_self] at hj
      rw [Function.update_of_ne hki] at hk
      exact absurd (hk.trans hj.symm) (hother k)
    · subst hki
      rw [Function.update_self] at hk
      rw [Function.update_of_ne hji] at hj
      exact absurd (hj.trans hk.symm) (hother j)
    · rw [Function.update_of_ne hji] at hj
      rw [Function.update_of_ne hki] at hk
      exact h.inj j k y hj hk

/-- An owner closes its descriptor. -/
theorem closes (h : OwnedBy used fd) (hsome : fd i = some x) :
    OwnedBy (used.erase x) (Function.update fd i none) := by
  refine ⟨?_, ?_⟩
  · intro y
    rw [Finset.mem_erase, h.mem]
    constructor
    · rintro ⟨hne, j, hj⟩
      have hji : j ≠ i := by
        rintro rfl
        exact hne (Option.some.inj (hj.symm.trans hsome))
      exact ⟨j, by rw [Function.update_of_ne hji, hj]⟩
    · rintro ⟨j, hj⟩
      by_cases hji : j = i
      · subst hji
        rw [Function.update_self] at hj
        cases hj
      · rw [Function.update_of_ne hji] at hj
        refine ⟨?_, j, hj⟩
        rintro rfl
        exact hji (h.inj j i y hj hsome)
  · intro j k y hj hk
    have hback : ∀ {l}, Function.update fd i none l = some y → fd l = some y := by
      intro l hl
      by_cases hli : l = i
      · subst hli
        rw [Function.update_self] at hl
        cases hl
      · rwa [Function.update_of_ne hli] at hl
    exact h.inj j k y (hback hj) (hback hk)

end OwnedBy
