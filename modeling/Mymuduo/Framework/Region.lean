import Mathlib.Data.List.Basic
import Mathlib.Data.List.Induction

/-! # Bounds-checked memory regions

    A region is a list of cells.  Every access is checked: an access outside
    the region gives `none`, so a result `some _` is a proof that a program
    stayed inside.  The block operations are the element-by-element loops that
    C and C++ block copies are specified by; `move` is the forward copy inside
    one region, which is allowed to overlap when the target is below the
    source.
-/

namespace Region

universe u

variable {α : Type u}

/-! ## Accesses -/

def load (mem : List α) (i : Nat) : Option α := mem[i]?

def store (mem : List α) (i : Nat) (x : α) : Option (List α) :=
  if i < mem.length then some (mem.set i x) else none

/-- Copy `len` cells out of the region, first to last. -/
def copyOut (mem : List α) (pos : Nat) : Nat → Option (List α)
  | 0 => some []
  | len + 1 => do
    let x ← load mem pos
    let xs ← copyOut mem (pos + 1) len
    return x :: xs

/-- Copy foreign cells into the region, first to last. -/
def copyIn (mem : List α) (pos : Nat) : List α → Option (List α)
  | [] => some mem
  | x :: xs => do
    let mem ← store mem pos x
    copyIn mem (pos + 1) xs

/-- Copy `len` cells from `src` to `dst` inside the region, first to last. -/
def move (mem : List α) (src dst : Nat) : Nat → Option (List α)
  | 0 => some mem
  | len + 1 => do
    let x ← load mem src
    let mem ← store mem dst x
    move mem (src + 1) (dst + 1) len

/-- Reverse the `len` cells from `first` on: the two at the ends change places, and the
    ends move inwards. -/
def reverse (mem : List α) (first : Nat) : Nat → Option (List α)
  | 0 => some mem
  | 1 => some mem
  | len + 2 => do
    let x ← load mem first
    let y ← load mem (first + (len + 1))
    let mem ← store mem first y
    let mem ← store mem (first + (len + 1)) x
    reverse mem (first + 1) len

/-- The cells `[pos, pos + len)`. -/
def slice (mem : List α) (pos len : Nat) : List α := (mem.drop pos).take len

/-! ## Specifications -/

theorem length_slice {mem : List α} {pos len : Nat} (h : pos + len ≤ mem.length) :
    (slice mem pos len).length = len := by
  unfold slice
  rw [List.length_take, List.length_drop]
  omega

theorem getElem?_slice (mem : List α) (pos len i : Nat) :
    (slice mem pos len)[i]? = if i < len then mem[pos + i]? else none := by
  unfold slice
  rw [List.getElem?_take, List.getElem?_drop]

theorem slice_append_slice (mem : List α) (pos len more : Nat) :
    slice mem pos len ++ slice mem (pos + len) more = slice mem pos (len + more) := by
  unfold slice
  rw [List.take_add, List.drop_drop]

theorem copyOut_eq {mem : List α} {pos len : Nat} (h : pos + len ≤ mem.length) :
    copyOut mem pos len = some (slice mem pos len) := by
  induction len generalizing pos with
  | zero => simp [copyOut, slice]
  | succ len ih =>
    have hpos : pos < mem.length := by omega
    have hrest : copyOut mem (pos + 1) len = some (slice mem (pos + 1) len) := ih (by omega)
    -- the slice begins with the cell that is read first
    have hslice : slice mem pos (len + 1) = mem[pos] :: slice mem (pos + 1) len := by
      unfold slice
      rw [List.drop_eq_getElem_cons hpos, List.take_succ_cons]
    rw [copyOut, hrest, hslice, load, List.getElem?_eq_getElem hpos]
    rfl

/-- The loads of `copyOut`: the cells from `pos` on, one after the other. -/
theorem copyOut_eq_mapM (mem : List α) (pos len : Nat) :
    copyOut mem pos len = (List.range' pos len).mapM (load mem) := by
  induction len generalizing pos with
  | zero => rfl
  | succ len ih =>
    rw [copyOut, ih, List.range'_succ, List.mapM_cons]

theorem store_eq {mem : List α} {i : Nat} (x : α) (h : i < mem.length) :
    store mem i x = some (mem.set i x) := if_pos h

/-- Cell by cell: what `copyIn` leaves. -/
theorem copyIn_spec {mem : List α} {pos : Nat} {xs : List α}
    (h : pos + xs.length ≤ mem.length) :
    ∃ mem', copyIn mem pos xs = some mem' ∧ mem'.length = mem.length ∧
      ∀ i, mem'[i]? = if pos ≤ i ∧ i < pos + xs.length then xs[i - pos]? else mem[i]? := by
  induction xs generalizing mem pos with
  | nil =>
    refine ⟨mem, rfl, rfl, ?_⟩
    intro i
    rw [if_neg (by simp)]
  | cons x xs ih =>
    have hpos : pos < mem.length := by
      simp only [List.length_cons] at h
      omega
    have hroom : pos + 1 + xs.length ≤ (mem.set pos x).length := by
      simp only [List.length_cons] at h
      rw [List.length_set]
      omega
    obtain ⟨mem', hcopy, hlen, hget⟩ := ih hroom
    refine ⟨mem', ?_, ?_, ?_⟩
    · rw [copyIn, store_eq x hpos]
      exact hcopy
    · rw [hlen, List.length_set]
    · intro i
      rw [hget i, List.getElem?_set]
      simp only [List.length_cons]
      -- below, at and above the first cell written
      rcases Nat.lt_trichotomy i pos with hlt | rfl | hgt
      · rw [if_neg (by omega), if_neg (by omega), if_neg (by omega)]
      · rw [if_neg (by omega), if_pos rfl, if_pos hpos, if_pos (by omega)]
        simp
      · have hidx : i - pos = (i - (pos + 1)) + 1 := by omega
        by_cases hin : i < pos + 1 + xs.length
        · rw [if_pos (by omega), if_pos (by omega), hidx, List.getElem?_cons_succ]
        · rw [if_neg (by omega), if_neg (by omega), if_neg (by omega)]

/-- A region whose cells from `pos` on are replaced. -/
theorem copyIn_eq {mem : List α} {pos : Nat} {xs : List α} (h : pos + xs.length ≤ mem.length) :
    copyIn mem pos xs = some (mem.take pos ++ xs ++ mem.drop (pos + xs.length)) := by
  obtain ⟨mem', hcopy, _, hget⟩ := copyIn_spec h
  rw [hcopy, Option.some.injEq]
  apply List.ext_getElem?
  intro i
  rw [hget, List.getElem?_append, List.getElem?_append, List.getElem?_drop, List.length_append,
    List.length_take, Nat.min_eq_left (by omega)]
  -- before, inside and behind the cells written
  by_cases hbefore : i < pos
  · rw [if_neg (by omega), if_pos (by omega), if_pos hbefore, List.getElem?_take, if_pos hbefore]
  · by_cases hinside : i < pos + xs.length
    · rw [if_pos (by omega), if_pos hinside, if_neg hbefore]
    · rw [if_neg (by omega), if_neg hinside]
      congr 1
      omega

theorem copyIn_append (mem : List α) (pos : Nat) (xs ys : List α) :
    copyIn mem pos (xs ++ ys) =
      (copyIn mem pos xs).bind fun mem => copyIn mem (pos + xs.length) ys := by
  induction xs generalizing mem pos with
  | nil => rfl
  | cons x xs ih =>
    rw [List.cons_append, copyIn, copyIn]
    cases store mem pos x with
    | none => rfl
    | some mem' =>
      show copyIn mem' (pos + 1) (xs ++ ys) = _
      rw [ih, List.length_cons, Nat.add_right_comm, Nat.add_assoc]
      rfl

theorem copyIn_singleton (mem : List α) (pos : Nat) (x : α) :
    copyIn mem pos [x] = store mem pos x := by
  rw [copyIn]
  cases store mem pos x <;> rfl

theorem load_append (pre post : List α) (x : α) :
    load (pre ++ x :: post) pre.length = some x := by
  simp [load]

theorem store_append (pre post : List α) (x y : α) :
    store (pre ++ x :: post) pre.length y = some (pre ++ y :: post) := by
  rw [store_eq y (by simp)]
  simp

/-- The cells of the range in reverse order, the others as they are. -/
theorem reverse_eq (pre xs post : List α) :
    reverse (pre ++ xs ++ post) pre.length xs.length = some (pre ++ xs.reverse ++ post) := by
  -- from both ends of the range
  induction xs using List.bidirectionalRec generalizing pre post with
  | nil => rfl
  | singleton x => rfl
  | cons_append x mid y ih =>
    have hlen : (x :: (mid ++ [y])).length = mid.length + 2 := by simp
    have hfirst : pre ++ x :: (mid ++ [y]) ++ post = pre ++ x :: (mid ++ y :: post) := by simp
    have hlast : ∀ z, pre ++ z :: (mid ++ y :: post) = (pre ++ z :: mid) ++ y :: post := by simp
    have hpos : ∀ z, pre.length + (mid.length + 1) = (pre ++ z :: mid).length := by simp
    have hinner := ih (pre ++ [y]) (x :: post)
    rw [List.length_append, List.length_singleton] at hinner
    have hcells : pre ++ y :: mid ++ x :: post = pre ++ [y] ++ mid ++ x :: post := by simp
    rw [hlen, reverse, hfirst, load_append, hlast x, hpos x, load_append, ← hlast x]
    simp only [Option.bind_eq_bind, Option.bind_some]
    rw [store_append, Option.bind_some, hlast y, ← hpos x, hpos y, store_append, Option.bind_some,
      hcells, hinner]
    simp

/-- Cell by cell: what an overlapping forward copy to a lower address leaves.
    The source cells still to be read lie above every cell written so far. -/
theorem move_spec {mem : List α} {src dst len : Nat} (hle : dst ≤ src)
    (h : src + len ≤ mem.length) :
    ∃ mem', move mem src dst len = some mem' ∧ mem'.length = mem.length ∧
      ∀ i, mem'[i]? = if dst ≤ i ∧ i < dst + len then mem[src + (i - dst)]? else mem[i]? := by
  induction len generalizing mem src dst with
  | zero =>
    refine ⟨mem, rfl, rfl, ?_⟩
    intro i
    rw [if_neg (by omega)]
  | succ len ih =>
    have hsrc : src < mem.length := by omega
    have hdst : dst < mem.length := by omega
    have hroom : src + 1 + len ≤ (mem.set dst mem[src]).length := by
      rw [List.length_set]
      omega
    obtain ⟨mem', hmove, hlen, hget⟩ := ih (Nat.succ_le_succ hle) hroom
    refine ⟨mem', ?_, ?_, ?_⟩
    · simp only [move, load, List.getElem?_eq_getElem hsrc, store_eq _ hdst,
        Option.bind_eq_bind, Option.bind_some]
      exact hmove
    · rw [hlen, List.length_set]
    · intro i
      rw [hget i]
      -- a cell written later, whose source the first store has not touched
      by_cases hin : dst + 1 ≤ i ∧ i < dst + 1 + len
      · have hne : dst ≠ src + 1 + (i - (dst + 1)) := by omega
        rw [if_pos hin, if_pos (by omega), List.getElem?_set_ne hne]
        congr 1
        omega
      · -- the first cell written, or one outside the range
        rw [if_neg hin, List.getElem?_set]
        by_cases hi : dst = i
        · subst hi
          rw [if_pos rfl, if_pos hdst, if_pos (by omega)]
          simp [hsrc]
        · rw [if_neg hi, if_neg (by omega)]

/-- After `copyIn`, the written range holds the data. -/
theorem copyIn_slice {mem mem' xs : List α} {pos : Nat}
    (hget : ∀ i, mem'[i]? = if pos ≤ i ∧ i < pos + xs.length then xs[i - pos]? else mem[i]?) :
    slice mem' pos xs.length = xs := by
  apply List.ext_getElem?
  intro i
  rw [getElem?_slice, hget]
  by_cases hi : i < xs.length
  · rw [if_pos hi, if_pos (by omega), Nat.add_sub_cancel_left]
  · rw [if_neg hi, List.getElem?_eq_none (by omega)]

/-- Two regions that agree on a range have the same slice there. -/
theorem slice_congr {mem mem' : List α} {pos pos' len : Nat}
    (h : ∀ i, i < len → mem'[pos' + i]? = mem[pos + i]?) :
    slice mem' pos' len = slice mem pos len := by
  apply List.ext_getElem?
  intro i
  rw [getElem?_slice, getElem?_slice]
  by_cases hi : i < len
  · rw [if_pos hi, if_pos hi, h i hi]
  · rw [if_neg hi, if_neg hi]

/-! ## Loops that store one cell in each round -/

section

variable {σ : Type*} {cell : σ → α} {next : σ → σ} {more : σ → Prop} [DecidablePred more]
  (loop : Nat → List α → Nat → σ → Option (List α × Nat)) (text : Nat → σ → List α)
  (Enough : Nat → σ → Prop)

/-- A loop over the cells from `cur` on stores what the same loop without the region lists,
    given enough rounds. -/
theorem loop_eq_copyIn
    (hloop : ∀ fuel mem cur s, loop (fuel + 1) mem cur s =
      (store mem cur (cell s)).bind fun mem =>
        if more s then loop fuel mem (cur + 1) (next s) else some (mem, cur + 1))
    (htext : ∀ fuel s, text (fuel + 1) s = cell s :: if more s then text fuel (next s) else [])
    (hlast : ∀ s, Enough 0 s → ¬ more s)
    (hmore : ∀ fuel s, Enough (fuel + 1) s → Enough fuel (next s))
    {fuel : Nat} {s : σ} (h : Enough fuel s) (mem : List α) (cur : Nat) :
    loop (fuel + 1) mem cur s =
      (copyIn mem cur (text (fuel + 1) s)).map fun mem =>
        (mem, cur + (text (fuel + 1) s).length) := by
  -- the last round stores one cell and ends
  have hend : ∀ fuel mem cur s, ¬ more s → loop (fuel + 1) mem cur s =
      (copyIn mem cur (text (fuel + 1) s)).map fun mem =>
        (mem, cur + (text (fuel + 1) s).length) := by
    intro fuel mem cur s hs
    rw [hloop, htext, if_neg hs, copyIn_singleton, Option.map_eq_bind]
    simp only [if_neg hs]
    rfl
  induction fuel generalizing s mem cur with
  | zero => exact hend 0 mem cur s (hlast s h)
  | succ fuel ih =>
    by_cases hs : more s
    · have hrest := fun mem => ih (hmore fuel s h) mem (cur + 1)
      rw [hloop, htext, if_pos hs, copyIn, List.length_cons]
      cases store mem cur (cell s) with
      | none => rfl
      | some mem =>
        simp only [if_pos hs, hrest, Option.bind_eq_bind, Option.bind_some, Nat.add_assoc,
          Nat.add_comm 1]
    · exact hend (fuel + 1) mem cur s hs

end

end Region
