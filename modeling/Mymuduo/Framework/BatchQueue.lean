import Mathlib.Data.List.Infix
import Mymuduo.Framework.Machine

/-! # A queue drained in batches

    Producers append to `pending`; a consumer takes all of `pending` at once
    as its `batch` and works through the batch element by element, while new
    elements keep arriving in `pending`.

    `history_run` says that such a queue is first in, first out: what has been
    consumed, what is left of the batch and what is pending are, in this
    order, everything pushed.  `committed_run` says that between two swaps
    only elements of the batch are consumed.
-/

/-- A queue drained in batches; `done` is the history of consumed elements. -/
structure BatchQueue (α : Type*) where
  done : List α
  batch : List α
  pending : List α

namespace BatchQueue

variable {α : Type*}

inductive Op (α : Type*) where
  | push (x : α)
  | swap
  | pop
  | skip

def next (q : BatchQueue α) : Op α → Option (BatchQueue α)
  | .push x => some { q with pending := q.pending ++ [x] }
  -- the consumer comes back for more only when its batch is used up
  | .swap =>
    match q.batch with
    | [] => some { q with batch := q.pending, pending := [] }
    | _ :: _ => none
  | .pop =>
    match q.batch with
    | [] => none
    | x :: rest => some { q with done := q.done ++ [x], batch := rest }
  | .skip => some q

def machine : Machine (BatchQueue α) (Op α) where
  init := fun q => q = ⟨[], [], []⟩
  next := next

/-- The elements a schedule pushes, in order. -/
def pushed (ops : List (Op α)) : List α :=
  ops.filterMap fun op =>
    match op with
    | .push x => some x
    | _ => none

def history (q : BatchQueue α) : List α :=
  q.done ++ q.batch ++ q.pending

theorem history_next {q q' : BatchQueue α} {op : Op α} (h : q.next op = some q') :
    q'.history = q.history ++ pushed [op] := by
  cases op with
  | push x =>
    obtain rfl := Option.some.inj h
    simp [history, pushed]
  -- the pending elements become the batch: the same list, cut elsewhere
  | swap =>
    simp only [next] at h
    split at h
    · rename_i hb
      obtain rfl := Option.some.inj h
      simp [history, pushed, hb]
    · cases h
  -- the head of the batch moves over to the consumed ones
  | pop =>
    simp only [next] at h
    split at h
    · cases h
    · rename_i x rest hb
      obtain rfl := Option.some.inj h
      simp [history, pushed, hb]
  | skip =>
    obtain rfl := Option.some.inj h
    simp [history, pushed]

theorem history_run {q q' : BatchQueue α} {ops : List (Op α)}
    (h : machine.run q ops = some q') : q'.history = q.history ++ pushed ops := by
  induction ops generalizing q with
  | nil =>
    obtain rfl : q = q' := by simpa using h
    simp [pushed]
  | cons op ops ih =>
    obtain ⟨t, hnext, hrest⟩ := machine.run_cons_some.mp h
    rw [ih hrest, history_next hnext, List.append_assoc, pushed, pushed, pushed,
      ← List.filterMap_append, List.singleton_append]

/-- Steps other than a swap leave "consumed, then batch" as it is. -/
theorem committed_next {q q' : BatchQueue α} {op : Op α} (h : q.next op = some q')
    (hop : op ≠ .swap) : q'.done ++ q'.batch = q.done ++ q.batch := by
  cases op with
  | push x =>
    obtain rfl := Option.some.inj h
    rfl
  | swap => exact absurd rfl hop
  | pop =>
    simp only [next] at h
    split at h
    · cases h
    · rename_i x rest hb
      obtain rfl := Option.some.inj h
      simp [hb]
  | skip =>
    obtain rfl := Option.some.inj h
    rfl

theorem committed_run {q q' : BatchQueue α} {ops : List (Op α)}
    (h : machine.run q ops = some q') (hops : Op.swap ∉ ops) :
    q'.done ++ q'.batch = q.done ++ q.batch := by
  induction ops generalizing q with
  | nil =>
    obtain rfl : q = q' := by simpa using h
    rfl
  | cons op ops ih =>
    obtain ⟨t, hnext, hrest⟩ := machine.run_cons_some.mp h
    rw [List.mem_cons, not_or] at hops
    rw [ih hrest hops.2, committed_next hnext (Ne.symm hops.1)]

/-- Right after a swap, "consumed, then batch" is everything pushed so far. -/
theorem committed_swap {q q' : BatchQueue α} (h : q.next .swap = some q') :
    q'.done ++ q'.batch = q.history := by
  simp only [next] at h
  split at h
  · rename_i hb
    obtain rfl := Option.some.inj h
    simp [history, hb]
  · cases h

end BatchQueue
