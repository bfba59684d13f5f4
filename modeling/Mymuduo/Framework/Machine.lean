import Mathlib.Data.List.Basic
import Mathlib.Data.Option.Basic

/-! # Machines and their runs

    A `Machine` is a labelled transition system whose nondeterminism sits in
    the labels: a state and a label have at most one successor, and `none`
    means that the label is not enabled (or, where the model says so, that
    the program has no defined behaviour).  A schedule is a list of labels, so
    "every interleaving" is "every list of labels" and a run can be evaluated.

    * `run` executes a schedule, `Reachable` is what runs from `init` reach.
    * `run_invariant` / `Reachable.invariant` lift a step lemma to whole runs.
    * `Along` says that a property of (state, label) holds at every step of a
      run, for results about the runs that avoid a bad step.
    * `Reachable.simulated` carries a relation over the runs of two machines.
    * `Simulation` is a functional forward simulation between two machines.
-/

universe u v w

/-- A labelled transition system with at most one successor for each label. -/
structure Machine (State : Type u) (Label : Type v) where
  init : State → Prop
  next : State → Label → Option State

namespace Machine

variable {State : Type u} {Label : Type v} (m : Machine State Label)

/-! ## Runs -/

/-- Execute a schedule from `s`. -/
def run : State → List Label → Option State
  | s, [] => some s
  | s, l :: ls =>
    match m.next s l with
    | some s' => run s' ls
    | none => none

@[simp] theorem run_nil (s : State) : m.run s [] = some s := rfl

theorem run_cons (s : State) (l : Label) (ls : List Label) :
    m.run s (l :: ls) = (m.next s l).bind fun s' => m.run s' ls := by
  rw [run]
  cases m.next s l <;> rfl

theorem run_append (s : State) (ls ks : List Label) :
    m.run s (ls ++ ks) = (m.run s ls).bind fun s' => m.run s' ks := by
  induction ls generalizing s with
  | nil => rfl
  -- a run that is stuck in its first part is stuck altogether
  | cons l ls ih =>
    rw [List.cons_append, run_cons, run_cons]
    cases m.next s l with
    | none => rfl
    | some s' => exact ih s'

theorem run_cons_some {s s' : State} {l : Label} {ls : List Label} :
    m.run s (l :: ls) = some s' ↔ ∃ t, m.next s l = some t ∧ m.run t ls = some s' := by
  rw [run_cons, Option.bind_eq_some_iff]

theorem run_append_some {s s' : State} {ls ks : List Label} :
    m.run s (ls ++ ks) = some s' ↔ ∃ t, m.run s ls = some t ∧ m.run t ks = some s' := by
  rw [run_append, Option.bind_eq_some_iff]

@[simp] theorem run_singleton (s : State) (l : Label) : m.run s [l] = m.next s l := by
  rw [run_cons]
  cases m.next s l <;> rfl

/-! ## Invariants -/

/-- `P` holds at every step of the run of `ls` from `s`. -/
def Along (P : State → Label → Prop) : State → List Label → Prop
  | _, [] => True
  | s, l :: ls =>
    P s l ∧
      match m.next s l with
      | some s' => Along P s' ls
      | none => True

theorem Along.tail {P : State → Label → Prop} {s s' : State} {l : Label} {ls : List Label}
    (h : m.Along P s (l :: ls)) (hnext : m.next s l = some s') : m.Along P s' ls := by
  have := h.2
  rw [hnext] at this
  exact this

theorem along_of_forall {P : State → Label → Prop} (h : ∀ s l, P s l) (s : State)
    (ls : List Label) : m.Along P s ls := by
  induction ls generalizing s with
  | nil => trivial
  | cons l ls ih =>
    refine ⟨h s l, ?_⟩
    cases m.next s l with
    | none => trivial
    | some s' => exact ih s'

/-- A condition on the labels alone. -/
theorem along_of_mem {P : Label → Prop} {ls : List Label} (h : ∀ l ∈ ls, P l) (s : State) :
    m.Along (fun _ => P) s ls := by
  induction ls generalizing s with
  | nil => trivial
  | cons l ls ih =>
    refine ⟨h l List.mem_cons_self, ?_⟩
    cases m.next s l with
    | none => trivial
    | some s' => exact ih (fun k hk => h k (List.mem_cons_of_mem l hk)) s'

instance decidableAlong (P : State → Label → Prop) [∀ s l, Decidable (P s l)] :
    (s : State) → (ls : List Label) → Decidable (m.Along P s ls)
  | _, [] => isTrue trivial
  | s, l :: ls =>
    match h : m.next s l with
    | some s' =>
      have := decidableAlong P s' ls
      decidable_of_iff (P s l ∧ m.Along P s' ls) (by rw [Along, h])
    | none => decidable_of_iff (P s l ∧ True) (by rw [Along, h])

theorem Along.and {P Q : State → Label → Prop} {s : State} {ls : List Label}
    (hP : m.Along P s ls) (hQ : m.Along Q s ls) : m.Along (fun s l => P s l ∧ Q s l) s ls := by
  induction ls generalizing s with
  | nil => trivial
  | cons l ls ih =>
    refine ⟨⟨hP.1, hQ.1⟩, ?_⟩
    cases hnext : m.next s l with
    | none => trivial
    | some t => exact ih (hP.tail m hnext) (hQ.tail m hnext)

/-- Under an invariant that the steps with `P` keep, a run with `P` along it has
    along it what `P` gives at one step. -/
theorem Along.imp_of_run {I : State → Prop} {P Q : State → Label → Prop}
    (himp : ∀ s l s', I s → P s l → m.next s l = some s' → Q s l ∧ I s') {s s' : State}
    {ls : List Label} (hs : I s) (hrun : m.run s ls = some s') (h : m.Along P s ls) :
    m.Along Q s ls := by
  induction ls generalizing s with
  | nil => trivial
  | cons l ls ih =>
    obtain ⟨t, hnext, hrest⟩ := m.run_cons_some.mp hrun
    obtain ⟨hQ, ht⟩ := himp s l t hs h.1 hnext
    refine ⟨hQ, ?_⟩
    rw [hnext]
    exact ih ht hrest (h.tail m hnext)

/-- The same for a schedule that may be stuck, where `P` and the invariant alone give `Q`. -/
theorem Along.imp {I : State → Prop} {P Q : State → Label → Prop}
    (himp : ∀ s l, I s → P s l → Q s l ∧ ∀ s', m.next s l = some s' → I s') {s : State}
    {ls : List Label} (hs : I s) (h : m.Along P s ls) : m.Along Q s ls := by
  induction ls generalizing s with
  | nil => trivial
  | cons l ls ih =>
    obtain ⟨hQ, hnext⟩ := himp s l hs h.1
    refine ⟨hQ, ?_⟩
    cases hstep : m.next s l with
    | none => trivial
    | some t => exact ih (hnext t hstep) (h.tail m hstep)

/-- What the steps of a run have while an invariant holds. -/
theorem along_of_run {I : State → Prop} {Q : State → Label → Prop}
    (hstep : ∀ s l s', I s → m.next s l = some s' → Q s l ∧ I s') {s s' : State}
    {ls : List Label} (hs : I s) (hrun : m.run s ls = some s') : m.Along Q s ls := by
  refine Along.imp_of_run m ?_ hs hrun (m.along_of_forall (P := fun _ _ => True) ?_ s ls)
  · intro s l s' hI _ hnext
    exact hstep s l s' hI hnext
  · intro _ _
    trivial

/-- The run rule: what every step with `P` preserves, every run with `P` along
    it preserves. -/
theorem run_invariant_along {I : State → Prop} {P : State → Label → Prop}
    (hstep : ∀ s l s', I s → P s l → m.next s l = some s' → I s')
    {s s' : State} {ls : List Label} (hs : I s) (hP : m.Along P s ls)
    (hrun : m.run s ls = some s') : I s' := by
  induction ls generalizing s with
  | nil =>
    obtain rfl : s = s' := by simpa using hrun
    exact hs
  -- induction on the schedule, with the state general
  | cons l ls ih =>
    obtain ⟨t, hnext, hrest⟩ := m.run_cons_some.mp hrun
    exact ih (hstep s l t hs hP.1 hnext) (hP.tail m hnext) hrest

theorem run_invariant {I : State → Prop}
    (hstep : ∀ s l s', I s → m.next s l = some s' → I s')
    {s s' : State} {ls : List Label} (hs : I s) (hrun : m.run s ls = some s') : I s' := by
  refine m.run_invariant_along (P := fun _ _ => True) ?_ hs (m.along_of_forall ?_ s ls) hrun
  · intro s l s' hI _ hnext
    exact hstep s l s' hI hnext
  · intro _ _
    trivial

/-- The states that runs from an initial state reach. -/
def Reachable (s : State) : Prop :=
  ∃ s₀ ls, m.init s₀ ∧ m.run s₀ ls = some s

theorem Reachable.of_init {s : State} (h : m.init s) : m.Reachable s :=
  ⟨s, [], h, rfl⟩

theorem Reachable.of_run {s s' : State} {ls : List Label} (h : m.Reachable s)
    (hrun : m.run s ls = some s') : m.Reachable s' := by
  obtain ⟨s₀, ks, hinit, hks⟩ := h
  exact ⟨s₀, ks ++ ls, hinit, m.run_append_some.mpr ⟨s, hks, hrun⟩⟩

theorem Reachable.of_next {s s' : State} {l : Label} (h : m.Reachable s)
    (hnext : m.next s l = some s') : m.Reachable s' := by
  have hrun : m.run s [l] = some s' := by rw [run_singleton, hnext]
  exact h.of_run m hrun

/-- Invariant rule: an initial, step-preserved property holds of every
    reachable state. -/
theorem Reachable.invariant {I : State → Prop} (hinit : ∀ s, m.init s → I s)
    (hstep : ∀ s l s', I s → m.next s l = some s' → I s')
    {s : State} (h : m.Reachable s) : I s := by
  obtain ⟨s₀, ls, h₀, hrun⟩ := h
  exact m.run_invariant hstep (hinit s₀ h₀) hrun

end Machine

/-! ## Simulation -/

/-- A run of one machine is a run of another whenever its steps are, through a
    map of states and labels and under an invariant. -/
theorem Machine.run_map {S : Type u} {T : Type v} {L : Type w} {K : Type*}
    {m : Machine S L} {n : Machine T K} {I : S → Prop} (f : S → T) (g : L → K)
    (hinv : ∀ s l s', I s → m.next s l = some s' → I s')
    (hstep : ∀ s l s', I s → m.next s l = some s' → n.next (f s) (g l) = some (f s'))
    {s s' : S} {ls : List L} (hs : I s) (hrun : m.run s ls = some s') :
    n.run (f s) (ls.map g) = some (f s') := by
  induction ls generalizing s with
  | nil =>
    obtain rfl : s = s' := by simpa using hrun
    rfl
  | cons l ls ih =>
    obtain ⟨t, hnext, hrest⟩ := m.run_cons_some.mp hrun
    exact n.run_cons_some.mpr ⟨f t, hstep s l t hs hnext, ih (hinv s l t hs hnext) hrest⟩

/-- A relation between the states of two machines that a step of the first keeps, the second
    taking any number of steps: what the first reaches is related to something the second
    reaches. -/
theorem Machine.Reachable.simulated {S : Type u} {T : Type v} {L : Type w} {K : Type*}
    {m : Machine S L} {n : Machine T K} {R : S → T → Prop}
    (hinit : ∀ s, m.init s → ∃ t, n.init t ∧ R s t)
    (hstep : ∀ s l s' t, R s t → m.next s l = some s' →
      ∃ ks t', n.run t ks = some t' ∧ R s' t')
    {s : S} (h : m.Reachable s) : ∃ t, n.Reachable t ∧ R s t := by
  apply h.invariant m
  · intro s hs
    obtain ⟨t, ht, hR⟩ := hinit s hs
    exact ⟨t, Reachable.of_init n ht, hR⟩
  · rintro s l s' ⟨t, ht, hR⟩ hnext
    obtain ⟨ks, t', hrun, hR'⟩ := hstep s l s' t hR hnext
    exact ⟨t', ht.of_run n hrun, hR'⟩

/-- A functional forward simulation that matches every concrete step, taken
    where `Pre` holds, by the abstract step of the same label. -/
structure Simulation {C : Type u} {A : Type v} {Label : Type w}
    (concrete : Machine C Label) (abstract : Machine A Label)
    (Pre : C → Label → Prop) where
  Inv : C → Prop
  abs : C → A
  init : ∀ c, concrete.init c → Inv c ∧ abstract.init (abs c)
  /-- Where `Pre` holds the concrete step is defined, keeps the invariant and
      is the abstract step. -/
  step : ∀ c l, Inv c → Pre c l →
    ∃ c', concrete.next c l = some c' ∧ Inv c' ∧ abstract.next (abs c) l = some (abs c')

namespace Simulation

variable {C : Type u} {A : Type v} {Label : Type w}
  {concrete : Machine C Label} {abstract : Machine A Label} {Pre : C → Label → Prop}

/-- Every schedule that meets `Pre` runs to its end, and its result is the
    abstract machine's result on the same schedule. -/
theorem run (sim : Simulation concrete abstract Pre) {c : C} {ls : List Label}
    (hc : sim.Inv c) (hpre : concrete.Along Pre c ls) :
    ∃ c', concrete.run c ls = some c' ∧ sim.Inv c' ∧
      abstract.run (sim.abs c) ls = some (sim.abs c') := by
  induction ls generalizing c with
  | nil => exact ⟨c, rfl, hc, rfl⟩
  | cons l ls ih =>
    obtain ⟨t, hnext, ht, habs⟩ := sim.step c l hc hpre.1
    obtain ⟨c', hrun, hc', hrun'⟩ := ih ht (hpre.tail concrete hnext)
    refine ⟨c', ?_, hc', ?_⟩
    · exact concrete.run_cons_some.mpr ⟨t, hnext, hrun⟩
    · exact abstract.run_cons_some.mpr ⟨sim.abs t, habs, hrun'⟩

end Simulation

/-! ## Logs -/

/-- Where an entry of a log is, when the log has just grown by one entry: it is
    the new one, or it was there before. -/
theorem append_singleton_split {α : Type u} {log pre post : List α} {ev x : α}
    (h : log ++ [ev] = pre ++ x :: post) :
    (post = [] ∧ ev = x ∧ log = pre) ∨
      ∃ post', post = post' ++ [ev] ∧ log = pre ++ x :: post' := by
  -- by the end of what follows the entry
  rcases List.eq_nil_or_concat post with rfl | ⟨post', y, rfl⟩
  · obtain ⟨h1, h2⟩ := List.append_inj' h rfl
    exact Or.inl ⟨rfl, (List.cons.inj h2).1, h1⟩
  · rw [List.concat_eq_append, ← List.cons_append, ← List.append_assoc] at h
    obtain ⟨h1, h2⟩ := List.append_inj' h rfl
    obtain rfl := (List.cons.inj h2).1
    exact Or.inr ⟨post', by rw [List.concat_eq_append], h1⟩
