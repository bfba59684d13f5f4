import Mymuduo.Framework.DescriptorTable
import Mymuduo.Framework.Machine

/-! # Acceptor

    The acceptor in the base loop's thread, one system call a step, while the rest of the
    process opens and closes descriptors.  `handleRead` takes one connection off the backlog
    and hands it over.  When the descriptors have run out it gives up `idleFd_`, the
    descriptor held in reserve, to take the connection and close it, and then opens the
    reserve again.

    * `descriptor_owners`: every open descriptor has one owner at any time, so the acceptor
      neither leaks a descriptor nor closes one of another owner.
    * `reserve_kept`: as long as nobody else opens a descriptor while the reserve is given up,
      the reserve is always there and no round leaves the backlog as it was.
    * `reserve_lost_spins`: without the reserve and with the table full, a round changes
      nothing, and the listening socket stays readable.

    `errno` is looked at behind the log.  Where logging has replaced EMFILE by another error,
    the step is `handleReadError`; it is taken not to turn another error into EMFILE.
-/

namespace Acceptor

/-! ## State -/

/-- Where `handleRead` is after an `accept` that failed with EMFILE. -/
inductive Pc where
  /-- Not in that branch. -/
  | ready
  | emfile
  | idleClosed
  | accepted
  | acceptedClosed
  deriving DecidableEq, Repr

structure State where
  table : DescriptorTable
  /-- The descriptor of `acceptSocket_`. -/
  acceptSocket_ : Nat
  newConnectionCallback_ : Bool
  listenning_ : Bool := false
  /-- `none` is -1. -/
  idleFd_ : Option Nat
  pc : Pc := .ready
  /-- The connections that wait to be accepted. -/
  backlog : Nat := 0
  /-- The descriptors handed to `newConnectionCallback_` and not closed yet. -/
  conns : Finset Nat := ∅
  /-- The other descriptors of the process. -/
  others : Finset Nat
  arrived : Nat := 0
  handed : Nat := 0
  /-- Accepted and closed at once. -/
  dropped : Nat := 0
  /-- Gone before they were accepted. -/
  aborted : Nat := 0
  /-- Rounds that took no connection although one was waiting. -/
  wasted : Nat := 0

/-- `Acceptor::Acceptor` in a process with the descriptors of `t`.  Without a descriptor for
    the listening socket it does not return. -/
def ctor (t : DescriptorTable) (newConnectionCallback_ : Bool) : Option State :=
  t.allocate.map fun (sockfd, t') =>
    match t'.allocate with
    | some (fd, t'') =>
      { table := t'', acceptSocket_ := sockfd, idleFd_ := some fd, others := t.used,
        newConnectionCallback_ := newConnectionCallback_ }
    | none =>
      { table := t', acceptSocket_ := sockfd, idleFd_ := none, others := t.used,
        newConnectionCallback_ := newConnectionCallback_ }

/-- `::close(idleFd_)`. -/
def closeIdle (table : DescriptorTable) : Option Nat → DescriptorTable
  | some fd => table.close fd
  -- EBADF
  | none => table

/-- `accept`: the descriptor is made before the backlog is looked at. -/
inductive Accepted where
  | emfile
  | wouldBlock
  | connection (fd : Nat) (table : DescriptorTable)

def State.accept (s : State) : Accepted :=
  match s.table.allocate with
  | none => .emfile
  | some (fd, table) => if s.backlog = 0 then .wouldBlock else .connection fd table

/-! ## Steps -/

inductive Label where
  | listen
  /-- A client connects. -/
  | connect
  /-- A waiting client gives up. -/
  | abort
  /-- Another part of the process opens or closes a descriptor. -/
  | otherOpen
  | otherClose (fd : Nat)
  /-- The destructor of a connection's socket. -/
  | connClose (fd : Nat)
  /-- The first `accept` of `handleRead`. -/
  | handleRead
  /-- The same, with an error other than EMFILE behind the log. -/
  | handleReadError
  /-- The branch for EMFILE, call by call. -/
  | closeIdle
  | acceptIdle
  | closeAccepted
  | openIdle
  deriving DecidableEq, Repr

/-- The first `accept` of `handleRead`. -/
def State.handleRead (s : State) : State :=
  match s.accept with
  | .emfile => { s with pc := .emfile }
  | .wouldBlock => s
  | .connection fd table =>
    if s.newConnectionCallback_ then
      { s with
        table := table, backlog := s.backlog - 1, conns := insert fd s.conns,
        handed := s.handed + 1 }
    else
      { s with
        table := table.close fd, backlog := s.backlog - 1, dropped := s.dropped + 1 }

/-- `idleFd_ = ::accept(...)`. -/
def State.acceptIdle (s : State) : State :=
  match s.accept with
  | .emfile =>
    { s with
      idleFd_ := none, pc := .accepted,
      wasted := if s.backlog = 0 then s.wasted else s.wasted + 1 }
  | .wouldBlock => { s with idleFd_ := none, pc := .accepted }
  | .connection fd table =>
    { s with
      table := table, backlog := s.backlog - 1, idleFd_ := some fd, pc := .accepted,
      dropped := s.dropped + 1 }

/-- `idleFd_ = ::open("/dev/null", ...)`. -/
def State.openIdle (s : State) : State :=
  match s.table.allocate with
  | some (fd, table) => { s with table := table, idleFd_ := some fd, pc := .ready }
  | none => { s with idleFd_ := none, pc := .ready }

def next (s : State) : Label → Option State
  | .listen => if s.pc = .ready then some { s with listenning_ := true } else none
  | .connect =>
    if s.listenning_ then some { s with backlog := s.backlog + 1, arrived := s.arrived + 1 }
    else none
  | .abort =>
    if s.backlog = 0 then none
    else some { s with backlog := s.backlog - 1, aborted := s.aborted + 1 }
  | .otherOpen =>
    s.table.allocate.map fun (fd, table) => { s with table := table, others := insert fd s.others }
  | .otherClose fd =>
    if fd ∈ s.others then
      some { s with table := s.table.close fd, others := s.others.erase fd }
    else none
  | .connClose fd =>
    if fd ∈ s.conns then some { s with table := s.table.close fd, conns := s.conns.erase fd }
    else none
  -- the channel is in the poller from `listen` on
  | .handleRead => if s.pc = .ready ∧ s.listenning_ then some s.handleRead else none
  | .handleReadError => if s.pc = .ready ∧ s.listenning_ then some s else none
  | .closeIdle =>
    if s.pc = .emfile then
      some { s with table := Acceptor.closeIdle s.table s.idleFd_, pc := .idleClosed }
    else none
  | .acceptIdle => if s.pc = .idleClosed then some s.acceptIdle else none
  | .closeAccepted =>
    if s.pc = .accepted then
      some { s with table := Acceptor.closeIdle s.table s.idleFd_, pc := .acceptedClosed }
    else none
  | .openIdle => if s.pc = .acceptedClosed then some s.openIdle else none

def machine : Machine State Label where
  init := fun s => ∃ t callback, ctor t callback = some s
  next := next

/-- `handleRead` with the branch for EMFILE. -/
def round : List Label := [.handleRead, .closeIdle, .acceptIdle, .closeAccepted, .openIdle]

/-- Three descriptors, one of them in use. -/
def smallTable : DescriptorTable := ⟨3, {0}, by decide⟩

/-- A client is turned away. -/
def turnedAway : List Label := [.listen, .connect] ++ round

/-- Another thread opens a descriptor just after the reserve is given up. -/
def overtaken : List Label :=
  [.listen, .connect, .handleRead, .closeIdle, .otherOpen, .acceptIdle, .closeAccepted, .openIdle]

/-! ## Owners -/

/-- The descriptor in `idleFd_`, unless it has been closed already. -/
def State.idle (s : State) : Option Nat :=
  match s.pc with
  | .idleClosed | .acceptedClosed => none
  | _ => s.idleFd_

/-- How many owners a descriptor has. -/
def State.owners (s : State) (fd : Nat) : Nat :=
  (decide (fd = s.acceptSocket_)).toNat + (decide (s.idle = some fd)).toNat +
    (decide (fd ∈ s.conns)).toNat + (decide (fd ∈ s.others)).toNat

/-- Every open descriptor has one owner, and no other descriptor has any. -/
def Owned (s : State) : Prop := ∀ fd, s.owners fd = (decide (fd ∈ s.table.used)).toNat

/-- The owners of a descriptor, for either order of its two sets. -/
def Holders (set rest : State → Finset Nat) : Prop :=
  ∀ s fd, s.owners fd =
    (decide (fd = s.acceptSocket_)).toNat + (decide (s.idle = some fd)).toNat +
      (decide (fd ∈ set s)).toNat + (decide (fd ∈ rest s)).toNat

theorem holders_conns : Holders State.conns State.others := fun _ _ => rfl

theorem holders_others : Holders State.others State.conns :=
  fun _ _ => Nat.add_right_comm _ _ _

section

variable {s s' : State} {fd : Nat}

/-- The owners of a descriptor depend on the four places where one can be. -/
theorem owners_congr (hsock : s'.acceptSocket_ = s.acceptSocket_) (hidle : s'.idle = s.idle)
    (hconns : fd ∈ s'.conns ↔ fd ∈ s.conns) (hothers : fd ∈ s'.others ↔ fd ∈ s.others) :
    s'.owners fd = s.owners fd := by
  simp only [State.owners, hsock, hidle, hconns, hothers]

/-- No descriptor is opened or closed, and none changes its owner. -/
theorem Owned.same (h : Owned s) (htable : s'.table = s.table)
    (hsock : s'.acceptSocket_ = s.acceptSocket_) (hidle : s'.idle = s.idle)
    (hconns : s'.conns = s.conns) (hothers : s'.others = s.others) : Owned s' := by
  intro fd
  rw [owners_congr hsock hidle (by rw [hconns]) (by rw [hothers]), htable]
  exact h fd

/-- A new descriptor gets its first owner. -/
theorem Owned.take (h : Owned s) (halloc : s.table.allocate = some (fd, s'.table))
    (hself : s.owners fd = 0 → s'.owners fd = 1)
    (hother : ∀ fd', fd' ≠ fd → s'.owners fd' = s.owners fd') : Owned s' := by
  obtain ⟨hfree, hused, _⟩ := DescriptorTable.allocate_some halloc
  intro fd'
  rw [hused]
  by_cases hfd : fd' = fd
  -- it was free, so it had no owner before
  · subst hfd
    rw [hself (by rw [h, decide_eq_false hfree]; rfl)]
    simp
  · rw [hother fd' hfd, h]
    simp [hfd]

/-- A descriptor is closed by its only owner. -/
theorem Owned.release (h : Owned s) (htable : s'.table = s.table.close fd)
    (hself : s.owners fd ≤ 1 → s'.owners fd = 0)
    (hother : ∀ fd', fd' ≠ fd → s'.owners fd' = s.owners fd') : Owned s' := by
  intro fd'
  rw [htable]
  by_cases hfd : fd' = fd
  · subst hfd
    rw [hself (by rw [h]; exact Bool.toNat_le _)]
    simp [DescriptorTable.close]
  · rw [hother fd' hfd, h]
    simp [DescriptorTable.close, hfd]

/-- The reserve is opened. -/
theorem Owned.takeIdle (h : Owned s) (halloc : s.table.allocate = some (fd, s'.table))
    (hsock : s'.acceptSocket_ = s.acceptSocket_) (hnone : s.idle = none)
    (hidle : s'.idle = some fd) (hconns : s'.conns = s.conns) (hothers : s'.others = s.others) :
    Owned s' := by
  refine h.take halloc ?_ ?_
  · simp only [State.owners, hsock, hnone, hidle, hconns, hothers, decide_true, reduceCtorEq,
      decide_false, Bool.toNat_true, Bool.toNat_false]
    omega
  · intro fd' hne
    simp [State.owners, hsock, hnone, hidle, hconns, hothers, Ne.symm hne]

/-- A new descriptor goes into one of the two sets, and the other set stays. -/
theorem Owned.takeInto {set rest : State → Finset Nat} (hset : Holders set rest) (h : Owned s)
    (halloc : s.table.allocate = some (fd, s'.table)) (hsock : s'.acceptSocket_ = s.acceptSocket_)
    (hidle : s'.idle = s.idle) (hinsert : set s' = insert fd (set s))
    (hrest : rest s' = rest s) : Owned s' := by
  refine h.take halloc ?_ ?_
  · intro hfree
    rw [hset] at hfree ⊢
    simp only [hsock, hidle, hinsert, hrest, Finset.mem_insert_self, decide_true,
      Bool.toNat_true]
    omega
  · intro fd' hne
    rw [hset, hset]
    simp [hsock, hidle, hinsert, hrest, hne]

/-- The reserve is closed. -/
theorem Owned.releaseIdle (h : Owned s) (htable : s'.table = s.table.close fd)
    (hsock : s'.acceptSocket_ = s.acceptSocket_) (hidle : s.idle = some fd)
    (hnone : s'.idle = none) (hconns : s'.conns = s.conns) (hothers : s'.others = s.others) :
    Owned s' := by
  refine h.release htable ?_ ?_
  · simp only [State.owners, hsock, hnone, hidle, hconns, hothers, decide_true, reduceCtorEq,
      decide_false, Bool.toNat_true, Bool.toNat_false]
    omega
  · intro fd' hne
    simp [State.owners, hsock, hnone, hidle, hconns, hothers, Ne.symm hne]

/-- A descriptor of one of the two sets is closed, and the other set stays. -/
theorem Owned.releaseFrom {set rest : State → Finset Nat} (hset : Holders set rest) (h : Owned s)
    (htable : s'.table = s.table.close fd) (hsock : s'.acceptSocket_ = s.acceptSocket_)
    (hidle : s'.idle = s.idle) (hmem : fd ∈ set s) (herase : set s' = (set s).erase fd)
    (hrest : rest s' = rest s) : Owned s' := by
  refine h.release htable ?_ ?_
  · intro hone
    rw [hset] at hone ⊢
    -- the set is its only owner, so nothing else is left
    simp only [hmem, decide_true, Bool.toNat_true] at hone
    simp only [hsock, hidle, herase, hrest, Finset.notMem_erase, decide_false, Bool.toNat_false]
    omega
  · intro fd' hne
    rw [hset, hset]
    simp [hsock, hidle, herase, hrest, hne]

/-- The constructor's two descriptors are its own, and every other one stays with the rest of
    the process. -/
theorem owned_ctor {t : DescriptorTable} {callback : Bool} (h : ctor t callback = some s) :
    Owned s := by
  obtain ⟨⟨sockfd, t'⟩, halloc, hs⟩ := Option.map_eq_some_iff.mp h
  obtain ⟨hfree, hused, _⟩ := DescriptorTable.allocate_some halloc
  simp only at hs
  split at hs
  · rename_i fd t'' halloc'
    obtain ⟨hfree', hused', _⟩ := DescriptorTable.allocate_some halloc'
    subst hs
    intro fd'
    rw [hused] at hfree' hused'
    simp only [State.owners, State.idle, hused']
    -- the second descriptor differs from the first and from those in use
    have hne : fd ≠ sockfd := fun h => hfree' (by simp [h])
    have hnot : fd ∉ t.used := fun h => hfree' (by simp [h])
    by_cases h1 : fd' = sockfd
    · subst h1
      simp [hne, hfree]
    · by_cases h2 : fd' = fd
      · subst h2
        simp [h1, hnot]
      · simp [h1, h2, Ne.symm h2]
  · -- none was left for the reserve
    subst hs
    intro fd'
    simp only [State.owners, State.idle, hused]
    by_cases h1 : fd' = sockfd
    · subst h1
      simp [hfree]
    · simp [h1]

/-- `accept` returns a new descriptor for a connection that waited. -/
theorem accept_connection {table : DescriptorTable} (h : s.accept = .connection fd table) :
    s.table.allocate = some (fd, table) ∧ 0 < s.backlog := by
  unfold State.accept at h
  split at h
  · cases h
  · rename_i fd' table' halloc
    split at h
    · cases h
    · simp only [Accepted.connection.injEq] at h
      obtain ⟨rfl, rfl⟩ := h
      exact ⟨halloc, by omega⟩

/-- EMFILE means that no descriptor is free. -/
theorem accept_emfile (h : s.accept = .emfile) : s.table.Full := by
  unfold State.accept at h
  split at h
  · rename_i hnone
    exact DescriptorTable.allocate_none_iff.mp hnone
  · split at h <;> cases h

/-- The first `accept`: the descriptor goes to the callback or is closed. -/
theorem Owned.handleRead (h : Owned s) (hpc : s.pc = .ready) : Owned s.handleRead := by
  unfold State.handleRead
  split
  · exact h.same rfl rfl (by simp [State.idle, hpc]) rfl rfl
  · exact h
  · rename_i fd table haccept
    obtain ⟨halloc, _⟩ := accept_connection haccept
    split
    · exact Owned.takeInto holders_conns h halloc rfl rfl rfl rfl
    · -- no callback: the descriptor is closed at once
      exact h.same (DescriptorTable.close_allocate halloc) rfl rfl rfl rfl

/-- `close(idleFd_)`, for a reserve that is still held. -/
theorem Owned.closeIdle (h : Owned s) (hidle : s.idle = s.idleFd_)
    (htable : s'.table = Acceptor.closeIdle s.table s.idleFd_)
    (hsock : s'.acceptSocket_ = s.acceptSocket_) (hnone : s'.idle = none)
    (hconns : s'.conns = s.conns) (hothers : s'.others = s.others) : Owned s' := by
  cases hfd : s.idleFd_ with
  | none =>
    rw [hfd] at htable hidle
    exact h.same htable hsock (hnone.trans hidle.symm) hconns hothers
  | some fd =>
    rw [hfd] at htable hidle
    exact h.releaseIdle htable hsock hidle hnone hconns hothers

/-- The second `accept`: the descriptor goes where the reserve was. -/
theorem Owned.acceptIdle (h : Owned s) (hpc : s.pc = .idleClosed) : Owned s.acceptIdle := by
  have hnone : s.idle = none := by simp [State.idle, hpc]
  unfold State.acceptIdle
  split
  · exact h.same rfl rfl hnone.symm rfl rfl
  · exact h.same rfl rfl hnone.symm rfl rfl
  · rename_i fd table haccept
    exact h.takeIdle (accept_connection haccept).1 rfl hnone rfl rfl rfl

theorem Owned.openIdle (h : Owned s) (hpc : s.pc = .acceptedClosed) : Owned s.openIdle := by
  have hnone : s.idle = none := by simp [State.idle, hpc]
  unfold State.openIdle
  split
  · rename_i fd table halloc
    exact h.takeIdle halloc rfl hnone rfl rfl rfl
  · exact h.same rfl rfl hnone.symm rfl rfl

/-- One owner each, whoever takes the next step. -/
theorem owned_step (s : State) (l : Label) (s' : State) (h : Owned s) (hnext : next s l = some s') :
    Owned s' := by
  cases l with
  | listen | connect | handleReadError =>
    simp only [next, Option.ite_none_right_eq_some, Option.some.injEq] at hnext
    obtain ⟨_, rfl⟩ := hnext
    exact h
  | abort =>
    simp only [next, Option.ite_none_left_eq_some, Option.some.injEq] at hnext
    obtain ⟨_, rfl⟩ := hnext
    exact h
  | otherOpen =>
    -- a step of another thread, between any two calls of the acceptor
    obtain ⟨⟨fd, table⟩, halloc, rfl⟩ := Option.map_eq_some_iff.mp hnext
    exact Owned.takeInto holders_others h halloc rfl rfl rfl rfl
  | otherClose fd =>
    simp only [next, Option.ite_none_right_eq_some, Option.some.injEq] at hnext
    obtain ⟨hmem, rfl⟩ := hnext
    exact Owned.releaseFrom holders_others h rfl rfl rfl hmem rfl rfl
  | connClose fd =>
    simp only [next, Option.ite_none_right_eq_some, Option.some.injEq] at hnext
    obtain ⟨hmem, rfl⟩ := hnext
    exact Owned.releaseFrom holders_conns h rfl rfl rfl hmem rfl rfl
  | handleRead =>
    simp only [next, Option.ite_none_right_eq_some, Option.some.injEq] at hnext
    obtain ⟨⟨hpc, _⟩, rfl⟩ := hnext
    exact h.handleRead hpc
  | closeIdle =>
    simp only [next, Option.ite_none_right_eq_some, Option.some.injEq] at hnext
    obtain ⟨hpc, rfl⟩ := hnext
    exact h.closeIdle (by simp [State.idle, hpc]) rfl rfl rfl rfl rfl
  | acceptIdle =>
    simp only [next, Option.ite_none_right_eq_some, Option.some.injEq] at hnext
    obtain ⟨hpc, rfl⟩ := hnext
    exact h.acceptIdle hpc
  | closeAccepted =>
    -- `idleFd_` holds the connection that was taken, or -1
    simp only [next, Option.ite_none_right_eq_some, Option.some.injEq] at hnext
    obtain ⟨hpc, rfl⟩ := hnext
    exact h.closeIdle (by simp [State.idle, hpc]) rfl rfl rfl rfl rfl
  | openIdle =>
    simp only [next, Option.ite_none_right_eq_some, Option.some.injEq] at hnext
    obtain ⟨hpc, rfl⟩ := hnext
    exact h.openIdle hpc

theorem owned_reachable (h : machine.Reachable s) : Owned s := by
  refine h.invariant machine ?_ owned_step
  rintro s ⟨t, callback, hctor⟩
  exact owned_ctor hctor

/-- In every reachable state, whatever the other threads do between two calls of the
    acceptor, an open descriptor is the listening socket, the reserve, a connection or
    another descriptor of the process, and only one of these. -/
theorem descriptor_owners (h : machine.Reachable s) (fd : Nat) :
    s.owners fd = if fd ∈ s.table.used then 1 else 0 := by
  rw [owned_reachable h fd]
  by_cases hfd : fd ∈ s.table.used <;> simp [hfd]

theorem descriptor_owners_overtaken :
    ∃ s₀ s, ctor smallTable true = some s₀ ∧ machine.run s₀ overtaken = some s ∧
      s.table.used = {0, 1, 2} ∧ s.owners 2 = 1 := by
  have hused : ((ctor smallTable true).bind fun s₀ => (machine.run s₀ overtaken).map fun s =>
      s.table.used) = some {0, 1, 2} := by decide +kernel
  obtain ⟨s₀, hctor, hrest⟩ := Option.bind_eq_some_iff.mp hused
  obtain ⟨s, hrun, hs⟩ := Option.map_eq_some_iff.mp hrest
  refine ⟨s₀, s, hctor, hrun, hs, ?_⟩
  rw [descriptor_owners ⟨s₀, _, ⟨_, _, hctor⟩, hrun⟩ 2, hs]
  decide

/-! ## Clients -/

/-- Every client that has connected is waiting, or it is clear what became of it. -/
def Accounted (s : State) : Prop := s.arrived = s.backlog + s.handed + s.dropped + s.aborted

/-- The client taken off the backlog is handed over or turned away. -/
theorem Accounted.handleRead (h : Accounted s) : Accounted s.handleRead := by
  unfold Accounted at h ⊢
  unfold State.handleRead
  split
  · exact h
  · exact h
  · rename_i fd table haccept
    have hpos := (accept_connection haccept).2
    split
    · show s.arrived = (s.backlog - 1) + (s.handed + 1) + s.dropped + s.aborted
      omega
    · show s.arrived = (s.backlog - 1) + s.handed + (s.dropped + 1) + s.aborted
      omega

/-- In the branch for EMFILE it is turned away. -/
theorem Accounted.acceptIdle (h : Accounted s) : Accounted s.acceptIdle := by
  unfold Accounted at h ⊢
  unfold State.acceptIdle
  split
  · exact h
  · exact h
  · rename_i fd table haccept
    have hpos := (accept_connection haccept).2
    show s.arrived = (s.backlog - 1) + s.handed + (s.dropped + 1) + s.aborted
    omega

theorem accounted_step (s : State) (l : Label) (s' : State) (h : Accounted s)
    (hnext : next s l = some s') : Accounted s' := by
  cases l with
  | listen | handleReadError | otherClose fd | connClose fd | closeIdle | closeAccepted =>
    simp only [next, Option.ite_none_right_eq_some, Option.some.injEq] at hnext
    obtain ⟨_, rfl⟩ := hnext
    exact h
  | connect =>
    simp only [next, Option.ite_none_right_eq_some, Option.some.injEq] at hnext
    obtain ⟨_, rfl⟩ := hnext
    unfold Accounted at h ⊢
    simp only
    omega
  | abort =>
    simp only [next, Option.ite_none_left_eq_some, Option.some.injEq] at hnext
    obtain ⟨hpos, rfl⟩ := hnext
    unfold Accounted at h ⊢
    simp only
    omega
  | otherOpen =>
    obtain ⟨⟨fd, table⟩, _, rfl⟩ := Option.map_eq_some_iff.mp hnext
    exact h
  | handleRead =>
    simp only [next, Option.ite_none_right_eq_some, Option.some.injEq] at hnext
    obtain ⟨_, rfl⟩ := hnext
    exact h.handleRead
  | acceptIdle =>
    simp only [next, Option.ite_none_right_eq_some, Option.some.injEq] at hnext
    obtain ⟨_, rfl⟩ := hnext
    exact h.acceptIdle
  | openIdle =>
    simp only [next, Option.ite_none_right_eq_some, Option.some.injEq] at hnext
    obtain ⟨_, rfl⟩ := hnext
    unfold State.openIdle
    split <;> exact h

theorem accounted_ctor {t : DescriptorTable} {callback : Bool} (h : ctor t callback = some s) :
    Accounted s := by
  obtain ⟨⟨sockfd, t'⟩, _, hs⟩ := Option.map_eq_some_iff.mp h
  simp only at hs
  split at hs <;> (subst hs; rfl)

theorem accounted_reachable (h : machine.Reachable s) : Accounted s := by
  refine h.invariant machine ?_ accounted_step
  rintro s ⟨t, callback, hctor⟩
  exact accounted_ctor hctor

end

/-! ## The reserve -/

/-- Nobody opens a descriptor between the two `close(idleFd_)` and what follows them. -/
def Unraced (s : State) (l : Label) : Prop := l = .otherOpen → s.pc = .ready ∨ s.pc = .emfile

instance (s : State) (l : Label) : Decidable (Unraced s l) := inferInstanceAs (Decidable (_ → _))

/-- A descriptor is held in reserve or free, and no round has been in vain. -/
structure Reserve (s : State) : Prop where
  /-- Before it is given up the reserve is there. -/
  held : s.pc = .ready ∨ s.pc = .emfile → s.idleFd_ ≠ none
  /-- Where it has just been closed, its descriptor is free. -/
  room : s.pc = .idleClosed ∨ s.pc = .acceptedClosed → ¬ s.table.Full
  /-- The second `accept` has taken it, or left it free. -/
  accepted : s.pc = .accepted → s.idleFd_ ≠ none ∨ ¬ s.table.Full
  wasted : s.wasted = 0

section

variable {s s' : State}

/-- Something outside the branch for EMFILE, and no descriptor opened. -/
theorem Reserve.same (h : Reserve s) (hpc : s'.pc = s.pc) (hidle : s'.idleFd_ = s.idleFd_)
    (hwasted : s'.wasted = s.wasted) (hroom : ¬ s.table.Full → ¬ s'.table.Full) :
    Reserve s' := by
  refine ⟨?_, ?_, ?_, hwasted.trans h.wasted⟩
  · rw [hpc, hidle]
    exact h.held
  · rw [hpc]
    intro hwhere
    exact hroom (h.room hwhere)
  · rw [hpc, hidle]
    intro hwhere
    exact (h.accepted hwhere).imp id hroom

/-- Closing `idleFd_` makes room if it holds a descriptor. -/
theorem not_full_closeIdle (ho : Owned s) (hidle : s.idle = s.idleFd_)
    (h : s.idleFd_ ≠ none ∨ ¬ s.table.Full) : ¬ (closeIdle s.table s.idleFd_).Full := by
  cases hfd : s.idleFd_ with
  | none =>
    rcases h with h | h
    · exact absurd hfd h
    · exact h
  | some fd =>
    -- the reserve is open, so closing it makes room
    have hmem : fd ∈ s.table.used := by
      have hcount := ho fd
      by_contra hnot
      simp only [State.owners, hidle, hfd, hnot, decide_true, decide_false, Bool.toNat_true,
        Bool.toNat_false] at hcount
      omega
    exact DescriptorTable.not_full_close hmem

/-- With the descriptor of the reserve free, the second `accept` does not fail with EMFILE. -/
theorem Reserve.acceptIdle (h : Reserve s) (hpc : s.pc = .idleClosed) : Reserve s.acceptIdle := by
  have hroom := h.room (Or.inl hpc)
  unfold State.acceptIdle
  split
  · rename_i hfull
    exact absurd (accept_emfile hfull) hroom
  · exact ⟨by simp, by simp, fun _ => Or.inr hroom, h.wasted⟩
  · exact ⟨by simp, by simp, fun _ => Or.inl (by simp), h.wasted⟩

/-- And `open` gets it back. -/
theorem Reserve.openIdle (h : Reserve s) (hpc : s.pc = .acceptedClosed) : Reserve s.openIdle := by
  unfold State.openIdle
  split
  · exact ⟨by simp, by simp, by simp, h.wasted⟩
  · rename_i hfull
    exact absurd (DescriptorTable.allocate_none_iff.mp hfull) (h.room (Or.inr hpc))

theorem Reserve.handleRead (h : Reserve s) (hpc : s.pc = .ready) : Reserve s.handleRead := by
  have hheld := h.held (Or.inl hpc)
  unfold State.handleRead
  split
  · exact ⟨fun _ => hheld, by simp, by simp, h.wasted⟩
  · exact h
  · split <;>
      exact ⟨fun _ => hheld, by simp [hpc], by simp [hpc], h.wasted⟩

/-- The reserve through one step, if nobody else opens a descriptor while it is given up. -/
theorem reserve_step (s : State) (l : Label) (s' : State) (h : Owned s ∧ Reserve s)
    (hrace : Unraced s l) (hnext : next s l = some s') : Owned s' ∧ Reserve s' := by
  refine ⟨owned_step s l s' h.1 hnext, ?_⟩
  obtain ⟨ho, h⟩ := h
  cases l with
  | listen | connect | handleReadError =>
    simp only [next, Option.ite_none_right_eq_some, Option.some.injEq] at hnext
    obtain ⟨_, rfl⟩ := hnext
    exact h.same rfl rfl rfl id
  | abort =>
    simp only [next, Option.ite_none_left_eq_some, Option.some.injEq] at hnext
    obtain ⟨_, rfl⟩ := hnext
    exact h.same rfl rfl rfl id
  | otherOpen =>
    obtain ⟨⟨fd, table⟩, halloc, rfl⟩ := Option.map_eq_some_iff.mp hnext
    -- the reserve is held at this moment, and is not touched
    have hwhere := hrace rfl
    refine ⟨h.held, ?_, ?_, h.wasted⟩
    · intro hroom
      rcases hwhere with hpc | hpc <;> simp [hpc] at hroom
    · intro hroom
      rcases hwhere with hpc | hpc <;> simp [hpc] at hroom
  | otherClose fd | connClose fd =>
    simp only [next, Option.ite_none_right_eq_some, Option.some.injEq] at hnext
    obtain ⟨_, rfl⟩ := hnext
    exact h.same rfl rfl rfl DescriptorTable.not_full_of_not_full
  | handleRead =>
    simp only [next, Option.ite_none_right_eq_some, Option.some.injEq] at hnext
    obtain ⟨⟨hpc, _⟩, rfl⟩ := hnext
    exact h.handleRead hpc
  | closeIdle =>
    simp only [next, Option.ite_none_right_eq_some, Option.some.injEq] at hnext
    obtain ⟨hpc, rfl⟩ := hnext
    have hroom := not_full_closeIdle ho (by simp [State.idle, hpc]) (Or.inl (h.held (Or.inr hpc)))
    exact ⟨by simp, fun _ => hroom, by simp, h.wasted⟩
  | acceptIdle =>
    simp only [next, Option.ite_none_right_eq_some, Option.some.injEq] at hnext
    obtain ⟨hpc, rfl⟩ := hnext
    exact h.acceptIdle hpc
  | closeAccepted =>
    simp only [next, Option.ite_none_right_eq_some, Option.some.injEq] at hnext
    obtain ⟨hpc, rfl⟩ := hnext
    have hroom := not_full_closeIdle ho (by simp [State.idle, hpc]) (h.accepted hpc)
    exact ⟨by simp, fun _ => hroom, by simp, h.wasted⟩
  | openIdle =>
    simp only [next, Option.ite_none_right_eq_some, Option.some.injEq] at hnext
    obtain ⟨hpc, rfl⟩ := hnext
    exact h.openIdle hpc

/-- The constructor leaves `handleRead` to be called, with no round behind it. -/
theorem ctor_zero {t : DescriptorTable} {callback : Bool} (h : ctor t callback = some s) :
    s.pc = .ready ∧ s.wasted = 0 := by
  obtain ⟨⟨sockfd, t'⟩, _, hs⟩ := Option.map_eq_some_iff.mp h
  simp only at hs
  split at hs <;> (subst hs; exact ⟨rfl, rfl⟩)

/-- Runs that start with a reserve and in which nobody opens a descriptor while the acceptor
    has given it up: outside `handleRead` the reserve is held again, no round leaves a waiting
    connection where it is, and every client that came is accounted for. -/
theorem reserve_kept {s₀ : State} {ls : List Label} (hinit : machine.init s₀)
    (hreserve : s₀.idleFd_ ≠ none) (hrace : machine.Along Unraced s₀ ls)
    (hrun : machine.run s₀ ls = some s) :
    (s.pc = .ready → s.idleFd_ ≠ none) ∧ s.wasted = 0 ∧
      s.arrived = s.handed + s.dropped + s.aborted + s.backlog := by
  obtain ⟨t, callback, hctor⟩ := hinit
  obtain ⟨hpc, hwasted⟩ := ctor_zero hctor
  have hstart : Owned s₀ ∧ Reserve s₀ :=
    ⟨owned_ctor hctor, fun _ => hreserve, by simp [hpc], by simp [hpc], hwasted⟩
  have hend := machine.run_invariant_along reserve_step hstart hrace hrun
  have hclients : Accounted s := machine.run_invariant accounted_step (accounted_ctor hctor) hrun
  refine ⟨fun h => hend.2.held (Or.inl h), hend.2.wasted, ?_⟩
  unfold Accounted at hclients
  omega

theorem reserve_kept_turned_away :
    ∃ s₀ s, ctor smallTable true = some s₀ ∧ machine.run s₀ turnedAway = some s ∧
      s.idleFd_ ≠ none ∧ s.wasted = 0 ∧ s.dropped = 1 := by
  have hdropped : ((ctor smallTable true).bind fun s₀ => (machine.run s₀ turnedAway).map fun s =>
      (s₀.idleFd_, decide (machine.Along Unraced s₀ turnedAway), s.pc, s.dropped)) =
        some (some 2, true, .ready, 1) := by decide +kernel
  obtain ⟨s₀, hctor, hrest⟩ := Option.bind_eq_some_iff.mp hdropped
  obtain ⟨s, hrun, hs⟩ := Option.map_eq_some_iff.mp hrest
  simp only [Prod.mk.injEq, decide_eq_true_eq] at hs
  obtain ⟨hidle, hrace, hpc, hs⟩ := hs
  obtain ⟨hheld, hwasted, _⟩ := reserve_kept ⟨_, _, hctor⟩ (by rw [hidle]; decide) hrace hrun
  exact ⟨s₀, s, hctor, hrun, hheld hpc, hwasted, hs⟩

/-! ## Without the reserve -/

/-- One round: both calls of `accept` fail with EMFILE, and so does `open`. -/
theorem run_round (hpc : s.pc = .ready) (hlisten : s.listenning_ = true)
    (hidle : s.idleFd_ = none) (hfull : s.table.Full) :
    machine.run s round =
      some { s with wasted := if s.backlog = 0 then s.wasted else s.wasted + 1 } := by
  have halloc := DescriptorTable.allocate_none_iff.mpr hfull
  simp [round, machine, Machine.run, next, hpc, hlisten, hidle, State.handleRead, State.accept,
    halloc, State.acceptIdle, State.openIdle, closeIdle]

/-- Once the reserve is lost and the table is full, any number of rounds takes no connection
    and gets no reserve back; the listening socket stays readable all the time. -/
theorem reserve_lost_spins (hpc : s.pc = .ready) (hlisten : s.listenning_ = true)
    (hidle : s.idleFd_ = none) (hfull : s.table.Full) (k : Nat) :
    machine.run s (List.replicate k round).flatten =
      some { s with wasted := if s.backlog = 0 then s.wasted else s.wasted + k } := by
  -- induction on the rounds; a round ends in a state like the one it began in
  induction k generalizing s with
  | zero => simp
  | succ k ih =>
    rw [List.replicate_succ, List.flatten_cons, Machine.run_append,
      run_round hpc hlisten hidle hfull, Option.bind_some, ih]
    · by_cases hempty : s.backlog = 0
      · simp [hempty]
      · simp only [hempty, if_false]
        rw [Nat.add_assoc, Nat.add_comm 1 k]
    · exact hpc
    · exact hlisten
    · exact hidle
    · exact hfull

theorem reserve_lost_spins_overtaken :
    ∃ s₀ s, ctor smallTable true = some s₀ ∧ machine.run s₀ overtaken = some s ∧
      s.backlog = 1 ∧
      (machine.run s (List.replicate 1000 round).flatten).map State.wasted = some 1001 := by
  have hlost : ((ctor smallTable true).bind fun s₀ => (machine.run s₀ overtaken).map fun s =>
      (s.pc, s.listenning_, s.idleFd_, decide s.table.Full, s.backlog, s.wasted)) =
        some (.ready, true, none, true, 1, 1) := by decide +kernel
  obtain ⟨s₀, hctor, hrest⟩ := Option.bind_eq_some_iff.mp hlost
  obtain ⟨s, hrun, hs⟩ := Option.map_eq_some_iff.mp hrest
  simp only [Prod.mk.injEq, decide_eq_true_eq] at hs
  obtain ⟨hpc, hlisten, hidle, hfull, hbacklog, hwasted⟩ := hs
  refine ⟨s₀, s, hctor, hrun, hbacklog, ?_⟩
  rw [reserve_lost_spins hpc hlisten hidle hfull 1000]
  simp [hbacklog, hwasted]

end

end Acceptor
