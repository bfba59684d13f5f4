import Mymuduo.Framework.Machine
import Mymuduo.Net.EPollPoller

/-! # The poller against the kernel

    The registration of a channel is kept three times: `index_` and `events_` in
    the channel, `channels_` in the poller, and the interest set in the kernel.
    The channels of a loop, with pairwise distinct descriptors, are driven by any
    sequence of `enable*`, `disable*` and `remove`; the three copies agree in every
    state, and `epoll_ctl` never refuses a call (`poller_matches_kernel`).
-/

namespace EPollPoller

variable {Ptr : Type}

/-- `epoll_ctl(epollfd_, operation, fd, ..)` returns -1. -/
def Refused (p : EPollPoller Ptr) (operation : CtlOp) (fd : Nat) : Prop :=
  match operation with
  | .add => (p.interest fd).isSome = true
  | .mod | .del => (p.interest fd).isSome = false

instance (p : EPollPoller Ptr) (fd : Nat) : (op : CtlOp) → Decidable (p.Refused op fd)
  | .add => inferInstanceAs (Decidable (_ = true))
  | .mod | .del => inferInstanceAs (Decidable (_ = false))

/-- The operation that `updateChannel(channel)` hands to `update`. -/
def updateOp (channel : Channel) : CtlOp :=
  match channel.index_ with
  | .kNew | .kDeleted => .add
  | .kAdded => if channel.isNoneEvent then .del else .mod

/-- `updateChannel` calls `update` once, with that operation. -/
theorem updateChannel_update (p : EPollPoller Ptr) (ptr : Ptr) (channel : Channel) :
    (p.updateChannel ptr channel).1.interest =
        (p.update (updateOp channel) ptr channel).interest ∧
      (p.updateChannel ptr channel).1.fatal =
        (p.update (updateOp channel) ptr channel).fatal := by
  unfold updateChannel updateOp
  cases channel.index_ with
  | kNew =>
    -- the table entry is written first; `update` does not look at it
    simp only [update]
    cases p.interest channel.fd_ <;> exact ⟨rfl, rfl⟩
  | kDeleted => exact ⟨rfl, rfl⟩
  | kAdded =>
    simp only
    split <;> exact ⟨rfl, rfl⟩

end EPollPoller

namespace PollerBookkeeping

open EPollPoller

/-! ## The machine -/

/-- The member functions of `Channel` that change the mask and call `update()`. -/
inductive Change where
  | enableReading
  | disableReading
  | enableWriting
  | disableWriting
  | disableAll
  deriving DecidableEq, Repr

def Change.apply (channel : Channel) : Change → Channel
  | .enableReading => channel.enableReading
  | .disableReading => channel.disableReading
  | .enableWriting => channel.enableWriting
  | .disableWriting => channel.disableWriting
  | .disableAll => channel.disableAll

inductive Label (Ptr : Type) where
  | change (c : Ptr) (op : Change)
  | remove (c : Ptr)
  deriving DecidableEq, Repr

structure State (Ptr : Type) where
  poller : EPollPoller Ptr := {}
  channels : Ptr → Channel
  /-- Some `epoll_ctl` has returned -1. -/
  refused : Bool := false

section
variable {Ptr : Type} [DecidableEq Ptr]

def next (s : State Ptr) : Label Ptr → Option (State Ptr)
  | .change c op =>
    let channel := op.apply (s.channels c)
    let (poller, channel') := s.poller.updateChannel c channel
    some {
      poller := poller
      channels := Function.update s.channels c channel'
      refused := s.refused || decide (s.poller.Refused (updateOp channel) channel.fd_) }
  | .remove c =>
    let channel := s.channels c
    let (poller, channel') := s.poller.removeChannel c channel
    some {
      poller := poller
      channels := Function.update s.channels c channel'
      refused := s.refused ||
        -- `removeChannel` calls `update` for a channel that is kAdded
        decide (channel.index_ = .kAdded ∧ s.poller.Refused .del channel.fd_) }

/-- Starts with new channels on pairwise distinct descriptors. -/
def machine (Ptr : Type) [DecidableEq Ptr] : Machine (State Ptr) (Label Ptr) where
  init := fun s =>
    (∀ c, (s.channels c).index_ = .kNew ∧ (s.channels c).events_ = 0) ∧
      (∀ c d, (s.channels c).fd_ = (s.channels d).fd_ → c = d) ∧ s = { channels := s.channels }
  next := next

/-! ## The invariant -/

/-- What the kernel has for a channel. -/
def kernelEntry (c : Ptr) (channel : Channel) : Option (EventMask × Ptr) :=
  match channel.index_ with
  | .kAdded => some (channel.events_, c)
  | .kNew | .kDeleted => none

/-- What `channels_` has for a channel. -/
def tableEntry (c : Ptr) (channel : Channel) : Option Ptr :=
  match channel.index_ with
  | .kAdded | .kDeleted => some c
  | .kNew => none

/-- A table by descriptor that holds the entries of the channels and no others. -/
structure Mirrors {V : Type} (entry : Ptr → Channel → Option V) (channels : Ptr → Channel)
    (tbl : Nat → Option V) : Prop where
  own : ∀ c, tbl (channels c).fd_ = entry c (channels c)
  other : ∀ fd, (∀ c, (channels c).fd_ ≠ fd) → tbl fd = none

/-- The three copies agree. -/
structure Agree (s : State Ptr) : Prop where
  distinct : ∀ c d, (s.channels c).fd_ = (s.channels d).fd_ → c = d
  kernel : Mirrors kernelEntry s.channels s.poller.interest
  table : Mirrors tableEntry s.channels s.poller.channels_
  fatal : s.poller.fatal = false
  refused : s.refused = false

/-- One channel changes, and its entry with it. -/
theorem Mirrors.update {V : Type} {entry : Ptr → Channel → Option V} {channels : Ptr → Channel}
    {tbl : Nat → Option V} (h : Mirrors entry channels tbl)
    (hdistinct : ∀ c d, (channels c).fd_ = (channels d).fd_ → c = d) {c : Ptr} {channel : Channel}
    (hfd : channel.fd_ = (channels c).fd_) :
    Mirrors entry (Function.update channels c channel)
      (Function.update tbl channel.fd_ (entry c channel)) := by
  constructor
  · intro d
    by_cases hd : d = c
    · subst hd
      rw [Function.update_self, Function.update_self]
    · have hne : (channels d).fd_ ≠ channel.fd_ := by
        intro heq
        exact hd (hdistinct d c (heq.trans hfd))
      rw [Function.update_of_ne hd, Function.update_of_ne hne]
      exact h.own d
  · intro fd hnone
    have hne : fd ≠ channel.fd_ := by
      intro heq
      apply hnone c
      rw [Function.update_self, heq]
    rw [Function.update_of_ne hne]
    apply h.other
    intro d hd
    apply hnone d
    by_cases hdc : d = c
    · rw [hdc, Function.update_self, hfd, ← hdc]
      exact hd
    · rw [Function.update_of_ne hdc]
      exact hd

/-- A step that changes one channel and the two entries of its descriptor. -/
theorem Agree.set {s s' : State Ptr} (h : Agree s) {c : Ptr} {channel : Channel}
    (hfd : channel.fd_ = (s.channels c).fd_)
    (hchannels : s'.channels = Function.update s.channels c channel)
    (hinterest : s'.poller.interest =
      Function.update s.poller.interest channel.fd_ (kernelEntry c channel))
    (htable : s'.poller.channels_ =
      Function.update s.poller.channels_ channel.fd_ (tableEntry c channel))
    (hfatal : s'.poller.fatal = false) (hrefused : s'.refused = false) : Agree s' := by
  refine ⟨?_, ?_, ?_, hfatal, hrefused⟩
  · -- descriptors do not change
    have hsame : ∀ d, (s'.channels d).fd_ = (s.channels d).fd_ := by
      intro d
      rw [hchannels]
      by_cases hd : d = c
      · rw [hd, Function.update_self, hfd]
      · rw [Function.update_of_ne hd]
    intro d e heq
    rw [hsame, hsame] at heq
    exact h.distinct d e heq
  · rw [hchannels, hinterest]
    exact h.kernel.update h.distinct hfd
  · rw [hchannels, htable]
    exact h.table.update h.distinct hfd

omit [DecidableEq Ptr] in
theorem agree_init {s : State Ptr} (hnew : ∀ c, (s.channels c).index_ = .kNew)
    (hdistinct : ∀ c d, (s.channels c).fd_ = (s.channels d).fd_ → c = d)
    (hs : s = { channels := s.channels }) : Agree s := by
  rw [hs]
  refine ⟨hdistinct, ⟨?_, fun _ _ => rfl⟩, ⟨?_, fun _ _ => rfl⟩, rfl, rfl⟩
  · intro c
    show none = kernelEntry c (s.channels c)
    rw [kernelEntry, hnew c]
  · intro c
    show none = tableEntry c (s.channels c)
    rw [tableEntry, hnew c]

/-! ## One step -/

omit [DecidableEq Ptr] in
/-- The mask changes; descriptor and index do not. -/
theorem Change.apply_same (channel : Channel) (op : Change) :
    (op.apply channel).fd_ = channel.fd_ ∧ (op.apply channel).index_ = channel.index_ := by
  cases op <;> exact ⟨rfl, rfl⟩

omit [DecidableEq Ptr] in
/-- `updateChannel` for a channel whose entries are right except for the mask: the
    call is not refused, and afterwards the entries are right. -/
theorem updateChannel_agree {p : EPollPoller Ptr} {c : Ptr} {old channel : Channel}
    (hindex : channel.index_ = old.index_)
    (hkernel : p.interest channel.fd_ = kernelEntry c old)
    (htable : p.channels_ channel.fd_ = tableEntry c old) :
    ¬ p.Refused (updateOp channel) channel.fd_ ∧
      (p.updateChannel c channel).2.fd_ = channel.fd_ ∧
      (p.updateChannel c channel).1.interest =
        Function.update p.interest channel.fd_ (kernelEntry c (p.updateChannel c channel).2) ∧
      (p.updateChannel c channel).1.channels_ =
        Function.update p.channels_ channel.fd_ (tableEntry c (p.updateChannel c channel).2) ∧
      (p.updateChannel c channel).1.fatal = p.fatal := by
  unfold kernelEntry at hkernel
  unfold tableEntry at htable
  rw [← hindex] at hkernel htable
  cases hi : channel.index_ with
  | kNew =>
    simp only [hi] at hkernel
    simp [updateChannel, updateOp, Refused, update, kernelEntry, tableEntry, hi, hkernel]
  | kDeleted =>
    -- the table has the channel already
    simp only [hi] at hkernel htable
    have hsame : Function.update p.channels_ channel.fd_ (some c) = p.channels_ := by
      rw [← htable, Function.update_eq_self]
    simp [updateChannel, updateOp, Refused, update, kernelEntry, tableEntry, hi, hkernel, hsame]
  | kAdded =>
    simp only [hi] at hkernel htable
    have hsame : Function.update p.channels_ channel.fd_ (some c) = p.channels_ := by
      rw [← htable, Function.update_eq_self]
    by_cases hnone : channel.isNoneEvent = true
    · simp [updateChannel, updateOp, Refused, update, kernelEntry, tableEntry, hi, hkernel, hsame,
        hnone]
    · simp [updateChannel, updateOp, Refused, update, kernelEntry, tableEntry, hi, hkernel, hsame,
        hnone]

omit [DecidableEq Ptr] in
/-- `removeChannel` for a channel whose entries are right. -/
theorem removeChannel_agree {p : EPollPoller Ptr} {c : Ptr} {channel : Channel}
    (hkernel : p.interest channel.fd_ = kernelEntry c channel) :
    ¬ (channel.index_ = .kAdded ∧ p.Refused .del channel.fd_) ∧
      (p.removeChannel c channel).2.fd_ = channel.fd_ ∧
      (p.removeChannel c channel).1.interest =
        Function.update p.interest channel.fd_ (kernelEntry c (p.removeChannel c channel).2) ∧
      (p.removeChannel c channel).1.channels_ =
        Function.update p.channels_ channel.fd_ (tableEntry c (p.removeChannel c channel).2) ∧
      (p.removeChannel c channel).1.fatal = p.fatal := by
  unfold kernelEntry at hkernel
  cases hi : channel.index_ with
  | kAdded =>
    simp only [hi] at hkernel
    simp [removeChannel, Refused, update, kernelEntry, tableEntry, hi, hkernel]
  | kNew =>
    -- the kernel has no entry, and none is asked for
    simp only [hi] at hkernel
    have hsame : Function.update p.interest channel.fd_ none = p.interest := by
      rw [← hkernel, Function.update_eq_self]
    simp [removeChannel, kernelEntry, tableEntry, hi, hsame]
  | kDeleted =>
    simp only [hi] at hkernel
    have hsame : Function.update p.interest channel.fd_ none = p.interest := by
      rw [← hkernel, Function.update_eq_self]
    simp [removeChannel, kernelEntry, tableEntry, hi, hsame]

theorem agree_step {s s' : State Ptr} {l : Label Ptr} (h : Agree s)
    (hstep : next s l = some s') : Agree s' := by
  cases l with
  | change c op =>
    obtain rfl := Option.some.inj hstep
    obtain ⟨hfd, hindex⟩ := op.apply_same (s.channels c)
    have hkernel := h.kernel.own c
    have htable := h.table.own c
    rw [← hfd] at hkernel htable
    obtain ⟨hok, hfd', hint, htab, hfatal⟩ := updateChannel_agree hindex hkernel htable
    refine h.set (hfd'.trans hfd) rfl ?_ ?_ (hfatal.trans h.fatal) ?_
    · rw [hfd']
      exact hint
    · rw [hfd']
      exact htab
    · simp [h.refused, hok]
  | remove c =>
    obtain rfl := Option.some.inj hstep
    obtain ⟨hok, hfd', hint, htab, hfatal⟩ := removeChannel_agree (h.kernel.own c)
    refine h.set hfd' rfl ?_ ?_ (hfatal.trans h.fatal) ?_
    · rw [hfd']
      exact hint
    · rw [hfd']
      exact htab
    · simp only [h.refused, Bool.false_or]
      exact decide_eq_false hok

theorem agree_reachable {s : State Ptr} (h : (machine Ptr).Reachable s) : Agree s := by
  refine h.invariant (machine Ptr) ?_ ?_
  · intro s ⟨hnew, hdistinct, hs⟩
    exact agree_init (fun c => (hnew c).1) hdistinct hs
  · intro s l s' hs hstep
    exact agree_step hs hstep

/-! ## The result -/

/-- In every reachable state the kernel has exactly the channels that are kAdded,
    with their masks, `channels_` has exactly those that are kAdded or kDeleted,
    and no `epoll_ctl` has failed, so that LOG_FATAL was not reached. -/
theorem poller_matches_kernel {s : State Ptr} (h : (machine Ptr).Reachable s) :
    (∀ fd mask c, s.poller.interest fd = some (mask, c) ↔
      (s.channels c).fd_ = fd ∧ (s.channels c).events_ = mask ∧
        (s.channels c).index_ = .kAdded) ∧
    (∀ fd c, s.poller.channels_ fd = some c ↔
      (s.channels c).fd_ = fd ∧
        ((s.channels c).index_ = .kAdded ∨ (s.channels c).index_ = .kDeleted)) ∧
    s.refused = false ∧ s.poller.fatal = false := by
  have hagree := agree_reachable h
  refine ⟨?_, ?_, hagree.refused, hagree.fatal⟩
  · intro fd mask c
    constructor
    · intro hint
      -- the entry belongs to the one channel with this descriptor
      by_cases hex : ∃ d, (s.channels d).fd_ = fd
      · obtain ⟨d, rfl⟩ := hex
        rw [hagree.kernel.own d, kernelEntry] at hint
        split at hint
        · rename_i hadded
          obtain ⟨rfl, rfl⟩ := Prod.mk.inj (Option.some.inj hint)
          exact ⟨rfl, rfl, hadded⟩
        · cases hint
        · cases hint
      · rw [hagree.kernel.other fd fun d hd => hex ⟨d, hd⟩] at hint
        cases hint
    · intro ⟨hfd, hmask, hadded⟩
      rw [← hfd, hagree.kernel.own c, kernelEntry, hadded, hmask]
  · intro fd c
    constructor
    · intro htab
      by_cases hex : ∃ d, (s.channels d).fd_ = fd
      · obtain ⟨d, rfl⟩ := hex
        rw [hagree.table.own d, tableEntry] at htab
        split at htab
        · rename_i hadded
          obtain rfl := Option.some.inj htab
          exact ⟨rfl, Or.inl hadded⟩
        · rename_i hdeleted
          obtain rfl := Option.some.inj htab
          exact ⟨rfl, Or.inr hdeleted⟩
        · cases htab
      · rw [hagree.table.other fd fun d hd => hex ⟨d, hd⟩] at htab
        cases htab
    · intro ⟨hfd, hindex⟩
      rw [← hfd, hagree.table.own c, tableEntry]
      rcases hindex with hindex | hindex
      · rw [hindex]
      · rw [hindex]

/-- Two channels, one of them disabled before it was ever registered and the other
    removed and registered again. -/
theorem poller_matches_kernel_two :
    ∃ s : State Nat, (machine Nat).Reachable s ∧ (s.channels 0).index_ = .kAdded ∧
      (s.channels 1).index_ = .kDeleted ∧
      s.poller.interest 5 = some (Channel.kWriteEvent, 0) ∧ s.poller.interest 6 = none ∧
      s.refused = false := by
  have hrun : (machine Nat).run { channels := fun c => { fd_ := c + 5 } }
      [.change 1 .disableAll, .change 0 .enableReading, .remove 0, .change 0 .disableReading,
        .change 0 .enableWriting, .change 1 .disableWriting] = some _ := rfl
  have hreach : (machine Nat).Reachable _ :=
    ⟨_, _, ⟨fun _ => ⟨rfl, rfl⟩, fun c d h => Nat.add_right_cancel h, rfl⟩, hrun⟩
  obtain ⟨hkernel, _, hrefused, _⟩ := poller_matches_kernel hreach
  exact ⟨_, hreach, rfl, rfl, (hkernel 5 _ 0).mpr ⟨rfl, rfl, rfl⟩, rfl, hrefused⟩

end

end PollerBookkeeping
