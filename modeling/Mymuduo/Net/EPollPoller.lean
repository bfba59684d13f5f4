import Mathlib.Logic.Function.Basic
import Mymuduo.Net.Channel

/-! # EPollPoller

    The poller of a loop: its own table `channels_` and the kernel's interest
    set, both by descriptor.  `Ptr` stands for `Channel*`.  `epoll_ctl` behaves
    as documented: ADD fails for a descriptor that is in the set, MOD and DEL for
    one that is not; a failed ADD or MOD is a LOG_FATAL.
-/

/-- The operations of `epoll_ctl`. -/
inductive CtlOp where
  | add
  | mod
  | del
  deriving DecidableEq, Repr

structure EPollPoller (Ptr : Type) where
  channels_ : Nat → Option Ptr := fun _ => none
  /-- The interest set of `epollfd_`: the mask and `data.ptr` of a descriptor. -/
  interest : Nat → Option (EventMask × Ptr) := fun _ => none
  /-- An ADD or MOD has failed. -/
  fatal : Bool := false

namespace EPollPoller

variable {Ptr : Type}

/-- `update(operation, channel)`. -/
def update (p : EPollPoller Ptr) (operation : CtlOp) (ptr : Ptr) (channel : Channel) :
    EPollPoller Ptr :=
  match operation, p.interest channel.fd_ with
  | .add, none | .mod, some _ =>
    { p with interest := Function.update p.interest channel.fd_ (some (channel.events_, ptr)) }
  | .del, some _ => { p with interest := Function.update p.interest channel.fd_ none }
  | .del, none => p
  | .add, some _ | .mod, none => { p with fatal := true }

/-- `updateChannel(channel)`, and the channel with its new index. -/
def updateChannel (p : EPollPoller Ptr) (ptr : Ptr) (channel : Channel) :
    EPollPoller Ptr × Channel :=
  match channel.index_ with
  -- a new channel enters channels_; a deleted one is still in it
  | .kNew =>
    let p := { p with channels_ := Function.update p.channels_ channel.fd_ (some ptr) }
    (p.update .add ptr channel, { channel with index_ := .kAdded })
  | .kDeleted => (p.update .add ptr channel, { channel with index_ := .kAdded })
  | .kAdded =>
    if channel.isNoneEvent then
      (p.update .del ptr channel, { channel with index_ := .kDeleted })
    else (p.update .mod ptr channel, channel)

/-- `removeChannel(channel)`, and the channel with its new index. -/
def removeChannel (p : EPollPoller Ptr) (ptr : Ptr) (channel : Channel) :
    EPollPoller Ptr × Channel :=
  let p := { p with channels_ := Function.update p.channels_ channel.fd_ none }
  let p := if channel.index_ = .kAdded then p.update .del ptr channel else p
  (p, { channel with index_ := .kNew })

/-- The kernel drops a closed descriptor from the interest set. -/
def closeFd (p : EPollPoller Ptr) (fd : Nat) : EPollPoller Ptr :=
  { p with interest := Function.update p.interest fd none }

/-! ## Where a channel is registered -/

variable {p : EPollPoller Ptr} {ptr q : Ptr} {channel : Channel} {fd : Nat} {mask : EventMask}

@[simp] theorem update_channels_ (p : EPollPoller Ptr) (op : CtlOp) (ptr : Ptr)
    (channel : Channel) : (p.update op ptr channel).channels_ = p.channels_ := by
  unfold update
  split <;> rfl

/-- `update` touches the entry of its descriptor only. -/
theorem update_interest {op : CtlOp}
    (h : (p.update op ptr channel).interest fd = some (mask, q)) :
    p.interest fd = some (mask, q) ∨ (fd = channel.fd_ ∧ q = ptr ∧ op ≠ .del) := by
  by_cases hfd : fd = channel.fd_
  · subst hfd
    unfold update at h
    split at h
    · simp only [Function.update_self, Option.some.injEq, Prod.mk.injEq] at h
      exact Or.inr ⟨rfl, h.2.symm, by simp⟩
    · simp only [Function.update_self, Option.some.injEq, Prod.mk.injEq] at h
      exact Or.inr ⟨rfl, h.2.symm, by simp⟩
    · -- a DEL leaves no entry behind
      simp at h
    · exact Or.inl h
    · exact Or.inl h
    · exact Or.inl h
  · left
    unfold update at h
    split at h
    all_goals simpa only [Function.update_of_ne hfd] using h

/-- After a DEL the descriptor is not in the set. -/
theorem update_del (p : EPollPoller Ptr) (ptr : Ptr) (channel : Channel) :
    (p.update .del ptr channel).interest channel.fd_ = none := by
  unfold update
  cases h : p.interest channel.fd_ with
  | none => exact h
  | some entry => exact Function.update_self _ _ _

/-- What `updateChannel` adds to `channels_`. -/
theorem updateChannel_channels_ (h : (p.updateChannel ptr channel).1.channels_ fd = some q) :
    p.channels_ fd = some q ∨ (fd = channel.fd_ ∧ q = ptr) := by
  unfold updateChannel at h
  split at h
  · simp only [update_channels_] at h
    by_cases hfd : fd = channel.fd_
    · rw [hfd, Function.update_self, Option.some.injEq] at h
      exact Or.inr ⟨hfd, h.symm⟩
    · rw [Function.update_of_ne hfd] at h
      exact Or.inl h
  · rw [update_channels_] at h
    exact Or.inl h
  · split at h
    · rw [update_channels_] at h
      exact Or.inl h
    · rw [update_channels_] at h
      exact Or.inl h

/-- After `updateChannel` the channel is at its own descriptor, as kAdded, if it
    is in the set at all; other channels are in the set where they were. -/
theorem updateChannel_interest
    (h : (p.updateChannel ptr channel).1.interest fd = some (mask, q)) :
    (p.interest fd = some (mask, q) ∧
      (fd = channel.fd_ → (p.updateChannel ptr channel).2.index_ = .kAdded)) ∨
    (fd = channel.fd_ ∧ q = ptr ∧ (p.updateChannel ptr channel).2.index_ = .kAdded) := by
  unfold updateChannel at h ⊢
  split at h
  · rcases update_interest h with hold | ⟨hfd, hq, _⟩
    · exact Or.inl ⟨hold, fun _ => rfl⟩
    · exact Or.inr ⟨hfd, hq, rfl⟩
  · rcases update_interest h with hold | ⟨hfd, hq, _⟩
    · exact Or.inl ⟨hold, fun _ => rfl⟩
    · exact Or.inr ⟨hfd, hq, rfl⟩
  · rename_i hindex
    split at h
    · rename_i hnone
      rw [if_pos hnone]
      rcases update_interest h with hold | ⟨_, _, hop⟩
      · -- DEL: the entry that is left belongs to another descriptor
        refine Or.inl ⟨hold, ?_⟩
        intro hfd
        rw [hfd, update_del] at h
        cases h
      · exact absurd rfl hop
    · rename_i hsome
      rw [if_neg hsome]
      rcases update_interest h with hold | ⟨hfd, hq, _⟩
      · exact Or.inl ⟨hold, fun _ => hindex⟩
      · exact Or.inr ⟨hfd, hq, hindex⟩

/-- `removeChannel` takes the channel out of `channels_`. -/
theorem removeChannel_channels_ (h : (p.removeChannel ptr channel).1.channels_ fd = some q) :
    p.channels_ fd = some q ∧ fd ≠ channel.fd_ := by
  have hsame : (p.removeChannel ptr channel).1.channels_ =
      Function.update p.channels_ channel.fd_ none := by
    unfold removeChannel
    simp only
    split
    · rw [update_channels_]
    · rfl
  rw [hsame] at h
  by_cases hfd : fd = channel.fd_
  · rw [hfd, Function.update_self] at h
    cases h
  · rw [Function.update_of_ne hfd] at h
    exact ⟨h, hfd⟩

/-- `removeChannel` takes a channel that is kAdded out of the interest set. -/
theorem removeChannel_interest
    (h : (p.removeChannel ptr channel).1.interest fd = some (mask, q)) :
    p.interest fd = some (mask, q) ∧ (fd = channel.fd_ → channel.index_ ≠ .kAdded) := by
  unfold removeChannel at h
  simp only at h
  split at h
  · rcases update_interest h with hold | ⟨_, _, hop⟩
    · -- the DEL has taken the channel's own entry out
      refine ⟨hold, ?_⟩
      intro hfd
      rw [hfd, update_del] at h
      cases h
    · exact absurd rfl hop
  · rename_i hindex
    exact ⟨h, fun _ => hindex⟩

theorem closeFd_interest {closed : Nat} (h : (p.closeFd closed).interest fd = some (mask, q)) :
    p.interest fd = some (mask, q) := by
  unfold closeFd at h
  by_cases hfd : fd = closed
  · simp [hfd] at h
  · simpa only [Function.update_of_ne hfd] using h

end EPollPoller
