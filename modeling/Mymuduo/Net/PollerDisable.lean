import Mymuduo.Net.PollerBookkeeping

/-! # Disabling a channel

    Taking the last event out of the mask of a registered channel takes its descriptor
    out of the interest set.  A channel that is not registered goes through the other
    branch of `updateChannel`, which adds the descriptor without a look at the mask: a
    disable that finds nothing to disable registers the channel for no events.
-/

namespace PollerBookkeeping

open EPollPoller

variable {Ptr : Type}

/-- The channel after `updateChannel`. -/
theorem updateChannel_snd (p : EPollPoller Ptr) (c : Ptr) (channel : Channel) :
    (p.updateChannel c channel).2 =
      { channel with
        index_ := if channel.index_ = .kAdded ∧ channel.isNoneEvent = true then .kDeleted
          else .kAdded } := by
  unfold updateChannel
  cases hindex : channel.index_ with
  | kNew => simp
  | kDeleted => simp
  | kAdded =>
    by_cases hnone : channel.isNoneEvent = true
    · simp [hnone]
    · simp [hnone, ← hindex]

theorem kernelEntry_isSome {c : Ptr} {channel : Channel} :
    (kernelEntry c channel).isSome = true ↔ channel.index_ = .kAdded := by
  unfold kernelEntry
  cases channel.index_ <;> simp

/-- The calls that take events out of the mask. -/
def Change.disables : Change → Bool
  | .disableReading | .disableWriting | .disableAll => true
  | .enableReading | .enableWriting => false

/-- There is nothing to be taken out of an empty mask. -/
theorem disables_empty {op : Change} (hop : op.disables = true) {channel : Channel}
    (hempty : channel.events_ = 0) : (op.apply channel).events_ = 0 := by
  cases op with
  | disableReading | disableWriting =>
    simp [Change.apply, Channel.disableReading, Channel.disableWriting, hempty]
  | disableAll => rfl
  | enableReading | enableWriting => cases hop

section
variable [DecidableEq Ptr]

/-- After the call the channel is in the interest set iff its mask is not empty, and a
    disable with an empty mask has changed nothing. -/
def Unregisters (s : State Ptr) : Label Ptr → Prop
  | .change c op => ∀ s', next s (.change c op) = some s' →
      ((s'.poller.interest (s'.channels c).fd_).isSome = true ↔ (s'.channels c).events_ ≠ 0) ∧
      (op.disables = true → (s.channels c).events_ = 0 →
        s'.poller.interest = s.poller.interest ∧
          (s'.channels c).index_ = (s.channels c).index_)
  | .remove _ => True

/-- The call leaves events in the mask, or the channel is registered. -/
def Registered (s : State Ptr) : Label Ptr → Prop
  | .change c op => (op.apply (s.channels c)).events_ ≠ 0 ∨ (s.channels c).index_ = .kAdded
  | .remove _ => True

instance (s : State Ptr) : (l : Label Ptr) → Decidable (Registered s l)
  | .change _ _ => inferInstanceAs (Decidable (_ ∨ _))
  | .remove _ => isTrue trivial

/-! ## One call -/

/-- What a call does to the channel. -/
theorem next_change {s s' : State Ptr} {c : Ptr} {op : Change}
    (hstep : next s (.change c op) = some s') :
    (s'.channels c).events_ = (op.apply (s.channels c)).events_ ∧
      (s'.channels c).index_ =
        (if (s.channels c).index_ = .kAdded ∧ (op.apply (s.channels c)).events_ = 0 then .kDeleted
          else .kAdded) ∧
      ∀ d, d ≠ c → s'.channels d = s.channels d := by
  have hchannels : s'.channels = Function.update s.channels c
      (s.poller.updateChannel c (op.apply (s.channels c))).2 :=
    congrArg State.channels (Option.some.inj hstep).symm
  obtain ⟨_, hindex⟩ := op.apply_same (s.channels c)
  rw [hchannels, Function.update_self, updateChannel_snd, hindex]
  refine ⟨rfl, ?_, ?_⟩
  · simp only [Channel.isNoneEvent, Channel.kNoneEvent, beq_iff_eq]
  · intro d hd
    exact Function.update_of_ne hd _ _

/-- A registered channel has events. -/
def Needed (s : State Ptr) : Prop :=
  ∀ c, (s.channels c).index_ = .kAdded → (s.channels c).events_ ≠ 0

theorem needed_step {s s' : State Ptr} {l : Label Ptr} (h : Needed s) (hl : Registered s l)
    (hstep : next s l = some s') : Needed s' := by
  cases l with
  | change c op =>
    obtain ⟨hevents, hindex, hother⟩ := next_change hstep
    intro d hd
    by_cases hdc : d = c
    · subst hdc
      rw [hindex] at hd
      rw [hevents]
      intro hzero
      -- an empty mask means that the channel was registered and is no more
      have hadded := hl.resolve_left (fun hne => hne hzero)
      rw [if_pos ⟨hadded, hzero⟩] at hd
      cases hd
    · rw [hother d hdc] at hd ⊢
      exact h d hd
  | remove c =>
    obtain rfl := Option.some.inj hstep
    intro d hd
    by_cases hdc : d = c
    · subst hdc
      simp at hd
    · simp only [Function.update_of_ne hdc] at hd ⊢
      exact h d hd

theorem registered_of_unregisters {s s' : State Ptr} {l : Label Ptr} (hagree : Agree s)
    (hl : Unregisters s l) (hstep : next s l = some s') : Registered s l := by
  cases l with
  | change c op =>
    obtain ⟨hevents, hindex, _⟩ := next_change hstep
    have hiff := (hl s' hstep).1
    rw [(agree_step hagree hstep).kernel.own c, kernelEntry_isSome, hevents, hindex] at hiff
    by_contra hnot
    obtain ⟨hzero, hadded⟩ := not_or.mp hnot
    -- otherwise the descriptor is added with an empty mask
    rw [if_neg (fun h => hadded h.1)] at hiff
    exact hzero (hiff.mp rfl)
  | remove c => trivial

theorem unregisters_of_registered {s s' : State Ptr} {l : Label Ptr} (hagree : Agree s)
    (hneeded : Needed s) (hl : Registered s l) (hstep : next s l = some s') :
    Unregisters s l := by
  cases l with
  | change c op =>
    intro t ht
    obtain rfl : s' = t := Option.some.inj (hstep.symm.trans ht)
    obtain ⟨hevents, hindex, _⟩ := next_change hstep
    constructor
    · rw [(agree_step hagree hstep).kernel.own c, kernelEntry_isSome, hevents, hindex]
      by_cases hzero : (op.apply (s.channels c)).events_ = 0
      · have hadded := hl.resolve_left (fun hne => hne hzero)
        rw [if_pos ⟨hadded, hzero⟩]
        exact ⟨fun h => absurd h (by decide), fun h => absurd hzero h⟩
      · rw [if_neg (fun h => hzero h.2)]
        exact ⟨fun _ => hzero, fun _ => rfl⟩
    · -- such a call is not made on a registered channel, which has events
      intro hop hempty
      have hadded := hl.resolve_left (fun hne => hne (disables_empty hop hempty))
      exact absurd hempty (hneeded c hadded)
  | remove c => trivial

/-! ## Runs -/

/-- Along a run each `enable*` and `disable*` leaves the channel in the interest set
    exactly while its mask is not empty, and a disable of a disabled channel changes
    nothing, if and only if each of these calls leaves events in the mask or is made on
    a registered channel. -/
theorem disable_unregisters_iff {s₀ s : State Ptr} {ls : List (Label Ptr)}
    (hinit : (machine Ptr).init s₀) (hrun : (machine Ptr).run s₀ ls = some s) :
    (machine Ptr).Along Unregisters s₀ ls ↔ (machine Ptr).Along Registered s₀ ls := by
  obtain ⟨hnew, hdistinct, hs⟩ := hinit
  have hagree₀ : Agree s₀ := agree_init (fun c => (hnew c).1) hdistinct hs
  have hneeded₀ : Needed s₀ := by
    intro c hc
    rw [(hnew c).1] at hc
    cases hc
  constructor
  · intro h
    apply Machine.Along.imp_of_run (I := Agree) _ _ hagree₀ hrun h
    intro t l t' hagree hl hnext
    exact ⟨registered_of_unregisters hagree hl hnext, agree_step hagree hnext⟩
  · intro h
    apply Machine.Along.imp_of_run (I := fun t => Agree t ∧ Needed t) _ _ ⟨hagree₀, hneeded₀⟩
      hrun h
    intro t l t' ht hl hnext
    exact ⟨unregisters_of_registered ht.1 ht.2 hl hnext, agree_step ht.1 hnext,
      needed_step ht.2 hl hnext⟩

/-- A channel that is enabled, disabled and enabled again. -/
theorem disable_unregisters_iff_cycle :
    ∃ s₀ s : State Nat, (machine Nat).init s₀ ∧
      (machine Nat).run s₀ [.change 0 .enableReading, .change 0 .disableAll,
        .change 0 .enableWriting] = some s ∧
      (machine Nat).Along Unregisters s₀ [.change 0 .enableReading, .change 0 .disableAll,
        .change 0 .enableWriting] := by
  have hinit : (machine Nat).init { channels := fun c => { fd_ := c + 5 } } :=
    ⟨fun _ => ⟨rfl, rfl⟩, fun c d h => Nat.add_right_cancel h, rfl⟩
  have hrun : (machine Nat).run { channels := fun c => { fd_ := c + 5 } }
      [.change 0 .enableReading, .change 0 .disableAll, .change 0 .enableWriting] = some _ := rfl
  exact ⟨_, _, hinit, hrun, (disable_unregisters_iff hinit hrun).mpr (by decide)⟩

/-- Disabling a channel that was never registered puts its descriptor into the interest
    set, with an empty mask. -/
theorem disable_registers :
    (machine Nat).init { channels := fun c => { fd_ := c + 5 } } ∧
      ¬ (machine Nat).Along Unregisters { channels := fun c => { fd_ := c + 5 } }
        [.change 0 .disableAll] := by
  refine ⟨⟨fun _ => ⟨rfl, rfl⟩, fun c d h => Nat.add_right_cancel h, rfl⟩, ?_⟩
  intro h
  have hiff := (h.1 _ rfl).1
  exact hiff.mp rfl rfl

end

end PollerBookkeeping
