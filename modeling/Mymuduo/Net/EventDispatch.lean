import Mathlib.Data.List.Nodup
import Mymuduo.Framework.Progress
import Mymuduo.Net.PollerBookkeeping
import Mymuduo.Net.Syscall

/-! # From epoll_wait to handleEvent

    `EPollPoller::poll` hands its vector `events_` to `epoll_wait`, copies the masks that come
    back into the channels and doubles the vector when it came back full;  `EventLoop::loop`
    then calls `handleEvent` on one channel after the other.  The kernel keeps the descriptors
    that are ready in a list, reports them from its head and puts what it has reported at the
    end, so that more descriptors than fit take their turns.

    Channels are registered, changed and removed at any time between two steps, by callbacks of
    the loop itself.

    * `events_dispatched`: every event that is reported is handled once, in order, with its own
      mask.
    * `no_starvation`: a descriptor that stays ready is reported after a number of polls that
      depends on its place in the list alone, whatever becomes ready meanwhile.
    * `vector_bounded`: the vector stays within twice the number of descriptors that were ready
      at once.
-/

namespace EventDispatch

variable {Ptr : Type} [DecidableEq Ptr]

/-! ## The machine -/

def kInitEventListSize : Nat := 16

/-- An entry of `events_`: the descriptor, for which the kernel keeps `data.ptr`, and the
    events. -/
structure Event (Ptr : Type) where
  fd : Nat
  ptr : Ptr
  events : EventMask

structure State (Ptr : Type) where
  /-- The poller and the channels. -/
  base : PollerBookkeeping.State Ptr
  /-- The size of the vector. -/
  events_ : Nat := kInitEventListSize
  /-- The descriptors that are ready, with what they are ready for, in the kernel's order. -/
  ready : List (Nat × EventMask) := []
  /-- What is left of the list that `loop` iterates over. -/
  activeChannels_ : List Ptr := []
  /-- Ghost: what `epoll_wait` has reported. -/
  reported : List (Event Ptr) := []
  /-- Ghost: the calls of `handleEvent`, with `revents_` as they see it. -/
  handled : List (Ptr × EventMask) := []

namespace State

/-- The kernel drops a descriptor that is no longer in the interest set. -/
def setBase (s : State Ptr) (base : PollerBookkeeping.State Ptr) : State Ptr :=
  { s with base := base
           ready := s.ready.filter fun r => (base.poller.interest r.1).isSome }

/-- `channel->set_revents(revents)` and `activeChannels->push_back(channel)`. -/
def fill (s : State Ptr) (e : Event Ptr) : State Ptr :=
  let channel := { s.base.channels e.ptr with revents_ := e.events }
  { s with
    base := { s.base with channels := Function.update s.base.channels e.ptr channel }
    activeChannels_ := s.activeChannels_ ++ [e.ptr] }

/-- `fillActiveChannels(numEvents, activeChannels)`, on the entries that were filled in. -/
def fillActiveChannels (s : State Ptr) (events : List (Event Ptr)) : State Ptr :=
  events.foldl fill s

/-- `EPollPoller::poll` from the return of `epoll_wait` on. -/
def poll (s : State Ptr) (numEvents : Int) (events : List (Event Ptr)) : State Ptr :=
  if 0 < numEvents then
    let s := s.fillActiveChannels events
    if (s.events_ : Int) = numEvents then { s with events_ := s.events_ * 2 } else s
  -- a timeout, or an error that at most goes to the log
  else s

/-- The entry that the kernel makes for a descriptor. -/
def event (s : State Ptr) (r : Nat × EventMask) : Option (Event Ptr) :=
  (s.base.poller.interest r.1).map fun entry => ⟨r.1, entry.2, r.2⟩

/-- How many descriptors `epoll_wait` can report. -/
def numEvents (s : State Ptr) : Nat := min s.ready.length s.events_

/-- The entries of `events_` when `epoll_wait` returns. -/
def returned (s : State Ptr) : List (Event Ptr) := (s.ready.take s.numEvents).filterMap s.event

end State

/-- What `epoll_wait` returns. -/
inductive Outcome where
  | events
  | timeout
  | failed (errno : Errno)
  deriving DecidableEq

inductive Label (Ptr : Type) where
  /-- A channel is changed or removed. -/
  | base (l : PollerBookkeeping.Label Ptr)
  /-- Something has happened on a registered descriptor. -/
  | arrive (fd : Nat) (events : EventMask)
  /-- A descriptor is no longer ready. -/
  | settle (fd : Nat)
  | poll (o : Outcome)
  | handleEvent
  deriving DecidableEq

def next (s : State Ptr) : Label Ptr → Option (State Ptr)
  | .base l => (PollerBookkeeping.next s.base l).map s.setBase
  | .arrive fd events =>
    if (s.base.poller.interest fd).isSome then
      if fd ∈ s.ready.map Prod.fst then
        some { s with ready := s.ready.map fun r => if r.1 = fd then (fd, events) else r }
      else some { s with ready := s.ready ++ [(fd, events)] }
    else none
  | .settle fd => some { s with ready := s.ready.filter fun r => r.1 ≠ fd }
  | .poll o =>
    -- the last list has been handled, and is cleared
    if s.activeChannels_ = [] then
      match o with
      | .events =>
        if s.ready = [] then none
        else
          let s' := { s with
            ready := s.ready.rotate s.numEvents
            reported := s.reported ++ s.returned }
          some (s'.poll s.numEvents s.returned)
      | .timeout => if s.ready = [] then some (s.poll 0 []) else none
      | .failed _ => some (s.poll (-1) [])
    else none
  | .handleEvent =>
    match s.activeChannels_ with
    | [] => none
    | c :: rest =>
      some { s with
        activeChannels_ := rest
        handled := s.handled ++ [(c, (s.base.channels c).revents_)] }

/-- Starts with channels that are not registered, on pairwise distinct descriptors. -/
def machine (Ptr : Type) [DecidableEq Ptr] : Machine (State Ptr) (Label Ptr) where
  init := fun s => (PollerBookkeeping.machine Ptr).init s.base ∧ s = { base := s.base }
  next := next

/-! ## The invariant -/

/-- The event as `handleEvent` is to see it. -/
def Event.seen (e : Event Ptr) : Ptr × EventMask := (e.ptr, e.events)

structure Inv (s : State Ptr) : Prop where
  /-- The kernel knows a channel by its own descriptor. -/
  owner : ∀ fd mask c, s.base.poller.interest fd = some (mask, c) →
    (s.base.channels c).fd_ = fd
  nodup : (s.ready.map Prod.fst).Nodup
  known : ∀ r ∈ s.ready, (s.base.poller.interest r.1).isSome = true
  grown : kInitEventListSize ≤ s.events_
  dispatched : s.handled ++ s.activeChannels_.map (fun c => (c, (s.base.channels c).revents_)) =
    s.reported.map Event.seen
  own : ∀ e ∈ s.reported, (s.base.channels e.ptr).fd_ = e.fd
  once : s.activeChannels_.Nodup

section

variable {s s' : State Ptr}

omit [DecidableEq Ptr] in
/-- New events for a descriptor that is in the list. -/
theorem map_fst_replace (ready : List (Nat × EventMask)) (fd : Nat) (events : EventMask) :
    (ready.map fun r => if r.1 = fd then (fd, events) else r).map Prod.fst =
      ready.map Prod.fst := by
  rw [List.map_map]
  refine List.map_congr_left ?_
  intro r _
  simp only [Function.comp_apply]
  split
  · rename_i hfd
    exact hfd.symm
  · rfl

omit [DecidableEq Ptr] in
/-- The poller writes the index of a channel only. -/
theorem poller_keeps (p : EPollPoller Ptr) (c : Ptr) (channel : Channel) :
    ((p.updateChannel c channel).2.fd_ = channel.fd_ ∧
      (p.updateChannel c channel).2.revents_ = channel.revents_) ∧
    (p.removeChannel c channel).2.fd_ = channel.fd_ ∧
      (p.removeChannel c channel).2.revents_ = channel.revents_ := by
  refine ⟨?_, rfl, rfl⟩
  unfold EPollPoller.updateChannel
  split
  · exact ⟨rfl, rfl⟩
  · exact ⟨rfl, rfl⟩
  · split <;> exact ⟨rfl, rfl⟩

/-- One channel is replaced by one with the same descriptor and `revents_`. -/
theorem update_keeps {channels : Ptr → Channel} {c : Ptr} {channel : Channel}
    (hfd : channel.fd_ = (channels c).fd_) (hrevents : channel.revents_ = (channels c).revents_)
    (d : Ptr) : (Function.update channels c channel d).fd_ = (channels d).fd_ ∧
      (Function.update channels c channel d).revents_ = (channels d).revents_ := by
  by_cases hd : d = c
  · rw [hd, Function.update_self]
    exact ⟨hfd, hrevents⟩
  · rw [Function.update_of_ne hd]
    exact ⟨rfl, rfl⟩

/-- What a change of a channel leaves alone, and whose entry it can make. -/
theorem base_step {b b' : PollerBookkeeping.State Ptr} {l : PollerBookkeeping.Label Ptr}
    (h : PollerBookkeeping.next b l = some b') :
    (∀ c, (b'.channels c).fd_ = (b.channels c).fd_ ∧
      (b'.channels c).revents_ = (b.channels c).revents_) ∧
    ∀ fd mask c, b'.poller.interest fd = some (mask, c) →
      b.poller.interest fd = some (mask, c) ∨ fd = (b.channels c).fd_ := by
  cases l with
  | change c op =>
    obtain rfl := Option.some.inj h
    have hfd : (op.apply (b.channels c)).fd_ = (b.channels c).fd_ :=
      (PollerBookkeeping.Change.apply_same (b.channels c) op).1
    have hrevents : (op.apply (b.channels c)).revents_ = (b.channels c).revents_ := by
      cases op <;> rfl
    obtain ⟨⟨hfd', hrevents'⟩, _⟩ := poller_keeps b.poller c (op.apply (b.channels c))
    refine ⟨update_keeps (hfd'.trans hfd) (hrevents'.trans hrevents), ?_⟩
    intro fd mask d hint
    rcases EPollPoller.updateChannel_interest hint with ⟨hold, _⟩ | ⟨hfd'', rfl, _⟩
    · exact Or.inl hold
    · exact Or.inr (hfd''.trans hfd)
  | remove c =>
    obtain rfl := Option.some.inj h
    obtain ⟨_, hfd, hrevents⟩ := poller_keeps b.poller c (b.channels c)
    refine ⟨update_keeps hfd hrevents, ?_⟩
    intro fd mask d hint
    exact Or.inl (EPollPoller.removeChannel_interest hint).1

theorem Inv.setBase (h : Inv s) {l : PollerBookkeeping.Label Ptr}
    {base : PollerBookkeeping.State Ptr} (hstep : PollerBookkeeping.next s.base l = some base) :
    Inv (s.setBase base) := by
  obtain ⟨hsame, hinterest⟩ := base_step hstep
  refine ⟨?_, ?_, ?_, h.grown, ?_, ?_, h.once⟩
  · intro fd mask c hfd
    show (base.channels c).fd_ = fd
    rw [(hsame c).1]
    rcases hinterest fd mask c hfd with hold | hfd
    · exact h.owner fd mask c hold
    · exact hfd.symm
  · exact h.nodup.sublist ((List.filter_sublist).map Prod.fst)
  · intro r hr
    exact (List.mem_filter.mp hr).2
  · show s.handled ++ s.activeChannels_.map (fun c => (c, (base.channels c).revents_)) = _
    have hmap : (fun c => (c, (base.channels c).revents_)) =
        fun c => (c, (s.base.channels c).revents_) := by
      funext c
      rw [(hsame c).2]
    rw [hmap]
    exact h.dispatched
  · intro e he
    show (base.channels e.ptr).fd_ = e.fd
    rw [(hsame e.ptr).1]
    exact h.own e he

omit [DecidableEq Ptr] in
/-- The list of ready descriptors changes, the poller does not. -/
theorem Inv.setReady (h : Inv s) {ready : List (Nat × EventMask)}
    (hnodup : (ready.map Prod.fst).Nodup)
    (hknown : ∀ r ∈ ready, (s.base.poller.interest r.1).isSome = true) :
    Inv { s with ready := ready } :=
  ⟨h.owner, hnodup, hknown, h.grown, h.dispatched, h.own, h.once⟩

theorem Inv.arrive (h : Inv s) {fd : Nat} {events : EventMask}
    (hknown : (s.base.poller.interest fd).isSome = true)
    (hstep : next s (.arrive fd events) = some s') : Inv s' := by
  simp only [next, hknown, if_true] at hstep
  split at hstep
  · obtain rfl := Option.some.inj hstep
    refine h.setReady ?_ ?_
    · rw [map_fst_replace]
      exact h.nodup
    · intro r hr
      obtain ⟨r₀, hr₀, rfl⟩ := List.mem_map.mp hr
      split
      · exact hknown
      · exact h.known r₀ hr₀
  · rename_i hnew
    obtain rfl := Option.some.inj hstep
    refine h.setReady ?_ ?_
    · rw [List.map_append, List.nodup_append]
      refine ⟨h.nodup, List.nodup_singleton _, ?_⟩
      intro x hx y hy
      rw [List.map_singleton, List.mem_singleton] at hy
      rintro rfl
      rw [hy] at hx
      exact hnew hx
    · intro r hr
      rcases List.mem_append.mp hr with hr | hr
      · exact h.known r hr
      · rw [List.mem_singleton.mp hr]
        exact hknown

/-! ## Filling the list of active channels -/

theorem fill_fd (s : State Ptr) (e : Event Ptr) (c : Ptr) :
    ((s.fill e).base.channels c).fd_ = (s.base.channels c).fd_ := by
  show (Function.update s.base.channels e.ptr _ c).fd_ = _
  by_cases hc : c = e.ptr
  · rw [hc, Function.update_self]
  · rw [Function.update_of_ne hc]

/-- What `fillActiveChannels` does, for entries of different channels. -/
theorem fill_spec {events : List (Event Ptr)} (hnodup : (events.map Event.ptr).Nodup)
    (s : State Ptr) :
    ∃ channels : Ptr → Channel,
      s.fillActiveChannels events = { s with
        base := { s.base with channels := channels }
        activeChannels_ := s.activeChannels_ ++ events.map Event.ptr } ∧
      (∀ c, (channels c).fd_ = (s.base.channels c).fd_) ∧
      (∀ e ∈ events, (channels e.ptr).revents_ = e.events) ∧
      ∀ c, c ∉ events.map Event.ptr → channels c = s.base.channels c := by
  induction events generalizing s with
  | nil =>
    refine ⟨s.base.channels, ?_, fun _ => rfl, by simp, fun _ _ => rfl⟩
    simp [State.fillActiveChannels]
  | cons e events ih =>
    rw [List.map_cons, List.nodup_cons] at hnodup
    obtain ⟨hnew, hnodup⟩ := hnodup
    obtain ⟨channels, heq, hfd, hrevents, hother⟩ := ih hnodup (s.fill e)
    -- the later entries do not touch the channel of the first
    have hfirst : channels e.ptr = { s.base.channels e.ptr with revents_ := e.events } := by
      rw [hother e.ptr hnew]
      exact Function.update_self _ _ _
    refine ⟨channels, ?_, ?_, ?_, ?_⟩
    · show (s.fill e).fillActiveChannels events = _
      rw [heq, List.map_cons]
      simp [State.fill]
    · intro c
      rw [hfd c]
      exact fill_fd s e c
    · intro e' he'
      rcases List.mem_cons.mp he' with rfl | he'
      · rw [hfirst]
      · exact hrevents e' he'
    · intro c hc
      rw [List.map_cons, List.mem_cons, not_or] at hc
      rw [hother c hc.2]
      exact Function.update_of_ne hc.1 _ _

omit [DecidableEq Ptr] in
theorem event_some {r : Nat × EventMask} {e : Event Ptr} (h : s.event r = some e) :
    e.fd = r.1 ∧ ∃ mask, s.base.poller.interest e.fd = some (mask, e.ptr) := by
  obtain ⟨⟨mask, c⟩, hentry, rfl⟩ := Option.map_eq_some_iff.mp h
  exact ⟨rfl, mask, hentry⟩

omit [DecidableEq Ptr] in
/-- There is an entry for every descriptor that is registered. -/
theorem filterMap_event_fd {ready : List (Nat × EventMask)}
    (hknown : ∀ r ∈ ready, (s.base.poller.interest r.1).isSome = true) :
    (ready.filterMap s.event).map Event.fd = ready.map Prod.fst := by
  induction ready with
  | nil => rfl
  | cons r ready ih =>
    obtain ⟨entry, hentry⟩ := Option.isSome_iff_exists.mp (hknown r List.mem_cons_self)
    have hevent : s.event r = some ⟨r.1, entry.2, r.2⟩ := by
      rw [State.event, hentry]
      rfl
    rw [List.filterMap_cons_some hevent, List.map_cons, List.map_cons,
      ih fun r' hr' => hknown r' (List.mem_cons_of_mem r hr')]

omit [DecidableEq Ptr] in
theorem Inv.returned_fd (h : Inv s) :
    s.returned.map Event.fd = (s.ready.map Prod.fst).take s.numEvents := by
  rw [State.returned, filterMap_event_fd, List.map_take]
  intro r hr
  exact h.known r (List.mem_of_mem_take hr)

omit [DecidableEq Ptr] in
theorem Inv.returned_own (h : Inv s) :
    ∀ e ∈ s.returned, (s.base.channels e.ptr).fd_ = e.fd := by
  intro e he
  obtain ⟨r, _, hr⟩ := List.mem_filterMap.mp he
  obtain ⟨_, mask, hentry⟩ := event_some hr
  exact h.owner e.fd mask e.ptr hentry

omit [DecidableEq Ptr] in
/-- No channel comes twice in what one call reports. -/
theorem Inv.returned_nodup (h : Inv s) : (s.returned.map Event.ptr).Nodup := by
  have hfd : (s.returned.map Event.ptr).map (fun c => (s.base.channels c).fd_) =
      s.returned.map Event.fd := by
    rw [List.map_map]
    exact List.map_congr_left h.returned_own
  refine List.Nodup.of_map (fun c => (s.base.channels c).fd_) ?_
  rw [hfd, h.returned_fd]
  exact h.nodup.sublist (List.take_sublist _ _)

/-- What one call of `poll` does when events have arrived. -/
theorem Inv.poll_events (h : Inv s) (hstep : next s (.poll .events) = some s') :
    ∃ channels : Ptr → Channel,
      s' = { s with
        base := { s.base with channels := channels }
        events_ := if s.numEvents = s.events_ then s.events_ * 2 else s.events_
        ready := s.ready.rotate s.numEvents
        activeChannels_ := s.returned.map Event.ptr
        reported := s.reported ++ s.returned } ∧
      (∀ c, (channels c).fd_ = (s.base.channels c).fd_) ∧
      ∀ e ∈ s.returned, (channels e.ptr).revents_ = e.events := by
  simp only [next] at hstep
  split at hstep
  · rename_i hidle
    split at hstep
    · cases hstep
    · rename_i hready
      obtain rfl := Option.some.inj hstep
      obtain ⟨channels, heq, hfd, hrevents, _⟩ := fill_spec h.returned_nodup
        { s with ready := s.ready.rotate s.numEvents, reported := s.reported ++ s.returned }
      have hpos : (0 : Int) < s.numEvents := by
        have hlength := List.length_pos_iff.mpr hready
        have hgrown := h.grown
        simp only [State.numEvents, kInitEventListSize] at hgrown ⊢
        omega
      refine ⟨channels, ?_, hfd, hrevents⟩
      simp only [State.poll, if_pos hpos, heq]
      simp only [hidle, List.nil_append]
      split
      · rename_i hfull
        rw [if_pos (Int.ofNat.inj hfull).symm]
      · rename_i hfull
        rw [if_neg fun heq' => hfull (congrArg Int.ofNat heq'.symm)]
  · cases hstep

theorem Inv.poll (h : Inv s) (hidle : s.activeChannels_ = [])
    (hstep : next s (.poll .events) = some s') : Inv s' := by
  obtain ⟨channels, rfl, hfd, hrevents⟩ := h.poll_events hstep
  refine ⟨?_, ?_, ?_, ?_, ?_, ?_, h.returned_nodup⟩
  · intro fd mask c hentry
    exact (hfd c).trans (h.owner fd mask c hentry)
  · rw [List.map_rotate]
    exact List.nodup_rotate.mpr h.nodup
  · intro r hr
    exact h.known r (List.mem_rotate.mp hr)
  · have hgrown := h.grown
    show kInitEventListSize ≤ if s.numEvents = s.events_ then s.events_ * 2 else s.events_
    split <;> omega
  · -- everything before has been handled; the new entries are the new list
    have hbefore := h.dispatched
    rw [hidle, List.map_nil, List.append_nil] at hbefore
    show s.handled ++ (s.returned.map Event.ptr).map (fun c => (c, (channels c).revents_)) =
      (s.reported ++ s.returned).map Event.seen
    rw [List.map_append, hbefore, List.map_map]
    congr 1
    refine List.map_congr_left ?_
    intro e he
    rw [Function.comp_apply, hrevents e he, Event.seen]
  · intro e he
    show (channels e.ptr).fd_ = e.fd
    rw [hfd e.ptr]
    rcases List.mem_append.mp he with he | he
    · exact h.own e he
    · exact h.returned_own e he

omit [DecidableEq Ptr] in
theorem Inv.handleEvent (h : Inv s) {c : Ptr} {rest : List Ptr}
    (hactive : s.activeChannels_ = c :: rest) :
    Inv { s with
      activeChannels_ := rest
      handled := s.handled ++ [(c, (s.base.channels c).revents_)] } := by
  have hbefore := h.dispatched
  have honce := h.once
  rw [hactive] at hbefore honce
  refine ⟨h.owner, h.nodup, h.known, h.grown, ?_, h.own, (List.nodup_cons.mp honce).2⟩
  show (s.handled ++ [(c, (s.base.channels c).revents_)]) ++ _ = _
  rw [List.append_assoc]
  exact hbefore

/-- A call that reports nothing changes nothing. -/
theorem poll_silent {o : Outcome} (ho : o ≠ .events) (hstep : next s (.poll o) = some s') :
    s' = s := by
  cases o with
  | events => exact absurd rfl ho
  | timeout =>
    simp only [next, State.poll] at hstep
    split at hstep
    · split at hstep
      · exact (Option.some.inj hstep).symm
      · cases hstep
    · cases hstep
  | failed errno =>
    simp only [next, State.poll] at hstep
    split at hstep
    · exact (Option.some.inj hstep).symm
    · cases hstep

theorem poll_idle {o : Outcome} (hstep : next s (.poll o) = some s') :
    s.activeChannels_ = [] := by
  by_contra hbusy
  simp [next, hbusy] at hstep

theorem inv_step {l : Label Ptr} (h : Inv s) (hstep : next s l = some s') : Inv s' := by
  cases l with
  | base l =>
    obtain ⟨base, hbase, rfl⟩ := Option.map_eq_some_iff.mp hstep
    exact h.setBase hbase
  | arrive fd events =>
    refine h.arrive ?_ hstep
    by_contra hunknown
    simp [next, hunknown] at hstep
  | settle fd =>
    obtain rfl := Option.some.inj hstep
    refine h.setReady (h.nodup.sublist ((List.filter_sublist).map Prod.fst)) ?_
    intro r hr
    exact h.known r (List.mem_filter.mp hr).1
  | poll o =>
    by_cases ho : o = .events
    · subst ho
      exact h.poll (poll_idle hstep) hstep
    · rw [poll_silent ho hstep]
      exact h
  | handleEvent =>
    simp only [next] at hstep
    split at hstep
    · cases hstep
    · rename_i c rest hactive
      obtain rfl := Option.some.inj hstep
      exact h.handleEvent hactive

theorem inv_init (h : (machine Ptr).init s) : Inv s := by
  obtain ⟨⟨_, _, hbase⟩, hs⟩ := h
  have hinterest : ∀ fd, s.base.poller.interest fd = none := by
    intro fd
    rw [hbase]
  rw [hs]
  refine ⟨?_, List.nodup_nil, by simp, Nat.le_refl _, rfl, by simp, List.nodup_nil⟩
  intro fd mask c hfd
  rw [hinterest fd] at hfd
  cases hfd

theorem inv_reachable (hs : (machine Ptr).Reachable s) : Inv s :=
  Machine.Reachable.invariant (machine Ptr) (fun _ => inv_init) (fun _ _ _ => inv_step) hs

/-! ## Places in the list of ready descriptors -/

/-- The place of a descriptor in the kernel's list. -/
def State.place (s : State Ptr) (fd : Nat) : Nat := (s.ready.map Prod.fst).idxOf fd

/-- A call of `epoll_wait` that reports something. -/
def Label.reports : Label Ptr → Bool
  | .poll .events => true
  | _ => false

omit [DecidableEq Ptr] in
theorem place_filter (s : State Ptr) (p : Nat → Bool) {fd : Nat}
    (hfd : fd ∈ (s.ready.filter fun r => p r.1).map Prod.fst) :
    ((s.ready.filter fun r => p r.1).map Prod.fst).idxOf fd ≤ s.place fd := by
  have hmap : (s.ready.filter fun r => p r.1).map Prod.fst = (s.ready.map Prod.fst).filter p :=
    List.filter_map.symm
  rw [hmap] at hfd ⊢
  exact idxOf_filter_le (List.mem_filter.mp hfd).2 _

/-- A step that reports nothing keeps the vector and lets nobody overtake. -/
theorem quiet_step {l : Label Ptr} (hl : l.reports = false) (hstep : next s l = some s') :
    s'.events_ = s.events_ ∧ s'.reported = s.reported ∧
      ∀ fd ∈ s.ready.map Prod.fst, fd ∈ s'.ready.map Prod.fst →
        s'.place fd ≤ s.place fd := by
  cases l with
  | base l =>
    obtain ⟨base, _, rfl⟩ := Option.map_eq_some_iff.mp hstep
    refine ⟨rfl, rfl, ?_⟩
    intro fd _ hfd
    exact place_filter s (fun fd => (base.poller.interest fd).isSome) hfd
  | arrive fd events =>
    simp only [next] at hstep
    split at hstep
    · split at hstep
      · obtain rfl := Option.some.inj hstep
        refine ⟨rfl, rfl, ?_⟩
        intro fd' _ _
        rw [State.place, map_fst_replace]
        exact Nat.le_refl _
      · obtain rfl := Option.some.inj hstep
        refine ⟨rfl, rfl, ?_⟩
        intro fd' hfd' _
        -- the new one stands at the end
        rw [State.place, List.map_append, List.idxOf_append_of_mem hfd']
        exact Nat.le_refl _
    · cases hstep
  | settle fd =>
    obtain rfl := Option.some.inj hstep
    refine ⟨rfl, rfl, ?_⟩
    intro fd' _ hfd'
    exact place_filter s (fun fd' => fd' ≠ fd) hfd'
  | poll o =>
    have ho : o ≠ .events := by
      rintro rfl
      cases hl
    rw [poll_silent ho hstep]
    exact ⟨rfl, rfl, fun _ _ _ => Nat.le_refl _⟩
  | handleEvent =>
    simp only [next] at hstep
    split at hstep
    · cases hstep
    · obtain rfl := Option.some.inj hstep
      exact ⟨rfl, rfl, fun _ _ _ => Nat.le_refl _⟩

omit [DecidableEq Ptr] in
theorem reports_iff {l : Label Ptr} : l.reports = true ↔ l = .poll .events := by
  cases l with
  | poll o => cases o <;> simp [Label.reports]
  | base l => simp [Label.reports]
  | arrive fd events => simp [Label.reports]
  | settle fd => simp [Label.reports]
  | handleEvent => simp [Label.reports]

/-- What is ready is reported, or moves up by the length of the vector. -/
theorem Inv.report_step (h : Inv s) (hstep : next s (.poll .events) = some s') {fd : Nat}
    (hfd : fd ∈ s.ready.map Prod.fst) :
    (∃ e ∈ s.returned, e.fd = fd) ∨ s'.place fd + kInitEventListSize ≤ s.place fd := by
  by_cases htake : fd ∈ (s.ready.map Prod.fst).take s.numEvents
  · rw [← h.returned_fd] at htake
    exact Or.inl (List.mem_map.mp htake)
  · obtain ⟨hlt, hplace⟩ := idxOf_rotate hfd htake
    obtain ⟨channels, rfl, _, _⟩ := h.poll_events hstep
    refine Or.inr ?_
    -- the vector was full
    have hfull : kInitEventListSize ≤ s.numEvents := by
      have hgrown := h.grown
      rw [List.length_map] at hlt
      simp only [State.numEvents] at hlt ⊢
      omega
    rw [State.place, State.place, List.map_rotate, hplace]
    omega

/-- The descriptor is among what has been reported since `before`. -/
def Served (before : List (Event Ptr)) (fd : Nat) (s : State Ptr) : Prop :=
  ∃ reported, s.reported = before ++ reported ∧ ∃ e ∈ reported, e.fd = fd

theorem Inv.reported_step {before reported : List (Event Ptr)} {l : Label Ptr} (h : Inv s)
    (hbefore : s.reported = before ++ reported) (hstep : next s l = some s') :
    ∃ more, s'.reported = before ++ (reported ++ more) ∧
      (l = .poll .events → more = s.returned) := by
  by_cases hl : l.reports = true
  · obtain rfl := reports_iff.mp hl
    obtain ⟨channels, rfl, _, _⟩ := h.poll_events hstep
    refine ⟨s.returned, ?_, fun _ => rfl⟩
    show s.reported ++ s.returned = _
    rw [hbefore, List.append_assoc]
  · refine ⟨[], ?_, fun hpoll => absurd (reports_iff.mpr hpoll) hl⟩
    rw [(quiet_step (Bool.eq_false_iff.mpr hl) hstep).2.1, List.append_nil]
    exact hbefore

/-- The place of a descriptor while it is ready. -/
def State.turn (s : State Ptr) (fd : Nat) : Nat :=
  if fd ∈ s.ready.map Prod.fst then s.place fd else 0

omit [DecidableEq Ptr] in
theorem turn_le (s : State Ptr) (fd : Nat) : s.turn fd ≤ s.place fd := by
  unfold State.turn
  split
  · exact Nat.le_refl _
  · exact Nat.zero_le _

/-- What is ready is reported, or its turn comes nearer with every report. -/
theorem Inv.turn_step {before reported : List (Event Ptr)} {l : Label Ptr} {fd : Nat} (h : Inv s)
    (hbefore : s.reported = before ++ reported) (hready : fd ∈ s.ready.map Prod.fst)
    (hstep : next s l = some s') :
    Served before fd s' ∨
      s'.turn fd + (if l.reports then kInitEventListSize else 0) ≤ s.turn fd := by
  have hturn : s.turn fd = s.place fd := if_pos hready
  rw [hturn]
  by_cases hl : l.reports = true
  · obtain rfl := reports_iff.mp hl
    rw [if_pos hl]
    rcases h.report_step hstep hready with ⟨e, he, hfd⟩ | hplace
    · obtain ⟨more, hsince, hmore⟩ := h.reported_step hbefore hstep
      refine Or.inl ⟨_, hsince, e, ?_, hfd⟩
      rw [hmore rfl]
      exact List.mem_append_right _ he
    · exact Or.inr ((Nat.add_le_add_right (turn_le s' fd) _).trans hplace)
  · obtain ⟨_, _, hplace⟩ := quiet_step (Bool.eq_false_iff.mpr hl) hstep
    rw [if_neg hl]
    refine Or.inr ?_
    -- one that is not ready any more has no turn
    by_cases hthere : fd ∈ s'.ready.map Prod.fst
    · exact (turn_le s' fd).trans (hplace fd hready hthere)
    · rw [State.turn, if_neg hthere]
      exact Nat.zero_le _

/-! ## The vector -/

/-- The vector is doubled when that many descriptors are ready, and else kept. -/
theorem Inv.events_step {l : Label Ptr} (h : Inv s) (hstep : next s l = some s') :
    s'.events_ = s.events_ ∨ s'.events_ = s.events_ * 2 ∧ s.events_ ≤ s.ready.length := by
  by_cases hl : l.reports = true
  · obtain rfl := reports_iff.mp hl
    obtain ⟨channels, rfl, _, _⟩ := h.poll_events hstep
    by_cases hfull : s.numEvents = s.events_
    · refine Or.inr ⟨if_pos hfull, ?_⟩
      rw [← hfull]
      exact Nat.min_le_left _ _
    · exact Or.inl (if_neg hfull)
  · exact Or.inl (quiet_step (Bool.eq_false_iff.mpr hl) hstep).1

/-- The size of the vector after doublings that needed at most `n` ready descriptors. -/
def Sized (n : Nat) (s : State Ptr) : Prop :=
  s.events_ ≤ max kInitEventListSize (2 * n) ∧ ∃ j, s.events_ = kInitEventListSize * 2 ^ j

theorem Sized.step {l : Label Ptr} {n : Nat} (hn : Sized n s) (h : Inv s)
    (hready : s.ready.length ≤ n) (hstep : next s l = some s') : Sized n s' := by
  obtain ⟨hle, j, hj⟩ := hn
  rcases h.events_step hstep with heq | ⟨heq, hfull⟩
  · rw [Sized, heq]
    exact ⟨hle, j, hj⟩
  · rw [Sized, heq]
    refine ⟨?_, j + 1, ?_⟩
    · omega
    · rw [hj, Nat.pow_succ, Nat.mul_assoc]

end

/-! ## The results -/

section

variable {s s₀ s' : State Ptr} {ls : List (Label Ptr)}

/-- Channels that are not registered yet, by their descriptors. -/
def sockets : State Nat := { base := { channels := fun c => { fd_ := c } } }

theorem sockets_init : (machine Nat).init sockets := by
  refine ⟨⟨fun _ => ⟨rfl, rfl⟩, ?_, rfl⟩, rfl⟩
  intro c d h
  exact h

/-- One descriptor more than the vector has entries is ready. -/
def crowded : List (Label Nat) :=
  (List.range 17).map (fun c => .base (.change c .enableReading)) ++
    (List.range 17).map fun c => .arrive c EPOLLIN

/-- Two reports, with the first one handled in between. -/
def twoRounds : List (Label Nat) :=
  .poll .events :: (List.replicate 16 .handleEvent ++ [.poll .events])

/-- Every event that `epoll_wait` has reported is handled once, in the order of the reports and
    with its own mask, by the channel of its descriptor: `handleEvent` has been called for the
    events that are not on the list any more, and the channels on the list still have the masks
    of theirs. -/
theorem events_dispatched (hs : (machine Ptr).Reachable s) :
    s.handled ++ s.activeChannels_.map (fun c => (c, (s.base.channels c).revents_)) =
        s.reported.map Event.seen ∧
      (∀ e ∈ s.reported, (s.base.channels e.ptr).fd_ = e.fd) ∧ s.activeChannels_.Nodup := by
  have h := inv_reachable hs
  exact ⟨h.dispatched, h.own, h.once⟩

/-- The loop is at the second channel of its list, and a callback has removed the fourth. -/
theorem events_dispatched_removed :
    ∃ s, (machine Nat).run sockets (crowded ++ [.poll .events, .handleEvent,
        .base (.change 3 .disableAll), .base (.remove 3)]) = some s ∧
      s.activeChannels_ = (List.range 15).map (· + 1) ∧
      s.handled.map Prod.fst ++ s.activeChannels_ = List.range 16 := by
  have hlists : ((machine Nat).run sockets (crowded ++ [.poll .events, .handleEvent,
        .base (.change 3 .disableAll), .base (.remove 3)])).map
      (fun s => (s.activeChannels_, s.reported.map Event.ptr)) =
        some ((List.range 15).map (· + 1), List.range 16) := by decide +kernel
  obtain ⟨s, hrun, hs⟩ := Option.map_eq_some_iff.mp hlists
  rw [Prod.mk.injEq] at hs
  have hall := congrArg (List.map Prod.fst)
    (events_dispatched ⟨sockets, _, sockets_init, hrun⟩).1
  rw [List.map_append, List.map_map, List.map_map] at hall
  refine ⟨s, hrun, hs.1, ?_⟩
  rw [← hs.2]
  simpa [Function.comp_def, Event.seen] using hall

/-- A descriptor that stays ready is reported by the first `place / kInitEventListSize + 1`
    calls of `epoll_wait` that report something, whatever becomes ready meanwhile and whatever
    the callbacks do to the channels. -/
theorem no_starvation {fd : Nat} (hs : (machine Ptr).Reachable s)
    (hrun : (machine Ptr).run s ls = some s')
    (hready : (machine Ptr).Along (fun t _ => fd ∈ t.ready.map Prod.fst) s ls)
    (hpolls : s.place fd < kInitEventListSize * ls.countP Label.reports) :
    ∃ reported, s'.reported = s.reported ++ reported ∧ ∃ e ∈ reported, e.fd = fd := by
  have hserved := Machine.goal_or_countP_le (m := machine Ptr) (p := Label.reports)
    (I := fun t => Inv t ∧ ∃ reported, t.reported = s.reported ++ reported)
    (G := Served s.reported fd) (P := fun t _ => fd ∈ t.ready.map Prod.fst)
    (k := kInitEventListSize)
    (fun t => t.turn fd) ?_ ?_ ?_ ⟨inv_reachable hs, [], (List.append_nil _).symm⟩ hready hrun
  · rcases hserved with hserved | hle
    · exact hserved
    · have hturn := turn_le s fd
      omega
  · rintro t l t' ⟨h, reported, hsince⟩ hstep
    obtain ⟨more, hmore, _⟩ := h.reported_step hsince hstep
    exact ⟨inv_step h hstep, _, hmore⟩
  · rintro t l t' ⟨⟨h, _⟩, reported, hsince, e, he, hfd⟩ hstep
    obtain ⟨more, hmore, _⟩ := h.reported_step hsince hstep
    exact ⟨⟨inv_step h hstep, _, hmore⟩, _, hmore, e, List.mem_append_left _ he, hfd⟩
  · rintro t l t' ⟨h, reported, hsince⟩ hthere hstep
    exact h.turn_step hsince hthere hstep

/-- The last of seventeen has to wait for the second report. -/
theorem no_starvation_last :
    ∃ s s', (machine Nat).run sockets crowded = some s ∧
      (machine Nat).run s twoRounds = some s' ∧ s.place 16 = 16 ∧
      ∃ e ∈ s'.reported, e.fd = 16 := by
  have hrounds : ((machine Nat).run sockets crowded).bind (fun s =>
      ((machine Nat).run s twoRounds).map fun _ => (s.place 16, decide
        ((machine Nat).Along (fun t _ => 16 ∈ t.ready.map Prod.fst) s twoRounds))) =
      some (16, true) := by decide +kernel
  obtain ⟨s, hstart, hrest⟩ := Option.bind_eq_some_iff.mp hrounds
  obtain ⟨s', hrun, hs⟩ := Option.map_eq_some_iff.mp hrest
  rw [Prod.mk.injEq, decide_eq_true_eq] at hs
  obtain ⟨hplace, hready⟩ := hs
  obtain ⟨reported, heq, e, he, hfd⟩ :=
    no_starvation ⟨sockets, _, sockets_init, hstart⟩ hrun hready (by rw [hplace]; decide)
  refine ⟨s, s', hstart, hrun, hplace, e, ?_, hfd⟩
  rw [heq]
  exact List.mem_append_right _ he

/-- Where never more than `n` descriptors are ready at once, `events_` grows by doublings to at
    most twice that number. -/
theorem vector_bounded {n : Nat} (hinit : (machine Ptr).init s₀)
    (hrun : (machine Ptr).run s₀ ls = some s)
    (hready : (machine Ptr).Along (fun t _ => t.ready.length ≤ n) s₀ ls) :
    s.events_ ≤ max kInitEventListSize (2 * n) ∧
      ∃ j, s.events_ = kInitEventListSize * 2 ^ j := by
  have hstart : Sized n s₀ := by
    rw [hinit.2]
    exact ⟨Nat.le_max_left _ _, 0, rfl⟩
  have hend := (machine Ptr).run_invariant_along
    (I := fun t => Inv t ∧ Sized n t) (P := fun t _ => t.ready.length ≤ n) ?_
    ⟨inv_init hinit, hstart⟩ hready hrun
  · exact hend.2
  · rintro t l t' ⟨hinv, hsized⟩ hle hstep
    exact ⟨inv_step hinv hstep, hsized.step hinv hle hstep⟩

theorem vector_bounded_doubled :
    ∃ s, (machine Nat).run sockets (crowded ++ twoRounds) = some s ∧ s.events_ = 32 ∧
      s.events_ ≤ max kInitEventListSize (2 * 17) := by
  have hgrown : ((machine Nat).run sockets (crowded ++ twoRounds)).map State.events_ =
      some 32 := by decide +kernel
  obtain ⟨s, hrun, hs⟩ := Option.map_eq_some_iff.mp hgrown
  exact ⟨s, hrun, hs, (vector_bounded (n := 17) sockets_init hrun (by decide +kernel)).1⟩

end

end EventDispatch
