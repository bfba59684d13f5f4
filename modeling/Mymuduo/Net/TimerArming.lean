import Mymuduo.Net.TimerInvariant

/-! # The timerfd is set for the earliest timer

    `resetTimerfd` is called when `addTimerInLoop` inserts a new earliest timer
    and at the end of `handleRead`; a cancelled timer does not move the timerfd.
    So the timerfd never fires late: outside a pass it is armed no later than the
    earliest expiration, or 100 microseconds after the call that armed it
    (`timerfd_armed_for_earliest`).

    At the end of a pass the test `nextExpire.valid()` skips the call for an
    earliest expiration that is not positive.  Such a timer was added by a
    callback of the pass, which armed the timerfd when it was added.
-/

/-! ## Values passed to timerfd_settime -/

/-- A timespec the kernel takes as an armed timer of at least 100 microseconds. -/
structure Timespec.Arming (ts : Timespec) : Prop where
  sec_nonneg : 0 ≤ ts.tv_sec
  nsec_nonneg : 0 ≤ ts.tv_nsec
  nsec_lt : ts.tv_nsec < 1000000000
  nonzero : ts ≠ ⟨0, 0⟩
  least : 100 * 1000 ≤ ts.tv_sec * 1000000000 + ts.tv_nsec

/-- The value is the distance to the expiration, but at least 100 microseconds. -/
theorem howMuchTimeFromNow_micros (when now : Int) :
    (howMuchTimeFromNow when now).micros = max (when - now) 100 := by
  unfold howMuchTimeFromNow Timespec.micros Timestamp.kMicroSecondsPerSecond
  simp only
  split
  · rename_i hlt
    rw [max_eq_right (by omega)]
    decide
  · rename_i hge
    -- at least 100, so the quotient and remainder are the usual ones
    rw [Int.tdiv_eq_ediv_of_nonneg (by omega), Int.tmod_eq_emod_of_nonneg (by omega),
      max_eq_left (by omega)]
    omega

/-- It is a normalised timespec, so the kernel takes it, and not zero, so it arms. -/
theorem howMuchTimeFromNow_arming (when now : Int) :
    (howMuchTimeFromNow when now).Arming := by
  unfold howMuchTimeFromNow Timestamp.kMicroSecondsPerSecond
  simp only
  split
  · exact ⟨by decide, by decide, by decide, by decide, by decide⟩
  · rename_i hge
    rw [Int.tdiv_eq_ediv_of_nonneg (by omega), Int.tmod_eq_emod_of_nonneg (by omega)]
    have hpos : 100 ≤ when - now := by omega
    -- division and remainder by a million, the remainder in nanoseconds
    refine ⟨?_, ?_, ?_, ?_, ?_⟩
    · show 0 ≤ (when - now) / (1000 * 1000)
      omega
    · show 0 ≤ (when - now) % (1000 * 1000) * 1000
      omega
    · show (when - now) % (1000 * 1000) * 1000 < 1000000000
      omega
    · -- both parts zero would make the distance zero
      intro heq
      obtain ⟨h1, h2⟩ := Timespec.mk.inj heq
      omega
    · show 100 * 1000 ≤ (when - now) / (1000 * 1000) * 1000000000 +
        (when - now) % (1000 * 1000) * 1000
      omega

namespace TimerQueue

/-! ## The invariant -/

/-- The timerfd will fire in time for every timer that is set. -/
def Armed (q : TimerQueue) : Prop :=
  ∀ e ∈ q.timers_, ∃ fire, q.timerfd = some fire ∧ fire ≤ max e.first (q.lastArm + 100)

/-- Every timer that is set expires after `now`. -/
def Late (q : TimerQueue) (now : Int) : Prop := ∀ e ∈ q.timers_, now < e.first

/-- The timerfd and the calls that armed it. -/
def SameFd (q q' : TimerQueue) : Prop :=
  q'.timerfd = q.timerfd ∧ q'.lastArm = q.lastArm ∧ q'.settimes = q.settimes

variable {q q' : TimerQueue} {batch : List Entry}

/-- Timers may go without the timerfd being moved: it then fires too early at worst. -/
theorem Armed.of_subset (h : Armed q) (hsub : ∀ e ∈ q'.timers_, e ∈ q.timers_)
    (hfd : SameFd q q') : Armed q' := by
  intro e he
  rw [hfd.1, hfd.2.1]
  exact h e (hsub e he)

/-- Arming for an expiration that no timer precedes. -/
theorem resetTimerfd_armed {expiration : Int} (hle : ∀ e ∈ q.timers_, expiration ≤ e.first)
    (now : Int) : Armed (q.resetTimerfd expiration now) := by
  intro e he
  refine ⟨now + (howMuchTimeFromNow expiration now).micros, rfl, ?_⟩
  have hexp : expiration ≤ e.first := hle e he
  show now + (howMuchTimeFromNow expiration now).micros ≤ max e.first (now + 100)
  rw [howMuchTimeFromNow_micros]
  omega

/-- Deleting a timer does not move the timerfd. -/
theorem delete_fd (q : TimerQueue) (a : Addr) : SameFd q (q.delete a) := by
  unfold TimerQueue.delete
  split <;> exact ⟨rfl, rfl, rfl⟩

theorem delete_timers_ (q : TimerQueue) (a : Addr) : (q.delete a).timers_ = q.timers_ := by
  unfold TimerQueue.delete
  split <;> rfl

/-- Neither does a cancel: `cancelInLoop` does not call `resetTimerfd`. -/
theorem cancelInLoop_fd (q : TimerQueue) (id : TimerId) : SameFd q (q.cancelInLoop id) := by
  unfold TimerQueue.cancelInLoop
  split
  · split
    · exact delete_fd { q with timers_ := _ } _
    · exact ⟨rfl, rfl, rfl⟩
  · split <;> exact ⟨rfl, rfl, rfl⟩

/-- A cancel sets no timer. -/
theorem cancelInLoop_subset (q : TimerQueue) (id : TimerId) :
    ∀ e ∈ (q.cancelInLoop id).timers_, e ∈ q.timers_ := by
  intro e he
  unfold TimerQueue.cancelInLoop at he
  split at he
  · split at he
    · simp only [delete_timers_] at he
      exact (OrderedSet.mem_erase.mp he).1
    · exact he
  · split at he <;> exact he

/-- `addTimerInLoop` arms the timerfd when no timer precedes the new one. -/
theorem addTimerInLoop_cases {a : Addr} {t : Timer} (hheap : q.heap a = some t) (now : Int) :
    ((∀ e ∈ q.timers_, t.expiration_ ≤ e.first) ∧
      q.addTimerInLoop a now = (q.insert a).1.resetTimerfd t.expiration_ now) ∨
    (∃ b ∈ q.timers_, b.first ≤ t.expiration_ ∧ q.addTimerInLoop a now = (q.insert a).1) := by
  rw [addTimerInLoop_eq hheap]
  have hchanged : (q.insert a).2 =
      q.timers_.first.elim true fun it => decide (t.expiration_ < it.first) := by
    unfold TimerQueue.insert
    rw [hheap]
    cases q.timers_.first with
    | none => rfl
    | some it => rfl
  cases hfirst : q.timers_.first with
  | none =>
    left
    rw [hfirst] at hchanged
    refine ⟨?_, if_pos hchanged⟩
    -- the queue was empty
    intro e he
    exact absurd he (OrderedSet.first_eq_none.mp hfirst e)
  | some b =>
    rw [hfirst] at hchanged
    by_cases hlt : t.expiration_ < b.first
    · left
      refine ⟨?_, if_pos (by rw [hchanged]; exact decide_eq_true hlt)⟩
      intro e he
      have hbe : b ≤ e := OrderedSet.first_le hfirst he
      have hle : b.first ≤ e.first := Entry.first_le_of_le hbe
      omega
    · right
      refine ⟨b, OrderedSet.first_mem hfirst, not_lt.mp hlt, if_neg ?_⟩
      rw [hchanged]
      simpa using hlt

theorem mem_insert_timers_ {a : Addr} {t : Timer} (hheap : q.heap a = some t) {e : Entry} :
    e ∈ (q.insert a).1.timers_ ↔ e = ⟨t.expiration_, a⟩ ∨ e ∈ q.timers_ := by
  rw [insert_eq hheap]
  exact OrderedSet.mem_insert

theorem insert_fd {a : Addr} {t : Timer} (hheap : q.heap a = some t) :
    SameFd q (q.insert a).1 := by
  rw [insert_eq hheap]
  exact ⟨rfl, rfl, rfl⟩

/-- Outside a pass `addTimerInLoop` keeps the timerfd armed in time. -/
theorem addTimerInLoop_armed {a : Addr} {t : Timer} (hheap : q.heap a = some t) (now : Int)
    (h : Armed q) : Armed (q.addTimerInLoop a now) := by
  rcases addTimerInLoop_cases hheap now with ⟨hall, heq⟩ | ⟨b, hb, hle, heq⟩
  · -- a new earliest timer: the call arms for it
    rw [heq]
    refine resetTimerfd_armed ?_ now
    intro e he
    rcases (mem_insert_timers_ hheap).mp he with rfl | he
    · exact le_rfl
    · exact hall e he
  · rw [heq]
    obtain ⟨hfd, harm, _⟩ := insert_fd hheap
    intro e he
    rw [hfd, harm]
    rcases (mem_insert_timers_ hheap).mp he with rfl | he
    · -- the timer b is no later, and the timerfd is armed for b already
      obtain ⟨fire, hfire, hbound⟩ := h b hb
      refine ⟨fire, hfire, ?_⟩
      show fire ≤ max t.expiration_ (q.lastArm + 100)
      omega
    · exact h e he

/-- In a pass, a timer added before `now` arms the timerfd. -/
theorem addTimerInLoop_late {a : Addr} {t : Timer} (hheap : q.heap a = some t) {now : Int}
    (tadd : Int) (h : Late q now) :
    Late (q.addTimerInLoop a tadd) now ∨ Armed (q.addTimerInLoop a tadd) := by
  rcases addTimerInLoop_cases hheap tadd with ⟨hall, heq⟩ | ⟨b, hb, hle, heq⟩
  · -- no timer precedes the new one, so the call has armed for it
    right
    rw [heq]
    refine resetTimerfd_armed ?_ tadd
    intro e he
    rcases (mem_insert_timers_ hheap).mp he with rfl | he
    · exact le_rfl
    · exact hall e he
  · -- it comes after a timer that expires after `now` itself
    left
    rw [heq]
    intro e he
    rcases (mem_insert_timers_ hheap).mp he with rfl | he
    · exact lt_of_lt_of_le (h b hb) hle
    · exact h e he

/-! ## Calls -/

/-- A call from outside a pass. -/
theorem call_armed {c : Call} (hcall : q.call c = some q') (h : Armed q) : Armed q' := by
  rcases call_cases hcall with ⟨a, when, interval, rfl, _, _, _, rfl⟩ |
    ⟨a, now, t, rfl, hheap, _, _, _, rfl⟩ | ⟨id, rfl, rfl⟩
  · exact h
  · exact addTimerInLoop_armed (q := q.startAdd a t now) hheap now h
  · have hrec : Armed (q.record (.cancelled id)) := h
    exact hrec.of_subset (cancelInLoop_subset _ id) (cancelInLoop_fd _ id)

/-- A call by a callback of the pass at `now`. -/
theorem call_late {c : Call} {now : Int} (hcall : q.call c = some q') (h : Late q now) :
    Late q' now ∨ Armed q' := by
  rcases call_cases hcall with ⟨a, when, interval, rfl, _, _, _, rfl⟩ |
    ⟨a, tadd, t, rfl, hheap, _, _, _, rfl⟩ | ⟨id, rfl, rfl⟩
  · exact Or.inl h
  · exact addTimerInLoop_late (q := q.startAdd a t tadd) hheap tadd h
  · left
    intro e he
    exact h e (cancelInLoop_subset (q.record (.cancelled id)) id e he)

/-- Every value passed to `timerfd_settime` arms the timerfd. -/
def SettimesOk (q : TimerQueue) : Prop := ∀ ts ∈ q.settimes, ts.Arming

theorem SettimesOk.of_fd (h : SettimesOk q) (hfd : SameFd q q') : SettimesOk q' := by
  unfold SettimesOk
  rw [hfd.2.2]
  exact h

theorem resetTimerfd_settimes (h : SettimesOk q) (expiration now : Int) :
    SettimesOk (q.resetTimerfd expiration now) := by
  intro ts hts
  rcases List.mem_append.mp hts with hts | hts
  · exact h ts hts
  · rw [List.mem_singleton.mp hts]
    exact howMuchTimeFromNow_arming expiration now

/-- Only `addTimerInLoop` arms, and with such a value. -/
theorem call_settimes {c : Call} (hcall : q.call c = some q') (h : SettimesOk q) :
    SettimesOk q' := by
  rcases call_cases hcall with ⟨a, when, interval, rfl, _, _, _, rfl⟩ |
    ⟨a, now, t, rfl, hheap, _, _, _, rfl⟩ | ⟨id, rfl, rfl⟩
  · exact h
  · have hins : SettimesOk ((q.startAdd a t now).insert a).1 :=
      SettimesOk.of_fd (q := q.startAdd a t now) h (insert_fd hheap)
    rw [addTimerInLoop_eq (q := q.startAdd a t now) hheap]
    split
    · exact resetTimerfd_settimes hins _ _
    · exact hins
  · exact SettimesOk.of_fd (q := q.record (.cancelled id)) h (cancelInLoop_fd _ id)

/-! ## The ends of a pass -/

/-- `getExpired` leaves no timer that has expired at `now`. -/
theorem Inv.beginRead_late (h : Inv q []) (now tread : Int) :
    Late (q.beginRead now tread).1 now := by
  intro e he
  have hread := h.read tread
  obtain ⟨A, hq, _⟩ := hread.getExpired_eq now
  have hmem : e ∈ (({ q with clock := tread }.readTimerfd tread).getExpired now).1.timers_ := he
  rw [hq] at hmem
  exact (hread.mem_eraseBelow.mp hmem).2

/-- A round of `reset` puts a timer back at `now` or later, or not at all. -/
theorem Inv.resetOne_timers_ {e : Entry} (h : Inv q (e :: batch)) (now : Int) :
    SameFd q (TimerQueue.resetOne now q e) ∧
      ∀ f ∈ (TimerQueue.resetOne now q e).timers_, f ∈ q.timers_ ∨ now ≤ f.first := by
  obtain ⟨t, hheap, _⟩ := h.batch_idle e List.mem_cons_self
  by_cases hcond : t.repeat_ = true ∧ ⟨e.second, t.sequence_⟩ ∉ q.cancelingTimers_
  · rw [resetOne_restart hheap hcond.1 hcond.2, insert_eq (t := t.restart now) (by simp)]
    refine ⟨⟨rfl, rfl, rfl⟩, ?_⟩
    intro f hf
    rcases OrderedSet.mem_insert.mp hf with rfl | hf
    · right
      -- restart counts from now, and a repeat interval is not negative
      have hinterval := t.interval_.micros_nonneg hcond.1
      show now ≤ (t.restart now).expiration_
      simp only [Timer.restart, hcond.1, if_true, addTime]
      omega
    · exact Or.inl hf
  · rw [resetOne_delete hheap hcond]
    refine ⟨delete_fd q e.second, ?_⟩
    intro f hf
    rw [delete_timers_] at hf
    exact Or.inl hf

/-- The loop of `reset`, by induction on the batch. -/
theorem Inv.foldl_resetOne_timers_ (h : Inv q batch) (now : Int) :
    SameFd q (batch.foldl (TimerQueue.resetOne now) q) ∧
      ∀ f ∈ (batch.foldl (TimerQueue.resetOne now) q).timers_,
        f ∈ q.timers_ ∨ now ≤ f.first := by
  induction batch generalizing q with
  | nil => exact ⟨⟨rfl, rfl, rfl⟩, fun f hf => Or.inl hf⟩
  | cons e batch ih =>
    obtain ⟨hfd, hone⟩ := h.resetOne_timers_ now
    obtain ⟨hfd', hrest⟩ := ih (h.resetOne now)
    refine ⟨⟨hfd'.1.trans hfd.1, hfd'.2.1.trans hfd.2.1, hfd'.2.2.trans hfd.2.2⟩, ?_⟩
    intro f hf
    rcases hrest f hf with hf | hle
    · exact hone f hf
    · exact Or.inr hle

/-- At the end of the pass the timerfd is armed in time again, for whatever the callbacks have
    added and `reset` has put back. -/
theorem Inv.endRead_armed (h : Inv q batch) {now : Int} (tarm : Int) (hnow : 0 < now)
    (harmed : Late q now ∨ Armed q) : Armed (q.endRead batch now tarm) := by
  have hloop := h.afterLoop tarm
  obtain ⟨hfd, hold⟩ := hloop.foldl_resetOne_timers_ now
  rw [endRead_eq, (hloop.foldl_resetOne now).rearm_eq]
  split
  · rename_i it hfirst
    have hmin : ∀ e ∈ (batch.foldl (TimerQueue.resetOne now) (q.afterLoop tarm)).timers_,
        it.first ≤ e.first := by
      intro e he
      exact Entry.first_le_of_le (OrderedSet.first_le hfirst he)
    split
    -- the usual case: armed for the earliest timer that is set
    · exact resetTimerfd_armed hmin tarm
    · -- the earliest timer is not positive, so a callback added it and armed for it
      rename_i hvalid
      have hnonpos : it.first ≤ 0 := by simpa [Timestamp.valid] using hvalid
      have hit : it ∈ q.timers_ := by
        rcases hold it (OrderedSet.first_mem hfirst) with hit | hle
        · exact hit
        · omega
      have harmed' : Armed q := by
        rcases harmed with hlate | harmed
        · have := hlate it hit
          omega
        · exact harmed
      obtain ⟨fire, hfire, hbound⟩ := harmed' it hit
      intro e he
      have hle := hmin e he
      rw [hfd.1, hfd.2.1]
      refine ⟨fire, hfire, ?_⟩
      show fire ≤ max e.first (q.lastArm + 100)
      omega
  · -- no timer is set, so there is nothing to be armed for
    rename_i hfirst
    intro e he
    exact absurd he (OrderedSet.first_eq_none.mp hfirst e)

/-- The end of a pass arms once, or not at all. -/
theorem Inv.endRead_settimes (h : Inv q batch) (now tarm : Int) (hok : SettimesOk q) :
    SettimesOk (q.endRead batch now tarm) := by
  have hloop := h.afterLoop tarm
  have hfold := SettimesOk.of_fd (q := q.afterLoop tarm) hok (hloop.foldl_resetOne_timers_ now).1
  rw [endRead_eq, (hloop.foldl_resetOne now).rearm_eq]
  split
  · split
    · exact resetTimerfd_settimes hfold _ _
    · exact hfold
  · exact hfold

end TimerQueue

/-! ## Reachable states -/

namespace TimerState

open TimerQueue

/-- Outside a pass the timerfd is armed; in a pass it may be left for the end of
    the pass as long as every timer that is set expires after `now`. -/
structure ArmingInv (s : TimerState) : Prop where
  idle : s.pass = none → Armed s.queue
  busy : ∀ pass, s.pass = some pass → 0 < pass.now ∧ (Late s.queue pass.now ∨ Armed s.queue)
  settimes : SettimesOk s.queue

theorem armingInv_init : ArmingInv {} := by
  refine ⟨?_, ?_, ?_⟩
  · intro _ e he
    exact absurd he (OrderedSet.not_mem_empty e)
  · intro pass hpass
    cases hpass
  · intro ts hts
    cases hts

/-- Calls, the two ends of a pass and the start of a callback. -/
theorem armingInv_step {s s' : TimerState} {l : Label} (hgood : Good s) (h : ArmingInv s)
    (hstep : next s l = some s') : ArmingInv s' := by
  rcases hgood.step_cases hstep with ⟨c, q, rfl, hcall, rfl⟩ |
    ⟨now, tread, rfl, _, hpos, hinv, rfl⟩ |
    ⟨now, expired, it, todo, t, rfl, hpass, _, _, _, rfl⟩ |
    ⟨now, expired, tarm, rfl, hpass, hinv, rfl⟩
  · -- a call either keeps the bound or arms for the timer it adds
    refine ⟨fun hp => call_armed hcall (h.idle hp), ?_, call_settimes hcall h.settimes⟩
    intro pass hp
    obtain ⟨hpos, hlate | harmed⟩ := h.busy pass hp
    · exact ⟨hpos, call_late hcall hlate⟩
    · exact ⟨hpos, Or.inr (call_armed hcall harmed)⟩
  · -- the expired timers are out of the set, so the rest is late
    refine ⟨nofun, ?_, ?_⟩
    · intro pass hp
      obtain rfl := Option.some.inj hp
      exact ⟨hpos, Or.inl (hinv.beginRead_late now tread)⟩
    · intro ts hts
      rw [(hinv.began now tread).settimes] at hts
      exact h.settimes ts hts
  · -- starting a callback only records it
    refine ⟨nofun, ?_, h.settimes⟩
    intro pass hp
    obtain rfl := Option.some.inj hp
    exact h.busy { now := now, expired := expired, todo := it :: todo } hpass
  · -- reset arms for the timers that are set at the end
    obtain ⟨hpos, harmed⟩ := h.busy _ hpass
    refine ⟨fun _ => hinv.endRead_armed tarm hpos harmed, ?_,
      hinv.endRead_settimes now tarm h.settimes⟩
    intro pass hp
    cases hp

/-- In every state between steps in which a timer is set, the timerfd is armed,
    or has fired and is still to be read, for a time no later than the earliest
    expiration or 100 microseconds after it was armed; and every value passed to
    `timerfd_settime` is normalised, non-zero and at least 100 microseconds. -/
theorem timerfd_armed_for_earliest {s : TimerState} (h : machine.Reachable s) :
    (s.pass = none → ∀ e, s.queue.timers_.first = some e →
      ∃ fire, s.queue.timerfd = some fire ∧ fire ≤ max e.first (s.queue.lastArm + 100)) ∧
    ∀ ts ∈ s.queue.settimes, ts.Arming := by
  have hboth : Good s ∧ ArmingInv s := by
    refine h.invariant machine (I := fun s => Good s ∧ ArmingInv s) ?_ ?_
    · intro s heq
      subst heq
      exact ⟨good_init, armingInv_init⟩
    · intro s l s' ⟨hgood, harm⟩ hstep
      exact ⟨good_step hgood hstep, armingInv_step hgood harm hstep⟩
  refine ⟨?_, hboth.2.settimes⟩
  intro hpass e he
  exact hboth.2.idle hpass e (OrderedSet.first_mem he)

/-- A repeating timer runs, its callback adds a timer in the past, and the pass
    leaves the arming of that timer in place. -/
theorem timerfd_armed_for_earliest_past_timer :
    ∃ s fire, machine.Reachable s ∧ s.pass = none ∧
      s.queue.timers_.first = some ⟨-5, 16⟩ ∧ s.queue.timerfd = some fire ∧
      fire ≤ max (-5) (s.queue.lastArm + 100) := by
  have hrun : machine.run {}
      [.call (.newTimer 8 10 ⟨true, 1000, by decide, by decide⟩), .call (.addTimerInLoop 8 5),
       .beginRead 20 21, .runNext, .call (.newTimer 16 (-5) ⟨false, 0, by decide, by decide⟩),
       .call (.addTimerInLoop 16 22), .endRead 30] = some _ := rfl
  have hreach : machine.Reachable _ := ⟨{}, _, rfl, hrun⟩
  obtain ⟨fire, hfire, hbound⟩ := (timerfd_armed_for_earliest hreach).1 rfl ⟨-5, 16⟩ rfl
  exact ⟨_, fire, hreach, rfl, rfl, hfire, hbound⟩

end TimerState
