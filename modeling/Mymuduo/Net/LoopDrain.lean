import Mymuduo.Framework.Progress
import Mymuduo.Net.ConnectionRemoval

/-! # The loops run out of work

    A functor can queue another one and a callback can end in functors of two loops, so that
    the loops have work to do is no matter of one queue.  Each piece of work is counted with
    what it can still cause: a close ends in `closeCallback_`, that in `removeConnectionInLoop`,
    that in `connectionDestoryed`; a `send` can queue two callbacks.  Every step of a loop that
    has something to do lowers the sum over all loops, whatever the system calls return and in
    whatever order the threads run (`loops_drain`).
-/

namespace TcpServer

variable {n : Nat}

/-! ## The work that is left -/

/-- An effect with what it puts into the queues and lists. -/
def effectCost : Effect → Nat
  | .queueWriteComplete | .queueHighWaterMark _ => 1
  | .closeCallback => 3
  | _ => 0

/-- A callback with the steps it can lead to. -/
def Stage.cost : Stage → Nat
  | .close | .read => 4
  | .error => 1
  | .write => 2
  | .closeCallback => 3

/-- A functor with those it can queue. -/
def Functor.cost : Functor → Nat
  | .removeConnectionInLoop _ => 2
  | .sendInLoop _ _ => 3
  | _ => 1

/-- What is left of the current `handleEvent`, its end included. -/
def eventCost : Option (ConnPtr × List Stage) → Nat
  | none => 0
  | some (_, stages) => 1 + (stages.map Stage.cost).sum

/-- The steps from here to the next functor: the end of this pass and the start of the next. -/
def LoopThread.toFunctor (t : LoopThread) : Nat :=
  if t.running then if t.loop.functors = [] then 2 else 0 else 1

/-- The work left in one loop.  No mask leads to callbacks of more than 11. -/
def LoopThread.work (t : LoopThread) : Nat :=
  4 * (13 * t.activeChannels_.length + eventCost t.current + (t.queue.map Functor.cost).sum) +
    t.toFunctor

/-- The sum over all loops, as a functor of one loop can queue one in another. -/
def State.work (s : State n) : Nat := ∑ i, (s.loops i).work

section

variable {s s' : State n} {i : Fin (n + 1)} {c : ConnPtr} {conn : Conn n}

theorem work_of_loops (h : s'.loops = s.loops) : s'.work = s.work := by
  unfold State.work
  rw [h]

theorem work_setLoop (s : State n) (i : Fin (n + 1)) (t : LoopThread) :
    (s.setLoop i t).work + (s.loops i).work = s.work + t.work :=
  sum_update LoopThread.work s.loops (Finset.mem_univ i) t

/-- The sum changes by what one thread changes by. -/
theorem work_setLoop_add_le {t : LoopThread} {j k : Nat}
    (h : t.work + j ≤ (s.loops i).work + k) : (s.setLoop i t).work + j ≤ s.work + k := by
  have := work_setLoop s i t
  omega

theorem work_setLoop_lt {t : LoopThread} (h : t.work < (s.loops i).work) :
    (s.setLoop i t).work < s.work :=
  work_setLoop_add_le (j := 1) (k := 0) h

theorem work_queueInLoop (s : State n) (i : Fin (n + 1)) (b : Bool) (f : Functor) :
    (s.queueInLoop i b f).work = s.work + 4 * f.cost := by
  have hset := work_setLoop s i
    { s.loops i with loop := (s.loops i).loop.queueInLoop b f }
  have hthread : LoopThread.work { s.loops i with loop := (s.loops i).loop.queueInLoop b f } =
      (s.loops i).work + 4 * f.cost := by
    simp only [LoopThread.work, LoopThread.toFunctor, LoopThread.queue,
      EventLoop.queueInLoop_functors, EventLoop.queueInLoop_pendingFunctors_, List.map_append,
      List.sum_append, List.map_cons, List.map_nil, List.sum_cons, List.sum_nil]
    omega
  rw [hthread] at hset
  show (s.setLoop i _).work = _
  omega

/-- What an effect adds. -/
theorem work_applyEffect (s : State n) (c : ConnPtr) (e : Effect) :
    (State.applyEffect c s e).work ≤ s.work + 4 * effectCost e := by
  unfold State.applyEffect
  split
  · exact Nat.le_add_right _ _
  · rename_i conn hconn
    have hreg : ∀ r k, (s.setRegistration c conn r).work ≤ s.work + k := by
      intro r k
      show (s.setLoop conn.ioLoop { s.loops conn.ioLoop with poller := r.1 }).work ≤ _
      exact work_setLoop_add_le (j := 0) (Nat.le_add_right _ _)
    cases e with
    | updateChannel events => exact hreg _ _
    | removeChannel => exact hreg _ _
    | queueWriteComplete => exact Nat.le_of_eq (work_queueInLoop s _ _ _)
    | queueHighWaterMark size => exact Nat.le_of_eq (work_queueInLoop s _ _ _)
    | closeCallback =>
      simp only
      split
      · rename_i d stages hcurrent
        refine work_setLoop_add_le (j := 0) ?_
        simp only [LoopThread.work, LoopThread.toFunctor, LoopThread.queue, hcurrent, eventCost,
          List.map_cons, List.sum_cons, Stage.cost, effectCost]
        omega
      · exact Nat.le_add_right _ _
    | write data r => exact Nat.le_add_right _ _
    | shutdownWrite => exact Nat.le_add_right _ _
    | connectionCallback state => exact Nat.le_add_right _ _
    | messageCallback => exact Nat.le_add_right _ _

/-- All effects of a call, by induction on their list. -/
theorem work_foldl (c : ConnPtr) (es : List Effect) (s : State n) :
    (es.foldl (State.applyEffect c) s).work ≤ s.work + 4 * (es.map effectCost).sum := by
  induction es generalizing s with
  | nil => exact Nat.le_add_right _ _
  | cons e es ih =>
    have hfirst := work_applyEffect s c e
    have hrest := ih (State.applyEffect c s e)
    rw [List.foldl_cons, List.map_cons, List.sum_cons]
    omega

/-- What a call of a member function adds. -/
theorem work_call (s : State n) (c : ConnPtr) {f : TcpConnection → TcpConnection × List Effect}
    {k : Nat} (hf : ∀ t, ((f t).2.map effectCost).sum ≤ k) :
    (s.call c f).work ≤ s.work + 4 * k := by
  unfold State.call
  split
  · exact Nat.le_add_right _ _
  · rename_i conn hconn
    have hfold := work_foldl c (f conn.tcp).2 (s.setConn c { conn with tcp := (f conn.tcp).1 })
    have hstore : (s.setConn c { conn with tcp := (f conn.tcp).1 }).work = s.work :=
      work_of_loops rfl
    have hk := hf conn.tcp
    omega

theorem work_setUp (s : State n) (c : ConnPtr) (up : Bool) : (s.setUp c up).work = s.work := by
  unfold State.setUp
  split
  · rfl
  · exact work_of_loops rfl

end

/-! ## Member functions -/

section

variable (t : TcpConnection)

/-- `sendInLoop` queues `writeCompleteCallback_` or `highWaterMarkCallback_`; two is enough. -/
theorem cost_sendInLoop (data : List Byte) (w : WriteResult) :
    ((t.sendInLoop data w).2.map effectCost).sum ≤ 2 := by
  have hdirect : ((t.directWrite data w).effects.map effectCost).sum ≤ 1 := by
    unfold TcpConnection.directWrite
    split
    · split
      · simp only
        split <;> simp [effectCost]
      · simp [effectCost]
    · simp
  have hrest : ∀ rest, ((t.bufferRest rest).2.map effectCost).sum ≤ 1 := by
    intro rest
    unfold TcpConnection.bufferRest
    simp only
    split <;> split <;> simp [effectCost]
  unfold TcpConnection.sendInLoop
  split
  · simp
  · simp only
    split
    · have := hrest (data.drop (t.directWrite data w).nwrote)
      rw [List.map_append, List.sum_append]
      omega
    · exact Nat.le_succ_of_le hdirect

theorem cost_handleWrite (w : WriteResult) : ((t.handleWrite w).2.map effectCost).sum ≤ 1 := by
  rcases TcpConnection.handleWrite_cases t w with ⟨_, hcall⟩ | ⟨_, _, hcall⟩ | ⟨_, _, _, hcall⟩ |
    ⟨_, _, _, hcall⟩
  all_goals rw [hcall]
  · simp
  · simp [effectCost]
  · simp [effectCost]
  · unfold TcpConnection.completeEffects
    split <;> split <;> simp [effectCost]

/-- A read of nothing is a close. -/
theorem cost_handleRead (r : ReadvResult) : ((t.handleRead r).2.map effectCost).sum ≤ 3 := by
  obtain ⟨buf, hcall | hcall | hcall⟩ := TcpConnection.handleRead_cases t r
  all_goals rw [hcall]
  · simp [effectCost]
  · simp [TcpConnection.handleClose, effectCost]
  · simp

theorem cost_shutdownInLoop : (t.shutdownInLoop.2.map effectCost).sum ≤ 0 := by
  unfold TcpConnection.shutdownInLoop
  split <;> simp [effectCost]

theorem cost_connectionDestoryed : (t.connectionDestoryed.2.map effectCost).sum ≤ 0 := by
  unfold TcpConnection.connectionDestoryed
  split <;> simp [effectCost]

/-- All four callbacks of one event. -/
theorem cost_stages (revents : EventMask) : ((stages revents).map Stage.cost).sum ≤ 11 := by
  unfold stages
  split <;> split <;> split <;> split <;> simp [Stage.cost]

end

/-! ## Steps -/

/-- A step of a loop that has something to do: `doPendingFunctors` with an empty queue does
    nothing.  What a callback of the user does with its connection (`send`, `shutdown`) is a
    step of its own, and none of these. -/
def Working (s : State n) : Label n → Prop
  | .handleEvent _ | .callback _ _ _ | .endEvent _ | .runFunctor _ _ | .endFunctors _ => True
  | .beginFunctors i => (s.loops i).queue ≠ []
  | _ => False

instance (s : State n) : (l : Label n) → Decidable (Working s l)
  | .handleEvent _ | .callback _ _ _ | .endEvent _ | .runFunctor _ _ | .endFunctors _ =>
    isTrue trivial
  | .beginFunctors i => inferInstanceAs (Decidable ((s.loops i).queue ≠ []))
  | .newConnection _ _ _ | .poll _ _ | .send _ _ _ _ | .shutdown _ _ | .userCopy _
  | .setHighWaterMarkCallback _ _ | .userDrop _ | .destroy _ => isFalse id

section

variable {s s' : State n} {i : Fin (n + 1)} {c : ConnPtr}

/-- The removal queues `connectionDestoryed`. -/
theorem work_removeConnectionInLoop (s : State n) (c : ConnPtr) :
    (s.removeConnectionInLoop c).work ≤ s.work + 4 * 1 := by
  unfold State.removeConnectionInLoop
  split
  · exact Nat.le_add_right _ _
  · exact Nat.le_of_eq (work_queueInLoop _ _ _ _)

/-- A callback leads to less than it was counted for. -/
theorem work_callback (s : State n) (i : Fin (n + 1)) (c : ConnPtr) (w : WriteResult)
    (r : ReadvResult) (stage : Stage) :
    (s.callback i c w r stage).work + 4 ≤ s.work + 4 * stage.cost := by
  cases stage with
  | close =>
    have := work_call s c (f := TcpConnection.handleClose) (k := 3)
      (by simp [TcpConnection.handleClose, effectCost])
    show (s.call c TcpConnection.handleClose).work + 4 ≤ s.work + 4 * 4
    omega
  | error => exact Nat.le_refl _
  | read =>
    have := work_call s c (k := 3) fun t => cost_handleRead t r
    show (s.call c fun t => t.handleRead r).work + 4 ≤ s.work + 4 * 4
    omega
  | write =>
    have := work_call s c (k := 1) fun t => cost_handleWrite t w
    show (s.call c fun t => t.handleWrite w).work + 4 ≤ s.work + 4 * 2
    omega
  | closeCallback =>
    show (s.removeConnection i c).work + 4 ≤ s.work + 4 * 3
    unfold State.removeConnection
    split
    · have := work_removeConnectionInLoop s c
      omega
    · rw [work_queueInLoop, Functor.cost]

/-- So does a functor. -/
theorem work_runFunctor (s : State n) (w : WriteResult) (f : Functor) :
    (s.runFunctor w f).work + 4 ≤ s.work + 4 * f.cost := by
  cases f with
  | connectionEstablished c =>
    have hcall := work_call (s.setUp c true) c (f := TcpConnection.connectionEstablished) (k := 0)
      (by simp [TcpConnection.connectionEstablished, effectCost])
    rw [work_setUp] at hcall
    exact Nat.add_le_add_right hcall 4
  | removeConnectionInLoop c =>
    have := work_removeConnectionInLoop s c
    show (s.removeConnectionInLoop c).work + 4 ≤ s.work + 4 * 2
    omega
  | connectionDestoryed c =>
    show ((s.call c TcpConnection.connectionDestoryed).setUp c false).work + 4 ≤ s.work + 4 * 1
    rw [work_setUp]
    exact Nat.add_le_add_right (work_call s c cost_connectionDestoryed) 4
  | writeComplete c => exact Nat.le_refl _
  | highWaterMark c => exact Nat.le_refl _
  | sendInLoop c data =>
    have := work_call s c (k := 2) fun t => cost_sendInLoop t data w
    show (s.call c fun t => t.sendInLoop data w).work + 4 ≤ s.work + 4 * 3
    omega
  | shutdownInLoop c => exact Nat.add_le_add_right (work_call s c cost_shutdownInLoop) 4

/-- Each step of a loop with something to do lowers the sum. -/
theorem work_step (hinv : Inv s) {l : Label n} (hwork : Working s l)
    (hstep : next s l = some s') : s'.work < s.work := by
  cases l with
  | handleEvent i =>
    simp only [next] at hstep
    split at hstep
    · rename_i c rest hactive hcurrent
      have hmem : c ∈ (s.loops i).activeChannels_ := by simp [hactive]
      cases hconn : s.conns c with
      | none => exact absurd hmem ((hinv.absent c hconn).active i)
      | some conn =>
        rw [hconn] at hstep
        obtain rfl := Option.some.inj hstep
        have hstages := cost_stages conn.tcp.channel_.revents_
        refine work_setLoop_lt ?_
        simp only [LoopThread.work, LoopThread.toFunctor, LoopThread.queue, hactive, hcurrent,
          eventCost, List.length_cons]
        omega
    · cases hstep
  | callback i w r =>
    simp only [next] at hstep
    split at hstep
    · rename_i c stage rest hcurrent
      obtain rfl := Option.some.inj hstep
      -- off the list, then called
      have hpop : (s.setLoop i { s.loops i with current := some (c, rest) }).work +
          4 * stage.cost ≤ s.work := by
        refine work_setLoop_add_le (k := 0) ?_
        simp only [LoopThread.work, LoopThread.toFunctor, LoopThread.queue, hcurrent, eventCost,
          List.map_cons, List.sum_cons]
        omega
      have hcall := work_callback (s.setLoop i { s.loops i with current := some (c, rest) }) i c
        w r stage
      exact Nat.lt_of_lt_of_le (Nat.lt_add_of_pos_right (by decide)) (hcall.trans hpop)
    · cases hstep
  | endEvent i =>
    simp only [next] at hstep
    split at hstep
    · rename_i c hcurrent
      obtain rfl := Option.some.inj hstep
      refine work_setLoop_lt ?_
      simp only [LoopThread.work, LoopThread.toFunctor, LoopThread.queue, hcurrent, eventCost]
      omega
    · cases hstep
  | beginFunctors i =>
    simp only [next] at hstep
    split at hstep
    · -- the swap moves functors within the queue, and the loop is at its functors now
      rename_i hidle
      obtain rfl := Option.some.inj hstep
      have hfunctors := (hinv.threads i).2 hidle.2.2
      have hpending : (s.loops i).loop.pendingFunctors_ ≠ [] := by
        intro hempty
        exact hwork (by rw [LoopThread.queue, hfunctors, hempty]; rfl)
      refine work_setLoop_lt ?_
      simp [LoopThread.work, LoopThread.toFunctor, LoopThread.queue, EventLoop.swapFunctors,
        EventLoop.beginPending, hfunctors, hpending, hidle.2.2]
    · cases hstep
  | runFunctor i w =>
    simp only [next] at hstep
    split at hstep
    · rename_i f rest hrunning hf
      obtain rfl := Option.some.inj hstep
      -- the last functor of the pass is two steps away from the next one
      have hdequeue : (s.dequeue i rest).work + 4 * f.cost ≤ s.work + 2 := by
        refine work_setLoop_add_le ?_
        have hlast : (if rest = [] then 2 else 0) ≤ 2 := by split <;> decide
        simp only [LoopThread.work, LoopThread.toFunctor, LoopThread.queue, hrunning, hf,
          List.cons_append, List.map_cons, List.sum_cons, if_true, reduceCtorEq, if_false]
        omega
      have hrun := work_runFunctor (s.dequeue i rest) w f
      omega
    · cases hstep
  | endFunctors i =>
    simp only [next] at hstep
    split at hstep
    · rename_i hdone
      obtain rfl := Option.some.inj hstep
      refine work_setLoop_lt ?_
      simp [LoopThread.work, LoopThread.toFunctor, LoopThread.queue, EventLoop.endPending,
        hdone.1, hdone.2]
    · cases hstep
  | newConnection ioLoop sockfd wc => cases hwork
  | poll i events => cases hwork
  | send c inLoop data w => cases hwork
  | shutdown c inLoop => cases hwork
  | setHighWaterMarkCallback c highWaterMark => cases hwork
  | userCopy c => cases hwork
  | userDrop c => cases hwork
  | destroy c => cases hwork

/-- A loop that is not idle has something to do. -/
theorem idle_of_stuck (h : ∀ l, Working s l → next s l = none) (i : Fin (n + 1)) :
    (s.loops i).Idle := by
  have hcurrent : (s.loops i).current = none := by
    cases hcurrent : (s.loops i).current with
    | none => rfl
    | some entry =>
      obtain ⟨c, stages⟩ := entry
      cases stages with
      | nil =>
        have hnone := h (.endEvent i) trivial
        simp only [next, hcurrent] at hnone
        cases hnone
      | cons stage rest =>
        have hnone := h (.callback i (.wrote 0) (.read [])) trivial
        simp only [next, hcurrent] at hnone
        cases hnone
  -- between two events the next channel could be handled
  have hactive : (s.loops i).activeChannels_ = [] := by
    cases hactive : (s.loops i).activeChannels_ with
    | nil => rfl
    | cons c rest =>
      have hnone := h (.handleEvent i) trivial
      simp only [next, hactive, hcurrent] at hnone
      cases hconn : s.conns c with
      | none =>
        rw [hconn] at hnone
        cases hnone
      | some conn =>
        rw [hconn] at hnone
        cases hnone
  have hstopped : (s.loops i).running = false := by
    by_contra hnot
    have hrunning : (s.loops i).running = true := by simpa using hnot
    cases hfunctors : (s.loops i).loop.functors with
    | nil =>
      have hnone := h (.endFunctors i) trivial
      simp only [next, hrunning, hfunctors, and_self, if_true] at hnone
      cases hnone
    | cons f rest =>
      have hnone := h (.runFunctor i (.wrote 0)) trivial
      simp only [next, hrunning, hfunctors] at hnone
      cases hnone
  -- and before the functors a pass over them could begin
  refine ⟨hactive, hcurrent, hstopped, ?_⟩
  by_contra hqueue
  have hnone := h (.beginFunctors i) hqueue
  simp only [next, hactive, hcurrent, hstopped, and_self, if_true] at hnone
  cases hnone

/-- And an idle one has not. -/
theorem stuck_of_idle (h : ∀ i, (s.loops i).Idle) (l : Label n) (hwork : Working s l) :
    next s l = none := by
  cases l with
  | handleEvent i => simp [next, (h i).active]
  | callback i w r => simp [next, (h i).current]
  | endEvent i => simp [next, (h i).current]
  | beginFunctors i => exact absurd (h i).queue hwork
  | runFunctor i w => simp [next, (h i).stopped]
  | endFunctors i => simp [next, (h i).stopped]
  | newConnection ioLoop sockfd wc => cases hwork
  | poll i events => cases hwork
  | send c inLoop data w => cases hwork
  | shutdown c inLoop => cases hwork
  | setHighWaterMarkCallback c highWaterMark => cases hwork
  | userCopy c => cases hwork
  | userDrop c => cases hwork
  | destroy c => cases hwork

/-- From every reachable state, the steps of loops that have something to do are bounded in
    number, whatever their order and whatever the system calls return, as long as the callbacks
    of the user do not call `send` or `shutdown` in between (each such call gives the loops
    more to do).  A run of them that cannot go on has left every loop idle and no closed
    connection in `connections_`. -/
theorem loops_drain (h : (machine n).Reachable s) {ls : List (Label n)}
    (hwork : (machine n).Along Working s ls) (hrun : (machine n).run s ls = some s') :
    ls.length ≤ s.work ∧
      ((∀ l, Working s' l → (machine n).next s' l = none) →
        (∀ i, (s'.loops i).Idle) ∧
        ∀ c conn, s'.conns c = some conn → conn.tcp.state_ = .kDisconnected →
          s'.connections_ conn.connId ≠ some c) := by
  refine ⟨?_, ?_⟩
  · have hlength := Machine.length_add_rank_le (m := machine n) (I := Inv) State.work
      (fun s l s' hinv hl hstep => ⟨inv_step hinv hstep, work_step hinv hl hstep⟩)
      (inv_reachable h) hwork hrun
    omega
  · intro hstuck
    have hidle := idle_of_stuck hstuck
    refine ⟨hidle, ?_⟩
    intro c conn hconn hclosed
    exact (down_of_idle (h.of_run (machine n) hrun) hidle hconn hclosed).2

/-- The first of two peers has closed: from the return of `epoll_wait` the loop has seven steps
    to do, and then it is idle. -/
theorem loops_drain_first_closes :
    ∃ s s' : State 0, (machine 0).Reachable s ∧
      (machine 0).run s ((firstCloses.drop 3).take 7) = some s' ∧ 7 ≤ s.work ∧
      (∀ i, (s'.loops i).Idle) ∧
      ∃ conn, s'.conns 0 = some conn ∧ s'.connections_ conn.connId ≠ some 0 := by
  have hstart : ((machine 0).run {} (firstCloses.take 3)).map (fun s => decide
      ((machine 0).Along Working s ((firstCloses.drop 3).take 7))) = some true := by
    decide +kernel
  obtain ⟨s, hs, hwork⟩ := Option.map_eq_some_iff.mp hstart
  have hfacts : ((machine 0).run {} (firstCloses.take 3 ++ (firstCloses.drop 3).take 7)).map
      (fun s => decide
        (((s.loops 0).activeChannels_ = [] ∧ (s.loops 0).current = none ∧
          (s.loops 0).running = false ∧ (s.loops 0).queue = []) ∧
          (s.conns 0).map (fun conn => conn.tcp.state_) = some .kDisconnected)) = some true := by
    decide +kernel
  obtain ⟨s', hrun, hfacts⟩ := Option.map_eq_some_iff.mp hfacts
  obtain ⟨⟨hactive, hcurrent, hstopped, hqueue⟩, hclosed⟩ := of_decide_eq_true hfacts
  obtain ⟨conn, hconn, hstate⟩ := Option.map_eq_some_iff.mp hclosed
  obtain ⟨s₁, hs₁, hrest⟩ := (machine 0).run_append_some.mp hrun
  obtain rfl := Option.some.inj (hs.symm.trans hs₁)
  have hreach : (machine 0).Reachable s := ⟨{}, _, rfl, hs⟩
  have hidle : ∀ i, (s'.loops i).Idle := by
    intro i
    rw [Fin.fin_one_eq_zero i]
    exact ⟨hactive, hcurrent, hstopped, hqueue⟩
  obtain ⟨hlength, hdone⟩ := loops_drain hreach (of_decide_eq_true hwork) hrest
  obtain ⟨hidle', hgone⟩ := hdone (stuck_of_idle hidle)
  exact ⟨s, s', hreach, hrest, hlength, hidle', conn, hconn, hgone 0 conn hconn hstate⟩

end

end TcpServer
