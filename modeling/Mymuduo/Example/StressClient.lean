import Mathlib.Algebra.Order.BigOperators.Group.Finset
import Mymuduo.Example.EchoServer
import Mymuduo.Example.StressArgs
import Mymuduo.Framework.DescriptorTable
import Mymuduo.Framework.Progress

/-! # The workers of the stress client

    `concurrency` threads run `worker` of `example/stress_client.cc` over the shared counter
    `next`, the counters of `stats` and the vector of latencies.  A step is one atomic access,
    one system call or one `push_back` of one thread, with any outcome of the system call; the
    requests themselves are those of `EchoServer.Client`.

    Every request that is taken is counted once, as a success or under the failure that ended
    it, so the numbers that `main` prints add up to `total` (`stats_add_up`); and the threads
    cannot run for ever (`workers_finish`).
-/

namespace StressClient

open EchoServer (Client)

/-! ## Workers -/

inductive Failure where
  | connectFail
  | sendFail
  | recvFail
  deriving DecidableEq, Repr

/-- Where a worker is. -/
inductive Pc where
  /-- Before `next->fetch_add(1)`. -/
  | fetch
  | socket
  | connect (fd : Nat)
  /-- In `writeAll` or `readExpected`. -/
  | request (fd : Nat) (client : Client)
  /-- Before the `fetch_add` of the counter; the descriptor is still to be closed. -/
  | fail (why : Failure) (fd : Option Nat)
  | closeFailed (fd : Nat)
  /-- Before the `close` of a request that has been answered. -/
  | close (fd : Nat) (bytes : Nat)
  | addBytes (bytes : Nat)
  | addSuccess
  /-- Before `latenciesUs->push_back`. -/
  | pushLatency
  | done

/-- `Stats`. -/
structure Stats where
  success : Nat := 0
  connectFail : Nat := 0
  sendFail : Nat := 0
  recvFail : Nat := 0
  bytesRead : Nat := 0

def Stats.failed (stats : Stats) : Nat := stats.connectFail + stats.sendFail + stats.recvFail

def Stats.count (stats : Stats) : Failure → Stats
  | .connectFail => { stats with connectFail := stats.connectFail + 1 }
  | .sendFail => { stats with sendFail := stats.sendFail + 1 }
  | .recvFail => { stats with recvFail := stats.recvFail + 1 }

structure State where
  next : Nat := 0
  stats : Stats := {}
  latenciesUs : List Int := []
  workers : Nat → Pc := fun _ => .fetch
  /-- The sockets that are open. -/
  openFds : Finset Nat := ∅

def State.goto (s : State) (w : Nat) (pc : Pc) : State :=
  { s with workers := Function.update s.workers w pc }

/-- `message` of `main`. -/
def Config.message (config : Config) : List Byte := List.replicate config.messageSize 'x'.toUInt8

/-- A request from the return of `connect` on; an empty message needs no system call. -/
def Config.request (config : Config) : Client :=
  { message := config.message
    phase := if config.messageSize = 0 then .success else .writeAll }

/-- Where `worker` is when the request has come to this point. -/
def enter (fd : Nat) (client : Client) : Pc :=
  match client.phase with
  | .writeAll | .readExpected => .request fd client
  | .success => .close fd client.received.length
  | .sendFail => .fail .sendFail (some fd)
  | .recvFail => .fail .recvFail (some fd)

/-- One step of a thread: what its system call returned, and the bytes of a `recv`; for
    `push_back`, `ret` is the latency. -/
structure Label where
  w : Nat
  ret : Int := 0
  data : List Byte := []

/-- The next step of a worker that is at `pc`. -/
def step (config : Config) (s : State) (w : Nat) (ret : Int) (data : List Byte) :
    Pc → Option State
  | .fetch =>
    let id := s.next
    some ({ s with next := s.next + 1 }.goto w (if id ≥ config.total then .done else .socket))
  | .socket =>
    if ret < 0 then some (s.goto w (.fail .connectFail none))
    -- the kernel gives out a descriptor that is not open
    else if ret.toNat ∈ s.openFds then none
    else some ({ s with openFds := insert ret.toNat s.openFds }.goto w (.connect ret.toNat))
  | .connect fd =>
    if ret ≠ 0 then some (s.goto w (.fail .connectFail (some fd)))
    else some (s.goto w (enter fd config.request))
  | .request fd client =>
    match client.phase with
    | .writeAll =>
      if ret ≤ (client.message.length - client.written : Nat) then
        some (s.goto w (enter fd (client.send ret)))
      else none
    | .readExpected =>
      if ret ≤ client.want ∧ (0 < ret → (data.length : Int) = ret) then
        some (s.goto w (enter fd (client.recv ret data)))
      else none
    | _ => none
  | .fail why fd =>
    some ({ s with stats := s.stats.count why }.goto w (fd.elim .fetch .closeFailed))
  | .closeFailed fd => some ({ s with openFds := s.openFds.erase fd }.goto w .fetch)
  | .close fd bytes => some ({ s with openFds := s.openFds.erase fd }.goto w (.addBytes bytes))
  | .addBytes bytes =>
    let stats := { s.stats with bytesRead := s.stats.bytesRead + bytes }
    some ({ s with stats := stats }.goto w .addSuccess)
  | .addSuccess =>
    let stats := { s.stats with success := s.stats.success + 1 }
    some ({ s with stats := stats }.goto w .pushLatency)
  | .pushLatency => some ({ s with latenciesUs := s.latenciesUs ++ [ret] }.goto w .fetch)
  | .done => none

/-- The threads that `main` has started. -/
def machine (config : Config) : Machine State Label where
  init := fun s => s = {}
  next := fun s l =>
    if l.w < config.concurrency then step config s l.w l.ret l.data (s.workers l.w) else none

/-- What `main` returns after it has joined the threads. -/
def State.exitCode (s : State) : Nat := if s.stats.failed = 0 then 0 else 2

/-! ## The invariant -/

namespace Pc

/-- The socket that the worker has open. -/
def fd : Pc → Option Nat
  | .connect fd | .request fd _ | .closeFailed fd | .close fd _ => some fd
  | .fail _ fd => fd
  | _ => none

/-- The worker has a request that no counter has. -/
def busy : Pc → Nat
  | .socket | .connect _ | .request _ _ | .fail _ _ | .close _ _ | .addBytes _ | .addSuccess => 1
  | _ => 0

/-- The bytes of the request are counted, and its success is not. -/
def ahead : Pc → Nat
  | .addSuccess => 1
  | _ => 0

/-- The success is counted, and the latency is not stored. -/
def behind : Pc → Nat
  | .pushLatency => 1
  | _ => 0

/-- The worker has taken a number that is too large. -/
def beyond : Pc → Nat
  | .done => 1
  | _ => 0

/-- A request is under way while bytes are missing, and answered with all of them. -/
def Sound (config : Config) : Pc → Prop
  | .request _ client =>
    client.message = config.message ∧
      (client.phase = .writeAll ∧ client.written < config.messageSize ∧ client.received = [] ∨
        client.phase = .readExpected ∧ client.received.length < config.messageSize)
  | .close _ bytes | .addBytes bytes => bytes = config.messageSize
  | _ => True

end Pc

/-- The sum of `f` over the workers. -/
def State.total (config : Config) (s : State) (f : Pc → Nat) : Nat :=
  ∑ w ∈ Finset.range config.concurrency, f (s.workers w)

structure Inv (config : Config) (s : State) : Prop where
  taken : s.stats.success + s.stats.failed + s.total config Pc.busy = min s.next config.total
  beyond : s.next = min s.next config.total + s.total config Pc.beyond
  latencies : s.latenciesUs.length + s.total config Pc.behind = s.stats.success
  bytes : s.stats.bytesRead =
    config.messageSize * (s.stats.success + s.total config Pc.ahead)
  sound : ∀ w, (s.workers w).Sound config
  others : ∀ w, config.concurrency ≤ w → s.workers w = .fetch
  fds : OwnedBy s.openFds fun w => (s.workers w).fd

section

variable {config : Config} {s s' : State} {w : Nat} {old pc : Pc}

/-- One worker goes on, and the counters with it. -/
theorem total_update (hw : w < config.concurrency)
    (hworkers : s'.workers = Function.update s.workers w pc) (f : Pc → Nat) :
    s'.total config f + f (s.workers w) = s.total config f + f pc := by
  unfold State.total
  rw [hworkers]
  exact sum_update f s.workers (Finset.mem_range.mpr hw) pc

theorem fd_update (hworkers : s'.workers = Function.update s.workers w pc) :
    (fun v => (s'.workers v).fd) = Function.update (fun v => (s.workers v).fd) w pc.fd := by
  rw [hworkers]
  exact Function.comp_update Pc.fd s.workers w pc

/-- The counters of a step, against what the worker leaves and what it comes to. -/
structure Balanced (config : Config) (s s' : State) (old pc : Pc) : Prop where
  taken : s'.stats.success + s'.stats.failed + pc.busy + min s.next config.total =
    s.stats.success + s.stats.failed + old.busy + min s'.next config.total
  beyond : s'.next + min s.next config.total + old.beyond =
    s.next + min s'.next config.total + pc.beyond
  latencies : s'.latenciesUs.length + pc.behind + s.stats.success =
    s.latenciesUs.length + old.behind + s'.stats.success
  bytes : s'.stats.bytesRead + config.messageSize * (s.stats.success + old.ahead) =
    s.stats.bytesRead + config.messageSize * (s'.stats.success + pc.ahead)

theorem Inv.move (h : Inv config s) (hw : w < config.concurrency) (hpc : s.workers w = old)
    (hworkers : s'.workers = Function.update s.workers w pc)
    (hbalanced : Balanced config s s' old pc) (hsound : pc.Sound config)
    (hfds : OwnedBy s'.openFds fun v => (s'.workers v).fd) : Inv config s' := by
  have hbusy := total_update hw hworkers Pc.busy
  have hbeyond := total_update hw hworkers Pc.beyond
  have hbehind := total_update hw hworkers Pc.behind
  have hahead := total_update hw hworkers Pc.ahead
  rw [hpc] at hbusy hbeyond hbehind hahead
  obtain ⟨htaken, hbeyond', hlatencies, hbytes⟩ := hbalanced
  refine ⟨?_, ?_, ?_, ?_, ?_, ?_, hfds⟩
  · have := h.taken
    omega
  · have := h.beyond
    omega
  · have := h.latencies
    omega
  · have hmul : config.messageSize * s'.total config Pc.ahead +
        config.messageSize * old.ahead =
        config.messageSize * s.total config Pc.ahead + config.messageSize * pc.ahead := by
      rw [← Nat.mul_add, ← Nat.mul_add, hahead]
    have := h.bytes
    simp only [Nat.mul_add] at this hbytes ⊢
    omega
  · intro v
    rw [hworkers]
    by_cases hv : v = w
    · rw [hv, Function.update_self]
      exact hsound
    · rw [Function.update_of_ne hv]
      exact h.sound v
  · intro v hv
    rw [hworkers, Function.update_of_ne (Nat.ne_of_gt (Nat.lt_of_lt_of_le hw hv))]
    exact h.others v hv

theorem fds_same (h : Inv config s) (hpc : s.workers w = old)
    (hworkers : s'.workers = Function.update s.workers w pc) (hopen : s'.openFds = s.openFds)
    (hfd : pc.fd = old.fd) : OwnedBy s'.openFds fun v => (s'.workers v).fd := by
  rw [fd_update hworkers, hopen, hfd, ← hpc]
  have hself := Function.update_eq_self w fun v => (s.workers v).fd
  rw [hself]
  exact h.fds

/-! ## Requests -/

theorem length_message (config : Config) : config.message.length = config.messageSize :=
  List.length_replicate

/-- A request at any of its points. -/
def Answering (config : Config) (client : Client) : Prop :=
  client.message = config.message ∧
    match client.phase with
    | .writeAll => client.written < config.messageSize ∧ client.received = []
    | .readExpected => client.received.length < config.messageSize
    | .success => client.received.length = config.messageSize
    | .sendFail | .recvFail => True

theorem enter_sound {client : Client} (h : Answering config client) (fd : Nat) :
    (enter fd client).Sound config := by
  obtain ⟨hmessage, hphase⟩ := h
  unfold enter
  cases hp : client.phase with
  | writeAll =>
    rw [hp] at hphase
    exact ⟨hmessage, Or.inl ⟨hp, hphase⟩⟩
  | readExpected =>
    rw [hp] at hphase
    exact ⟨hmessage, Or.inr ⟨hp, hphase⟩⟩
  | success =>
    rw [hp] at hphase
    exact hphase
  | sendFail => trivial
  | recvFail => trivial

/-- Wherever a request goes on, it keeps its socket and is not counted yet. -/
theorem enter_counts (fd : Nat) (client : Client) :
    (enter fd client).fd = some fd ∧ (enter fd client).busy = 1 ∧ (enter fd client).beyond = 0 ∧
      (enter fd client).behind = 0 ∧ (enter fd client).ahead = 0 := by
  unfold enter
  split <;> exact ⟨rfl, rfl, rfl, rfl, rfl⟩

theorem answering_request (config : Config) : Answering config config.request := by
  refine ⟨rfl, ?_⟩
  unfold Config.request
  by_cases hzero : config.messageSize = 0
  · simp [hzero]
  · simp only [hzero, if_false]
    exact ⟨Nat.pos_of_ne_zero hzero, trivial⟩

theorem answering_send {client : Client} (hmessage : client.message = config.message)
    (hwritten : client.written < config.messageSize) (hreceived : client.received = [])
    (n : Int) : Answering config (client.send n) := by
  unfold Client.send
  split
  · exact ⟨hmessage, trivial⟩
  · refine ⟨hmessage, ?_⟩
    rw [hmessage, length_message]
    by_cases hlt : client.written + n.toNat < config.messageSize
    · simp only [hlt, if_true]
      exact ⟨trivial, hreceived⟩
    · simp only [hlt, if_false, hreceived, List.length_nil]
      exact Nat.lt_of_le_of_lt (Nat.zero_le _) hwritten

theorem answering_recv {client : Client} (hmessage : client.message = config.message)
    (hreceived : client.received.length < config.messageSize) {n : Int} {data : List Byte}
    (hwant : n ≤ client.want) (hdata : 0 < n → (data.length : Int) = n) :
    Answering config (client.recv n data) := by
  unfold Client.want at hwant
  rw [hmessage, length_message] at hwant
  unfold Client.recv
  split
  · exact ⟨hmessage, trivial⟩
  · rename_i hpos
    have hlength := hdata (by omega)
    have hle : client.received.length + data.length ≤ config.messageSize := by omega
    refine ⟨hmessage, ?_⟩
    rw [hmessage, length_message]
    by_cases hlt : client.received.length + data.length < config.messageSize
    · simp only [hlt, if_true, List.length_append]
    · simp only [hlt, if_false, List.length_append]
      omega

/-! ## Steps -/

theorem count_spec (stats : Stats) (why : Failure) :
    (stats.count why).failed = stats.failed + 1 ∧
      (stats.count why).success = stats.success ∧
      (stats.count why).bytesRead = stats.bytesRead := by
  cases why <;> refine ⟨?_, rfl, rfl⟩ <;> simp only [Stats.count, Stats.failed] <;> omega

/-- A step that leaves the counters alone. -/
theorem Balanced.quiet (hstats : s'.stats = s.stats) (hnext : s'.next = s.next)
    (hlatencies : s'.latenciesUs = s.latenciesUs) (hbusy : pc.busy = old.busy)
    (hbeyond : pc.beyond = old.beyond) (hbehind : pc.behind = old.behind)
    (hahead : pc.ahead = old.ahead) : Balanced config s s' old pc := by
  refine ⟨?_, ?_, ?_, ?_⟩
  · rw [hstats, hnext, hbusy]
  · rw [hnext, hbeyond]
  · rw [hstats, hlatencies, hbehind]
  · rw [hstats, hahead]

/-- A request goes on at `client`, from a place with the same counts. -/
theorem Inv.enter (h : Inv config s) (hw : w < config.concurrency) (hpc : s.workers w = old)
    {fd : Nat} {client : Client} (hanswering : Answering config client) (hfd : old.fd = some fd)
    (hbusy : old.busy = 1) (hbeyond : old.beyond = 0) (hbehind : old.behind = 0)
    (hahead : old.ahead = 0) : Inv config (s.goto w (enter fd client)) := by
  obtain ⟨hfd', hbusy', hbeyond', hbehind', hahead'⟩ := enter_counts fd client
  refine h.move hw hpc rfl ?_ (enter_sound hanswering fd)
    (fds_same h hpc rfl rfl (hfd'.trans hfd.symm))
  exact Balanced.quiet rfl rfl rfl (hbusy'.trans hbusy.symm) (hbeyond'.trans hbeyond.symm)
    (hbehind'.trans hbehind.symm) (hahead'.trans hahead.symm)

theorem inv_step (h : Inv config s) {l : Label} (hstep : (machine config).next s l = some s') :
    Inv config s' := by
  obtain ⟨w, ret, data⟩ := l
  simp only [machine] at hstep
  split at hstep
  · rename_i hw
    have hsound := h.sound w
    cases hpc : s.workers w with
    | fetch =>
      rw [hpc] at hstep
      obtain rfl := Option.some.inj hstep
      by_cases hid : s.next ≥ config.total
      · simp only [hid, if_true]
        refine h.move hw hpc rfl ?_ trivial (fds_same h hpc rfl rfl rfl)
        refine ⟨?_, ?_, rfl, rfl⟩
        all_goals simp only [State.goto, Pc.busy, Pc.beyond]
        all_goals omega
      · simp only [hid, if_false]
        refine h.move hw hpc rfl ?_ trivial (fds_same h hpc rfl rfl rfl)
        refine ⟨?_, ?_, rfl, rfl⟩
        all_goals simp only [State.goto, Pc.busy, Pc.beyond]
        all_goals omega
    | socket =>
      rw [hpc] at hstep
      simp only [step] at hstep
      split at hstep
      · obtain rfl := Option.some.inj hstep
        exact h.move hw hpc rfl (Balanced.quiet rfl rfl rfl rfl rfl rfl rfl) trivial
          (fds_same h hpc rfl rfl rfl)
      · split at hstep
        · cases hstep
        · rename_i hfree
          obtain rfl := Option.some.inj hstep
          refine h.move hw hpc rfl (Balanced.quiet rfl rfl rfl rfl rfl rfl rfl) trivial ?_
          rw [fd_update rfl]
          exact h.fds.opens (by rw [hpc]; rfl) hfree
    | connect fd =>
      rw [hpc] at hstep
      simp only [step] at hstep
      split at hstep
      · obtain rfl := Option.some.inj hstep
        exact h.move hw hpc rfl (Balanced.quiet rfl rfl rfl rfl rfl rfl rfl) trivial
          (fds_same h hpc rfl rfl rfl)
      · obtain rfl := Option.some.inj hstep
        exact h.enter hw hpc (answering_request config) rfl rfl rfl rfl rfl
    | request fd client =>
      rw [hpc] at hstep hsound
      obtain ⟨hmessage, ⟨hphase, hwritten, hreceived⟩ | ⟨hphase, hreceived⟩⟩ := hsound
      · simp only [step, hphase] at hstep
        split at hstep
        · obtain rfl := Option.some.inj hstep
          exact h.enter hw hpc (answering_send hmessage hwritten hreceived ret) rfl rfl rfl rfl rfl
        · cases hstep
      · simp only [step, hphase] at hstep
        split at hstep
        · rename_i hwant
          obtain rfl := Option.some.inj hstep
          have hanswering := answering_recv hmessage hreceived hwant.1 hwant.2
          exact h.enter hw hpc hanswering rfl rfl rfl rfl rfl
        · cases hstep
    | fail why fd =>
      rw [hpc] at hstep
      obtain rfl := Option.some.inj hstep
      have hcount := count_spec s.stats why
      have hbalanced : ∀ pc : Pc, pc.busy = 0 → pc.beyond = 0 → pc.behind = 0 → pc.ahead = 0 →
          Balanced config s ({ s with stats := s.stats.count why }.goto w pc) (.fail why fd)
            pc := by
        intro pc hbusy hbeyond hbehind hahead
        refine ⟨?_, ?_, ?_, ?_⟩
        · rw [hbusy]
          simp only [State.goto, hcount, Pc.busy]
          omega
        · rw [hbeyond]
          rfl
        · rw [hbehind]
          simp only [State.goto, hcount, Pc.behind]
        · rw [hahead]
          simp only [State.goto, hcount, Pc.ahead]
      -- with a socket the worker goes on to close it
      cases fd with
      | none =>
        refine h.move hw hpc rfl ?_ trivial (fds_same h hpc rfl rfl rfl)
        exact hbalanced .fetch rfl rfl rfl rfl
      | some fd =>
        refine h.move hw hpc rfl ?_ trivial (fds_same h hpc rfl rfl rfl)
        exact hbalanced (.closeFailed fd) rfl rfl rfl rfl
    | closeFailed fd =>
      rw [hpc] at hstep
      obtain rfl := Option.some.inj hstep
      refine h.move hw hpc rfl (Balanced.quiet rfl rfl rfl rfl rfl rfl rfl) trivial ?_
      rw [fd_update rfl]
      exact h.fds.closes (by rw [hpc]; rfl)
    | close fd bytes =>
      rw [hpc] at hstep hsound
      obtain rfl := Option.some.inj hstep
      refine h.move hw hpc rfl (Balanced.quiet rfl rfl rfl rfl rfl rfl rfl) hsound ?_
      rw [fd_update rfl]
      exact h.fds.closes (by rw [hpc]; rfl)
    | addBytes bytes =>
      rw [hpc] at hstep hsound
      obtain rfl := Option.some.inj hstep
      refine h.move hw hpc rfl ?_ trivial (fds_same h hpc rfl rfl rfl)
      refine ⟨rfl, rfl, rfl, ?_⟩
      obtain rfl : bytes = config.messageSize := hsound
      simp only [State.goto, Pc.ahead, Nat.mul_add]
      omega
    | addSuccess =>
      rw [hpc] at hstep
      obtain rfl := Option.some.inj hstep
      refine h.move hw hpc rfl ?_ trivial (fds_same h hpc rfl rfl rfl)
      refine ⟨?_, rfl, ?_, ?_⟩
      all_goals simp only [State.goto, Pc.busy, Pc.behind, Pc.ahead, Stats.failed]
      all_goals omega
    | pushLatency =>
      rw [hpc] at hstep
      obtain rfl := Option.some.inj hstep
      refine h.move hw hpc rfl ?_ trivial (fds_same h hpc rfl rfl rfl)
      refine ⟨rfl, rfl, ?_, rfl⟩
      simp only [State.goto, Pc.behind, List.length_append, List.length_singleton]
    | done =>
      rw [hpc] at hstep
      cases hstep
  · cases hstep

theorem inv_reachable (h : (machine config).Reachable s) : Inv config s := by
  refine h.invariant (machine config) ?_ fun _ _ _ hinv hstep => inv_step hinv hstep
  rintro s rfl
  have hzero : ∀ f : Pc → Nat, f .fetch = 0 → ({} : State).total config f = 0 := by
    intro f hf
    exact Finset.sum_eq_zero fun _ _ => hf
  refine ⟨?_, ?_, ?_, ?_, fun _ => trivial, fun _ _ => rfl, ⟨by simp [Pc.fd], ?_⟩⟩
  · rw [hzero Pc.busy rfl]
    simp [Stats.failed]
  · rw [hzero Pc.beyond rfl]
    simp
  · rw [hzero Pc.behind rfl]
    rfl
  · rw [hzero Pc.ahead rfl]
    rfl
  · intro i j x hi
    cases hi

theorem total_le (config : Config) (s : State) {f : Pc → Nat} (hf : ∀ pc, f pc ≤ 1) :
    s.total config f ≤ config.concurrency := by
  have hsum := Finset.sum_le_card_nsmul (Finset.range config.concurrency)
    (fun w => f (s.workers w)) 1 fun w _ => hf (s.workers w)
  simpa [State.total] using hsum

/-- The counters while the threads run, and what is true when they have been joined. -/
theorem Inv.bounded (h : Inv config s) :
    s.next ≤ config.total + config.concurrency ∧
      s.stats.success + s.stats.failed ≤ config.total ∧
      s.stats.bytesRead ≤ config.messageSize * config.total := by
  have hbeyond : s.total config Pc.beyond ≤ config.concurrency := by
    refine total_le config s ?_
    intro pc
    cases pc <;> simp [Pc.beyond]
  have hahead : s.total config Pc.ahead ≤ s.total config Pc.busy := by
    refine Finset.sum_le_sum ?_
    intro w _
    cases s.workers w <;> simp [Pc.ahead, Pc.busy]
  have htaken := h.taken
  refine ⟨?_, by omega, ?_⟩
  · have := h.beyond
    omega
  · rw [h.bytes]
    exact Nat.mul_le_mul_left _ (by omega)

theorem Inv.joined (h : Inv config s) (hpos : 1 ≤ config.concurrency)
    (hdone : ∀ w < config.concurrency, s.workers w = .done) :
    s.stats.success + s.stats.failed = config.total ∧
      s.stats.bytesRead = config.messageSize * s.stats.success ∧
      s.latenciesUs.length = s.stats.success ∧ s.openFds = ∅ := by
  have hsum : ∀ f : Pc → Nat, s.total config f = config.concurrency * f .done := by
    intro f
    have hall : ∀ w ∈ Finset.range config.concurrency, f (s.workers w) = f .done := by
      intro w hw
      rw [hdone w (Finset.mem_range.mp hw)]
    rw [State.total, Finset.sum_congr rfl hall]
    simp
  have htaken := h.taken
  have hbeyond := h.beyond
  have hlatencies := h.latencies
  have hbytes := h.bytes
  rw [hsum] at htaken hbeyond hlatencies hbytes
  simp only [Pc.busy, Pc.beyond, Pc.behind, Pc.ahead, Nat.mul_zero, Nat.mul_one, Nat.add_zero]
    at htaken hbeyond hlatencies hbytes
  refine ⟨by omega, hbytes, hlatencies, ?_⟩
  rw [Finset.eq_empty_iff_forall_notMem]
  intro x hx
  obtain ⟨w, hw⟩ := (h.fds.mem x).mp hx
  by_cases hlt : w < config.concurrency
  · rw [hdone w hlt] at hw
    cases hw
  · rw [h.others w (Nat.le_of_not_lt hlt)] at hw
    cases hw

/-- For every configuration that `parseArgs` returns and in every run of the threads, no counter
    overflows its type; and when the threads have been joined, the successes and failures add up
    to `total`, every success stands for a whole message and a latency, every socket is closed,
    and `main` returns 0 exactly if every request was answered. -/
theorem stats_add_up {args : List (List UInt8)} (hargs : parseArgs args = .ok config)
    (h : (machine config).Reachable s) :
    (s.next < 2 ^ 31 ∧ s.stats.success + s.stats.failed < 2 ^ 31 ∧ s.stats.bytesRead < 2 ^ 63) ∧
      ((∀ w < config.concurrency, s.workers w = .done) →
        s.stats.success + s.stats.failed = config.total ∧
        s.stats.bytesRead = config.messageSize * s.stats.success ∧
        s.latenciesUs.length = s.stats.success ∧ s.openFds = ∅ ∧
        (s.exitCode = 0 ↔ s.stats.success = config.total)) := by
  have hvalid := valid_of_parseArgs hargs
  have hinv := inv_reachable h
  obtain ⟨_, htotal⟩ := hvalid.total
  obtain ⟨_, hsize⟩ := hvalid.messageSize
  obtain ⟨hpos, hle⟩ := hvalid.concurrency
  obtain ⟨hnext, hcounted, hbytes⟩ := hinv.bounded
  refine ⟨⟨by omega, by omega, ?_⟩, ?_⟩
  · have hmul : config.messageSize * config.total ≤ 100000000 * 100000000 :=
      Nat.mul_le_mul hsize htotal
    omega
  · intro hdone
    obtain ⟨hsum, hread, hlatencies, hfds⟩ := hinv.joined hpos hdone
    refine ⟨hsum, hread, hlatencies, hfds, ?_⟩
    unfold State.exitCode
    split
    · rename_i hzero
      simp only [true_iff]
      omega
    · rename_i hfailed
      constructor
      · intro hcontra
        cases hcontra
      · intro hall
        omega

/-- The arguments `127.0.0.1 8080 2 2 1`. -/
def twoRequests : Config where
  total := 2
  concurrency := 2
  messageSize := 1

/-- One request is answered; the other worker gets no socket. -/
def oneAnswered : List Label :=
  [⟨0, 0, []⟩, ⟨1, 0, []⟩, ⟨0, 3, []⟩, ⟨1, -1, []⟩, ⟨0, 0, []⟩, ⟨0, 1, []⟩, ⟨1, 0, []⟩,
   ⟨0, 1, ['x'.toUInt8]⟩, ⟨1, 0, []⟩, ⟨0, 0, []⟩, ⟨0, 0, []⟩, ⟨0, 0, []⟩, ⟨0, 250, []⟩, ⟨0, 0, []⟩]

theorem stats_add_up_two :
    ∃ s, (machine twoRequests).run {} oneAnswered = some s ∧
      s.stats.success + s.stats.failed = 2 ∧ s.stats.bytesRead = 1 ∧ s.exitCode ≠ 0 := by
  have hargs : parseArgs [twoRequests.host, twoRequests.port, ['2'.toUInt8], ['2'.toUInt8],
      ['1'.toUInt8]] = .ok twoRequests := by decide +kernel
  have hfacts : ((machine twoRequests).run {} oneAnswered).map (fun s =>
      decide (((s.workers 0).beyond = 1 ∧ (s.workers 1).beyond = 1) ∧ s.stats.success = 1)) =
      some true := by
    decide +kernel
  obtain ⟨s, hrun, hs⟩ := Option.map_eq_some_iff.mp hfacts
  obtain ⟨hbeyond, hsuccess⟩ := of_decide_eq_true hs
  have hdone : ∀ w < twoRequests.concurrency, s.workers w = .done := by
    intro w hw
    have htwo : w = 0 ∨ w = 1 := by
      have hlt : w < 2 := hw
      omega
    have hw : (s.workers w).beyond = 1 := by
      rcases htwo with rfl | rfl
      · exact hbeyond.1
      · exact hbeyond.2
    cases hpc : s.workers w <;> rw [hpc] at hw <;> first | rfl | cases hw
  obtain ⟨_, hjoined⟩ := stats_add_up hargs ⟨{}, oneAnswered, rfl, hrun⟩
  obtain ⟨hsum, hbytes, _, _, hexit⟩ := hjoined hdone
  rw [hsuccess] at hbytes hexit
  refine ⟨s, hrun, hsum, hbytes, ?_⟩
  rw [Ne, hexit]
  decide

/-! ## The threads come to an end -/

/-- The steps that a worker can make before its next `fetch_add`, that one included. -/
def Pc.left (config : Config) : Pc → Nat
  | .done => 0
  | .fetch => 1
  | .closeFailed _ | .pushLatency => 2
  | .fail _ _ | .addSuccess => 3
  | .addBytes _ => 4
  | .close _ _ => 5
  | .request _ client =>
    6 + (config.messageSize - client.written) + (config.messageSize - client.received.length)
  | .connect _ => 7 + 2 * config.messageSize
  | .socket => 8 + 2 * config.messageSize

/-- The steps that all of them can make; each number that is left is a request. -/
def State.left (config : Config) (s : State) : Nat :=
  s.total config (Pc.left config) + (config.total - s.next) * (8 + 2 * config.messageSize)

theorem left_enter (config : Config) (fd : Nat) (client : Client) :
    (enter fd client).left config ≤
      6 + (config.messageSize - client.written) +
        (config.messageSize - client.received.length) := by
  unfold enter
  split <;> simp only [Pc.left] <;> omega

/-- Every `send` of `writeAll` that returns more than 0 writes something. -/
theorem left_send {client : Client} (hwritten : client.written < config.messageSize) (fd : Nat)
    (n : Int) :
    (enter fd (client.send n)).left config < (Pc.request fd client).left config := by
  unfold Client.send
  split
  · simp only [enter, Pc.left]
    omega
  · refine Nat.lt_of_le_of_lt (left_enter config fd _) ?_
    simp only [Pc.left]
    omega

/-- Every `recv` of `readExpected` that returns more than 0 reads something. -/
theorem left_recv {client : Client} (hreceived : client.received.length < config.messageSize)
    (fd : Nat) {n : Int} {data : List Byte} (hdata : 0 < n → (data.length : Int) = n) :
    (enter fd (client.recv n data)).left config < (Pc.request fd client).left config := by
  unfold Client.recv
  split
  · simp only [enter, Pc.left]
    omega
  · have hlength := hdata (by omega)
    refine Nat.lt_of_le_of_lt (left_enter config fd _) ?_
    simp only [Pc.left, List.length_append]
    omega

/-- A worker that takes no number has less to do. -/
theorem left_move (hw : w < config.concurrency) (hpc : s.workers w = old)
    (hworkers : s'.workers = Function.update s.workers w pc) (hnext : s'.next = s.next)
    (hleft : pc.left config < old.left config) : s'.left config < s.left config := by
  have hsum := total_update hw hworkers (Pc.left config)
  rw [hpc] at hsum
  unfold State.left
  rw [hnext]
  omega

theorem left_step (h : Inv config s) {l : Label} (hstep : (machine config).next s l = some s') :
    s'.left config < s.left config := by
  obtain ⟨w, ret, data⟩ := l
  simp only [machine] at hstep
  split at hstep
  · rename_i hw
    have hsound := h.sound w
    cases hpc : s.workers w with
    | fetch =>
      rw [hpc] at hstep
      obtain rfl := Option.some.inj hstep
      have hsum : ∀ pc, ({ s with next := s.next + 1 }.goto w pc).total config (Pc.left config) +
          1 = s.total config (Pc.left config) + pc.left config := by
        intro pc
        have hworkers : ({ s with next := s.next + 1 }.goto w pc).workers =
            Function.update s.workers w pc := rfl
        have hsum := total_update hw hworkers (Pc.left config)
        rw [hpc] at hsum
        exact hsum
      unfold State.left
      have hnext : ∀ pc, ({ s with next := s.next + 1 }.goto w pc).next = s.next + 1 :=
        fun _ => rfl
      rw [hnext]
      by_cases hid : s.next ≥ config.total
      · rw [if_pos hid]
        have hdone := hsum .done
        simp only [Pc.left] at hdone
        rw [Nat.sub_eq_zero_of_le hid, Nat.sub_eq_zero_of_le (Nat.le_succ_of_le hid)]
        omega
      · -- the request was counted with the numbers that are left
        rw [if_neg hid]
        have hsocket := hsum .socket
        simp only [Pc.left] at hsocket
        obtain ⟨k, hk⟩ : ∃ k, config.total - s.next = k + 1 :=
          ⟨config.total - s.next - 1, by omega⟩
        have hrest : config.total - (s.next + 1) = k := by omega
        rw [hk, hrest, Nat.add_mul, Nat.one_mul]
        omega
    | socket =>
      rw [hpc] at hstep
      simp only [step] at hstep
      split at hstep
      · obtain rfl := Option.some.inj hstep
        refine left_move hw hpc rfl rfl ?_
        simp only [Pc.left]
        omega
      · split at hstep
        · cases hstep
        · obtain rfl := Option.some.inj hstep
          refine left_move hw hpc rfl rfl ?_
          simp only [Pc.left]
          omega
    | connect fd =>
      rw [hpc] at hstep
      simp only [step] at hstep
      split at hstep
      · obtain rfl := Option.some.inj hstep
        refine left_move hw hpc rfl rfl ?_
        simp only [Pc.left]
        omega
      · obtain rfl := Option.some.inj hstep
        refine left_move hw hpc rfl rfl ?_
        refine Nat.lt_of_le_of_lt (left_enter config fd _) ?_
        simp only [Config.request, Pc.left, List.length_nil]
        omega
    | request fd client =>
      rw [hpc] at hstep hsound
      obtain ⟨_, ⟨hphase, hwritten, _⟩ | ⟨hphase, hreceived⟩⟩ := hsound
      · simp only [step, hphase] at hstep
        split at hstep
        · obtain rfl := Option.some.inj hstep
          exact left_move hw hpc rfl rfl (left_send hwritten fd ret)
        · cases hstep
      · simp only [step, hphase] at hstep
        split at hstep
        · rename_i hwant
          obtain rfl := Option.some.inj hstep
          exact left_move hw hpc rfl rfl (left_recv hreceived fd hwant.2)
        · cases hstep
    | fail why fd =>
      rw [hpc] at hstep
      obtain rfl := Option.some.inj hstep
      refine left_move hw hpc rfl rfl ?_
      cases fd <;> simp [Pc.left]
    | closeFailed fd =>
      rw [hpc] at hstep
      obtain rfl := Option.some.inj hstep
      refine left_move hw hpc rfl rfl ?_
      simp only [Pc.left]
      omega
    | close fd bytes =>
      rw [hpc] at hstep
      obtain rfl := Option.some.inj hstep
      refine left_move hw hpc rfl rfl ?_
      simp only [Pc.left]
      omega
    | addBytes bytes =>
      rw [hpc] at hstep
      obtain rfl := Option.some.inj hstep
      refine left_move hw hpc rfl rfl ?_
      simp only [Pc.left]
      omega
    | addSuccess =>
      rw [hpc] at hstep
      obtain rfl := Option.some.inj hstep
      refine left_move hw hpc rfl rfl ?_
      simp only [Pc.left]
      omega
    | pushLatency =>
      rw [hpc] at hstep
      obtain rfl := Option.some.inj hstep
      refine left_move hw hpc rfl rfl ?_
      simp only [Pc.left]
      omega
    | done =>
      rw [hpc] at hstep
      cases hstep
  · cases hstep

/-- A worker that is not done can go on, whatever the others do. -/
theorem enabled_of_not_done (h : Inv config s) (hw : w < config.concurrency)
    (hdone : s.workers w ≠ .done) :
    ∃ ret, ((machine config).next s ⟨w, ret, []⟩).isSome = true := by
  have hsound := h.sound w
  simp only [machine, hw, if_true]
  cases hpc : s.workers w with
  | fetch => exact ⟨0, rfl⟩
  | socket => exact ⟨-1, rfl⟩
  | connect fd => exact ⟨0, rfl⟩
  | request fd client =>
    rw [hpc] at hsound
    refine ⟨0, ?_⟩
    obtain ⟨_, ⟨hphase, _, _⟩ | ⟨hphase, _⟩⟩ := hsound
    · simp only [step, hphase]
      rw [if_pos (Int.natCast_nonneg _)]
      rfl
    · simp only [step, hphase]
      rw [if_pos ⟨Int.natCast_nonneg _, by simp⟩]
      rfl
  | fail why fd => exact ⟨0, rfl⟩
  | closeFailed fd => exact ⟨0, rfl⟩
  | close fd bytes => exact ⟨0, rfl⟩
  | addBytes bytes => exact ⟨0, rfl⟩
  | addSuccess => exact ⟨0, rfl⟩
  | pushLatency => exact ⟨0, rfl⟩
  | done => exact absurd hpc hdone

/-- Every run of the threads is finite, with a bound in the configuration, whatever the system
    calls return and however the threads interleave; a run that cannot go on has ended every
    thread, so `join` returns. -/
theorem workers_finish {ls : List Label} (hrun : (machine config).run {} ls = some s) :
    ls.length ≤ config.concurrency + config.total * (8 + 2 * config.messageSize) ∧
      ((∀ l, (machine config).next s l = none) →
        ∀ w < config.concurrency, s.workers w = .done) := by
  have hinit : (machine config).Reachable ({} : State) := Machine.Reachable.of_init _ rfl
  refine ⟨?_, ?_⟩
  · have hlength := Machine.length_add_rank_le (m := machine config) (I := Inv config)
      (P := fun _ _ => True) (State.left config)
      (fun s l s' hinv _ hstep => ⟨inv_step hinv hstep, left_step hinv hstep⟩)
      (inv_reachable hinit) ((machine config).along_of_forall (fun _ _ => trivial) _ ls) hrun
    have hstart : State.left config {} =
        config.concurrency + config.total * (8 + 2 * config.messageSize) := by
      simp [State.left, State.total, Pc.left]
    omega
  · intro hstuck w hw
    by_contra hdone
    obtain ⟨ret, hsome⟩ := enabled_of_not_done (inv_reachable (hinit.of_run _ hrun)) hw hdone
    rw [hstuck] at hsome
    cases hsome

theorem workers_finish_two :
    (∃ s, (machine twoRequests).run {} oneAnswered = some s) ∧ oneAnswered.length ≤ 2 + 2 * 10 := by
  have hsome : ((machine twoRequests).run {} oneAnswered).isSome = true := by decide +kernel
  obtain ⟨s, hrun⟩ := Option.isSome_iff_exists.mp hsome
  exact ⟨⟨s, hrun⟩, (workers_finish hrun).1⟩

end

end StressClient
