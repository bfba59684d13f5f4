import Mymuduo.Net.ConnectionNames

/-! # EventLoopThreadPool

    The loops of a server and the choice among them.  `getNextLoop` goes round the loops of
    the threads; `loops_[next_]` is an access without a check, so it is a partial function
    here, and `Sound` is why it is defined.

    `Loop` stands for `EventLoop*`.
-/

structure EventLoopThreadPool (Loop : Type) where
  baseLoop_ : Loop
  name_ : List Byte
  started_ : Bool := false
  numThreads_ : Int := 0
  next_ : Nat := 0
  /-- The threads, by their names. -/
  threads_ : List (List Byte) := []
  loops_ : List Loop := []

namespace EventLoopThreadPool

variable {Loop : Type}

/-! ## Definitions -/

/-- `EventLoopThreadPool(baseLoop, nameArg)`. -/
def ctor (baseLoop : Loop) (nameArg : List Byte) : EventLoopThreadPool Loop where
  baseLoop_ := baseLoop
  name_ := nameArg

def setThreadNum (p : EventLoopThreadPool Loop) (numThreads : Int) : EventLoopThreadPool Loop :=
  { p with numThreads_ := numThreads }

/-- `snprintf(buf, sizeof buf, "%s%d", name_.c_str(), i)` with a `buf` of `name_.size() + 32`
    bytes. -/
def threadName (name_ : List Byte) (i : Nat) : List Byte :=
  ConnectionNames.snprintf (name_.length + 32) (ConnectionNames.cString name_ ++ numeral i)

/-- The body of the loop of `start`: the thread, and the loop that `startLoop` returned. -/
def pushThread (p : EventLoopThreadPool Loop) (i : Nat) : EventLoopThreadPool Loop :=
  { p with threads_ := p.threads_ ++ [threadName p.name_ i] }

def pushLoop (p : EventLoopThreadPool Loop) (loop : Loop) : EventLoopThreadPool Loop :=
  { p with loops_ := p.loops_ ++ [loop] }

/-- `start(cb)`, where the `i`-th thread comes up with `startLoop i`; `true` says that `cb` is
    called with the base loop. -/
def start (p : EventLoopThreadPool Loop) (cb : Bool) (startLoop : Nat → Loop) :
    EventLoopThreadPool Loop × Bool :=
  ((List.range p.numThreads_.toNat).foldl (fun p i => (p.pushThread i).pushLoop (startLoop i))
    { p with started_ := true }, p.numThreads_ = 0 ∧ cb)

def getNextLoop (p : EventLoopThreadPool Loop) : Option (Loop × EventLoopThreadPool Loop) :=
  if p.loops_ = [] then some (p.baseLoop_, p)
  else
    p.loops_[p.next_]?.map fun loop =>
      (loop, { p with next_ := if p.next_ + 1 ≥ p.loops_.length then 0 else p.next_ + 1 })

def getAllLoops (p : EventLoopThreadPool Loop) : List Loop :=
  if p.loops_ = [] then [p.baseLoop_] else p.loops_

/-! ## The next loop -/

theorem getNextLoop_base {p : EventLoopThreadPool Loop} (h : p.loops_ = []) :
    p.getNextLoop = some (p.baseLoop_, p) :=
  if_pos h

/-- The wrap-around is a remainder. -/
theorem getNextLoop_thread {p : EventLoopThreadPool Loop} (h : p.next_ < p.loops_.length) :
    p.getNextLoop = some (p.loops_[p.next_],
      { p with next_ := (p.next_ + 1) % p.loops_.length }) := by
  have hne : p.loops_ ≠ [] := List.ne_nil_of_length_pos (by omega)
  have hwrap : (if p.next_ + 1 ≥ p.loops_.length then 0 else p.next_ + 1) =
      (p.next_ + 1) % p.loops_.length := by
    split
    · rename_i hge
      have hlast : p.next_ + 1 = p.loops_.length := by omega
      rw [hlast, Nat.mod_self]
    · rw [Nat.mod_eq_of_lt (by omega)]
  rw [getNextLoop, if_neg hne, List.getElem?_eq_getElem h, Option.map_some, hwrap]

/-! ## start -/

theorem foldl_push (startLoop : Nat → Loop) (k : Nat) (p : EventLoopThreadPool Loop)
    (hthreads : p.threads_ = []) (hloops : p.loops_ = []) :
    (List.range k).foldl (fun p i => (p.pushThread i).pushLoop (startLoop i)) p =
      { p with
        threads_ := (List.range k).map (threadName p.name_)
        loops_ := (List.range k).map startLoop } := by
  induction k with
  | zero => simp [← hthreads, ← hloops]
  | succ k ih =>
    rw [List.range_succ, List.foldl_append, ih]
    simp [pushThread, pushLoop]

/-- A new pool after `start`: the loops of its threads in the order of their numbers. -/
theorem start_loops (baseLoop : Loop) (name : List Byte) (numThreads : Int) (cb : Bool)
    (startLoop : Nat → Loop) :
    (((ctor baseLoop name).setThreadNum numThreads).start cb startLoop).1 =
      { baseLoop_ := baseLoop, name_ := name, started_ := true, numThreads_ := numThreads,
        threads_ := (List.range numThreads.toNat).map (threadName name)
        loops_ := (List.range numThreads.toNat).map startLoop } := by
  unfold start
  rw [foldl_push startLoop _ _ rfl rfl]
  rfl

end EventLoopThreadPool
