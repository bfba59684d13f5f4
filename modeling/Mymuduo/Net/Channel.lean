import Mathlib.Data.BitVec

/-! # Channel

    A file descriptor with the events it is interested in.  The masks are the
    source's 32-bit ones.  `Channel::update()` calls into the poller; the
    functions below change the mask, and their callers say that the poller was
    called (`Mymuduo.Net.TcpConnection`).
-/

abbrev EventMask := BitVec 32

def EPOLLIN : EventMask := 0x001#32
def EPOLLPRI : EventMask := 0x002#32
def EPOLLOUT : EventMask := 0x004#32
def EPOLLERR : EventMask := 0x008#32
def EPOLLHUP : EventMask := 0x010#32

/-- `channel->index()`: where the poller has the channel. -/
inductive Index where
  /-- -1: not known to the poller. -/
  | kNew
  /-- 1: in `channels_` and in the epoll set. -/
  | kAdded
  /-- 2: in `channels_`, taken out of the epoll set. -/
  | kDeleted
  deriving DecidableEq, Repr

/-- `Channel`: descriptor, masks, poller index and whether it is tied to its
    owner. -/
structure Channel where
  fd_ : Nat
  events_ : EventMask := 0
  revents_ : EventMask := 0
  index_ : Index := .kNew
  tied_ : Bool := false
  deriving DecidableEq, Repr

namespace Channel

def kNoneEvent : EventMask := 0
def kReadEvent : EventMask := EPOLLIN ||| EPOLLPRI
def kWriteEvent : EventMask := EPOLLOUT

def enableReading (c : Channel) : Channel := { c with events_ := c.events_ ||| kReadEvent }
def disableReading (c : Channel) : Channel := { c with events_ := c.events_ &&& ~~~kReadEvent }
def enableWriting (c : Channel) : Channel := { c with events_ := c.events_ ||| kWriteEvent }
def disableWriting (c : Channel) : Channel := { c with events_ := c.events_ &&& ~~~kWriteEvent }
def disableAll (c : Channel) : Channel := { c with events_ := kNoneEvent }

def isNoneEvent (c : Channel) : Bool := c.events_ == kNoneEvent
def isWriting (c : Channel) : Bool := c.events_ &&& kWriteEvent != 0
def isReading (c : Channel) : Bool := c.events_ &&& kReadEvent != 0

/-- `tie`: remember the owner weakly. -/
def tie (c : Channel) : Channel := { c with tied_ := true }

/-! ## The mask bits -/

theorem or_and_self (e m : EventMask) : (e ||| m) &&& m = m := by
  rw [BitVec.and_comm, BitVec.or_comm]
  ext i
  simp
  tauto

@[simp] theorem isWriting_enableWriting (c : Channel) : c.enableWriting.isWriting = true := by
  simp only [isWriting, enableWriting, or_and_self]
  decide

@[simp] theorem isWriting_disableWriting (c : Channel) : c.disableWriting.isWriting = false := by
  simp only [isWriting, disableWriting]
  -- the mask meets its own complement
  rw [BitVec.and_assoc]
  simp

/-- A mask is not changed by setting bits it does not have. -/
theorem or_and_of_disjoint {m n : EventMask} (h : m &&& n = 0) (e : EventMask) :
    (e ||| m) &&& n = e &&& n := by
  rw [BitVec.and_or_distrib_right, h]
  exact BitVec.or_zero

@[simp] theorem isWriting_enableReading (c : Channel) :
    c.enableReading.isWriting = c.isWriting := by
  have hmask := or_and_of_disjoint (m := kReadEvent) (n := kWriteEvent) (by decide) c.events_
  simp only [isWriting, enableReading, hmask]

@[simp] theorem isReading_enableReading (c : Channel) : c.enableReading.isReading = true := by
  simp only [isReading, enableReading, or_and_self]
  decide

@[simp] theorem isReading_enableWriting (c : Channel) :
    c.enableWriting.isReading = c.isReading := by
  have hmask := or_and_of_disjoint (m := kWriteEvent) (n := kReadEvent) (by decide) c.events_
  simp only [isReading, enableWriting, hmask]

@[simp] theorem isReading_disableWriting (c : Channel) :
    c.disableWriting.isReading = c.isReading := by
  have hmask : ~~~kWriteEvent &&& kReadEvent = kReadEvent := by decide
  simp only [isReading, disableWriting, BitVec.and_assoc, hmask]

/-- A channel that watches for input watches for something. -/
theorem isNoneEvent_of_isReading {c : Channel} (h : c.isReading = true) :
    c.isNoneEvent = false := by
  cases hnone : c.isNoneEvent with
  | false => rfl
  | true =>
    have hzero : c.events_ = kNoneEvent := by simpa [isNoneEvent] using hnone
    simp [isReading, hzero, kNoneEvent] at h

end Channel
