import Mathlib.Data.List.Basic

/-! # What the kernel answers

    The outcomes of the system calls the library makes on a socket.  They are
    inputs of the model: every definition that performs a call takes the
    outcome as an argument, and results quantify over all outcomes the call
    can have.
-/

abbrev Byte := UInt8

/-- The values of `errno` the library tells apart. -/
inductive Errno where
  | EWOULDBLOCK
  | EPIPE
  | ECONNRESET
  | other (code : Nat)
  deriving DecidableEq, Repr

/-- The outcome of `::write`: the value returned and `errno` after the call
    (left over from an earlier call when this one did not fail). -/
structure WriteResult where
  ret : Int
  errno : Errno
  /-- `errno` once the caller has logged the failure.  `LOG_ERROR` calls `localtime` and the
      output function of the log (`fwrite` to stdout), and these may set it. -/
  logged : Errno
  deriving DecidableEq, Repr

/-- `n` bytes are accepted; `errno` is left over from an earlier call. -/
def WriteResult.wrote (n : Nat) : WriteResult := ⟨n, .EWOULDBLOCK, .EWOULDBLOCK⟩

/-- What `::write(fd, data, len)` can return on a socket: for non-empty data a
    count from 1 to `len` or -1, for empty data 0 or -1. -/
def WriteResult.Possible (r : WriteResult) (len : Nat) : Prop :=
  r.ret = -1 ∨ (0 < len ∧ 1 ≤ r.ret ∧ r.ret ≤ len) ∨ (len = 0 ∧ r.ret = 0)

instance (r : WriteResult) (len : Nat) : Decidable (r.Possible len) :=
  inferInstanceAs (Decidable (_ ∨ _))

/-- EPIPE or ECONNRESET: the peer is gone. -/
def Errno.fatal : Errno → Bool
  | .EPIPE | .ECONNRESET => true
  | _ => false

theorem Errno.fatal_iff {e : Errno} : e.fatal = true ↔ e = .EPIPE ∨ e = .ECONNRESET := by
  cases e <;> simp [Errno.fatal]

/-- The bytes of `data` the kernel accepted in a `::write` of it. -/
def WriteResult.accepted (r : WriteResult) (data : List Byte) : List Byte :=
  data.take r.ret.toNat

/-- The outcome of `::readv`: a failure with its `errno`, or the bytes
    delivered. -/
inductive ReadvResult where
  | failed (errno : Errno)
  | read (data : List Byte)
  deriving DecidableEq, Repr
