import Mathlib.Algebra.Group.Nat.Defs

namespace Mprpc.Transport

abbrev Bytes := List UInt8

/-- A `std::string` is a byte string; nothing guarantees that it is UTF-8. -/
abbrev Text := List UInt8

def text (s : String) : Text := s.toUTF8.data.toList

inductive ConnectionState
  | disconnected
  | connecting
  | connected
  | disconnecting
deriving DecidableEq, Repr

structure RpcRequest where
  requestId : UInt64 := 0
  serviceName : Text := []
  methodName : Text := []
  requestData : Bytes := []
deriving DecidableEq, Repr

structure RpcResponse where
  requestId : UInt64 := 0
  success : Bool := false
  errorMessage : Text := []
  responseData : Bytes := []
deriving DecidableEq, Repr

/-- The value of `errno` after a failed call. The errors that no code looks at
are told apart by the text `strerror` gives for them. -/
inductive Errno
  | eagain
  | ewouldblock
  | eintr
  | other (message : Text)
deriving DecidableEq, Repr

def strerror : Errno → Text
  | .eagain | .ewouldblock => text "Resource temporarily unavailable"
  | .eintr => text "Interrupted system call"
  | .other message => message

def Errno.wouldBlock (e : Errno) : Bool := e = .eagain || e = .ewouldblock

/-- The ways a function can end without returning: it throws, it reaches
outside its storage, or its loop does not stop. A vector throws `lengthError`
when it is asked for more elements than it can have. -/
inductive Fault
  | runtimeError (what : Text)
  | lengthError
  | outOfRange
  | outOfFuel
deriving DecidableEq, Repr

/-- The result of one `readv`: end-of-file is a read of no bytes. -/
inductive Readv
  | bytes (data : Bytes)
  | error (errno : Errno)
deriving DecidableEq, Repr

def Readv.size : Readv → Nat
  | .bytes data => data.length
  | .error _ => 0

/-- The result of one `send`: zero bytes means that the peer closed. -/
inductive SendResult
  | sent (n : Nat)
  | error (errno : Errno)
deriving DecidableEq, Repr

def SendResult.size : SendResult → Nat
  | .sent n => n
  | .error _ => 0

/-- What one `recv` meets: some number of bytes to take from the stream, the
end of the stream, or an error. -/
inductive Recv
  | ready (n : Nat)
  | closed
  | error (errno : Errno)
deriving DecidableEq, Repr

def Recv.delivers : Recv → Bool
  | .ready n => 0 < n
  | _ => false

/-- A call that finds nothing to read yet. -/
def Recv.waits : Recv → Bool
  | .ready n => n = 0
  | .error errno => errno.wouldBlock
  | .closed => false

/-- Unsigned 64-bit arithmetic of `size_t`. -/
def wrap (n : Nat) : Nat := n % 2 ^ 64

def wrapSub (a b : Nat) : Nat := wrap (2 ^ 64 + a - b)

theorem wrap_of_lt {n : Nat} (h : n < 2 ^ 64) : wrap n = n := Nat.mod_eq_of_lt h

theorem wrapSub_of_le {a b : Nat} (hb : b ≤ a) (ha : a < 2 ^ 64) : wrapSub a b = a - b := by
  unfold wrapSub wrap
  omega

end Mprpc.Transport
