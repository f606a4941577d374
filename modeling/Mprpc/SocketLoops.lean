import Mprpc.Library.Loop
import Mprpc.Transport

namespace Mprpc

open Transport Library.Loop

/-- The variables of the loop that `readExactly` runs. The bytes read so far are
the filled part of `data`, so their number is `total_read`. -/
structure Reading where
  length : Nat
  data : Bytes
  retryCount : Nat
deriving DecidableEq, Repr

inductive ReadOutcome
  | complete (data : Bytes)
  | timedOut
  | disconnected
deriving DecidableEq, Repr

/-- The result of one `recv`. -/
inductive Received
  | bytes (data : Bytes)
  | closed
  | error (errno : Errno)
deriving DecidableEq, Repr

/-- One `recv` of at most `want` bytes from the bytes that have arrived. -/
def recv (want : Nat) (incoming : Bytes) : Recv → Received × Bytes
  | .ready n =>
    let data := incoming.take (min n want)
    if data.isEmpty then (.error .eagain, incoming)
    else (.bytes data, incoming.drop (min n want))
  | .closed => (.closed, incoming)
  | .error errno => (.error errno, incoming)

namespace Reading

def maxRetries : Nat := 5000

def check (loop : Reading) : Progress Reading ReadOutcome :=
  if loop.data.length < loop.length then .again loop else .done (.complete loop.data)

def start (length : Nat) : Progress Reading ReadOutcome := check ⟨length, [], 0⟩

def remaining (loop : Reading) : Nat := loop.length - loop.data.length

/-- One round of the loop, from the result of its `recv` on. -/
def attempt (loop : Reading) : Received → Progress Reading ReadOutcome
  | .bytes data => check { loop with data := loop.data ++ data, retryCount := 0 }
  | .closed => .done .disconnected
  | .error .eintr => .again loop
  | .error .eagain | .error .ewouldblock =>
    if maxRetries < loop.retryCount + 1 then .done .timedOut
    else .again { loop with retryCount := loop.retryCount + 1 }
  | .error (.other _) => .done .disconnected

end Reading

/-- The variables of the loop that writes a frame to a socket. -/
structure Sending where
  data : Bytes
  totalSent : Nat
deriving DecidableEq, Repr

inductive SendOutcome
  | complete
  | failed (errorMsg : Text)
deriving DecidableEq, Repr

namespace Sending

def check (loop : Sending) : Progress Sending SendOutcome :=
  if loop.totalSent < loop.data.length then .again loop else .done .complete

def start (data : Bytes) : Progress Sending SendOutcome := check ⟨data, 0⟩

def remaining (loop : Sending) : Bytes := loop.data.drop loop.totalSent

def attempt (loop : Sending) : SendResult → Progress Sending SendOutcome
  | .sent 0 => .done (.failed (text "Connection closed by peer"))
  | .sent (n + 1) => check { loop with totalSent := loop.totalSent + (n + 1) }
  | .error errno =>
    if errno.wouldBlock then .again loop
    else .done (.failed (text "Send failed: " ++ strerror errno))

/-- What the call puts on the wire. -/
def put (loop : Sending) : SendResult → Bytes
  | .sent n => loop.remaining.take n
  | .error _ => []

theorem put_eq (loop : Sending) (result : SendResult) :
    loop.put result = loop.remaining.take result.size := by
  cases result with
  | sent n => rfl
  | error errno => exact List.take_zero.symm

theorem attempt_eq {loop : Sending} (h : loop.totalSent < loop.data.length) (result : SendResult) :
    (∃ errorMsg, loop.attempt result = .done (.failed errorMsg)) ∨
      loop.attempt result = check { loop with totalSent := loop.totalSent + result.size } := by
  cases result with
  | sent n =>
    cases n with
    | zero => exact .inl ⟨_, rfl⟩
    | succ n => exact .inr rfl
  | error errno =>
    by_cases hw : errno.wouldBlock
    · right
      have hcheck : check loop = .again loop := if_pos h
      simp [attempt, hw, SendResult.size, hcheck]
    · exact .inl ⟨text "Send failed: " ++ strerror errno, by simp [attempt, hw]⟩

end Sending

end Mprpc
