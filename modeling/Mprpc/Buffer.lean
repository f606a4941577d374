import Mprpc.Library.ByteOrder
import Mprpc.Transport

namespace Mprpc

open Transport Library.ByteOrder

structure Buffer where
  buffer : Bytes
  readerIndex : Nat
  writerIndex : Nat
deriving DecidableEq, Repr

namespace Buffer

def kInitialSize : Nat := 1024
def kPrependSize : Nat := 8
def kMaxBufferSize : Nat := 64 * 1024 * 1024

/-- The size of the array on the stack that takes what the buffer has no room for. -/
def extraBufSize : Nat := 65536

/-- `max_size` of a vector of bytes. -/
def vectorMaxSize : Nat := 2 ^ 63 - 1

def new (initialSize : Nat) : Buffer :=
  ⟨List.replicate (wrap (kPrependSize + initialSize)) 0, kPrependSize, kPrependSize⟩

/-- The constructor: the vector refuses a size it cannot have. -/
def construct (initialSize : Nat) : Except Fault Buffer :=
  if vectorMaxSize < wrap (kPrependSize + initialSize) then .error .lengthError
  else .ok (new initialSize)

def readableBytes (b : Buffer) : Nat := wrapSub b.writerIndex b.readerIndex

def writableBytes (b : Buffer) : Nat := wrapSub b.buffer.length b.writerIndex

def prependableBytes (b : Buffer) : Nat := b.readerIndex

def capacity (b : Buffer) : Nat := b.buffer.length

/-- The state of the buffer survives a throw, so a failed call can be compared
with the buffer it left behind. -/
abbrev Action := EStateM Fault Buffer

/-- An access to the bytes from `off` to `off + len` of the storage. -/
def checkRange (off len : Nat) : Action Unit := do
  let b ← get
  if b.buffer.length < off + len then throw .outOfRange

def load (off len : Nat) : Action Bytes := do
  checkRange off len
  let b ← get
  return (b.buffer.drop off).take len

def store (off : Nat) (data : Bytes) : Action Unit := do
  checkRange off data.length
  modify fun b =>
    { b with buffer := b.buffer.take off ++ data ++ b.buffer.drop (off + data.length) }

def memmove (dst src len : Nat) : Action Unit := do
  let data ← load src len
  store dst data

def resize (size : Nat) : Action Unit := do
  if vectorMaxSize < size then throw .lengthError
  modify fun b =>
    { b with buffer := b.buffer.take size ++ List.replicate (size - b.buffer.length) 0 }

def retrieveAll (b : Buffer) : Buffer :=
  { b with readerIndex := kPrependSize, writerIndex := kPrependSize }

def retrieve (b : Buffer) (len : Nat) : Buffer :=
  if len < b.readableBytes then { b with readerIndex := wrap (b.readerIndex + len) }
  else b.retrieveAll

def retrieveAsVector (len : Nat) : Action Bytes := do
  let b ← get
  let len := if b.readableBytes < len then b.readableBytes else len
  let result ← load b.readerIndex len
  modify (·.retrieve len)
  return result

def retrieveAsString (len : Nat) : Action Text := do
  let b ← get
  let len := if b.readableBytes < len then b.readableBytes else len
  let result ← load b.readerIndex len
  modify (·.retrieve len)
  return result

/-- `ntohs`, `ntohl` and `be64toh` on a little-endian host. Integers of any
other size are left as they are. -/
def networkToHost (width value : Nat) : Nat :=
  if width = 1 then value
  else if width = 2 ∨ width = 4 ∨ width = 8 then byteSwap width value
  else value

/-- `htons`, `htonl` and `htobe64` on a little-endian host. -/
def hostToNetwork (width value : Nat) : Nat :=
  if width = 1 then value
  else if width = 2 ∨ width = 4 ∨ width = 8 then byteSwap width value
  else value

def peekInt (width : Nat) : Action Nat := do
  let b ← get
  if b.readableBytes < width then
    throw (.runtimeError (text "Buffer has insufficient data for peekInt"))
  let value ← load b.readerIndex width
  return networkToHost width (ofLittleEndian value)

def readInt (width : Nat) : Action Nat := do
  let value ← peekInt width
  modify (·.retrieve width)
  return value

def makeSpace (len : Nat) : Action Unit := do
  let b ← get
  if wrap (b.writableBytes + b.prependableBytes) < wrap (len + kPrependSize) then
    let newSize := wrap (b.writerIndex + len)
    if kMaxBufferSize < newSize then
      throw (.runtimeError (text "Buffer size exceeds maximum limit"))
    resize newSize
  else
    let readable := b.readableBytes
    memmove kPrependSize b.readerIndex readable
    modify fun b =>
      { b with readerIndex := kPrependSize, writerIndex := wrap (kPrependSize + readable) }

def ensureWritableBytes (len : Nat) : Action Unit := do
  let b ← get
  if b.writableBytes < len then makeSpace len

def hasWritten (len : Nat) : Action Unit :=
  modify fun b => { b with writerIndex := wrap (b.writerIndex + len) }

def append (data : Bytes) : Action Unit := do
  ensureWritableBytes data.length
  let b ← get
  store b.writerIndex data
  hasWritten data.length

def appendInt (width value : Nat) : Action Unit :=
  append (littleEndian width (hostToNetwork width value))

def prepend (data : Bytes) : Action Unit := do
  let b ← get
  if b.prependableBytes < data.length then
    throw (.runtimeError (text "Not enough prepend space"))
  let readerIndex := wrapSub b.readerIndex data.length
  modify fun b => { b with readerIndex := readerIndex }
  store readerIndex data

def prependInt (width value : Nat) : Action Unit :=
  prepend (littleEndian width (hostToNetwork width value))

/-- The live bytes move before the storage gets its new size. -/
def shrink (reserve : Nat) : Action Unit := do
  let b ← get
  let readable := b.readableBytes
  memmove kPrependSize b.readerIndex readable
  modify fun b =>
    { b with readerIndex := kPrependSize, writerIndex := wrap (kPrependSize + readable) }
  resize (wrap (wrap (kPrependSize + readable) + reserve))

/-- How many bytes `readFromFd` asks of one `readv`. The stack array is offered
only when the writable space is the smaller of the two. -/
def offered (b : Buffer) : Nat :=
  if b.writableBytes < extraBufSize then b.writableBytes + extraBufSize else b.writableBytes

/-- The outcome of `readv` in, its return value and the saved `errno` out. -/
def readFromFd (result : Readv) : Action (Int × Option Errno) := do
  let b ← get
  let writable := b.writableBytes
  checkRange b.writerIndex writable
  match result with
  | .error errno => return (-1, some errno)
  | .bytes data =>
    store b.writerIndex (data.take writable)
    if data.length ≤ writable then
      hasWritten data.length
    else
      modify fun b => { b with writerIndex := b.buffer.length }
      append (data.drop writable)
    return (data.length, none)

end Buffer

end Mprpc
