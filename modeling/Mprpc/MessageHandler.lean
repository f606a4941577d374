import Mprpc.FrameCodec
import Mprpc.Library.Incremental

namespace Mprpc

open Transport Library.ByteOrder Library.Incremental

/-- A handler, with the messages that its callback has been given so far. -/
structure MessageHandler where
  receiveBuffer : Bytes
  messageCallback : Bool
  delivered : List Bytes
deriving DecidableEq, Repr

namespace MessageHandler

def new (messageCallback : Bool) : MessageHandler := ⟨[], messageCallback, []⟩

def setMessageCallback (handler : MessageHandler) (callback : Bool) : MessageHandler :=
  { handler with messageCallback := callback }

/-- What a decoded frame does: its bytes are gone from the buffer, and the
callback, if there is one, has the message. -/
def deliver (handler : MessageHandler) (message rest : Bytes) : MessageHandler :=
  { handler with
    receiveBuffer := rest
    delivered := if handler.messageCallback then handler.delivered ++ [message]
      else handler.delivered }

/-- The loop of `handleData`. A decoded frame is never empty, so it ends. -/
def decodeLoop (handler : MessageHandler) : MessageHandler :=
  match h : FrameCodec.decode handler.receiveBuffer with
  | none => handler
  | some (message, rest) =>
    have := FrameCodec.decode_length h
    decodeLoop (handler.deliver message rest)
termination_by handler.receiveBuffer.length

def handleData (handler : MessageHandler) (data : Bytes) : MessageHandler :=
  if data.isEmpty then handler
  else decodeLoop { handler with receiveBuffer := handler.receiveBuffer ++ data }

/-- The states of a handler between two calls. -/
inductive Reachable : MessageHandler → Prop
  | new (messageCallback : Bool) : Reachable (new messageCallback)
  | handleData {handler : MessageHandler} (data : Bytes) :
    Reachable handler → Reachable (handler.handleData data)
  | setMessageCallback {handler : MessageHandler} (callback : Bool) :
    Reachable handler → Reachable (handler.setMessageCallback callback)

/-- The frames that `FrameCodec::decode` cuts off a stream. A header that is too
large is never got past: the decoder waits at it for good. -/
def plainFrames : Decoder UInt8 Bytes where
  next xs := match FrameCodec.decode xs with
    | none => .wait
    | some (message, rest) => .item message rest
  shrinks xs message rest h := by
    split at h
    · cases h
    · cases h
      exact FrameCodec.decode_length (by assumption)
  item_append xs message rest ys h := by
    split at h
    · cases h
    · cases h
      rw [FrameCodec.decode_append (by assumption)]
  broken_append xs ys h := by
    split at h <;> cases h

variable {handler : MessageHandler}

/-- The handler has nothing to decode, whatever arrived. -/
def Waiting (handler : MessageHandler) : Prop := FrameCodec.decode handler.receiveBuffer = none

theorem next_waiting (h : handler.Waiting) : plainFrames.next handler.receiveBuffer = .wait := by
  simp only [plainFrames, Waiting] at h ⊢
  rw [h]

theorem decodeLoop_none (h : FrameCodec.decode handler.receiveBuffer = none) :
    decodeLoop handler = handler := by
  rw [decodeLoop]
  split <;> simp_all

theorem decodeLoop_some {message rest : Bytes}
    (h : FrameCodec.decode handler.receiveBuffer = some (message, rest)) :
    decodeLoop handler = decodeLoop (handler.deliver message rest) := by
  rw [decodeLoop]
  split <;> simp_all

/-- The loop drains the buffer: no header breaks the stream for this decoder. -/
theorem decodeLoop_drain (handler : MessageHandler) :
    ∃ messages rest, plainFrames.drain handler.receiveBuffer = (messages, some rest) ∧
      decodeLoop handler = { handler with
        receiveBuffer := rest
        delivered := if handler.messageCallback then handler.delivered ++ messages
          else handler.delivered } := by
  induction handler using decodeLoop.induct with
  | case1 handler h =>
    refine ⟨[], handler.receiveBuffer, Decoder.drain_wait plainFrames (next_waiting h), ?_⟩
    simp [decodeLoop_none h]
  | case2 handler message rest h _ ih =>
    obtain ⟨messages, left, hdrain, hloop⟩ := ih
    have hnext : plainFrames.next handler.receiveBuffer = .item message rest := by
      simp only [plainFrames, h]
    refine ⟨message :: messages, left, ?_, ?_⟩
    · rw [Decoder.drain_item plainFrames hnext]
      exact Prod.ext (congrArg (message :: ·.1) hdrain) (congrArg (·.2) hdrain)
    · rw [decodeLoop_some h, hloop]
      cases hc : handler.messageCallback <;> simp [deliver, hc]

theorem decodeLoop_waiting (handler : MessageHandler) : (decodeLoop handler).Waiting := by
  induction handler using decodeLoop.induct with
  | case1 handler h => rwa [decodeLoop_none h]
  | case2 handler message rest h _ ih => rwa [decodeLoop_some h]

theorem Reachable.waiting (h : Reachable handler) : handler.Waiting := by
  induction h with
  | new messageCallback => rfl
  | handleData data _ ih =>
    unfold MessageHandler.handleData
    split
    · exact ih
    · exact decodeLoop_waiting _
  | setMessageCallback callback _ ih => exact ih

theorem handleData_drain (h : handler.Waiting) (data : Bytes) :
    ∃ messages rest, plainFrames.drain (handler.receiveBuffer ++ data) = (messages, some rest) ∧
      handler.handleData data = { handler with
        receiveBuffer := rest
        delivered := if handler.messageCallback then handler.delivered ++ messages
          else handler.delivered } := by
  cases data with
  | nil =>
    refine ⟨[], handler.receiveBuffer, ?_, by simp [handleData]⟩
    rw [List.append_nil, Decoder.drain_wait plainFrames (next_waiting h)]
  | cons byte data =>
    exact decodeLoop_drain { handler with receiveBuffer := handler.receiveBuffer ++ byte :: data }

theorem handleData_waiting (h : handler.Waiting) (data : Bytes) :
    (handler.handleData data).Waiting := by
  obtain ⟨messages, rest, hdrain, hrun⟩ := handleData_drain h data
  have hnext := Decoder.next_of_drain plainFrames hdrain
  rw [hrun]
  change FrameCodec.decode rest = none
  simp only [plainFrames] at hnext
  split at hnext
  · assumption
  · cases hnext

theorem handleData_append (h : handler.Waiting) (xs ys : Bytes) :
    (handler.handleData xs).handleData ys = handler.handleData (xs ++ ys) := by
  obtain ⟨front, left, hfront, hxs⟩ := handleData_drain h xs
  obtain ⟨back, rest, hback, hys⟩ := handleData_drain (handleData_waiting h xs) ys
  obtain ⟨messages, rest', hall, hboth⟩ := handleData_drain h (xs ++ ys)
  have hleft : (handler.handleData xs).receiveBuffer = left := by rw [hxs]
  rw [hleft] at hback
  rw [← List.append_assoc, Decoder.drain_append plainFrames hfront, hback] at hall
  obtain ⟨rfl, hrest⟩ := Prod.mk.inj hall
  cases hrest
  rw [hys, hboth, hxs]
  cases hc : handler.messageCallback <;> simp

theorem foldl_handleData (h : handler.Waiting) (chunks : List Bytes) :
    chunks.foldl handleData handler = handler.handleData chunks.flatten := by
  induction chunks generalizing handler with
  | nil => simp [handleData]
  | cons chunk chunks ih =>
    rw [List.foldl_cons, ih (handleData_waiting h chunk), handleData_append h, List.flatten_cons]

/-- The messages that the plain decoder takes back from the encoder. -/
def Codable (message : Bytes) : Prop :=
  1 ≤ message.length ∧ message.length ≤ 1024 * 1024 * 100

theorem Codable.ne_nil {message : Bytes} (h : Codable message) : message ≠ [] :=
  List.length_pos_iff.mp h.1

theorem plainFrames_inverts : plainFrames.Inverts FrameCodec.encode Codable where
  next_nil := rfl
  next_encode message ys h := by
    simp only [plainFrames, FrameCodec.decode_encode h.ne_nil h.2]
  next_short message xs h hp hx := by
    have hsize : message.length < 2 ^ 32 := by
      have hmax := h.2
      omega
    simp only [plainFrames, FrameCodec.decode_short h.ne_nil hsize hp hx]

/-- What arrives in pieces is delivered as if it had come at once, and what the
encoder made of messages is delivered as these messages. -/
theorem handleData_inverts_encode :
    (∀ handler, Reachable handler → ∀ chunks : List Bytes,
      chunks.foldl handleData handler = handler.handleData chunks.flatten) ∧
    ∀ handler, Reachable handler → handler.receiveBuffer = [] → handler.messageCallback = true →
      ∀ messages : List Bytes, (∀ m ∈ messages, 1 ≤ m.length ∧ m.length ≤ 100 * 1024 * 1024) →
      ∀ chunks : List Bytes, chunks.flatten = messages.flatMap FrameCodec.encode →
        (chunks.foldl handleData handler).delivered = handler.delivered ++ messages ∧
        (chunks.foldl handleData handler).receiveBuffer = [] := by
  refine ⟨fun handler h chunks => foldl_handleData h.waiting chunks, ?_⟩
  intro handler h hempty hcallback messages hm chunks hchunks
  obtain ⟨delivered, rest, hdrain, hrun⟩ := handleData_drain h.waiting chunks.flatten
  have hencoded := plainFrames_inverts.drain_encoded hm []
  rw [Decoder.drain_wait plainFrames plainFrames_inverts.next_nil, List.append_nil,
    List.append_nil] at hencoded
  rw [hempty, List.nil_append, hchunks, hencoded] at hdrain
  cases hdrain
  rw [foldl_handleData h.waiting, hrun, hcallback]
  exact ⟨rfl, rfl⟩

theorem handleData_inverts_encode_cut :
    Reachable (new true) ∧
    (([[0, 0], [0, 1, 65], [0, 0, 0, 1, 66]] : List Bytes).foldl handleData (new true) =
      (new true).handleData [[0, 0], [0, 1, 65], [0, 0, 0, 1, 66]].flatten ∧
    (([[0, 0], [0, 1, 65], [0, 0, 0, 1, 66]] : List Bytes).foldl handleData (new true)).delivered =
      [] ++ [[65], [66]]) := by
  have hreach : Reachable (new true) := .new true
  have hm : ∀ m ∈ ([[65], [66]] : List Bytes), 1 ≤ m.length ∧ m.length ≤ 100 * 1024 * 1024 := by
    simp
  refine ⟨hreach, handleData_inverts_encode.1 _ hreach _, ?_⟩
  exact (handleData_inverts_encode.2 _ hreach rfl rfl [[65], [66]] hm
    [[0, 0], [0, 1, 65], [0, 0, 0, 1, 66]] rfl).1

end MessageHandler

end Mprpc
