import Mprpc.ServerFraming
import Mprpc.Session

namespace Mprpc.SessionStream

open Transport RpcProtocolHelper Session ServerFraming Library.Loop

variable {pb : Protobuf} {s t : Session}

section Behind

/-- The session with more bytes at the front of the stream to the server, and with the answers
on record. -/
def behind (front : Bytes) (answers : List (Nat × Bytes)) (s : Session) : Session :=
  { s with toServer := front ++ s.toServer, answered := answers }

/-- The progress of a loop that writes behind those bytes. -/
def moved {α β : Type} (front : Bytes) (p : Progress (α × Bytes) (β × Bytes)) :
    Progress (α × Bytes) (β × Bytes) :=
  p.map (Prod.map id (front ++ ·)) (Prod.map id (front ++ ·))

variable (front : Bytes) (answers : List (Nat × Bytes))

theorem finish_behind (s : Session) (received : Option Bytes) :
    finish pb (behind front answers s) received = behind front answers (finish pb s received) := by
  cases received with
  | none => rfl
  | some data =>
    dsimp only [finish]
    cases parseResponse pb data <;> rfl

theorem onBody_behind (s : Session) (p : Progress (Reading × Bytes) (ReadOutcome × Bytes)) :
    onBody pb (behind front answers s) p = behind front answers (onBody pb s p) := by
  cases p with
  | again s' => rfl
  | done result =>
    obtain ⟨outcome, incoming⟩ := result
    cases outcome with
    | complete data => exact finish_behind front answers { s with incoming := incoming } (some data)
    | timedOut => rfl
    | disconnected => rfl

theorem onHeader_behind (s : Session) (p : Progress (Reading × Bytes) (ReadOutcome × Bytes)) :
    onHeader pb (behind front answers s) p = behind front answers (onHeader pb s p) := by
  cases p with
  | again s' => rfl
  | done result =>
    obtain ⟨outcome, incoming⟩ := result
    cases outcome with
    | complete lengthBytes =>
      dsimp only [onHeader]
      split
      · rfl
      · exact onBody_behind front answers { s with incoming := incoming } _
    | timedOut => rfl
    | disconnected => rfl

theorem receive_behind (s : Session) :
    Session.receive pb (behind front answers s) =
      behind front answers (Session.receive pb s) := by
  have hstate : (behind front answers s).state = s.state := rfl
  rw [Session.receive, Session.receive, hstate]
  by_cases hs : s.state = .connected
  · rw [if_neg (not_not_intro hs), if_neg (not_not_intro hs)]
    exact onHeader_behind front answers s _
  · rw [if_pos hs, if_pos hs]
    rfl

theorem onSent_behind (s : Session) (p : Progress (Sending × Bytes) (SendOutcome × Bytes)) :
    onSent pb (behind front answers s) (moved front p) = behind front answers (onSent pb s p) := by
  cases p with
  | again s' => rfl
  | done result =>
    obtain ⟨outcome, toServer⟩ := result
    cases outcome with
    | complete => exact receive_behind front answers { s with toServer := toServer }
    | failed errorMsg => rfl

theorem sendRound_behind (loop : Sending) (toServer : Bytes) (result : SendResult) :
    TcpClient.sendRound (loop, front ++ toServer) result =
      moved front (TcpClient.sendRound (loop, toServer) result) := by
  unfold TcpClient.sendRound moved
  cases loop.attempt result <;> simp [Progress.map]

theorem beginCall_behind (s : Session) (request : RpcRequest) :
    beginCall pb (behind front answers s) request =
      behind front answers (beginCall pb s request) := by
  unfold beginCall
  cases serializeRequest pb request with
  | error e => rfl
  | ok payload =>
    dsimp only
    by_cases hs : s.state = .connected
    · have hpost : post (behind front answers s) payload =
          behind front answers (post s payload) := by
        unfold post
        split <;> rfl
      have hstart : (Sending.start (FrameCodec.encode payload)).map
          (·, (behind front answers s).toServer) (·, (behind front answers s).toServer) =
          moved front ((Sending.start (FrameCodec.encode payload)).map
            (·, s.toServer) (·, s.toServer)) := by
        cases Sending.start (FrameCodec.encode payload) <;> rfl
      have hs' : (behind front answers s).state = .connected := hs
      rw [if_neg (not_not_intro hs), if_neg (not_not_intro hs'), hpost, hstart]
      exact onSent_behind front answers (post s payload) _
    · have hs' : (behind front answers s).state ≠ .connected := hs
      rw [if_pos hs, if_pos hs']
      rfl

/-- What is under way in front of it makes no difference to the client. -/
theorem step_behind (s : Session) {act : Act} (h : ∀ reply, act ≠ .answer reply) :
    step pb (behind front answers s) act = (step pb s act).map (behind front answers) := by
  obtain ⟨state, phase, toServer, incoming, calls, pending, answered, returned⟩ := s
  cases act with
  | call request =>
    cases phase with
    | idle =>
      let s' : Session :=
        ⟨state, .idle, toServer, incoming, calls + 1, pending, answered, returned⟩
      exact congrArg some (beginCall_behind front answers s' request)
    | _ => rfl
  | send result =>
    cases phase with
    | sending loop =>
      have hround := sendRound_behind front loop toServer result
      exact congrArg some ((congrArg (onSent pb _) hround).trans (onSent_behind front answers _ _))
    | _ => rfl
  | answer reply => exact absurd rfl (h reply)
  | recv outcome =>
    cases phase with
    | header loop => exact congrArg some (onHeader_behind front answers _ _)
    | body loop => exact congrArg some (onBody_behind front answers _ _)
    | _ => rfl

end Behind

/-- The frames of some requests, one behind the other. -/
def framesOf (pending : List (Nat × Bytes)) : Bytes :=
  pending.flatMap fun p => FrameCodec.encode p.2

theorem framesOf_append (first second : List (Nat × Bytes)) :
    framesOf (first ++ second) = framesOf first ++ framesOf second := List.flatMap_append

/-- A loop that writes a frame, and the part of it that is on the stream. -/
def Writes (frame : Bytes) (s : Sending × Bytes) : Prop :=
  s.1.data = frame ∧ s.1.totalSent < frame.length ∧ s.2 = frame.take s.1.totalSent

def Wrote (frame : Bytes) (result : SendOutcome × Bytes) : Prop :=
  result.2 <+: frame ∧ (result.1 = .complete → result.2 = frame)

/-- The stream to the server consists of the frames of the requests without an answer. The last
one is cut short while it is being written, and for good when that has failed. -/
structure Streamed (s : Session) : Prop where
  framable : ∀ p ∈ s.pending, Framable p.2
  cut : s.toServer <+: framesOf s.pending
  whole : s.state = .connected → (∀ loop, s.phase ≠ .sending loop) → s.toServer = framesOf s.pending
  sending : ∀ loop, s.phase = .sending loop → ∃ before payload part,
    s.pending = before ++ [(s.calls, payload)] ∧ s.toServer = framesOf before ++ part ∧
      Writes (FrameCodec.encode payload) (loop, part)

/-- The client goes on without writing anything. -/
structure Silent (s t : Session) : Prop where
  pending : t.pending = s.pending
  toServer : t.toServer = s.toServer
  calls : t.calls = s.calls
  connected : t.state = .connected → s.state = .connected
  phase : ∀ loop, t.phase ≠ .sending loop

section Silent

theorem finish_silent (pb : Protobuf) (s : Session) (received : Option Bytes) :
    Silent s (finish pb s received) := by
  cases received with
  | none => exact ⟨rfl, rfl, rfl, id, fun _ h => by cases h⟩
  | some data =>
    dsimp only [finish]
    cases parseResponse pb data <;> exact ⟨rfl, rfl, rfl, id, fun _ h => by cases h⟩

theorem onBody_silent (pb : Protobuf) (s : Session)
    (p : Progress (Reading × Bytes) (ReadOutcome × Bytes)) :
    Silent s (onBody pb s p) := by
  cases p with
  | again s' => exact ⟨rfl, rfl, rfl, id, fun _ h => by cases h⟩
  | done result =>
    obtain ⟨outcome, incoming⟩ := result
    cases outcome with
    | complete data =>
      obtain ⟨hpending, hstream, hcalls, hstate, hphase⟩ :=
        finish_silent pb { s with incoming := incoming } (some data)
      exact ⟨hpending, hstream, hcalls, hstate, hphase⟩
    | timedOut => exact ⟨rfl, rfl, rfl, id, fun _ h => by cases h⟩
    | disconnected => exact ⟨rfl, rfl, rfl, (fun h => by cases h), fun _ h => by cases h⟩

theorem onHeader_silent (pb : Protobuf) (s : Session)
    (p : Progress (Reading × Bytes) (ReadOutcome × Bytes)) :
    Silent s (onHeader pb s p) := by
  cases p with
  | again s' => exact ⟨rfl, rfl, rfl, id, fun _ h => by cases h⟩
  | done result =>
    obtain ⟨outcome, incoming⟩ := result
    cases outcome with
    | complete lengthBytes =>
      dsimp only [onHeader]
      split
      · exact ⟨rfl, rfl, rfl, id, fun _ h => by cases h⟩
      · obtain ⟨hpending, hstream, hcalls, hstate, hphase⟩ :=
          onBody_silent pb { s with incoming := incoming } ((Reading.start
            (Library.ByteOrder.byteSwap 4 (Library.ByteOrder.ofLittleEndian lengthBytes))).map
              (·, incoming) (·, incoming))
        exact ⟨hpending, hstream, hcalls, hstate, hphase⟩
    | timedOut => exact ⟨rfl, rfl, rfl, id, fun _ h => by cases h⟩
    | disconnected => exact ⟨rfl, rfl, rfl, (fun h => by cases h), fun _ h => by cases h⟩

theorem receive_silent (pb : Protobuf) (s : Session) : Silent s (Session.receive pb s) := by
  unfold Session.receive
  split
  · exact finish_silent pb s none
  · exact onHeader_silent pb s _

/-- A client that writes nothing keeps a stream that is whole. -/
theorem Silent.streamed (h : Silent s t) (hframable : ∀ p ∈ s.pending, Framable p.2)
    (hcut : s.toServer <+: framesOf s.pending)
    (hwhole : s.state = .connected → s.toServer = framesOf s.pending) : Streamed t := by
  refine ⟨?_, ?_, ?_, fun loop hphase => absurd hphase (h.phase loop)⟩
  · rw [h.pending]
    exact hframable
  · rw [h.pending, h.toServer]
    exact hcut
  · intro hstate _
    rw [h.pending, h.toServer]
    exact hwhole (h.connected hstate)

end Silent

section Writing

variable {frame : Bytes}

theorem check_writes (loop : Sending) (hdata : loop.data = frame) :
    (loop.check.map (·, frame.take loop.totalSent) (·, frame.take loop.totalSent)).Holds
      (Writes frame) (Wrote frame) := by
  unfold Sending.check
  by_cases hlt : loop.totalSent < loop.data.length
  · rw [if_pos hlt]
    exact ⟨hdata, hdata ▸ hlt, rfl⟩
  · rw [if_neg hlt]
    refine ⟨List.take_prefix _ _, ?_⟩
    intro _
    rw [hdata, Nat.not_lt] at hlt
    exact List.take_of_length_le hlt

theorem sendRound_writes {loop : Sending} {part : Bytes} (h : Writes frame (loop, part))
    (result : SendResult) :
    (TcpClient.sendRound (loop, part) result).Holds (Writes frame) (Wrote frame) := by
  obtain ⟨hdata, hlt, hpart⟩ := h
  dsimp only at hdata hlt hpart
  have hput : part ++ loop.put result = frame.take (loop.totalSent + result.size) := by
    rw [Sending.put_eq, Sending.remaining, hdata, hpart, ← List.take_add]
  unfold TcpClient.sendRound
  dsimp only
  rw [hput]
  obtain ⟨errorMsg, hfail⟩ | hcheck := Sending.attempt_eq (hdata ▸ hlt) result
  · rw [hfail]
    exact ⟨List.take_prefix _ _, fun hcomplete => by cases hcomplete⟩
  · rw [hcheck]
    exact check_writes { loop with totalSent := loop.totalSent + result.size } hdata

theorem onSent_streamed {before : List (Nat × Bytes)} {payload : Bytes}
    (hpending : s.pending = before ++ [(s.calls, payload)])
    (hframable : ∀ p ∈ s.pending, Framable p.2)
    {p : Progress (Sending × Bytes) (SendOutcome × Bytes)}
    (hp : p.Holds (Writes (FrameCodec.encode payload)) (Wrote (FrameCodec.encode payload))) :
    Streamed (onSent pb s (moved (framesOf before) p)) := by
  have hframes : framesOf s.pending = framesOf before ++ FrameCodec.encode payload := by
    rw [hpending, framesOf_append]
    exact congrArg (framesOf before ++ ·) (List.append_nil _)
  cases p with
  | again s' =>
    obtain ⟨loop, part⟩ := s'
    refine ⟨hframable, ?_, fun _ hphase => absurd rfl (hphase loop), ?_⟩
    · change framesOf before ++ part <+: framesOf s.pending
      have hpart : part = (FrameCodec.encode payload).take loop.totalSent := hp.2.2
      rw [hframes, List.prefix_append_right_inj, hpart]
      exact List.take_prefix _ _
    · intro loop' hphase
      cases hphase
      exact ⟨before, payload, part, hpending, rfl, hp⟩
  | done result =>
    obtain ⟨outcome, part⟩ := result
    have hcut : framesOf before ++ part <+: framesOf s.pending := by
      rw [hframes, List.prefix_append_right_inj]
      exact hp.1
    cases outcome with
    | complete =>
      have hpart : part = FrameCodec.encode payload := hp.2 rfl
      exact (receive_silent pb { s with toServer := framesOf before ++ part }).streamed
        hframable hcut
        fun _ => by rw [hframes, ← hpart]
    | failed errorMsg =>
      refine ⟨hframable, hcut, ?_, ?_⟩
      · intro hstate
        cases hstate
      · intro loop hphase
        cases hphase

end Writing

section Steps

/-- The frame of a request fits what the server takes. -/
def Sized (pb : Protobuf) : Act → Prop
  | .call request => ∀ payload, serializeRequest pb request = .ok payload →
      payload.length ≤ TcpConnection.maxFrameSize
  | _ => True

theorem beginCall_streamed (streamed : Streamed s) (hphase : s.phase = .idle)
    {request : RpcRequest} (hsized : Sized pb (.call request)) :
    Streamed (beginCall pb { s with calls := s.calls + 1 } request) := by
  have hwhole : s.state = .connected → s.toServer = framesOf s.pending := fun hstate =>
    streamed.whole hstate fun loop h => by rw [hphase] at h; cases h
  unfold beginCall
  cases hserialize : serializeRequest pb request with
  | error e => exact (finish_silent pb _ none).streamed streamed.framable streamed.cut hwhole
  | ok payload =>
    dsimp only
    by_cases hs : s.state = .connected
    · rw [if_neg (not_not_intro hs)]
      by_cases hpayload : payload = []
      · rw [hpayload]
        exact (receive_silent pb { s with calls := s.calls + 1 }).streamed streamed.framable
          streamed.cut hwhole
      · have hpost : post { s with calls := s.calls + 1 } payload =
            { s with calls := s.calls + 1, pending := s.pending ++ [(s.calls + 1, payload)] } :=
          if_neg (by rwa [List.isEmpty_iff])
        have hframable : ∀ p ∈ s.pending ++ [(s.calls + 1, payload)], Framable p.2 := by
          intro p hp
          cases List.mem_append.mp hp with
          | inl hold => exact streamed.framable p hold
          | inr hnew =>
            rw [List.mem_singleton.mp hnew]
            exact ⟨List.length_pos_of_ne_nil hpayload, hsized payload hserialize⟩
        have hstart : (Sending.start (FrameCodec.encode payload)).map
            (·, s.toServer) (·, s.toServer) =
            moved (framesOf s.pending) ((Sending.start (FrameCodec.encode payload)).map
              (·, (FrameCodec.encode payload).take 0) (·, (FrameCodec.encode payload).take 0)) := by
          rw [hwhole hs, List.take_zero]
          cases Sending.start (FrameCodec.encode payload) <;> simp [moved, Progress.map]
        rw [hpost, hstart]
        exact onSent_streamed (s := { s with
          calls := s.calls + 1
          pending := s.pending ++ [(s.calls + 1, payload)] }) rfl hframable
          (check_writes ⟨FrameCodec.encode payload, 0⟩ rfl)
    · rw [if_pos hs]
      exact (finish_silent pb _ none).streamed streamed.framable streamed.cut hwhole

theorem answer_streamed (streamed : Streamed s) {number : Nat} {payload reply : Bytes}
    {pending : List (Nat × Bytes)} (hpending : s.pending = (number, payload) :: pending)
    (hframe : FrameCodec.encode payload <+: s.toServer) :
    Streamed (answer s number payload pending reply) := by
  obtain ⟨rest, hrest⟩ := hframe
  have hdrop : s.toServer.drop (FrameCodec.encode payload).length = rest := by
    rw [← hrest, List.drop_left]
  have hframes : framesOf s.pending = FrameCodec.encode payload ++ framesOf pending := by
    rw [hpending]
    rfl
  refine ⟨?_, ?_, ?_, ?_⟩
  · intro p hp
    exact streamed.framable p (hpending ▸ List.mem_cons_of_mem _ hp)
  · have hcut := streamed.cut
    rw [← hrest, hframes, List.prefix_append_right_inj] at hcut
    change s.toServer.drop _ <+: framesOf pending
    rwa [hdrop]
  · intro hstate hphase
    have hwhole := streamed.whole hstate hphase
    rw [← hrest, hframes, List.append_cancel_left_eq] at hwhole
    exact hdrop.trans hwhole
  · intro loop hphase
    obtain ⟨before, payload', part, hbefore, hstream, hwrites⟩ := streamed.sending loop hphase
    cases before with
    | nil =>
      -- the frame that is being written is not whole yet
      rw [hpending] at hbefore
      cases hbefore
      obtain ⟨_, hlt, hpart⟩ := hwrites
      have hlen := congrArg List.length (hrest.trans hstream)
      dsimp only at hlt hpart
      change (FrameCodec.encode payload ++ rest).length = ([] ++ part).length at hlen
      rw [List.length_append, List.nil_append, hpart, List.length_take] at hlen
      omega
    | cons p before =>
      rw [hpending] at hbefore
      cases hbefore
      have hpart : rest = framesOf before ++ part := by
        have hsplit := hrest.trans hstream
        change FrameCodec.encode payload ++ rest = FrameCodec.encode payload ++ _ ++ part at hsplit
        rw [List.append_assoc] at hsplit
        exact List.append_cancel_left hsplit
      exact ⟨before, payload', part, rfl, hdrop.trans hpart, hwrites⟩

theorem step_streamed (streamed : Streamed s) {act : Act} (hsized : Sized pb act)
    (h : step pb s act = some t) : Streamed t := by
  have hwhole : (∀ loop, s.phase ≠ .sending loop) → s.state = .connected →
      s.toServer = framesOf s.pending := fun hphase hstate => streamed.whole hstate hphase
  cases moves_of_step h with
  | call hphase => exact beginCall_streamed streamed hphase hsized
  | @send result loop hphase =>
    obtain ⟨before, payload, part, hpending, hstream, hwrites⟩ := streamed.sending loop hphase
    rw [hstream, sendRound_behind]
    exact onSent_streamed hpending streamed.framable (sendRound_writes hwrites _)
  | answer hpending hframe => exact answer_streamed streamed hpending hframe
  | header hphase =>
    exact (onHeader_silent pb s _).streamed streamed.framable streamed.cut
      (hwhole fun loop h => by rw [hphase] at h; cases h)
  | body hphase =>
    exact (onBody_silent pb s _).streamed streamed.framable streamed.cut
      (hwhole fun loop h => by rw [hphase] at h; cases h)

theorem initial_streamed : Streamed initial :=
  ⟨(fun _ h => by cases h), List.prefix_rfl, (fun _ _ => rfl), fun _ h => by cases h⟩

end Steps

end Mprpc.SessionStream
