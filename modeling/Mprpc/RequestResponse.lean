import Mprpc.ClientReads
import Mprpc.EnvelopeWire
import Mprpc.Session

namespace Mprpc.RequestResponse

open Transport RpcProtocolHelper TcpClient ClientReads Session
open Library.ByteOrder Library.Loop Library.Transition

variable (pb : Protobuf)

/-- Every response that a call returned is the answer to the request of that call. -/
def Matched (s : Session) : Prop :=
  ∀ number response, (number, response) ∈ s.returned →
    ∃ reply, (number, reply) ∈ s.answered ∧ parseResponse pb reply = .ok response

/-- A call on an open connection finds nothing under way from an earlier one. -/
def Fresh (s : Session) : Act → Prop
  | .call _ => s.state = .connected → s.toServer = [] ∧ s.incoming = []
  | _ => True

/-- The frames of the requests that are not answered fill the stream to the server. -/
def Queued (s : Session) : Prop :=
  s.toServer = s.pending.flatMap (fun p => FrameCodec.encode p.2) ∧ ∀ p ∈ s.pending, p.2 ≠ []

def Quiet (s : Session) : Prop := s.pending = [] ∧ s.toServer = []

def Unanswered (s : Session) : Prop :=
  ∃ payload, payload ≠ [] ∧ s.pending = [(s.calls, payload)] ∧
    s.toServer = FrameCodec.encode payload

def Answered (s : Session) (reply : Bytes) : Prop :=
  Quiet s ∧ (s.calls, reply) ∈ s.answered ∧ reply.length < 2 ^ 31

/-- What the server has sent for the current call. -/
def Due (s : Session) (stream : Bytes) : Prop :=
  stream = [] ∧ (Unanswered s ∨ Quiet s) ∨
    ∃ reply, Answered s reply ∧ stream = FrameCodec.encode reply

/-- A loop that writes a frame to the stream, which was empty before. -/
def Writing (frame : Bytes) (s : Sending × Bytes) : Prop :=
  s.1.data = frame ∧ s.1.totalSent < frame.length ∧ s.2 = frame.take s.1.totalSent

def Written (frame : Bytes) (result : SendOutcome × Bytes) : Prop :=
  result.1 = .complete → result.2 = frame

def InPhase (s : Session) : Phase → Prop
  | .idle => s.state = .connected → Queued s
  | .sending loop => s.incoming = [] ∧ ∃ payload, payload ≠ [] ∧ s.pending = [(s.calls, payload)] ∧
      Writing (FrameCodec.encode payload) (loop, s.toServer)
  | .header loop => ∃ stream, Due s stream ∧ Within 4 stream (loop, s.incoming)
  | .body loop => ∃ reply, Answered s reply ∧ Within reply.length reply (loop, s.incoming)

structure Inv (s : Session) : Prop where
  matched : Matched pb s
  phase : InPhase s s.phase

variable {pb} {s : Session}

theorem Quiet.queued (h : Quiet s) : Queued s := by
  refine ⟨?_, ?_⟩
  · rw [h.1, h.2]
    rfl
  · rw [h.1]
    intro p hp
    cases hp

theorem Unanswered.queued (h : Unanswered s) : Queued s := by
  obtain ⟨payload, hpayload, hpending, hstream⟩ := h
  refine ⟨?_, ?_⟩
  · rw [hstream, hpending, List.flatMap_cons, List.flatMap_nil, List.append_nil]
  · rw [hpending]
    intro p hp
    rw [List.mem_singleton.mp hp]
    exact hpayload

theorem Due.queued {stream : Bytes} (h : Due s stream) : Queued s := by
  obtain ⟨_, h | h⟩ | ⟨_, h, _⟩ := h
  · exact h.queued
  · exact h.queued
  · exact h.1.queued

theorem Quiet.ne_cons (h : Quiet s) (p : Nat × Bytes) (pending : List (Nat × Bytes)) :
    s.pending ≠ p :: pending := by
  rw [h.1]
  exact (List.cons_ne_nil p pending).symm

theorem Queued.quiet (h : Queued s) (hempty : s.toServer = []) : Quiet s := by
  refine ⟨?_, hempty⟩
  cases hpending : s.pending with
  | nil => rfl
  | cons p pending =>
    obtain ⟨hstream, hpayloads⟩ := h
    rw [hempty, hpending, List.flatMap_cons] at hstream
    have hp := hpayloads p (by rw [hpending]; exact List.mem_cons_self)
    have hlen := FrameCodec.encode_length hp
    rw [(List.append_eq_nil_iff.mp hstream.symm).1] at hlen
    cases Nat.add_comm 4 _ ▸ hlen

theorem giveUp_inv (hm : Matched pb s) (hq : s.state = .connected → Queued s) :
    Inv pb (finish pb s none) := ⟨hm, hq⟩

theorem accept_inv (hm : Matched pb s) (hq : s.state = .connected → Queued s) {data : Bytes}
    (hdata : (s.calls, data) ∈ s.answered) : Inv pb (finish pb s (some data)) := by
  dsimp only [finish]
  cases hparse : parseResponse pb data with
  | error e => exact ⟨hm, hq⟩
  | ok response =>
    refine ⟨?_, hq⟩
    intro number response' hreturned
    cases List.mem_append.mp hreturned with
    | inl hold => exact hm number response' hold
    | inr hnew =>
      cases List.mem_singleton.mp hnew
      exact ⟨data, hdata, hparse⟩

theorem lost_inv (hm : Matched pb s) : Inv pb (lost pb s) := by
  refine ⟨hm, ?_⟩
  intro hstate
  cases hstate

theorem onBody_inv (hm : Matched pb s) {reply : Bytes} (ha : Answered s reply)
    {p : Progress (Reading × Bytes) (ReadOutcome × Bytes)}
    (hp : p.Holds (Within reply.length reply) (Exact reply.length reply)) :
    Inv pb (onBody pb s p) := by
  have hq : s.state = .connected → Queued s := fun _ => ha.1.queued
  cases p with
  | again s' => exact ⟨hm, reply, ha, hp⟩
  | done result =>
    obtain ⟨outcome, incoming⟩ := result
    cases outcome with
    | complete data =>
      obtain ⟨hlen, hstream⟩ := hp data rfl
      have hdata : data = reply :=
        (List.append_inj (hstream.trans (List.append_nil reply).symm) hlen).1
      have hanswered : (s.calls, data) ∈ s.answered := hdata ▸ ha.2.1
      exact accept_inv (s := { s with incoming := incoming }) hm hq hanswered
    | timedOut => exact giveUp_inv (s := { s with incoming := incoming }) hm hq
    | disconnected => exact lost_inv (s := { s with incoming := incoming }) hm

theorem onHeader_inv (hm : Matched pb s) {stream : Bytes} (hd : Due s stream)
    {p : Progress (Reading × Bytes) (ReadOutcome × Bytes)}
    (hp : p.Holds (Within 4 stream) (Exact 4 stream)) : Inv pb (onHeader pb s p) := by
  have hgiveUp : ∀ incoming, Inv pb (finish pb { s with incoming := incoming } none) := by
    intro incoming
    exact giveUp_inv (s := { s with incoming := incoming }) hm (fun _ => hd.queued)
  cases p with
  | again s' => exact ⟨hm, stream, hd, hp⟩
  | done result =>
    obtain ⟨outcome, incoming⟩ := result
    cases outcome with
    | timedOut => exact hgiveUp incoming
    | disconnected => exact lost_inv (s := { s with incoming := incoming }) hm
    | complete lengthBytes =>
      obtain ⟨hlen, hstream⟩ := hp lengthBytes rfl
      dsimp only at hstream
      obtain ⟨hempty, _⟩ | ⟨reply, ha, hframe⟩ := hd
      · rw [hempty] at hstream
        rw [(List.append_eq_nil_iff.mp hstream).1] at hlen
        cases hlen
      · rw [hframe] at hstream
        obtain ⟨_, hheader, hrest⟩ := FrameCodec.encode_split hlen hstream
        have hshort := ha.2.2
        have hvalue := FrameCodec.header_value (n := reply.length) (by omega)
        rw [← hheader] at hvalue
        dsimp only [onHeader]
        rw [hvalue, hrest]
        split
        · exact hgiveUp reply
        · exact onBody_inv (s := { s with incoming := reply }) hm ha
            (start_holds reply.length reply)

theorem receive_inv (hm : Matched pb s) (hd : Due s []) (hincoming : s.incoming = []) :
    Inv pb (Session.receive pb s) := by
  unfold Session.receive
  split
  · exact giveUp_inv hm (fun _ => hd.queued)
  · rw [hincoming]
    exact onHeader_inv hm hd (start_holds 4 [])

theorem check_writing {frame : Bytes} (loop : Sending) {toServer : Bytes}
    (hdata : loop.data = frame) (hstream : toServer = frame.take loop.totalSent) :
    (loop.check.map (·, toServer) (·, toServer)).Holds (Writing frame) (Written frame) := by
  unfold Sending.check
  by_cases hlt : loop.totalSent < loop.data.length
  · rw [if_pos hlt]
    exact ⟨hdata, hdata ▸ hlt, hstream⟩
  · rw [if_neg hlt]
    intro _
    rw [hdata, Nat.not_lt] at hlt
    exact hstream.trans (List.take_of_length_le hlt)

theorem sendRound_writing {frame : Bytes} (loop : Sending) (toServer : Bytes) (result : SendResult)
    (h : Writing frame (loop, toServer)) :
    (sendRound (loop, toServer) result).Holds (Writing frame) (Written frame) := by
  obtain ⟨hdata, hlt, hstream⟩ := h
  dsimp only at hdata hlt hstream
  unfold sendRound
  obtain ⟨errorMsg, hfail⟩ | hcheck := Sending.attempt_eq (hdata ▸ hlt) result
  · dsimp only
    rw [hfail]
    intro hcomplete
    cases hcomplete
  · dsimp only
    rw [hcheck]
    apply check_writing { loop with totalSent := loop.totalSent + result.size } hdata
    rw [Sending.put_eq, Sending.remaining, hdata, hstream, ← List.take_add]

theorem onSent_inv (hm : Matched pb s) (hincoming : s.incoming = []) {payload : Bytes}
    (hpayload : payload ≠ []) (hpending : s.pending = [(s.calls, payload)])
    {p : Progress (Sending × Bytes) (SendOutcome × Bytes)}
    (hp : p.Holds (Writing (FrameCodec.encode payload)) (Written (FrameCodec.encode payload))) :
    Inv pb (onSent pb s p) := by
  cases p with
  | again s' => exact ⟨hm, hincoming, payload, hpayload, hpending, hp⟩
  | done result =>
    obtain ⟨outcome, toServer⟩ := result
    cases outcome with
    | complete =>
      have hdue : Due { s with toServer := toServer } [] :=
        .inl ⟨rfl, .inl ⟨payload, hpayload, hpending, hp rfl⟩⟩
      exact receive_inv (s := { s with toServer := toServer }) hm hdue hincoming
    | failed errorMsg => exact lost_inv (s := { s with toServer := toServer }) hm

theorem beginCall_inv (hm : Matched pb s) (hq : s.state = .connected → Queued s)
    (hfresh : s.state = .connected → s.toServer = [] ∧ s.incoming = []) (request : RpcRequest) :
    Inv pb (beginCall pb s request) := by
  unfold beginCall
  cases serializeRequest pb request with
  | error e => exact giveUp_inv hm hq
  | ok payload =>
    dsimp only
    by_cases hstate : s.state = .connected
    · obtain ⟨hout, hin⟩ := hfresh hstate
      have hquiet := (hq hstate).quiet hout
      rw [if_neg (not_not_intro hstate)]
      by_cases hpayload : payload = []
      · rw [hpayload, hout]
        exact receive_inv (s := { s with toServer := [] }) hm (.inl ⟨rfl, .inr ⟨hquiet.1, rfl⟩⟩) hin
      · have hpost : post s payload = { s with pending := [(s.calls, payload)] } := by
          rw [post, if_neg (by rwa [List.isEmpty_iff]), hquiet.1, List.nil_append]
        rw [hpost, hout]
        exact onSent_inv (s := { s with pending := [(s.calls, payload)] }) hm hin hpayload rfl
          (check_writing _ rfl List.take_zero.symm)
    · rw [if_pos hstate]
      exact giveUp_inv hm hq

section Answer

variable {number : Nat} {payload reply : Bytes} {pending : List (Nat × Bytes)}

theorem Matched.answer (h : Matched pb s) : Matched pb (answer s number payload pending reply) := by
  intro number' response hreturned
  obtain ⟨reply', hreply, hparse⟩ := h number' response hreturned
  exact ⟨reply', List.mem_append_left _ hreply, hparse⟩

theorem Queued.answer (h : Queued s) (hpending : s.pending = (number, payload) :: pending) :
    Queued (answer s number payload pending reply) := by
  obtain ⟨hstream, hpayloads⟩ := h
  rw [hpending] at hstream hpayloads
  refine ⟨?_, fun p hp => hpayloads p (List.mem_cons_of_mem _ hp)⟩
  dsimp only [Session.answer]
  rw [hstream, List.flatMap_cons, List.drop_left]

/-- The answer to the only request is the one that its call waits for. -/
theorem Due.answer {stream : Bytes} (h : Due s stream)
    (hpending : s.pending = (number, payload) :: pending) (hlen : reply.length < 2 ^ 31) :
    stream = [] ∧ Due (answer s number payload pending reply) (FrameCodec.encode reply) := by
  obtain ⟨hempty, hunanswered | hquiet⟩ | ⟨_, ha, _⟩ := h
  · obtain ⟨payload', _, hpending', hstream⟩ := hunanswered
    rw [hpending] at hpending'
    cases hpending'
    refine ⟨hempty, .inr ⟨reply, ⟨⟨rfl, ?_⟩, ?_, hlen⟩, rfl⟩⟩
    · dsimp only [Session.answer]
      rw [hstream, List.drop_length]
    · exact List.mem_append_right _ (List.mem_singleton.mpr rfl)
  · exact absurd hpending (hquiet.ne_cons _ _)
  · exact absurd hpending (ha.1.ne_cons _ _)

theorem answer_inPhase (h : InPhase s s.phase) (hpending : s.pending = (number, payload) :: pending)
    (hframe : FrameCodec.encode payload <+: s.toServer) (hlen : reply.length < 2 ^ 31) :
    InPhase (answer s number payload pending reply) s.phase := by
  cases hcase : s.phase with
  | idle =>
    rw [hcase] at h
    exact fun hstate => (h hstate).answer hpending
  | sending loop =>
    rw [hcase] at h
    obtain ⟨_, payload', _, hpending', _, hlt, hstream⟩ := h
    rw [hpending] at hpending'
    cases hpending'
    have hshort := hframe.length_le
    dsimp only at hlt hstream
    rw [hstream, List.length_take] at hshort
    omega
  | header loop =>
    rw [hcase] at h
    obtain ⟨stream, hdue, hloop, hmore, hdata⟩ := h
    obtain ⟨hempty, hdue'⟩ := hdue.answer hpending hlen
    refine ⟨FrameCodec.encode reply, hdue', hloop, hmore, ?_⟩
    dsimp only [Session.answer] at hdata ⊢
    rw [← List.append_assoc, hdata, hempty, List.nil_append]
  | body loop =>
    rw [hcase] at h
    obtain ⟨_, ha, _⟩ := h
    exact absurd hpending (ha.1.ne_cons _ _)

end Answer

theorem step_inv (s : Session) (act : Act) (t : Session) (inv : Inv pb s) (hfresh : Fresh s act)
    (h : step pb s act = some t) : Inv pb t := by
  obtain ⟨hmatched, hinPhase⟩ := inv
  cases moves_of_step h with
  | call hphase =>
    rw [hphase] at hinPhase
    exact beginCall_inv (s := { s with calls := s.calls + 1 }) hmatched hinPhase hfresh _
  | send hphase =>
    rw [hphase] at hinPhase
    obtain ⟨hincoming, payload, hpayload, hpending, hwriting⟩ := hinPhase
    exact onSent_inv hmatched hincoming hpayload hpending (sendRound_writing _ _ _ hwriting)
  | answer hpending hframe hlen =>
    exact ⟨hmatched.answer, answer_inPhase hinPhase hpending hframe hlen⟩
  | header hphase =>
    rw [hphase] at hinPhase
    obtain ⟨stream, hdue, hwithin⟩ := hinPhase
    exact onHeader_inv hmatched hdue (readRound_holds _ _ hwithin)
  | body hphase =>
    rw [hphase] at hinPhase
    obtain ⟨reply, ha, hwithin⟩ := hinPhase
    exact onBody_inv hmatched ha (readRound_holds _ _ hwithin)

theorem initial_inv (pb : Protobuf) : Inv pb initial := by
  refine ⟨?_, ?_⟩
  · intro number response h
    cases h
  · intro _
    exact ⟨rfl, fun p hp => by cases hp⟩

/-- If every call on an open connection starts with both streams empty, then each
response returned is the server's answer to the request of its own call. -/
theorem responses_matched (acts : List Act) (s : Session)
    (hg : Guarded (step pb) Fresh initial acts) (h : run (step pb) initial acts = some s) :
    Matched pb s :=
  (run_invariant step_inv (initial_inv pb) hg h).matched

section Calls

def firstRequest : RpcRequest := ⟨1, text "A", text "B", [1]⟩

def secondRequest : RpcRequest := ⟨2, text "A", text "B", [2]⟩

def firstResponse : RpcResponseProto := ⟨1, true, [1], 0, []⟩

def secondResponse : RpcResponseProto := ⟨2, true, [2], 0, []⟩

def runtime : Protobuf := EnvelopeWire.runtime [] [firstResponse, secondResponse]

def firstReply : Bytes := EnvelopeWire.encodeResponse firstResponse

def secondReply : Bytes := EnvelopeWire.encodeResponse secondResponse

/-- Both calls get their answers in time. -/
def promptly : List Act :=
  [.call firstRequest, .send (.sent 15), .answer firstReply, .recv (.ready 4), .recv (.ready 7),
    .call secondRequest, .send (.sent 6), .send (.sent 9), .answer secondReply,
    .recv (.error .eagain), .recv (.ready 4), .recv (.ready 2), .recv (.ready 5)]

/-- The first call has just given up when its answer comes. -/
def tooLate : List Act :=
  [.recv (.error .eagain), .answer firstReply, .call secondRequest, .send (.sent 15),
    .answer secondReply, .recv (.ready 4), .recv (.ready 7)]

/-- The session once the first request is out. -/
def asked : Session :=
  { initial with
    toServer := FrameCodec.encode (EnvelopeWire.encodeRequest (createRequestProto firstRequest))
    calls := 1
    pending := [(1, EnvelopeWire.encodeRequest (createRequestProto firstRequest))] }

end Calls

theorem responses_matched_promptly :
    ∃ s, run (step runtime) initial promptly = some s ∧ Matched runtime s := by
  have hguard : Guarded (step runtime) Fresh initial promptly :=
    .cons (fun _ => ⟨rfl, rfl⟩) rfl (.cons trivial rfl (.cons trivial rfl (.cons trivial rfl
      (.cons trivial rfl (.cons (fun _ => ⟨rfl, rfl⟩) rfl (.cons trivial rfl (.cons trivial rfl
        (.cons trivial rfl (.cons trivial rfl (.cons trivial rfl (.cons trivial rfl
          (.cons trivial rfl trivial))))))))))))
  have hrun : run (step runtime) initial promptly = some _ := rfl
  exact ⟨_, hrun, responses_matched promptly _ hguard hrun⟩

/-- A call that finds nothing to read counts its tries and waits. -/
theorem waits_run (pb : Protobuf) (s : Session) (loop : Reading) (n : Nat)
    (hn : loop.retryCount + n ≤ Reading.maxRetries) :
    run (step pb) { s with phase := .header loop } (List.replicate n (.recv (.error .eagain))) =
      some { s with phase := .header { loop with retryCount := loop.retryCount + n } } := by
  induction n generalizing loop with
  | zero => rfl
  | succ n ih =>
    have hretry : ¬ Reading.maxRetries < loop.retryCount + 1 := by omega
    have hstep : step pb { s with phase := .header loop } (.recv (.error .eagain)) =
        some { s with phase := .header { loop with retryCount := loop.retryCount + 1 } } := by
      simp [step, readRound, Mprpc.recv, Reading.attempt, hretry, Progress.map, onHeader]
    rw [List.replicate_succ, run_cons_some]
    refine ⟨_, hstep, ?_⟩
    rw [ih { loop with retryCount := loop.retryCount + 1 } (by dsimp only; omega),
      Nat.add_right_comm, Nat.add_assoc]

/-- The first call gives up, and the second one returns the answer to the first. -/
theorem stale_response_returned :
    ∃ s, run (step runtime) initial ([.call firstRequest, .send (.sent 15)] ++
        (List.replicate Reading.maxRetries (.recv (.error .eagain)) ++ tooLate)) = some s ∧
      (2, fromResponseProto firstResponse) ∈ s.returned ∧ (2, secondReply) ∈ s.answered ∧
      ¬ Matched runtime s := by
  have hask : run (step runtime) initial [.call firstRequest, .send (.sent 15)] =
      some { asked with phase := .header ⟨4, [], 0⟩ } := rfl
  have hwait := waits_run runtime asked ⟨4, [], 0⟩ Reading.maxRetries (by decide)
  have hlate : run (step runtime) { asked with phase := .header ⟨4, [], 0 + Reading.maxRetries⟩ }
      tooLate = some _ := rfl
  refine ⟨_, run_append_some.mpr ⟨_, hask, run_append_some.mpr ⟨_, hwait, hlate⟩⟩, ?_, ?_, ?_⟩
  · exact List.mem_singleton.mpr rfl
  · exact List.mem_cons_of_mem _ (List.mem_singleton.mpr rfl)
  · intro hmatched
    obtain ⟨reply, hreply, hparse⟩ :=
      hmatched 2 (fromResponseProto firstResponse) (List.mem_singleton.mpr rfl)
    cases hreply with
    | tail _ hreply =>
      cases List.mem_singleton.mp hreply
      revert hparse
      decide

end Mprpc.RequestResponse
