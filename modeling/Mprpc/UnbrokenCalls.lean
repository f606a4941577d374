import Mprpc.CallProgress
import Mprpc.SessionNumbers

namespace Mprpc.UnbrokenCalls

open Transport RpcProtocolHelper RpcServer TcpClient ClientReads Session Deployment
open ServerAnswers SessionNumbers EnvelopeTrip RemoteCalls LocalCalls
open RequestResponse hiding step_inv
open Library.ByteOrder Library.Loop Library.Transition

/-- Call `n` has returned a response. -/
def Returned (s : Session) (n : Nat) : Prop := ∃ response, (n, response) ∈ s.returned

/-- Every call but the last one has returned a response. -/
def Unbroken (s : Session) : Prop := ∀ n, 0 < n → n < s.calls → Returned s n

section Ends

variable {pb : Protobuf} {s t : Session} {clean : Prop}

/-- A step records at most a response to the last call, which is over then. Where the streams
held nothing else, nothing is left on the way to the client. -/
def Ends (clean : Prop) (s t : Session) : Prop :=
  t.returned = s.returned ∨ ∃ response, t.returned = s.returned ++ [(t.calls, response)] ∧
    t.phase = .idle ∧ (clean → t.incoming = [])

theorem finish_ends {incoming data : Bytes} (hrest : clean → incoming = []) :
    Ends clean s (finish pb { s with incoming := incoming } (some data)) := by
  dsimp only [finish]
  cases parseResponse pb data with
  | error e => exact .inl rfl
  | ok response => exact .inr ⟨response, rfl, rfl, hrest⟩

theorem onBody_ends (reply : Bytes) {p : Progress (Reading × Bytes) (ReadOutcome × Bytes)}
    (hp : clean → p.Holds (Within reply.length reply) (Exact reply.length reply)) :
    Ends clean s (onBody pb s p) := by
  cases p with
  | again s' => exact .inl rfl
  | done result =>
    obtain ⟨outcome, incoming⟩ := result
    cases outcome with
    | complete data =>
      apply finish_ends
      intro hclean
      obtain ⟨hlen, hstream⟩ := hp hclean data rfl
      exact (List.append_inj (hstream.trans (List.append_nil reply).symm) hlen).2
    | timedOut => exact .inl rfl
    | disconnected => exact .inl rfl

theorem onHeader_ends (stream : Bytes) (hd : clean → Due s stream)
    {p : Progress (Reading × Bytes) (ReadOutcome × Bytes)}
    (hp : clean → p.Holds (Within 4 stream) (Exact 4 stream)) :
    Ends clean s (onHeader pb s p) := by
  cases p with
  | again s' => exact .inl rfl
  | done result =>
    obtain ⟨outcome, incoming⟩ := result
    cases outcome with
    | timedOut => exact .inl rfl
    | disconnected => exact .inl rfl
    | complete lengthBytes =>
      dsimp only [onHeader]
      split
      · exact .inl rfl
      · apply onBody_ends (s := { s with incoming := incoming }) incoming
        intro hclean
        obtain ⟨hlen, hstream⟩ := hp hclean lengthBytes rfl
        dsimp only at hstream
        obtain ⟨hempty, -⟩ | ⟨reply, ha, hframe⟩ := hd hclean
        · rw [hempty] at hstream
          rw [(List.append_eq_nil_iff.mp hstream).1] at hlen
          cases hlen
        · rw [hframe] at hstream
          obtain ⟨-, hheader, hrest⟩ := FrameCodec.encode_split hlen hstream
          have hshort := ha.2.2
          rw [hheader, FrameCodec.header_value (by omega), hrest]
          exact start_holds reply.length reply

theorem receive_ends (hd : clean → Due s []) (hincoming : clean → s.incoming = []) :
    Ends clean s (Session.receive pb s) := by
  unfold Session.receive
  split
  · exact .inl rfl
  · apply onHeader_ends [] hd
    intro hclean
    rw [hincoming hclean]
    exact start_holds 4 []

theorem onSent_ends (payload : Bytes) (hpayload : clean → payload ≠ [] ∧
      s.pending = [(s.calls, payload)] ∧ s.incoming = [])
    {p : Progress (Sending × Bytes) (SendOutcome × Bytes)}
    (hp : clean → p.Holds (Writing (FrameCodec.encode payload))
      (Written (FrameCodec.encode payload))) :
    Ends clean s (onSent pb s p) := by
  cases p with
  | again s' => exact .inl rfl
  | done result =>
    obtain ⟨outcome, toServer⟩ := result
    cases outcome with
    | failed errorMsg => exact .inl rfl
    | complete =>
      apply receive_ends (s := { s with toServer := toServer })
      · intro hclean
        obtain ⟨hne, hpending, -⟩ := hpayload hclean
        exact .inl ⟨rfl, .inl ⟨payload, hne, hpending, hp hclean rfl⟩⟩
      · intro hclean
        exact (hpayload hclean).2.2

theorem beginCall_ends (hq : clean → s.state = .connected → Queued s)
    (hfresh : clean → s.state = .connected → s.toServer = [] ∧ s.incoming = [])
    (request : RpcRequest) : Ends clean s (beginCall pb s request) := by
  unfold beginCall
  cases serializeRequest pb request with
  | error e => exact .inl rfl
  | ok payload =>
    dsimp only
    by_cases hstate : s.state = .connected
    · have hquiet : clean → Quiet s :=
        fun hclean => (hq hclean hstate).quiet (hfresh hclean hstate).1
      rw [if_neg (not_not_intro hstate)]
      by_cases hpayload : payload = []
      · rw [hpayload]
        apply receive_ends
        · intro hclean
          exact .inl ⟨rfl, .inr (hquiet hclean)⟩
        · intro hclean
          exact (hfresh hclean hstate).2
      · have hpost : post s payload = { s with pending := s.pending ++ [(s.calls, payload)] } :=
          if_neg (by rwa [List.isEmpty_iff])
        rw [hpost]
        apply onSent_ends (s := { s with pending := s.pending ++ [(s.calls, payload)] })
          payload
        · intro hclean
          refine ⟨hpayload, ?_, (hfresh hclean hstate).2⟩
          dsimp only
          rw [(hquiet hclean).1, List.nil_append]
        · intro hclean
          rw [(hfresh hclean hstate).1]
          exact check_writing _ rfl List.take_zero.symm
    · rw [if_pos hstate]
      exact .inl rfl

theorem step_ends {act : Session.Act} (hinv : clean → Inv pb s) (hfresh : clean → Fresh s act)
    (hstep : Session.step pb s act = some t) : Ends clean s t := by
  cases moves_of_step hstep with
  | call hphase =>
    refine beginCall_ends (s := { s with calls := s.calls + 1 }) ?_ hfresh _
    intro hclean
    have hinPhase := (hinv hclean).phase
    rw [hphase] at hinPhase
    exact hinPhase
  | @send result loop hphase =>
    by_cases hclean : clean
    · have hinPhase := (hinv hclean).phase
      rw [hphase] at hinPhase
      obtain ⟨hincoming, payload, hpayload, hpending, hwriting⟩ := hinPhase
      exact onSent_ends payload (fun _ => ⟨hpayload, hpending, hincoming⟩)
        fun _ => sendRound_writing _ _ _ hwriting
    · exact onSent_ends [] (fun h => absurd h hclean) fun h => absurd h hclean
  | answer => exact .inl rfl
  | @header outcome loop hphase =>
    by_cases hclean : clean
    · have hinPhase := (hinv hclean).phase
      rw [hphase] at hinPhase
      obtain ⟨stream, hdue, hwithin⟩ := hinPhase
      exact onHeader_ends stream (fun _ => hdue) fun _ => readRound_holds _ _ hwithin
    · exact onHeader_ends [] (fun h => absurd h hclean) fun h => absurd h hclean
  | @body outcome loop hphase =>
    by_cases hclean : clean
    · have hinPhase := (hinv hclean).phase
      rw [hphase] at hinPhase
      obtain ⟨reply, -, hwithin⟩ := hinPhase
      exact onBody_ends reply fun _ => readRound_holds _ _ hwithin
    · exact onBody_ends [] fun h => absurd h hclean

end Ends

section Ready

variable {pb : Protobuf} {s t : Session}

/-- A session whose calls are counted, and which has nothing on the way to the client once the
last call has returned a response. -/
structure Ready (s : Session) : Prop where
  numbered : Numbered s
  positive : ∀ p ∈ s.pending, 0 < p.1
  bounded : ∀ p ∈ s.returned, p.1 ≤ s.calls
  ended : s.phase ≠ .idle → 0 < s.calls ∧ ¬Returned s s.calls
  drained : s.phase = .idle → s.state = .connected → (0 < s.calls → Returned s s.calls) →
    s.incoming = []

theorem initial_ready : Ready initial where
  numbered := ⟨List.Pairwise.nil, fun number hn => by cases hn⟩
  positive p hp := by cases hp
  bounded p hp := by cases hp
  ended hphase := absurd rfl hphase
  drained _ _ _ := rfl

theorem Ready.pending_ne (ready : Ready s) (hm : Matched pb s) {n : Nat} (h : Returned s n) :
    ∀ p ∈ s.pending, p.1 ≠ n := by
  obtain ⟨response, hresponse⟩ := h
  obtain ⟨reply, hreply, -⟩ := hm n response hresponse
  have hpairwise := ready.numbered.1
  unfold numbers at hpairwise
  rw [List.map_append, List.pairwise_append] at hpairwise
  intro p hp
  have hlt := hpairwise.2.2 n (List.mem_map_of_mem hreply) p.1 (List.mem_map_of_mem hp)
  exact hlt.ne'

theorem Ready.pending_nil (ready : Ready s) (hm : Matched pb s) (hunbroken : Unbroken s)
    (hlast : 0 < s.calls → Returned s s.calls) : s.pending = [] := by
  apply List.eq_nil_iff_forall_not_mem.mpr
  intro p hp
  have hpos := ready.positive p hp
  have hle : p.1 ≤ s.calls := ready.numbered.2 p.1
    (List.mem_map_of_mem (List.mem_append_right _ hp))
  obtain hlt | heq := Nat.lt_or_eq_of_le hle
  · exact ready.pending_ne hm (hunbroken p.1 hpos hlt) p hp rfl
  · exact ready.pending_ne hm (hlast (heq ▸ hpos)) p hp heq

theorem Ready.fresh (ready : Ready s) (inv : Inv pb s) (hphase : s.phase = .idle)
    (hunbroken : Unbroken s) (hlast : 0 < s.calls → Returned s s.calls) (request : RpcRequest) :
    Fresh s (.call request) := by
  intro hstate
  refine ⟨?_, ready.drained hphase hstate hlast⟩
  have hinPhase := inv.phase
  rw [hphase] at hinPhase
  rw [(hinPhase hstate).1, ready.pending_nil inv.matched hunbroken hlast]
  rfl

theorem calls_of_step {act : Session.Act} (h : Session.step pb s act = some t) :
    (t.calls = s.calls ∧ ∀ request, act ≠ .call request) ∨
      (t.calls = s.calls + 1 ∧ s.phase = .idle ∧ ∃ request, act = .call request) := by
  cases moves_of_step h with
  | @call request hphase =>
    exact .inr ⟨(beginCall_pending pb { s with calls := s.calls + 1 } request).1, hphase,
      request, rfl⟩
  | send hphase => exact .inl ⟨(onSent_kept _).1, fun _ hact => by cases hact⟩
  | answer => exact .inl ⟨rfl, fun _ hact => by cases hact⟩
  | header hphase => exact .inl ⟨(onHeader_kept _).1, fun _ hact => by cases hact⟩
  | body hphase => exact .inl ⟨(onBody_kept _).1, fun _ hact => by cases hact⟩

theorem positive_of_step {act : Session.Act} (h : Session.step pb s act = some t)
    (hpositive : ∀ p ∈ s.pending, 0 < p.1) : ∀ p ∈ t.pending, 0 < p.1 := by
  cases moves_of_step h with
  | @call request hphase =>
    obtain hsame | ⟨payload, -, -, -, hmore⟩ :=
      (beginCall_pending pb { s with calls := s.calls + 1 } request).2
    · rw [hsame]
      exact hpositive
    · rw [hmore]
      intro p hp
      cases List.mem_append.mp hp with
      | inl hold => exact hpositive p hold
      | inr hnew =>
        rw [List.mem_singleton.mp hnew]
        exact Nat.succ_pos _
  | send hphase =>
    rw [(onSent_kept _).2.1]
    exact hpositive
  | answer hpending =>
    intro p hp
    exact hpositive p (hpending ▸ List.mem_cons_of_mem _ hp)
  | header hphase =>
    rw [(onHeader_kept _).2.1]
    exact hpositive
  | body hphase =>
    rw [(onBody_kept _).2.1]
    exact hpositive

theorem idle_of_step {act : Session.Act} (h : Session.step pb s act = some t)
    (hact : ∀ request, act ≠ .call request) (hphase : s.phase = .idle) :
    t.phase = .idle ∧ s.pending ≠ [] := by
  cases moves_of_step h with
  | call => exact absurd rfl (hact _)
  | send hsending => cases hphase.symm.trans hsending
  | answer hpending =>
    refine ⟨hphase, ?_⟩
    rw [hpending]
    exact List.cons_ne_nil _ _
  | header hheader => cases hphase.symm.trans hheader
  | body hbody => cases hphase.symm.trans hbody

theorem Ready.step (ready : Ready s) (inv : Inv pb s) (hunbroken : Unbroken s)
    {act : Session.Act} (hfresh : Fresh s act) (hstep : Session.step pb s act = some t) :
    Ready t := by
  have hends : Ends True s t := step_ends (fun _ => inv) (fun _ => hfresh) hstep
  have hcalls := calls_of_step hstep
  have hle : s.calls ≤ t.calls := by omega
  have hnew : (∃ request, act = .call request) → ¬Returned s t.calls := by
    rintro hcall ⟨response, hresponse⟩
    have hbound := ready.bounded _ hresponse
    obtain ⟨-, hact⟩ | ⟨hsucc, -⟩ := hcalls
    · obtain ⟨request, rfl⟩ := hcall
      exact hact request rfl
    · dsimp only at hbound
      omega
  refine ⟨step_numbered s act t ready.numbered hstep, positive_of_step hstep ready.positive,
    ?_, ?_, ?_⟩
  · intro p hp
    obtain hsame | ⟨response, hmore, -⟩ := hends
    · exact (ready.bounded p (hsame ▸ hp)).trans hle
    · rw [hmore] at hp
      cases List.mem_append.mp hp with
      | inl hold => exact (ready.bounded p hold).trans hle
      | inr hlast => rw [List.mem_singleton.mp hlast]
  · intro hphase
    obtain hsame | ⟨response, -, hidle, -⟩ := hends
    · unfold Returned
      rw [hsame]
      obtain ⟨heq, hact⟩ | ⟨hsucc, -, hcall⟩ := hcalls
      · rw [heq]
        exact ready.ended fun hidle => hphase (idle_of_step hstep hact hidle).1
      · exact ⟨by omega, hnew hcall⟩
    · exact absurd hidle hphase
  · intro hphase hstate hlast
    obtain hsame | ⟨response, -, -, hincoming⟩ := hends
    · unfold Returned at hlast
      rw [hsame] at hlast
      obtain ⟨heq, hact⟩ | ⟨hsucc, -, hcall⟩ := hcalls
      · rw [heq] at hlast
        by_cases hidle : s.phase = .idle
        · exact absurd (ready.pending_nil inv.matched hunbroken hlast)
            (idle_of_step hstep hact hidle).2
        · obtain ⟨hpos, hnone⟩ := ready.ended hidle
          exact absurd (hlast hpos) hnone
      · exact absurd (hlast (by omega)) (hnew hcall)
    · exact hincoming trivial

end Ready

section Run

variable {μ : Type} {server : RpcServer μ} {workers : Nat} {d d' : Deployment}

/-- A request with names that are texts, which fits the server's limit. -/
def Wellformed (server : RpcServer μ) (_ : Deployment) : Deployment.Act → Prop
  | .call request => SessionStream.Sized server.protobuf (.call request) ∧
      ValidUtf8 request.serviceName ∧ ValidUtf8 request.methodName
  | _ => True

/-- What a step adds to what the client has on record. -/
structure Extends (d d' : Deployment) : Prop where
  requests : ∃ more, d'.requests = d.requests ++ more
  returned : ∀ p ∈ d'.session.returned, p ∈ d.session.returned ∨ p.1 = d'.session.calls
  calls : d.session.calls ≤ d'.session.calls

theorem step_extends {act : Deployment.Act}
    (hstep : Deployment.step server workers d act = some d') :
    Extends d d' := by
  obtain ⟨act', session, more, hsession, rfl, -, -⟩ |
    ⟨toServer, incoming, pending, hrequests, hsession, -⟩ := step_cases hstep
  · have hends : Ends False d.session session := step_ends False.elim False.elim hsession
    refine ⟨⟨more, rfl⟩, ?_, ?_⟩
    · intro p hp
      obtain hsame | ⟨response, hnew, -⟩ := hends
      · exact .inl (hsame ▸ hp)
      · dsimp only at hp
        rw [hnew] at hp
        cases List.mem_append.mp hp with
        | inl hold => exact .inl hold
        | inr hlast => exact .inr (congrArg Prod.fst (List.mem_singleton.mp hlast))
    · dsimp only
      have hcalls := calls_of_step hsession
      omega
  · refine ⟨⟨[], by rw [hrequests, List.append_nil]⟩, ?_, ?_⟩
    · rw [hsession]
      exact fun p hp => .inl hp
    · rw [hsession]

theorem Extends.returned_before (h : Extends d d') {n : Nat} (hn : n < d'.session.calls)
    (hreturned : Returned d'.session n) : Returned d.session n := by
  obtain ⟨response, hresponse⟩ := hreturned
  obtain hold | hnew := h.returned _ hresponse
  · exact ⟨response, hold⟩
  · dsimp only at hnew
    omega

theorem Extends.unbroken (h : Extends d d') (hunbroken : Unbroken d'.session) :
    Unbroken d.session := by
  intro n hpos hn
  have hlt := Nat.lt_of_lt_of_le hn h.calls
  exact h.returned_before hlt (hunbroken n hpos hlt)

/-- As long as the calls return, they return the local answers, and nothing of them is left
under way. -/
structure Faithful (server : RpcServer μ) (d : Deployment) : Prop where
  settled : Unbroken d.session → ∃ s, Settled server d s ∧ Ready s
  own : ∀ n, (∀ k, 0 < k → k ≤ n → Returned d.session k) → ∀ k response, k ≤ n →
    (k, response) ∈ d.session.returned →
    ∃ request, d.requests[k - 1]? = some request ∧ response = localAnswer server request

theorem initial_faithful (server : RpcServer μ) (sockfd : Int) (peerAddr : Text) :
    Faithful server (Deployment.initial sockfd peerAddr) where
  settled _ := ⟨Session.initial, initial_settled server sockfd peerAddr, initial_ready⟩
  own n _ k response _ h := by cases h

/-- A call that comes after calls which have all returned finds nothing under way. -/
theorem fresh_call {s : Session} (hsettled : Settled server d s) (ready : Ready s)
    {request : RpcRequest} (hstep : Deployment.step server workers d (.call request) = some d')
    (hunbroken : Unbroken d'.session) : Fresh s (.call request) := by
  have hextends := step_extends hstep
  have hbefore := hextends.unbroken hunbroken
  obtain ⟨hcalls, hphase, -, -, hreturned⟩ := hsettled.record
  obtain ⟨session, hsession, rfl⟩ := Option.map_eq_some_iff.mp hstep
  obtain ⟨-, hact⟩ | ⟨hsucc, hidle, -⟩ := calls_of_step hsession
  · exact absurd rfl (hact request)
  have hlt : d.session.calls < session.calls := by omega
  apply ready.fresh hsettled.inv (hphase.trans hidle)
  · unfold Unbroken Returned
    rw [hcalls, hreturned]
    exact hbefore
  · unfold Returned
    rw [hcalls, hreturned]
    intro hpos
    exact hextends.returned_before hlt (hunbroken d.session.calls hpos hlt)

theorem Faithful.settled_step (h : Faithful server d) (hsafe : ErrorsSerialize server)
    {act : Deployment.Act} (hwellformed : Wellformed server d act)
    (hstep : Deployment.step server workers d act = some d') (hunbroken : Unbroken d'.session) :
    ∃ t, Settled server d' t ∧ Ready t := by
  have hbefore := (step_extends hstep).unbroken hunbroken
  obtain ⟨s, hsettled, ready⟩ := h.settled hbefore
  obtain ⟨hcalls, -, -, -, hreturned⟩ := hsettled.record
  have hunbroken' : Unbroken s := by
    unfold Unbroken Returned
    rw [hcalls, hreturned]
    exact hbefore
  have hsized : RemoteCalls.Sized server d act := by
    cases act with
    | call request => exact hwellformed.1
    | _ => trivial
  have hnames : ∀ request, act = .call request →
      ValidUtf8 request.serviceName ∧ ValidUtf8 request.methodName := by
    rintro request rfl
    exact hwellformed.2
  have hfresh : ∀ request, act = .call request → Fresh s (.call request) := by
    rintro request rfl
    exact fresh_call hsettled ready hstep hunbroken
  obtain ⟨t, hsettled', rfl | ⟨act', hfresh', ht⟩⟩ :=
    hsettled.step_of_fresh hsafe hsized hnames hfresh hstep
  · exact ⟨t, hsettled', ready⟩
  · exact ⟨t, hsettled', ready.step hsettled.inv hunbroken' hfresh' ht⟩

theorem Faithful.step (h : Faithful server d) (hproto : Proto3 server.protobuf)
    (hsafe : ErrorsSerialize server) (hthrows : ThrowsText server) {act : Deployment.Act}
    (hwellformed : Wellformed server d act)
    (hstep : Deployment.step server workers d act = some d') : Faithful server d' := by
  have hsettled := h.settled_step hsafe hwellformed hstep
  refine ⟨hsettled, ?_⟩
  intro n hall k response hk hreturned
  by_cases hunbroken : Unbroken d'.session
  · obtain ⟨t, hsettled, -⟩ := hsettled hunbroken
    exact hsettled.returned_local hproto hthrows hreturned
  -- an earlier call has failed, so that a response to one of the first `n` was there before
  · have hextends := step_extends hstep
    unfold Unbroken at hunbroken
    push Not at hunbroken
    obtain ⟨failed, hpos, hlt, hnone⟩ := hunbroken
    have hn : n < d'.session.calls := by
      by_contra hge
      exact hnone (hall failed hpos (by omega))
    have hold : (k, response) ∈ d.session.returned := by
      obtain hold | hnew := hextends.returned _ hreturned
      · exact hold
      · dsimp only at hnew
        omega
    have hall' : ∀ j, 0 < j → j ≤ n → Returned d.session j := fun j hj hjn =>
      hextends.returned_before (Nat.lt_of_le_of_lt hjn hn) (hall j hj hjn)
    obtain ⟨request, hrequest, hlocal⟩ := h.own n hall' k response hk hold
    obtain ⟨more, hmore⟩ := hextends.requests
    refine ⟨request, ?_, hlocal⟩
    rw [hmore, List.getElem?_append_left (List.getElem?_eq_some_iff.mp hrequest).1, hrequest]

/-- Until a call fails no answer comes to the wrong call: the responses of the calls before the
first one that has not returned are the local answers to their own requests. -/
theorem returned_until_failure (hproto : Proto3 server.protobuf) (hsafe : ErrorsSerialize server)
    (hthrows : ThrowsText server) {sockfd : Int} {peerAddr : Text} {acts : List Deployment.Act}
    (hwellformed : Guarded (Deployment.step server workers) (Wellformed server)
      (Deployment.initial sockfd peerAddr) acts)
    (h : run (Deployment.step server workers) (Deployment.initial sockfd peerAddr) acts = some d)
    {n : Nat} (hall : ∀ k, 0 < k → k ≤ n → Returned d.session k) {k : Nat} (hk : k ≤ n)
    {response : RpcResponse} (hreturned : (k, response) ∈ d.session.returned) :
    ∃ request, d.requests[k - 1]? = some request ∧ response = localAnswer server request := by
  have hfaithful : Faithful server d := run_invariant
    (fun _ _ _ hfaithful hact hstep => hfaithful.step hproto hsafe hthrows hact hstep)
    (initial_faithful server sockfd peerAddr) hwellformed h
  exact hfaithful.own n hall k response hk hreturned

/-- The connection is gone before the second call has its answer. -/
def lossActs : List Deployment.Act :=
  echoActs ++ [.call ⟨8, text "A", text "B", [2]⟩, .send (.sent 15), .recv .closed]

theorem lossActs_wellformed : ∀ act ∈ lossActs,
    Wellformed wireServer (Deployment.initial 5 []) act := by
  intro act hact
  cases act with
  | call request =>
    have hrequest : request = ⟨7, text "A", text "B", [1]⟩ ∨
        request = ⟨8, text "A", text "B", [2]⟩ := by
      simpa [lossActs, echoActs] using hact
    obtain rfl | rfl := hrequest
    · exact ⟨CallProgress.wire_servable.sized, ⟨"A", rfl⟩, ⟨"B", rfl⟩⟩
    · refine ⟨?_, ⟨"A", rfl⟩, ⟨"B", rfl⟩⟩
      intro payload hpayload
      cases hpayload
      decide
  | _ => trivial

theorem returned_until_failure_lost : ∃ d,
    run (Deployment.step wireServer 4) (Deployment.initial 5 []) lossActs = some d ∧
    d.session.calls = 2 ∧ d.session.returned = [(1, ⟨7, true, [], [1]⟩)] ∧
    ∃ request, d.requests[1 - 1]? = some request ∧
      (⟨7, true, [], [1]⟩ : RpcResponse) = localAnswer wireServer request := by
  have hview : (run (Deployment.step wireServer 4) (Deployment.initial 5 []) lossActs).map
      (fun d => (d.session.calls, d.session.returned)) = some (2, [(1, ⟨7, true, [], [1]⟩)]) := by
    decide +kernel
  obtain ⟨d, hrun, hview⟩ := Option.map_eq_some_iff.mp hview
  obtain ⟨hcalls, hreturned⟩ := Prod.mk.inj hview
  have hfirst : (1, (⟨7, true, [], [1]⟩ : RpcResponse)) ∈ d.session.returned := by
    rw [hreturned]
    exact List.mem_singleton_self _
  have hall : ∀ k, 0 < k → k ≤ 1 → Returned d.session k := by
    intro k hpos hle
    obtain rfl : k = 1 := by omega
    exact ⟨_, hfirst⟩
  exact ⟨d, hrun, hcalls, hreturned, returned_until_failure wire_proto3 wireServer_errorsSerialize
    wireServer_throwsText (guarded_of_forall_mem lossActs_wellformed _) hrun hall le_rfl hfirst⟩

end Run

end Mprpc.UnbrokenCalls
