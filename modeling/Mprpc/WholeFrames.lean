import Mprpc.TcpClient

namespace Mprpc.WholeFrames

open Transport TcpClient Library.Loop Library.Transition

/-- The caller is between two calls of `send`, or inside one. -/
inductive Phase
  | idle
  | sending (frame : Bytes) (loop : Sending)
deriving DecidableEq, Repr

/-- A client that one thread calls for one frame after the other: what it has given to the
kernel, and what the calls that are back have returned. -/
structure Writing where
  state : ConnectionState
  outgoing : Bytes
  phase : Phase
  returned : List (Bytes × Bool)
deriving DecidableEq, Repr

inductive Act
  | send (frame : Bytes)
  | call (result : SendResult)
deriving DecidableEq, Repr

def idle (c : TcpClient) (returned : List (Bytes × Bool)) : Writing :=
  ⟨c.state, c.outgoing, .idle, returned⟩

/-- Where a call is after a round of its loop. -/
def resume (returned : List (Bytes × Bool)) (frame : Bytes) :
    Progress (Sending × Bytes) (SendOutcome × Bytes) → Writing
  | .again (loop, outgoing) => ⟨.connected, outgoing, .sending frame loop, returned⟩
  | .done (.complete, outgoing) => ⟨.connected, outgoing, .idle, returned ++ [(frame, true)]⟩
  | .done (.failed _, outgoing) => ⟨.disconnected, outgoing, .idle, returned ++ [(frame, false)]⟩

/-- `handleWrite` up to its first `::send`, or one `::send` of the call that runs. -/
def step (s : Writing) : Act → Option Writing
  | .send frame =>
    match s.phase with
    | .sending _ _ => none
    | .idle =>
      if s.state ≠ .connected then some { s with returned := s.returned ++ [(frame, false)] }
      else some (resume s.returned frame
        ((Sending.start frame).map (·, s.outgoing) (·, s.outgoing)))
  | .call result =>
    match s.phase with
    | .idle => none
    | .sending frame loop => some (resume s.returned frame (sendRound (loop, s.outgoing) result))

theorem step_send {s : Writing} (hphase : s.phase = .idle) (hstate : s.state = .connected)
    (frame : Bytes) :
    step s (.send frame) = some (resume s.returned frame
      ((Sending.start frame).map (·, s.outgoing) (·, s.outgoing))) := by
  simp [step, hphase, hstate]

theorem step_refused {s : Writing} (hphase : s.phase = .idle) (hstate : s.state ≠ .connected)
    (frame : Bytes) :
    step s (.send frame) = some { s with returned := s.returned ++ [(frame, false)] } := by
  simp [step, hphase, hstate]

/-- A call of `send` takes the steps for the outcomes that it uses up. -/
theorem send_steps {c c' : TcpClient} {frame : Bytes} {sent : Bool}
    (h : (send frame).run c = some (sent, c')) (returned : List (Bytes × Bool)) :
    ∃ used, c.sends = used ++ c'.sends ∧
      run step (idle c returned) (.send frame :: used.map .call) =
        some (idle c' (returned ++ [(frame, sent)])) := by
  by_cases hs : c.state = .connected
  · rw [send_run hs] at h
    obtain ⟨⟨⟨outcome, outgoing⟩, sends⟩, hd, hback⟩ := Option.map_eq_some_iff.mp h
    have hview : ∀ s result, step (resume returned frame (.again s)) (.call result) =
        some (resume returned frame (sendRound s result)) := fun _ _ => rfl
    obtain ⟨used, hused, hrun⟩ := drive_run hview hd
    have hstart := step_send (s := idle c returned) rfl hs frame
    cases outcome with
    | complete =>
      cases hback
      refine ⟨used, hused, run_cons_some.mpr ⟨_, hstart, hrun.trans ?_⟩⟩
      rw [resume, idle, hs]
    | failed errorMsg =>
      cases hback
      exact ⟨used, hused, run_cons_some.mpr ⟨_, hstart, hrun⟩⟩
  · rw [send_unconnected hs] at h
    cases h
    exact ⟨[], rfl, run_cons_some.mpr ⟨_, step_refused (s := idle c returned) rfl hs frame, rfl⟩⟩

/-- One call after the other. -/
theorem sends_steps {c c' : TcpClient} {frames : List Bytes} {results : List Bool}
    (h : (frames.mapM send).run c = some (results, c')) (returned : List (Bytes × Bool)) :
    ∃ acts, run step (idle c returned) acts =
      some (idle c' (returned ++ frames.zip results)) := by
  induction frames generalizing c results returned with
  | nil =>
    cases h
    exact ⟨[], by rw [List.zip_nil_left, List.append_nil, run]⟩
  | cons frame frames ih =>
    rw [List.mapM_cons] at h
    obtain ⟨⟨sent, c₁⟩, hfirst, h⟩ := Option.bind_eq_some_iff.mp h
    obtain ⟨⟨rest, c₂⟩, hrest, h⟩ := Option.bind_eq_some_iff.mp h
    cases h
    obtain ⟨used, _, hrun⟩ := send_steps hfirst returned
    obtain ⟨acts, hacts⟩ := ih hrest (returned ++ [(frame, sent)])
    refine ⟨(.send frame :: used.map .call) ++ acts, run_append_some.mpr ⟨_, hrun, ?_⟩⟩
    rw [hacts, List.append_assoc]
    rfl

/-- The frames whose `send` returned true, one after the other. -/
def delivered (returned : List (Bytes × Bool)) : Bytes :=
  (returned.filter (·.2)).flatMap (·.1)

theorem delivered_append (returned : List (Bytes × Bool)) (frame : Bytes) (sent : Bool) :
    delivered (returned ++ [(frame, sent)]) =
      delivered returned ++ if sent then frame else [] := by
  cases sent <;> simp [delivered]

def ProperPrefix (tail frame : Bytes) : Prop := tail <+: frame ∧ tail ≠ frame

theorem properPrefix_take {frame : Bytes} {n : Nat} (h : n < frame.length) :
    ProperPrefix (frame.take n) frame := by
  refine ⟨List.take_prefix n frame, ?_⟩
  intro heq
  have hlen := congrArg List.length heq
  rw [List.length_take] at hlen
  omega

/-- The frame of a call that has not returned, or has returned false. -/
def Unfinished (s : Writing) (frame : Bytes) : Prop :=
  (frame, false) ∈ s.returned ∨ ∃ loop, s.phase = .sending frame loop

section Loop

variable {before frame : Bytes}

/-- The loop has written the front of its frame. -/
def Inside (before frame : Bytes) (s : Sending × Bytes) : Prop :=
  s.1.data = frame ∧ s.1.totalSent < frame.length ∧ s.2 = before ++ frame.take s.1.totalSent

def Ended (before frame : Bytes) : SendOutcome × Bytes → Prop
  | (.complete, outgoing) => outgoing = before ++ frame
  | (.failed _, outgoing) => ∃ tail, ProperPrefix tail frame ∧ outgoing = before ++ tail

theorem check_holds (n : Nat) :
    ((Sending.check ⟨frame, n⟩).map (·, before ++ frame.take n) (·, before ++ frame.take n)).Holds
      (Inside before frame) (Ended before frame) := by
  unfold Sending.check
  split
  · rename_i hlt
    exact ⟨rfl, hlt, rfl⟩
  · rename_i hge
    change before ++ frame.take n = before ++ frame
    rw [List.take_of_length_le (Nat.not_lt.mp hge)]

theorem start_holds (before frame : Bytes) :
    ((Sending.start frame).map (·, before) (·, before)).Holds (Inside before frame)
      (Ended before frame) := by
  have h := @check_holds before frame 0
  rw [List.take_zero, List.append_nil] at h
  exact h

theorem size_of_failed {loop : Sending} {result : SendResult} {errorMsg : Text}
    (h : loop.attempt result = .done (.failed errorMsg)) : result.size = 0 := by
  cases result with
  | error errno => rfl
  | sent n =>
    cases n with
    | zero => rfl
    | succ n =>
      unfold Sending.attempt Sending.check at h
      dsimp only at h
      split at h <;> cases h

theorem sendRound_holds (s : Sending × Bytes) (result : SendResult) (h : Inside before frame s) :
    (sendRound s result).Holds (Inside before frame) (Ended before frame) := by
  obtain ⟨⟨data, totalSent⟩, outgoing⟩ := s
  obtain ⟨hdata, hlt, hout⟩ := h
  dsimp only at hdata hlt hout
  subst hdata hout
  have hput : before ++ data.take totalSent ++ (data.drop totalSent).take result.size =
      before ++ data.take (totalSent + result.size) := by
    rw [List.append_assoc, ← List.take_add]
  unfold sendRound
  dsimp only
  rw [Sending.put_eq, Sending.remaining, hput]
  obtain ⟨errorMsg, hfail⟩ | hcheck := @Sending.attempt_eq ⟨data, totalSent⟩ hlt result
  · rw [hfail, size_of_failed hfail]
    exact ⟨data.take totalSent, properPrefix_take hlt, rfl⟩
  · rw [hcheck]
    exact check_holds (totalSent + result.size)

end Loop

/-- What is written is made of the whole frames and a tail; once a call has failed, the
client is not connected and no call runs. -/
structure Whole (base tail : Bytes) (s : Writing) : Prop where
  written : s.outgoing = base ++ delivered s.returned ++ tail
  part : tail = [] ∨ ∃ frame, Unfinished s frame ∧ ProperPrefix tail frame
  inside : ∀ frame loop, s.phase = .sending frame loop →
    Inside (base ++ delivered s.returned) frame (loop, s.outgoing)
  failed : ∀ frame, (frame, false) ∈ s.returned → s.state ≠ .connected ∧ s.phase = .idle

section Runs

variable {base : Bytes} {returned : List (Bytes × Bool)} {frame : Bytes} {s t : Writing}

theorem idle_whole (c : TcpClient) : Whole c.outgoing [] (idle c []) := by
  refine ⟨?_, .inl rfl, ?_, ?_⟩
  · simp [idle, delivered]
  · intro frame loop h
    cases h
  · intro frame h
    cases h

theorem resume_whole (hgood : ∀ frame, (frame, false) ∉ returned)
    {p : Progress (Sending × Bytes) (SendOutcome × Bytes)}
    (hp : p.Holds (Inside (base ++ delivered returned) frame)
      (Ended (base ++ delivered returned) frame)) :
    ∃ tail, Whole base tail (resume returned frame p) := by
  rcases p with ⟨loop, outgoing⟩ | ⟨outcome, outgoing⟩
  · obtain ⟨hdata, hlt, hout⟩ := hp
    refine ⟨frame.take loop.totalSent, hout, .inr ?_, ?_, ?_⟩
    · exact ⟨frame, .inr ⟨loop, rfl⟩, properPrefix_take hlt⟩
    · intro frame' loop' h
      cases h
      exact ⟨hdata, hlt, hout⟩
    · intro frame' h
      exact absurd h (hgood frame')
  · cases outcome with
    | complete =>
      refine ⟨[], ?_, .inl rfl, ?_, ?_⟩
      · change outgoing = base ++ delivered (returned ++ [(frame, true)]) ++ []
        rw [delivered_append, List.append_nil, ← List.append_assoc]
        exact hp
      · intro frame' loop h
        cases h
      · intro frame' h
        obtain h | h := List.mem_append.mp h
        · exact absurd h (hgood frame')
        · cases List.mem_singleton.mp h
    | failed errorMsg =>
      obtain ⟨tail, hprefix, hout⟩ := hp
      have hlast : (frame, false) ∈ returned ++ [(frame, false)] :=
        List.mem_append_right _ List.mem_cons_self
      refine ⟨tail, ?_, .inr ⟨frame, .inl hlast, hprefix⟩, ?_, ?_⟩
      · change outgoing = base ++ delivered (returned ++ [(frame, false)]) ++ tail
        rw [delivered_append]
        simpa using hout
      · intro frame' loop h
        cases h
      · intro frame' _
        exact ⟨nofun, rfl⟩

theorem Whole.tail_nil {tail : Bytes} (h : Whole base tail s) (hphase : s.phase = .idle)
    (hgood : ∀ frame, (frame, false) ∉ s.returned) : tail = [] := by
  obtain hnil | ⟨frame, hmem | ⟨loop, hloop⟩, _⟩ := h.part
  · exact hnil
  · exact absurd hmem (hgood frame)
  · rw [hphase] at hloop
    cases hloop

theorem refused_whole {tail : Bytes} (h : Whole base tail s) (hphase : s.phase = .idle)
    (hstate : s.state ≠ .connected) (frame : Bytes) :
    Whole base tail { s with returned := s.returned ++ [(frame, false)] } := by
  refine ⟨?_, ?_, ?_, ?_⟩
  · dsimp only
    rw [h.written, delivered_append]
    simp
  · obtain hnil | ⟨frame', hmem | hloop, hprefix⟩ := h.part
    · exact .inl hnil
    · exact .inr ⟨frame', .inl (List.mem_append_left _ hmem), hprefix⟩
    · exact .inr ⟨frame', .inr hloop, hprefix⟩
  · intro frame' loop hloop
    dsimp only at hloop
    rw [hphase] at hloop
    cases hloop
  · intro _ _
    exact ⟨hstate, hphase⟩

theorem step_whole (s : Writing) (act : Act) (t : Writing) (h : ∃ tail, Whole base tail s)
    (hstep : step s act = some t) : ∃ tail, Whole base tail t := by
  obtain ⟨tail, h⟩ := h
  cases act with
  | send frame =>
    cases hphase : s.phase with
    | sending frame' loop => simp [step, hphase] at hstep
    | idle =>
      by_cases hstate : s.state = .connected
      · rw [step_send hphase hstate] at hstep
        cases hstep
        have hgood : ∀ frame, (frame, false) ∉ s.returned :=
          fun frame hmem => (h.failed frame hmem).1 hstate
        have hout : s.outgoing = base ++ delivered s.returned := by
          rw [h.written, h.tail_nil hphase hgood, List.append_nil]
        rw [hout]
        exact resume_whole hgood (start_holds _ frame)
      · rw [step_refused hphase hstate] at hstep
        cases hstep
        exact ⟨tail, refused_whole h hphase hstate frame⟩
  | call result =>
    cases hphase : s.phase with
    | idle => simp [step, hphase] at hstep
    | sending frame loop =>
      simp only [step, hphase] at hstep
      cases hstep
      have hgood : ∀ frame, (frame, false) ∉ s.returned := by
        intro frame' hmem
        rw [(h.failed frame' hmem).2] at hphase
        cases hphase
      exact resume_whole hgood (sendRound_holds _ _ (h.inside frame loop hphase))

/-- A client that is not connected and has no call running writes nothing. -/
def Mute (out : Bytes) (s : Writing) : Prop :=
  s.state ≠ .connected ∧ s.phase = .idle ∧ s.outgoing = out

theorem step_mute {out : Bytes} (s : Writing) (act : Act) (t : Writing) (h : Mute out s)
    (hstep : step s act = some t) : Mute out t := by
  obtain ⟨hstate, hphase, hout⟩ := h
  cases act with
  | send frame =>
    rw [step_refused hphase hstate] at hstep
    cases hstep
    exact ⟨hstate, hphase, hout⟩
  | call result => simp [step, hphase] at hstep

end Runs

/-- The kernel is given the frames whose `send` returned true, then at most a part of one
whose `send` has not, and nothing more after a `send` that returned false. -/
theorem writes_whole_frames (c : TcpClient) (acts : List Act) (s : Writing)
    (h : run step (idle c []) acts = some s) :
    (∃ tail, s.outgoing = c.outgoing ++ delivered s.returned ++ tail ∧
      (tail = [] ∨ ∃ frame, Unfinished s frame ∧ ProperPrefix tail frame)) ∧
    ∀ frame, (frame, false) ∈ s.returned →
      ∀ more t, run step s more = some t → t.outgoing = s.outgoing := by
  obtain ⟨tail, hwhole⟩ :=
    run_invariant_of_forall (@step_whole c.outgoing) ⟨[], idle_whole c⟩ h
  constructor
  · exact ⟨tail, hwhole.written, hwhole.part⟩
  · intro frame hmem more t hmore
    obtain ⟨hstate, hphase⟩ := hwhole.failed frame hmem
    have hmute : Mute s.outgoing s := ⟨hstate, hphase, rfl⟩
    exact (run_invariant_of_forall step_mute hmute hmore).2.2

/-- The second frame breaks off after one byte, and the third is refused. -/
theorem writes_whole_frames_broken :
    let acts : List Act := [.send [1, 2], .call (.sent 1), .call (.error .eagain), .call (.sent 1),
      .send [3, 4], .call (.sent 1), .call (.sent 0), .send [5]]
    ∃ s, run step (idle ⟨3, .connected, [], [], [], []⟩ []) acts = some s ∧
      s.outgoing = [1, 2, 3] ∧ s.returned = [([1, 2], true), ([3, 4], false), ([5], false)] ∧
      ∀ more t, run step s more = some t → t.outgoing = s.outgoing := by
  intro acts
  refine ⟨_, rfl, rfl, rfl, ?_⟩
  exact (writes_whole_frames ⟨3, .connected, [], [], [], []⟩ acts _ rfl).2 [5]
    (List.mem_append_right _ List.mem_cons_self)

end Mprpc.WholeFrames
