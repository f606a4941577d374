import Mprpc.FrameCodec
import Mprpc.Library.SharedStream
import Mprpc.Library.Transition
import Mprpc.TcpServer

namespace Mprpc.SendInterleaving

open Transport TcpConnection Library.Loop Library.SharedStream Library.Transition

variable {ι : Type}

/-- A worker has not called `send` yet, is inside it, or is back from it. -/
inductive Phase
  | idle
  | calling (call : SendCall)

/-- One connection and the workers that answer its requests. -/
structure System (ι : Type) where
  connection : TcpConnection
  phase : ι → Phase

inductive Act (ι : Type)
  | start (i : ι)
  | call (i : ι) (result : SendResult)

/-- How much of its frame a worker has put on the wire, as its call sees it. -/
def sentBy (frame : Bytes) : Phase → Nat
  | .idle => 0
  | .calling (.sending loop) => loop.totalSent
  | .calling (.returned true) => frame.length
  | .calling (.returned false) => 0

/-- No `::send` is made while another worker has sent a part of its frame. -/
def Alone (s : System ι) : Act ι → Prop
  | .start _ => True
  | .call i _ => ∀ j, j ≠ i → ∀ loop, s.phase j = .calling (.sending loop) → loop.totalSent = 0

def Failed (s : System ι) : Prop := ∃ i, s.phase i = .calling (.returned false)

theorem rests_of_alone {frame : ι → Bytes} {s : System ι} {i : ι} {result : SendResult}
    (halone : Alone s (.call i result)) (j : ι) (hj : j ≠ i) :
    Rests frame (fun i => sentBy (frame i) (s.phase i)) j := by
  unfold Rests
  dsimp only
  cases hphase : s.phase j with
  | idle => exact .inl rfl
  | calling call =>
    cases call with
    | sending loop => exact .inl (halone j hj loop hphase)
    | returned sent =>
      cases sent with
      | true => exact .inr rfl
      | false => exact .inl rfl

theorem callOf_check {frame : Bytes} {n : Nat} (h : n ≤ frame.length) :
    sentBy frame (.calling (callOf (Sending.check ⟨frame, n⟩))) = n ∧
      ∀ loop, callOf (Sending.check ⟨frame, n⟩) = .sending loop →
        loop.data = frame ∧ loop.totalSent < frame.length := by
  unfold Sending.check
  split
  · rename_i hlt
    refine ⟨rfl, ?_⟩
    rintro loop hloop
    cases hloop
    exact ⟨rfl, hlt⟩
  · rename_i hge
    refine ⟨Nat.le_antisymm (Nat.not_lt.mp hge) h, ?_⟩
    rintro loop hloop
    cases hloop

variable [DecidableEq ι]

def apply (s : System ι) (i : ι) (action : Action SendCall) : Option (System ι) :=
  match action.run s.connection with
  | .ok call c => some ⟨c, Function.update s.phase i (.calling call)⟩
  | .error _ _ => none

/-- A worker enters `send` with its frame, or makes one `::send`, which takes no
more than what is left. -/
def step (frame : ι → Bytes) (s : System ι) : Act ι → Option (System ι)
  | .start i =>
    match s.phase i with
    | .idle => apply s i (beginSend (frame i))
    | .calling _ => none
  | .call i result =>
    match s.phase i with
    | .calling (.sending loop) =>
      if (loop.put result).length = result.size then apply s i (resumeSend loop result) else none
    | _ => none

def initial (sockfd : Int) (peerAddr : Text) : System ι :=
  ⟨TcpServer.accepted sockfd peerAddr, fun _ => .idle⟩

theorem apply_some {s t : System ι} {i : ι} {action : Action SendCall}
    (h : apply s i action = some t) : ∃ call,
      action.run s.connection = .ok call t.connection ∧ t.phase i = .calling call := by
  unfold apply at h
  split at h
  · rename_i call c hrun
    cases h
    exact ⟨call, hrun, Function.update_self _ _ _⟩
  · cases h

theorem resume_alone {frame : ι → Bytes} {s t : System ι} {i : ι} {call : SendCall}
    {results : List SendResult} (hphase : s.phase i = .calling call)
    (h : run (step frame) s (results.map (.call i)) = some t) : ∃ call',
      (resumeAll call results).run s.connection = .ok call' t.connection ∧
        t.phase i = .calling call' := by
  induction results generalizing s call with
  | nil =>
    cases h
    cases call <;> exact ⟨_, rfl, hphase⟩
  | cons result results ih =>
    obtain ⟨u, hu, ht⟩ := run_cons_some.mp h
    cases call with
    | returned sent => simp [step, hphase] at hu
    | sending loop =>
      simp only [step, hphase] at hu
      split at hu
      · obtain ⟨call₁, hrun, hcall₁⟩ := apply_some hu
        obtain ⟨call', hrest, hcall'⟩ := ih hcall₁ ht
        refine ⟨call', ?_, hcall'⟩
        simp only [resumeAll, EStateM.run_bind, hrun]
        exact hrest
      · cases hu

/-- A worker whose steps nobody comes between does what `send` does. -/
theorem send_alone {frame : ι → Bytes} {s t : System ι} {i : ι} {results : List SendResult}
    (h : run (step frame) s (.start i :: results.map (.call i)) = some t) : ∃ call,
      (send (frame i) results).run s.connection = .ok call t.connection ∧
        t.phase i = .calling call := by
  obtain ⟨u, hu, ht⟩ := run_cons_some.mp h
  cases hphase : s.phase i with
  | calling call => simp [step, hphase] at hu
  | idle =>
    simp only [step, hphase] at hu
    obtain ⟨call₁, hrun, hcall₁⟩ := apply_some hu
    obtain ⟨call, hrest, hcall⟩ := resume_alone hcall₁ ht
    refine ⟨call, ?_, hcall⟩
    simp only [send, EStateM.run_bind, hrun]
    exact hrest

structure Orderly (frame : ι → Bytes) (s : System ι) : Prop where
  turns : Turns frame (fun i => sentBy (frame i) (s.phase i)) (wire s.connection)
  loops : ∀ i loop, s.phase i = .calling (.sending loop) →
    loop.data = frame i ∧ loop.totalSent < (frame i).length

theorem sentBy_update (frame : ι → Bytes) (s : System ι) (i : ι) (phase : Phase) :
    (fun j => sentBy (frame j) (Function.update s.phase i phase j)) =
      Function.update (fun j => sentBy (frame j) (s.phase j)) i (sentBy (frame i) phase) := by
  funext j
  by_cases hj : j = i
  · subst hj
    rw [Function.update_self, Function.update_self]
  · rw [Function.update_of_ne hj, Function.update_of_ne hj]

/-- A worker moves on by the bytes it has put on the wire. -/
theorem Orderly.move {frame : ι → Bytes} {s : System ι} (h : Orderly frame s) {i : ι} {n : Nat}
    {c : TcpConnection} (hn : sentBy (frame i) (s.phase i) + n ≤ (frame i).length)
    (hothers : n = 0 ∨ ∀ j, j ≠ i → Rests frame (fun i => sentBy (frame i) (s.phase i)) j)
    (hwire : wire c = wire s.connection ++
      ((frame i).drop (sentBy (frame i) (s.phase i))).take n) :
    Orderly frame ⟨c, Function.update s.phase i
      (.calling (callOf (Sending.check ⟨frame i, sentBy (frame i) (s.phase i) + n⟩)))⟩ := by
  obtain ⟨hsent, hloop⟩ := callOf_check hn
  refine ⟨?_, ?_⟩
  · dsimp only
    rw [sentBy_update, hsent, hwire]
    cases hothers with
    | inl hzero =>
      rw [hzero, Nat.add_zero, Function.update_eq_self, List.take_zero, List.append_nil]
      exact h.turns
    | inr hothers => exact h.turns.put hothers hn
  · intro j loop hj
    by_cases hji : j = i
    · subst hji
      dsimp only at hj
      rw [Function.update_self] at hj
      exact hloop loop (Phase.calling.inj hj)
    · dsimp only at hj
      rw [Function.update_of_ne hji] at hj
      exact h.loops j loop hj

theorem failed_update {s : System ι} {i : ι} {c : TcpConnection} {phase : Phase}
    (hphase : ∀ sent, s.phase i ≠ .calling (.returned sent)) (h : Failed s) :
    Failed ⟨c, Function.update s.phase i phase⟩ := by
  obtain ⟨j, hj⟩ := h
  refine ⟨j, ?_⟩
  have hji : j ≠ i := by
    rintro rfl
    exact hphase false hj
  dsimp only
  rw [Function.update_of_ne hji, hj]

theorem failed_self {s : System ι} {i : ι} {c : TcpConnection} :
    Failed ⟨c, Function.update s.phase i (.calling (.returned false))⟩ :=
  ⟨i, Function.update_self _ _ _⟩

theorem start_orderly {frame : ι → Bytes} {s t : System ι} {i : ι}
    (inv : Failed s ∨ Orderly frame s) (h : step frame s (.start i) = some t) :
    Failed t ∨ Orderly frame t := by
  cases hphase : s.phase i with
  | calling call => simp [step, hphase] at h
  | idle =>
    obtain ⟨call, c, hrun, hwire, hcall⟩ := beginSend_run (frame i) s.connection
    simp only [step, hphase, apply, hrun, Option.some.injEq] at h
    subst h
    have hsent : sentBy (frame i) (s.phase i) = 0 := by
      rw [hphase]
      rfl
    cases hcall with
    | inl hfalse =>
      rw [hfalse]
      exact .inl failed_self
    | inr hstart =>
      cases inv with
      | inl hfailed => exact .inl (failed_update (by simp [hphase]) hfailed)
      | inr horder =>
        have hmove := horder.move (i := i) (n := 0) (c := c) (by omega) (.inl rfl) (by
          rw [hwire, List.take_zero, List.append_nil])
        rw [hsent] at hmove
        rw [hstart]
        exact .inr hmove

theorem call_orderly {frame : ι → Bytes} {s t : System ι} {i : ι} {result : SendResult}
    (inv : Failed s ∨ Orderly frame s) (halone : Alone s (.call i result))
    (h : step frame s (.call i result) = some t) : Failed t ∨ Orderly frame t := by
  cases hphase : s.phase i with
  | idle => simp [step, hphase] at h
  | calling call =>
    cases call with
    | returned sent => simp [step, hphase] at h
    | sending loop =>
      obtain ⟨c, hrun, hwire⟩ := resumeSend_run loop result s.connection
      simp only [step, hphase, apply, hrun] at h
      split at h
      · rename_i hlegal
        cases h
        cases inv with
        | inl hfailed => exact .inl (failed_update (by simp [hphase]) hfailed)
        | inr horder =>
          obtain ⟨hdata, hlt⟩ := horder.loops i loop hphase
          have hloop : loop = ⟨frame i, loop.totalSent⟩ := by rw [← hdata]
          have hsent : sentBy (frame i) (s.phase i) = loop.totalSent := by
            rw [hphase]
            rfl
          rw [Sending.put_eq, List.length_take] at hlegal
          have hremaining : loop.remaining = (frame i).drop loop.totalSent := by
            rw [Sending.remaining, hdata]
          rw [hremaining, List.length_drop] at hlegal
          obtain ⟨errorMsg, hfail⟩ | hcheck := Sending.attempt_eq (hdata ▸ hlt) result
          · rw [hfail]
            exact .inl failed_self
          · have hmove := horder.move (i := i) (n := result.size) (c := c) (by omega)
              (.inr (rests_of_alone halone)) (by
                rw [hwire, Sending.put_eq, hremaining, hsent])
            rw [hsent] at hmove
            rw [hcheck, hdata]
            exact .inr hmove
      · cases h

theorem step_orderly (frame : ι → Bytes) (s : System ι) (act : Act ι) (t : System ι)
    (inv : Failed s ∨ Orderly frame s) (halone : Alone s act) (h : step frame s act = some t) :
    Failed t ∨ Orderly frame t := by
  cases act with
  | start i => exact start_orderly inv h
  | call i result => exact call_orderly inv halone h

theorem initial_orderly (frame : ι → Bytes) (sockfd : Int) (peerAddr : Text) :
    Orderly frame (initial sockfd peerAddr) := by
  refine ⟨turns_start, ?_⟩
  intro i loop hi
  cases hi

/-- When all calls have returned true, the stream is a concatenation of the whole
frames, provided that no call went ahead in the middle of another's frame. -/
theorem responses_concatenated [Fintype ι] (sockfd : Int) (peerAddr : Text) (response : ι → Bytes)
    (acts : List (Act ι)) (s : System ι)
    (hg : Guarded (step fun i => FrameCodec.encode (response i)) Alone (initial sockfd peerAddr)
      acts)
    (h : run (step fun i => FrameCodec.encode (response i)) (initial sockfd peerAddr) acts = some s)
    (hall : ∀ i, s.phase i = .calling (.returned true)) :
    Concatenated (fun i => FrameCodec.encode (response i)) (wire s.connection) := by
  have inv := run_invariant (step_orderly _) (.inr (initial_orderly _ sockfd peerAddr)) hg h
  cases inv with
  | inl hfailed =>
    obtain ⟨i, hi⟩ := hfailed
    rw [hall i] at hi
    cases hi
  | inr horder =>
    apply horder.turns.concatenated
    intro i
    rw [hall i]
    rfl

/-- The payloads of two responses on one connection. -/
def pair (i : Bool) : Bytes := if i then [65] else [66]

theorem responses_concatenated_pair :
    ∃ s, run (step fun i => FrameCodec.encode (pair i)) (initial 5 [])
        [.start true, .start false, .call true (.sent 2), .call true (.sent 3),
          .call false (.sent 5)] = some s ∧
      Concatenated (fun i => FrameCodec.encode (pair i)) (wire s.connection) := by
  have hguard : Guarded (step fun i => FrameCodec.encode (pair i)) Alone (initial 5 [])
      [.start true, .start false, .call true (.sent 2), .call true (.sent 3),
        .call false (.sent 5)] := by
    refine .cons trivial rfl (.cons trivial rfl
      (.cons ?_ rfl (.cons ?_ rfl (.cons ?_ rfl trivial))))
    · intro j hj loop hloop
      cases j with
      | true => exact absurd rfl hj
      | false =>
        cases hloop
        rfl
    · intro j hj loop hloop
      cases j with
      | true => exact absurd rfl hj
      | false =>
        cases hloop
        rfl
    · intro j hj loop hloop
      cases j with
      | true => cases hloop
      | false => exact absurd rfl hj
  have hrun : run (step fun i => FrameCodec.encode (pair i)) (initial 5 [])
      [.start true, .start false, .call true (.sent 2), .call true (.sent 3),
        .call false (.sent 5)] = some _ := rfl
  refine ⟨_, hrun, responses_concatenated 5 [] pair _ _ hguard hrun ?_⟩
  · intro i
    cases i <;> rfl

/-- The second response goes out between the two pieces of the first. -/
theorem responses_interleaved :
    ∃ s, run (step fun i => FrameCodec.encode (pair i)) (initial 5 [])
        [.start true, .start false, .call true (.sent 2), .call false (.sent 5),
          .call true (.sent 3)] = some s ∧
      (∀ i, s.phase i = .calling (.returned true)) ∧
      ¬ Concatenated (fun i => FrameCodec.encode (pair i)) (wire s.connection) := by
  have hrun : run (step fun i => FrameCodec.encode (pair i)) (initial 5 [])
      [.start true, .start false, .call true (.sent 2), .call false (.sent 5),
        .call true (.sent 3)] = some _ := rfl
  refine ⟨_, hrun, ?_, ?_⟩
  · intro i
    cases i <;> rfl
  · rintro ⟨order, _, hall, hstream⟩
    have hlen : ∀ i, 4 ≤ (FrameCodec.encode (pair i)).length := by decide
    have hhead : ∀ i, (FrameCodec.encode (pair i)).take 4 = [0, 0, 0, 1] := by decide
    cases order with
    | nil => cases hall true
    | cons i order =>
      rw [List.flatMap_cons] at hstream
      have htake := congrArg (List.take 4) hstream
      rw [List.take_append_of_le_length (hlen i), hhead i] at htake
      cases htake

end Mprpc.SendInterleaving
