import Mprpc.Session

namespace Mprpc.SessionNumbers

open Transport RpcProtocolHelper Session Library.Loop Library.Transition

variable {pb : Protobuf} {s : Session}

/-- The numbers of the requests that have gone out, in the order of the answers. -/
def numbers (s : Session) : List Nat := (s.answered ++ s.pending).map Prod.fst

def Numbered (s : Session) : Prop :=
  (numbers s).Pairwise (· < ·) ∧ ∀ number ∈ numbers s, number ≤ s.calls

def Kept (s t : Session) : Prop :=
  t.calls = s.calls ∧ t.pending = s.pending ∧ t.answered = s.answered

theorem finish_kept (received : Option Bytes) : Kept s (finish pb s received) := by
  cases received with
  | none => exact ⟨rfl, rfl, rfl⟩
  | some data =>
    dsimp only [finish]
    cases parseResponse pb data <;> exact ⟨rfl, rfl, rfl⟩

theorem onBody_kept (p : Progress (Reading × Bytes) (ReadOutcome × Bytes)) :
    Kept s (onBody pb s p) := by
  cases p with
  | again s' => exact ⟨rfl, rfl, rfl⟩
  | done result =>
    obtain ⟨outcome, incoming⟩ := result
    cases outcome with
    | complete data => exact finish_kept (s := { s with incoming := incoming }) (some data)
    | timedOut => exact ⟨rfl, rfl, rfl⟩
    | disconnected => exact ⟨rfl, rfl, rfl⟩

theorem onHeader_kept (p : Progress (Reading × Bytes) (ReadOutcome × Bytes)) :
    Kept s (onHeader pb s p) := by
  cases p with
  | again s' => exact ⟨rfl, rfl, rfl⟩
  | done result =>
    obtain ⟨outcome, incoming⟩ := result
    cases outcome with
    | complete lengthBytes =>
      dsimp only [onHeader]
      split
      · exact ⟨rfl, rfl, rfl⟩
      · exact onBody_kept (s := { s with incoming := incoming }) _
    | timedOut => exact ⟨rfl, rfl, rfl⟩
    | disconnected => exact ⟨rfl, rfl, rfl⟩

theorem onSent_kept (p : Progress (Sending × Bytes) (SendOutcome × Bytes)) :
    Kept s (onSent pb s p) := by
  cases p with
  | again s' => exact ⟨rfl, rfl, rfl⟩
  | done result =>
    obtain ⟨outcome, toServer⟩ := result
    cases outcome with
    | complete =>
      dsimp only [onSent, Session.receive]
      split
      · exact ⟨rfl, rfl, rfl⟩
      · exact onHeader_kept (s := { s with toServer := toServer }) _
    | failed errorMsg => exact ⟨rfl, rfl, rfl⟩

theorem Numbered.kept {t : Session} (h : Numbered s) (hkept : Kept s t) : Numbered t := by
  obtain ⟨hcalls, hpending, hanswered⟩ := hkept
  unfold Numbered numbers
  rw [hcalls, hpending, hanswered]
  exact h

theorem Numbered.call (h : Numbered s) : Numbered { s with calls := s.calls + 1 } :=
  ⟨h.1, fun number hn => Nat.le_succ_of_le (h.2 number hn)⟩

theorem Numbered.post (h : Numbered s) (payload : Bytes) :
    Numbered (post { s with calls := s.calls + 1 } payload) := by
  unfold Session.post
  split
  · exact h.call
  · have hnumbers : numbers { s with
        calls := s.calls + 1
        pending := s.pending ++ [(s.calls + 1, payload)] } = numbers s ++ [s.calls + 1] := by
      simp [numbers]
    unfold Numbered
    dsimp only
    rw [hnumbers]
    refine ⟨?_, ?_⟩
    · rw [List.pairwise_append]
      refine ⟨h.1, List.pairwise_singleton _ _, ?_⟩
      intro number hn number' hn'
      rw [List.mem_singleton.mp hn']
      exact Nat.lt_succ_of_le (h.2 number hn)
    · intro number hn
      cases List.mem_append.mp hn with
      | inl hold => exact Nat.le_succ_of_le (h.2 number hold)
      | inr hnew => exact (List.mem_singleton.mp hnew).le

theorem beginCall_numbered (h : Numbered s) (request : RpcRequest) :
    Numbered (beginCall pb { s with calls := s.calls + 1 } request) := by
  unfold beginCall
  cases serializeRequest pb request with
  | error e => exact h.call
  | ok payload =>
    dsimp only
    split
    · exact h.call
    · exact (h.post payload).kept (onSent_kept _)

theorem step_numbered (s : Session) (act : Act) (t : Session) (h : Numbered s)
    (hstep : step pb s act = some t) : Numbered t := by
  cases moves_of_step hstep with
  | call hphase => exact beginCall_numbered h _
  | send hphase => exact h.kept (onSent_kept _)
  | @answer reply number payload pending hpending hframe hlen =>
    have hnumbers : numbers (answer s number payload pending reply) = numbers s := by
      simp [numbers, answer, hpending]
    unfold Numbered
    rw [hnumbers]
    exact h
  | header hphase => exact h.kept (onHeader_kept _)
  | body hphase => exact h.kept (onBody_kept _)

end Mprpc.SessionNumbers
