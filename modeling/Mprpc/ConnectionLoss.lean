import Mprpc.ClientReads

namespace Mprpc.ConnectionLoss

open Transport Library.Loop TcpClient ClientReads Library.ByteOrder

/-- The outcomes of `send` and of `recv` that end a connection. -/
def FatalSend : SendResult → Prop
  | .sent n => n = 0
  | .error errno => errno.wouldBlock = false

def FatalRecv : Recv → Prop
  | .ready _ => False
  | .closed => True
  | .error errno => errno.wouldBlock = false ∧ errno ≠ .eintr

theorem attempt_failed_iff (loop : Sending) (result : SendResult) :
    (∃ errorMsg, loop.attempt result = .done (.failed errorMsg)) ↔ FatalSend result := by
  cases result with
  | sent n =>
    cases n with
    | zero => exact iff_of_true ⟨_, rfl⟩ rfl
    | succ n =>
      refine iff_of_false ?_ (Nat.succ_ne_zero n)
      rintro ⟨errorMsg, hfailed⟩
      simp only [Sending.attempt, Sending.check] at hfailed
      split at hfailed <;> cases hfailed
  | error errno =>
    cases hw : errno.wouldBlock with
    | true => simp [Sending.attempt, FatalSend, hw]
    | false => simp [Sending.attempt, FatalSend, hw]

def SendFails (data : Bytes) (c : TcpClient) : Prop :=
  Meets sendRound FatalSend ((Sending.start data).map (·, c.outgoing) (·, c.outgoing)) c.sends

def ReadFails (length : Nat) (c : TcpClient) : Prop :=
  Meets readRound FatalRecv ((Reading.start length).map (·, c.incoming) (·, c.incoming)) c.recvs

/-- `receive` meets the end of the connection in the header or in the body. -/
def ReceiveFails (c : TcpClient) : Prop :=
  ReadFails 4 c ∨ ∃ lengthBytes c₁, (readExactly 4).run c = some (some lengthBytes, c₁) ∧
    byteSwap 4 (ofLittleEndian lengthBytes) ≠ 0 ∧
    byteSwap 4 (ofLittleEndian lengthBytes) ≤ maxMessageSize ∧
    ReadFails (byteSwap 4 (ofLittleEndian lengthBytes)) c₁

variable {c c' : TcpClient} {data : Bytes} {length : Nat}

theorem sendRound_fatal (s : Sending × Bytes) (result : SendResult)
    (h : FatalSend result) :
    ∃ r, sendRound s result = .done r ∧ ∃ errorMsg, r.1 = .failed errorMsg := by
  cases result with
  | sent n =>
    cases h
    exact ⟨_, rfl, _, rfl⟩
  | error errno =>
    have hw : errno.wouldBlock = false := h
    refine ⟨_, by simp only [sendRound, Sending.attempt, hw]; rfl, _, rfl⟩

theorem check_alive {loop : Sending} {put : Bytes} {r : SendOutcome × Bytes}
    (h : (Sending.check loop).map (·, put) (·, put) = .done r) : r.1 = .complete := by
  unfold Sending.check at h
  split at h
  · cases h
  · cases h
    rfl

theorem sendRound_alive (s : Sending × Bytes) (result : SendResult) (r : SendOutcome × Bytes)
    (h : ¬FatalSend result) (hr : sendRound s result = .done r) :
    ¬∃ errorMsg, r.1 = .failed errorMsg := by
  have hcomplete : r.1 = .complete := by
    cases result with
    | sent n =>
      cases n with
      | zero => exact absurd rfl h
      | succ n => exact check_alive hr
    | error errno =>
      have hw : errno.wouldBlock = true := by simpa [FatalSend] using h
      simp only [sendRound, Sending.attempt, hw, if_true] at hr
      cases hr
  rintro ⟨errorMsg, hfailed⟩
  rw [hcomplete] at hfailed
  cases hfailed

theorem start_alive (r : SendOutcome × Bytes)
    (h : (Sending.start data).map (·, c.outgoing) (·, c.outgoing) = .done r) :
    ¬∃ errorMsg, r.1 = .failed errorMsg := by
  rintro ⟨errorMsg, hfailed⟩
  rw [check_alive h] at hfailed
  cases hfailed

theorem send_fails (hs : c.state = .connected) (h : SendFails data c) :
    ∃ c', (send data).run c = some (false, c') ∧ c'.state = .disconnected := by
  obtain ⟨⟨outcome, outgoing⟩, sends, hdrive, errorMsg, houtcome⟩ :=
    drive_of_meets sendRound_fatal h
  change outcome = _ at houtcome
  subst houtcome
  refine ⟨{ c with outgoing := outgoing, sends := sends, state := .disconnected }, ?_, rfl⟩
  rw [send_run hs, hdrive]
  rfl

theorem send_keeps (hs : c.state = .connected) (h : ¬SendFails data c) {sent : Bool}
    (hrun : (send data).run c = some (sent, c')) : sent = true ∧ c'.state = .connected := by
  rw [send_run hs] at hrun
  obtain ⟨⟨⟨outcome, outgoing⟩, sends⟩, hd, hback⟩ := Option.map_eq_some_iff.mp hrun
  have halive := drive_of_not_meets sendRound_alive start_alive h hd
  cases outcome with
  | complete =>
    cases hback
    exact ⟨rfl, hs⟩
  | failed errorMsg => exact absurd ⟨errorMsg, rfl⟩ halive

theorem readRound_fatal (s : Reading × Bytes) (outcome : Recv) (h : FatalRecv outcome) :
    ∃ r, readRound s outcome = .done r ∧ r.1 = .disconnected := by
  cases outcome with
  | ready n => cases h
  | closed => exact ⟨_, rfl, rfl⟩
  | error errno =>
    obtain ⟨hw, hi⟩ := h
    cases errno with
    | eagain => cases hw
    | ewouldblock => cases hw
    | eintr => exact absurd rfl hi
    | other message => exact ⟨_, rfl, rfl⟩

theorem read_check_alive {loop : Reading} {rest : Bytes} {r : ReadOutcome × Bytes}
    (h : (Reading.check loop).map (·, rest) (·, rest) = .done r) : r.1 ≠ .disconnected := by
  unfold Reading.check at h
  split at h
  · cases h
  · cases h
    intro hr
    cases hr

theorem waits_alive {loop : Reading} {rest : Bytes} {r : ReadOutcome × Bytes}
    (h : (if Reading.maxRetries < loop.retryCount + 1 then .done .timedOut
      else .again { loop with retryCount := loop.retryCount + 1 } :
        Progress Reading ReadOutcome).map (·, rest) (·, rest) = .done r) : r.1 ≠ .disconnected := by
  split at h
  · cases h
    intro hr
    cases hr
  · cases h

theorem readRound_alive (s : Reading × Bytes) (outcome : Recv) (r : ReadOutcome × Bytes)
    (h : ¬FatalRecv outcome) (hr : readRound s outcome = .done r) : ¬r.1 = .disconnected := by
  cases outcome with
  | ready n =>
    simp only [readRound, recv] at hr
    split at hr
    · exact waits_alive hr
    · exact read_check_alive hr
  | closed => exact absurd trivial h
  | error errno =>
    cases errno with
    | eagain => exact waits_alive hr
    | ewouldblock => exact waits_alive hr
    | eintr => cases hr
    | other message => exact absurd ⟨rfl, Errno.noConfusion⟩ h

theorem readExactly_fails (h : ReadFails length c) :
    ∃ c', (readExactly length).run c = some (none, c') ∧ c'.state = .disconnected := by
  obtain ⟨⟨outcome, incoming⟩, recvs, hdrive, houtcome⟩ := drive_of_meets readRound_fatal h
  change outcome = _ at houtcome
  subst houtcome
  refine ⟨{ c with incoming := incoming, recvs := recvs, state := .disconnected }, ?_, rfl⟩
  rw [readExactly_run, hdrive]
  rfl

theorem readExactly_keeps (h : ¬ReadFails length c) {r : Option Bytes}
    (hrun : (readExactly length).run c = some (r, c')) : c'.state = c.state := by
  rw [readExactly_run] at hrun
  obtain ⟨⟨⟨outcome, incoming⟩, recvs⟩, hd, hback⟩ := Option.map_eq_some_iff.mp hrun
  have halive := drive_of_not_meets readRound_alive (fun r hr => read_check_alive hr) h hd
  cases outcome with
  | complete got =>
    cases hback
    rfl
  | timedOut =>
    cases hback
    rfl
  | disconnected => exact absurd rfl halive

theorem receive_fails (hs : c.state = .connected) (h : ReceiveFails c) :
    ∃ c', receive.run c = some (none, c') ∧ c'.state = .disconnected := by
  rw [receive_run hs]
  obtain h | ⟨lengthBytes, c₁, hheader, hne, hle, h⟩ := h
  · obtain ⟨c', hrun, hc'⟩ := readExactly_fails h
    exact ⟨c', by rw [hrun]; rfl, hc'⟩
  · obtain ⟨c', hrun, hc'⟩ := readExactly_fails h
    refine ⟨c', ?_, hc'⟩
    rw [hheader, Option.bind_some]
    dsimp only
    rw [if_neg (by omega), hrun]

theorem receive_keeps (hs : c.state = .connected) (h : ¬ReceiveFails c) {r : Option Bytes}
    (hrun : receive.run c = some (r, c')) : c'.state = .connected := by
  obtain ⟨hheader, hbody⟩ := not_or.mp h
  rw [receive_run hs] at hrun
  obtain ⟨⟨header, c₁⟩, hread, hrest⟩ := Option.bind_eq_some_iff.mp hrun
  have hc₁ := readExactly_keeps hheader hread
  cases header with
  | none =>
    cases hrest
    rw [hc₁, hs]
  | some lengthBytes =>
    dsimp only at hrest
    split at hrest
    · cases hrest
      rw [hc₁, hs]
    · next hlen =>
      obtain ⟨hne, hle⟩ := not_or.mp hlen
      have hkeep : ¬ReadFails (byteSwap 4 (ofLittleEndian lengthBytes)) c₁ := fun hfails =>
        hbody ⟨lengthBytes, c₁, hread, hne, not_lt.mp hle, hfails⟩
      rw [readExactly_keeps hkeep hrest, hc₁, hs]

end Mprpc.ConnectionLoss
