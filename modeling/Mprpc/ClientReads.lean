import Mprpc.TcpClient

namespace Mprpc.ClientReads

open Transport TcpClient Library.ByteOrder Library.Loop

/-- The outcomes at the places from `i` on. -/
def outcomes (recvs : Nat → Recv) (i n : Nat) : List Recv := (List.range' i n).map recvs

/-- The loop that comes to place `i` with its retry counter at `retry` is not
made to give up before the next bytes arrive. -/
def Patient (recvs : Nat → Recv) (i retry : Nat) : Prop :=
  ∀ n, (∀ x ∈ outcomes recvs i n, x.delivers = false) →
    retry + (outcomes recvs i n).countP Recv.waits ≤ Reading.maxRetries

/-- The stream does not end or fail, bytes keep arriving, and the calls between
two arrivals find nothing at most `maxRetries` times. -/
structure Delivers (recvs : Nat → Recv) : Prop where
  open_ : ∀ i, recvs i ≠ .closed
  sound : ∀ i message, recvs i ≠ .error (.other message)
  recurs : ∀ i, ∃ j, i ≤ j ∧ (recvs j).delivers
  patient : ∀ i, Patient recvs i 0

variable {recvs : Nat → Recv}

theorem outcomes_succ (i n : Nat) :
    outcomes recvs i (n + 1) = recvs i :: outcomes recvs (i + 1) n := by
  rw [outcomes, List.range'_succ, List.map_cons, outcomes]

theorem outcomes_add (i m n : Nat) :
    outcomes recvs i (m + n) = outcomes recvs i m ++ outcomes recvs (i + m) n := by
  rw [outcomes, ← List.range'_append_1, List.map_append, outcomes, outcomes]

theorem Patient.skip {i retry : Nat} (h : Patient recvs i retry)
    (hx : (recvs i).delivers = false) :
    Patient recvs (i + 1) (retry + if (recvs i).waits then 1 else 0) := by
  intro n hn
  have hcount := h (n + 1) (by
    rw [outcomes_succ]
    intro x hm
    cases hm with
    | head => exact hx
    | tail _ hm => exact hn x hm)
  rw [outcomes_succ, List.countP_cons] at hcount
  omega

theorem readRound_skip (h : Delivers recvs) {i : Nat} {loop : Reading} (incoming : Bytes)
    (hp : Patient recvs i loop.retryCount) (hx : (recvs i).delivers = false) :
    readRound (loop, incoming) (recvs i) = .again
      ({ loop with retryCount := loop.retryCount + if (recvs i).waits then 1 else 0 },
        incoming) := by
  have hone := hp 1 (by
    intro x hm
    cases List.mem_singleton.mp hm
    exact hx)
  have hcount : (outcomes recvs i 1).countP Recv.waits = if (recvs i).waits then 1 else 0 := by
    simp [outcomes, List.countP_cons]
  rw [hcount] at hone
  cases hr : recvs i with
  | closed => exact absurd hr (h.open_ i)
  | ready n =>
    rw [hr] at hx hone
    obtain rfl : n = 0 := by simpa [Recv.delivers] using hx
    have hretry : ¬ Reading.maxRetries < loop.retryCount + 1 := Nat.not_lt.mpr hone
    simp [readRound, recv, Reading.attempt, hretry, Progress.map, Recv.waits]
  | error errno =>
    rw [hr] at hone
    cases errno with
    | other message => exact absurd hr (h.sound i message)
    | eintr => simp [readRound, recv, Reading.attempt, Progress.map, Recv.waits, Errno.wouldBlock]
    | eagain =>
      have hretry : ¬ Reading.maxRetries < loop.retryCount + 1 := Nat.not_lt.mpr hone
      simp [readRound, recv, Reading.attempt, hretry, Progress.map, Recv.waits, Errno.wouldBlock]
    | ewouldblock =>
      have hretry : ¬ Reading.maxRetries < loop.retryCount + 1 := Nat.not_lt.mpr hone
      simp [readRound, recv, Reading.attempt, hretry, Progress.map, Recv.waits, Errno.wouldBlock]

theorem ready_of_delivers {outcome : Recv} (h : outcome.delivers) :
    ∃ n, 0 < n ∧ outcome = .ready n := by
  cases outcome with
  | ready n => exact ⟨n, by simpa [Recv.delivers] using h, rfl⟩
  | closed => cases h
  | error errno => cases h

section Ready

variable {loop : Reading} {incoming : Bytes} {n : Nat}

theorem readRound_ready (hn : 0 < n) (hmore : 0 < loop.remaining)
    (hlen : loop.remaining ≤ incoming.length) :
    readRound (loop, incoming) (.ready n) =
      (Reading.check { loop with
        data := loop.data ++ incoming.take (min n loop.remaining)
        retryCount := 0 }).map
        (·, incoming.drop (min n loop.remaining)) (·, incoming.drop (min n loop.remaining)) := by
  have htake : (incoming.take (min n loop.remaining)).isEmpty = false := by
    rw [List.isEmpty_eq_false_iff, ← List.length_pos_iff, List.length_take]
    omega
  simp only [readRound, recv, htake, Bool.false_eq_true, if_false, Reading.attempt]

theorem readRound_part (hn : 0 < n) (hlt : n < loop.remaining)
    (hlen : loop.remaining ≤ incoming.length) :
    readRound (loop, incoming) (.ready n) =
      .again ({ loop with data := loop.data ++ incoming.take n, retryCount := 0 },
        incoming.drop n) := by
  rw [readRound_ready hn (by omega) hlen, Nat.min_eq_left hlt.le]
  have hagain : (loop.data ++ incoming.take n).length < loop.length := by
    unfold Reading.remaining at hlt hlen
    rw [List.length_append, List.length_take]
    omega
  rw [Reading.check, if_pos hagain, Progress.map]

theorem readRound_rest (hmore : 0 < loop.remaining) (hle : loop.remaining ≤ n)
    (hlen : loop.remaining ≤ incoming.length) :
    readRound (loop, incoming) (.ready n) =
      .done (.complete (loop.data ++ incoming.take loop.remaining),
        incoming.drop loop.remaining) := by
  rw [readRound_ready (by omega) hmore hlen, Nat.min_eq_right hle]
  have hdone : ¬ (loop.data ++ incoming.take loop.remaining).length < loop.length := by
    unfold Reading.remaining at hmore hlen ⊢
    rw [List.length_append, List.length_take]
    omega
  rw [Reading.check, if_neg hdone, Progress.map]

end Ready

theorem read_reaches (h : Delivers recvs) (d : Nat) {i : Nat} (loop : Reading) (incoming : Bytes)
    (hd : (recvs (i + d)).delivers) (hp : Patient recvs i loop.retryCount) :
    ∃ m retry, (recvs (i + m)).delivers ∧ ∀ n,
      drive readRound (.again (loop, incoming)) (outcomes recvs i (m + n)) =
        drive readRound (.again ({ loop with retryCount := retry }, incoming))
          (outcomes recvs (i + m) n) := by
  induction d generalizing i loop with
  | zero =>
    refine ⟨0, loop.retryCount, hd, ?_⟩
    intro n
    rw [Nat.zero_add, Nat.add_zero]
  | succ d ih =>
    cases hx : (recvs i).delivers with
    | true =>
      refine ⟨0, loop.retryCount, hx, ?_⟩
      intro n
      rw [Nat.zero_add, Nat.add_zero]
    | false =>
      have hskip := readRound_skip h incoming hp hx
      rw [← Nat.add_assoc, Nat.add_right_comm] at hd
      obtain ⟨m, retry, hm, hrun⟩ := ih
        { loop with retryCount := loop.retryCount + if (recvs i).waits then 1 else 0 } hd
          (hp.skip hx)
      refine ⟨m + 1, retry, by rwa [Nat.add_comm m, ← Nat.add_assoc], ?_⟩
      intro n
      rw [Nat.add_right_comm, outcomes_succ, drive, hskip, hrun n, Nat.add_right_comm i,
        Nat.add_assoc i]

/-- The induction is on the number of bytes that are still missing: the next call
that delivers brings some of them, or the last ones. -/
theorem read_completes (h : Delivers recvs) (missing : Nat) {i : Nat} (loop : Reading)
    (incoming : Bytes) (hmissing : loop.remaining = missing) (hpos : 0 < missing)
    (hlen : missing ≤ incoming.length) (hp : Patient recvs i loop.retryCount) :
    ∃ n, drive readRound (.again (loop, incoming)) (outcomes recvs i n) =
      some ((.complete (loop.data ++ incoming.take missing), incoming.drop missing), []) := by
  induction missing using Nat.strong_induction_on generalizing i loop incoming with
  | _ missing ih =>
    obtain ⟨j, hij, hj⟩ := h.recurs i
    obtain ⟨d, rfl⟩ := Nat.exists_eq_add_of_le hij
    obtain ⟨m, retry, hm, hrun⟩ := read_reaches h d loop incoming hj hp
    obtain ⟨k, hk, hready⟩ := ready_of_delivers hm
    have hremaining : ({ loop with retryCount := retry } : Reading).remaining = missing := hmissing
    by_cases hlt : k < missing
    · have hround := readRound_part hk (hremaining ▸ hlt) (hremaining ▸ hlen)
      have hleft : ({ loop with data := loop.data ++ incoming.take k, retryCount := 0 } :
          Reading).remaining = missing - k := by
        unfold Reading.remaining at hmissing ⊢
        dsimp only
        rw [List.length_append, List.length_take]
        omega
      obtain ⟨n, hn⟩ := ih (missing - k) (by omega) _ (incoming.drop k) hleft (by omega)
        (by rw [List.length_drop]; omega) (h.patient (i + m + 1))
      have hsplit : missing = k + (missing - k) := by omega
      refine ⟨m + (n + 1), ?_⟩
      rw [hrun, outcomes_succ, drive, hready, hround, hn, List.append_assoc, ← List.take_add,
        List.drop_drop, ← hsplit]
    · have hround := readRound_rest (hremaining ▸ hpos) (hremaining ▸ Nat.not_lt.mp hlt)
        (hremaining ▸ hlen)
      rw [hremaining] at hround
      refine ⟨m + 1, ?_⟩
      rw [hrun, outcomes_succ, drive, hready, hround]
      rfl

theorem start_again {length : Nat} (h : 0 < length) :
    Reading.start length = .again ⟨length, [], 0⟩ := by
  rw [Reading.start, Reading.check]
  exact if_pos h

theorem readExactly_completes (h : Delivers recvs) (i length : Nat) (hpos : 0 < length)
    (c : TcpClient) (hlen : length ≤ c.incoming.length) :
    ∃ n, ∀ later, (readExactly length).run { c with recvs := outcomes recvs i n ++ later } =
      some (some (c.incoming.take length),
        { c with incoming := c.incoming.drop length, recvs := later }) := by
  obtain ⟨n, hn⟩ := read_completes h length ⟨length, [], 0⟩ c.incoming rfl hpos hlen
    (h.patient i)
  refine ⟨n, ?_⟩
  intro later
  have hrun := drive_append hn later
  rw [List.nil_append, List.nil_append] at hrun
  simp [readExactly, start_again hpos, Progress.map, hrun]

/-- The loop reads no further than the length it was given, and what it has read
and what is still to come make up the stream. -/
def Within (length : Nat) (stream : Bytes) (s : Reading × Bytes) : Prop :=
  s.1.length = length ∧ s.1.data.length < length ∧ s.1.data ++ s.2 = stream

def Exact (length : Nat) (stream : Bytes) (result : ReadOutcome × Bytes) : Prop :=
  ∀ data, result.1 = .complete data → data.length = length ∧ data ++ result.2 = stream

variable {length : Nat} {stream : Bytes}

theorem check_holds (loop : Reading) {incoming : Bytes} (hl : loop.length = length)
    (hd : loop.data.length ≤ length) (hs : loop.data ++ incoming = stream) :
    (loop.check.map (·, incoming) (·, incoming)).Holds (Within length stream)
      (Exact length stream) := by
  unfold Reading.check
  by_cases hlt : loop.data.length < loop.length
  · rw [if_pos hlt]
    exact ⟨hl, hl ▸ hlt, hs⟩
  · rw [if_neg hlt]
    intro data hdata
    cases hdata
    exact ⟨by omega, hs⟩

theorem start_holds (length : Nat) (incoming : Bytes) :
    ((Reading.start length).map (·, incoming) (·, incoming)).Holds (Within length incoming)
      (Exact length incoming) := check_holds _ rfl (Nat.zero_le _) (List.nil_append _)

theorem recv_bytes {want : Nat} {incoming data rest : Bytes} {outcome : Recv}
    (h : recv want incoming outcome = (.bytes data, rest)) :
    data.length ≤ want ∧ data ++ rest = incoming := by
  cases outcome with
  | ready n =>
    dsimp only [recv] at h
    split at h
    · cases h
    · cases h
      rw [List.length_take]
      exact ⟨by omega, List.take_append_drop _ _⟩
  | closed => cases h
  | error errno => cases h

theorem recv_rest (want : Nat) (incoming : Bytes) (outcome : Recv)
    (h : ∀ data, (recv want incoming outcome).1 ≠ .bytes data) :
    (recv want incoming outcome).2 = incoming := by
  cases outcome with
  | ready n =>
    dsimp only [recv] at h ⊢
    split
    · rfl
    · rename_i hne
      rw [if_neg hne] at h
      exact absurd rfl (h _)
  | closed => rfl
  | error errno => rfl

theorem attempt_error_holds {loop : Reading} {incoming : Bytes}
    (h : Within length stream (loop, incoming)) (errno : Errno) :
    ((loop.attempt (.error errno)).map (·, incoming) (·, incoming)).Holds (Within length stream)
      (Exact length stream) := by
  have hwaits : ((if Reading.maxRetries < loop.retryCount + 1 then .done .timedOut
      else .again { loop with retryCount := loop.retryCount + 1 } :
        Progress Reading ReadOutcome).map (·, incoming) (·, incoming)).Holds
      (Within length stream) (Exact length stream) := by
    split
    · intro data hdata
      cases hdata
    · exact h
  cases errno with
  | eintr => exact h
  | eagain => exact hwaits
  | ewouldblock => exact hwaits
  | other message =>
    intro data hdata
    cases hdata

/-- A round of the loop loses nothing of the stream. -/
theorem readRound_holds (s : Reading × Bytes) (outcome : Recv) (h : Within length stream s) :
    (readRound s outcome).Holds (Within length stream) (Exact length stream) := by
  obtain ⟨loop, incoming⟩ := s
  unfold readRound
  cases hr : recv loop.remaining incoming outcome with
  | mk received rest =>
    cases received with
    | bytes data =>
      obtain ⟨hl, hd, hs⟩ := h
      obtain ⟨hlen, hdata⟩ := recv_bytes hr
      unfold Reading.remaining at hlen
      dsimp only at hl hd hs
      apply check_holds { loop with data := loop.data ++ data, retryCount := 0 } hl
      · dsimp only
        rw [List.length_append]
        omega
      · dsimp only
        rw [List.append_assoc, hdata, hs]
    | closed =>
      intro data hdata
      cases hdata
    | error errno =>
      have hrest := recv_rest loop.remaining incoming outcome (by simp [hr])
      rw [hr] at hrest
      dsimp only at hrest ⊢
      rw [hrest]
      exact attempt_error_holds h errno

/-- What a call of `readExactly` makes of the way its loop ends. -/
theorem readExactly_run (length : Nat) (c : TcpClient) :
    (readExactly length).run c =
      (drive readRound ((Reading.start length).map (·, c.incoming) (·, c.incoming)) c.recvs).map
        fun ((outcome, incoming), recvs) =>
          match outcome with
          | .complete data => (some data, { c with incoming := incoming, recvs := recvs })
          | .timedOut => (none, { c with incoming := incoming, recvs := recvs })
          | .disconnected =>
            (none, { c with incoming := incoming, recvs := recvs, state := .disconnected }) := by
  cases hd : drive readRound ((Reading.start length).map (·, c.incoming) (·, c.incoming))
      c.recvs with
  | none => simp [readExactly, hd]
  | some result =>
    obtain ⟨⟨outcome, incoming⟩, recvs⟩ := result
    cases outcome <;> simp [readExactly, hd]

theorem readExactly_length {c c' : TcpClient} {data : Bytes}
    (h : (readExactly length).run c = some (some data, c')) : data.length = length := by
  rw [readExactly_run] at h
  obtain ⟨⟨⟨outcome, incoming⟩, recvs⟩, hd, hback⟩ := Option.map_eq_some_iff.mp h
  have hexact := drive_holds readRound_holds (start_holds length c.incoming) hd
  cases outcome with
  | complete got =>
    cases hback
    exact (hexact _ rfl).1
  | timedOut => cases hback
  | disconnected => cases hback

theorem receive_run {c : TcpClient} (hs : c.state = .connected) :
    receive.run c = ((readExactly 4).run c).bind fun p => match p.1 with
      | none => some (none, p.2)
      | some lengthBytes =>
        let messageLength := byteSwap 4 (ofLittleEndian lengthBytes)
        if messageLength = 0 ∨ maxMessageSize < messageLength then some (none, p.2)
        else (readExactly messageLength).run p.2 := by
  simp only [receive, StateT.run_bind, StateT.run_get, Option.pure_def, Option.bind_eq_bind,
    Option.bind_some, hs, ne_eq, not_true_eq_false, if_false]
  congr 1
  funext p
  obtain ⟨header, c₁⟩ := p
  cases header with
  | none => rfl
  | some lengthBytes =>
    dsimp only
    split <;> rfl

theorem receive_disconnected {c : TcpClient} (hs : c.state ≠ .connected) :
    receive.run c = some (none, c) := by
  simp [receive, hs]

theorem receive_length {c c' : TcpClient} {data : Bytes}
    (h : receive.run c = some (some data, c')) : data.length ≤ maxMessageSize := by
  by_cases hs : c.state = .connected
  · rw [receive_run hs] at h
    obtain ⟨⟨header, c₁⟩, _, hrest⟩ := Option.bind_eq_some_iff.mp h
    cases header with
    | none => cases hrest
    | some lengthBytes =>
      dsimp only at hrest
      split at hrest
      · cases hrest
      · rw [readExactly_length hrest]
        omega
  · rw [receive_disconnected hs] at h
    cases h

end Mprpc.ClientReads
