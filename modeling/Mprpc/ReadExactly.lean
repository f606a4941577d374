import Mprpc.ReadSchedules

namespace Mprpc.ReadExactly

open Transport Library.Loop ClientReads ReadSchedules

/-- The variables of the loop with the vector that it fills: of the `length` bytes of `data`,
the first `totalRead` have been read. -/
structure Filling where
  length : Nat
  data : Bytes
  totalRead : Nat
  retryCount : Nat
deriving DecidableEq, Repr

/-- What the loop leaves: the result, the vector, and whether it has changed the state. -/
structure Returned where
  success : Bool
  data : Bytes
  disconnected : Bool
deriving DecidableEq, Repr

def resize (data : Bytes) (size : Nat) : Bytes :=
  data.take size ++ List.replicate (size - data.length) 0

/-- `data` with some bytes from a place on replaced by those that were received. -/
def overwrite (data : Bytes) (place : Nat) (chunk : Bytes) : Bytes :=
  data.take place ++ chunk ++ data.drop (place + chunk.length)

namespace Filling

def check (loop : Filling) : Progress Filling Returned :=
  if loop.totalRead < loop.length then .again loop else .done ⟨true, loop.data, false⟩

/-- What the vector holds before the call does not matter. -/
def start (length : Nat) (data : Bytes) : Progress Filling Returned :=
  check ⟨length, resize (data.take 0) length, 0, 0⟩

def remaining (loop : Filling) : Nat := loop.length - loop.totalRead

def attempt (loop : Filling) : Received → Progress Filling Returned
  | .bytes chunk => check { loop with
      data := overwrite loop.data loop.totalRead chunk
      totalRead := loop.totalRead + chunk.length
      retryCount := 0 }
  | .closed => .done ⟨false, [], true⟩
  | .error .eintr => .again loop
  | .error .eagain | .error .ewouldblock =>
    if Reading.maxRetries < loop.retryCount + 1 then .done ⟨false, [], false⟩
    else .again { loop with retryCount := loop.retryCount + 1 }
  | .error (.other _) => .done ⟨false, [], true⟩

def round (s : Filling × Bytes) (outcome : Recv) : Progress (Filling × Bytes) (Returned × Bytes) :=
  let (received, incoming) := recv s.1.remaining s.2 outcome
  (s.1.attempt received).map (·, incoming) (·, incoming)

end Filling

/-- The call with its out parameter: the vector that it gets and the one that it leaves. -/
def readExactly (length : Nat) (data : Bytes) : TcpClient.Action (Bool × Bytes) := do
  let c ← get
  let loop := (Filling.start length data).map (·, c.incoming) (·, c.incoming)
  let ((r, incoming), recvs) ← drive Filling.round loop c.recvs
  set { c with incoming := incoming, recvs := recvs }
  if r.disconnected then modify fun c => { c with state := .disconnected }
  return (r.success, r.data)

def Returned.of : ReadOutcome → Returned
  | .complete data => ⟨true, data, false⟩
  | .timedOut => ⟨false, [], false⟩
  | .disconnected => ⟨false, [], true⟩

section Refinement

/-- The filled part of the vector is what the loop has read. -/
structure Fills (s : Filling × Bytes) (t : Reading × Bytes) : Prop where
  length_eq : s.1.length = t.1.length
  vector : s.1.data.length = s.1.length
  filled : s.1.totalRead = t.1.data.length
  data_eq : t.1.data = s.1.data.take s.1.totalRead
  retryCount_eq : s.1.retryCount = t.1.retryCount
  incoming_eq : s.2 = t.2

def Gives (r : Returned × Bytes) (u : ReadOutcome × Bytes) : Prop :=
  r.1 = .of u.1 ∧ r.2 = u.2

theorem check_related {s : Filling} {t : Reading} {incoming : Bytes}
    (h : Fills (s, incoming) (t, incoming)) :
    (s.check.map (·, incoming) (·, incoming)).Related Fills Gives
      (t.check.map (·, incoming) (·, incoming)) := by
  unfold Filling.check Reading.check
  have hlength := h.length_eq
  have hfilled := h.filled
  dsimp only at hlength hfilled
  by_cases hlt : s.totalRead < s.length
  · rw [if_pos hlt, if_pos (by omega)]
    exact h
  · rw [if_neg hlt, if_neg (by omega)]
    have hwhole : t.data = s.data := by
      have hvector : s.data.length = s.length := h.vector
      exact Eq.trans h.data_eq (List.take_of_length_le (hvector.trans_le (Nat.not_lt.mp hlt)))
    exact ⟨by rw [Returned.of, hwhole], rfl⟩

theorem start_related (length : Nat) (data incoming : Bytes) :
    ((Filling.start length data).map (·, incoming) (·, incoming)).Related Fills Gives
      ((Reading.start length).map (·, incoming) (·, incoming)) := by
  refine check_related ⟨rfl, ?_, rfl, rfl, rfl, rfl⟩
  simp [resize]

theorem take_overwrite {data chunk : Bytes} {place : Nat} (h : place ≤ data.length) :
    (overwrite data place chunk).take (place + chunk.length) = data.take place ++ chunk := by
  apply List.take_left'
  rw [List.length_append, List.length_take, Nat.min_eq_left h]

theorem length_overwrite {data chunk : Bytes} {place : Nat}
    (h : place + chunk.length ≤ data.length) :
    (overwrite data place chunk).length = data.length := by
  rw [overwrite, List.length_append, List.length_append, List.length_take, List.length_drop]
  omega

theorem Fills.receive {s : Filling} {t : Reading} {incoming chunk : Bytes}
    (h : Fills (s, incoming) (t, incoming)) (hlen : chunk.length ≤ s.remaining) (rest : Bytes) :
    Fills ({ s with
        data := overwrite s.data s.totalRead chunk
        totalRead := s.totalRead + chunk.length
        retryCount := 0 }, rest)
      ({ t with data := t.data ++ chunk, retryCount := 0 }, rest) := by
  have hvector : s.data.length = s.length := h.vector
  have hfilled : s.totalRead = t.data.length := h.filled
  have hdata : t.data = s.data.take s.totalRead := h.data_eq
  have hle : s.totalRead ≤ s.data.length := by
    rw [hfilled, hdata]
    exact List.length_take_le' _ _
  unfold Filling.remaining at hlen
  refine ⟨h.length_eq, ?_, ?_, ?_, rfl, rfl⟩
  · exact (length_overwrite (by omega)).trans hvector
  · exact (congrArg (· + chunk.length) hfilled).trans List.length_append.symm
  · exact (congrArg (· ++ chunk) hdata).trans (take_overwrite hle).symm

theorem error_related {s : Filling} {t : Reading} {incoming : Bytes}
    (h : Fills (s, incoming) (t, incoming)) (errno : Errno) :
    ((s.attempt (.error errno)).map (·, incoming) (·, incoming)).Related Fills Gives
      ((t.attempt (.error errno)).map (·, incoming) (·, incoming)) := by
  have hretry : s.retryCount = t.retryCount := h.retryCount_eq
  have hwaits : ((if Reading.maxRetries < s.retryCount + 1 then .done ⟨false, [], false⟩
      else .again { s with retryCount := s.retryCount + 1 } :
        Progress Filling Returned).map (·, incoming) (·, incoming)).Related Fills Gives
      ((if Reading.maxRetries < t.retryCount + 1 then .done .timedOut
        else .again { t with retryCount := t.retryCount + 1 } :
          Progress Reading ReadOutcome).map (·, incoming) (·, incoming)) := by
    rw [hretry]
    split
    · exact ⟨rfl, rfl⟩
    · exact ⟨h.length_eq, h.vector, h.filled, h.data_eq, rfl, rfl⟩
  cases errno with
  | eintr => exact h
  | eagain => exact hwaits
  | ewouldblock => exact hwaits
  | other message => exact ⟨rfl, rfl⟩

theorem round_related (s : Filling × Bytes) (t : Reading × Bytes) (outcome : Recv)
    (h : Fills s t) :
    (Filling.round s outcome).Related Fills Gives (TcpClient.readRound t outcome) := by
  obtain ⟨loop, incoming⟩ := s
  obtain ⟨reading, incoming'⟩ := t
  obtain rfl : incoming = incoming' := h.incoming_eq
  have hwant : loop.remaining = reading.remaining := by
    have hlength := h.length_eq
    have hfilled := h.filled
    dsimp only at hlength hfilled
    rw [Filling.remaining, Reading.remaining, hlength, hfilled]
  unfold Filling.round TcpClient.readRound
  dsimp only
  rw [hwant]
  cases hr : recv reading.remaining incoming outcome with
  | mk received rest =>
    cases received with
    | bytes chunk =>
      obtain ⟨hlen, _⟩ := recv_bytes hr
      exact check_related (h.receive (hwant ▸ hlen) rest)
    | closed => exact ⟨rfl, rfl⟩
    | error errno =>
      have hrest := recv_rest reading.remaining incoming outcome (by simp [hr])
      rw [hr] at hrest
      dsimp only at hrest ⊢
      rw [hrest]
      exact error_related h errno

theorem readExactly_run_filling (length : Nat) (data : Bytes) (c : TcpClient) :
    (readExactly length data).run c =
      (drive Filling.round ((Filling.start length data).map (·, c.incoming) (·, c.incoming))
        c.recvs).map fun ((r, incoming), recvs) =>
          ((r.success, r.data), { c with
            incoming := incoming
            recvs := recvs
            state := if r.disconnected then .disconnected else c.state }) := by
  cases hd : drive Filling.round ((Filling.start length data).map (·, c.incoming) (·, c.incoming))
      c.recvs with
  | none => simp [readExactly, hd]
  | some result =>
    obtain ⟨⟨r, incoming⟩, recvs⟩ := result
    cases hr : r.disconnected <;> simp [readExactly, hd, hr]

/-- The call leaves what `TcpClient.readExactly` returns, and an empty vector otherwise. -/
theorem readExactly_refines (length : Nat) (data : Bytes) (c : TcpClient) :
    (readExactly length data).run c = ((TcpClient.readExactly length).run c).map
      fun (got, c') => ((got.isSome, got.getD []), c') := by
  rw [readExactly_run_filling, readExactly_run, Option.map_map]
  apply drive_map_eq round_related (start_related length data c.incoming)
  rintro ⟨r, incoming⟩ ⟨outcome, incoming'⟩ recvs ⟨hr, hincoming⟩
  dsimp only at hr hincoming
  subst hr hincoming
  cases outcome <;> rfl

end Refinement

section Rounds

open TcpClient

variable {loop : Reading} {incoming : Bytes} {outcome : Recv}

def Completes (p : Progress (Reading × Bytes) (ReadOutcome × Bytes)) (outcomes : List Recv) :
    Prop :=
  ∃ data left rest, drive readRound p outcomes = some ((.complete data, left), rest)

theorem readRound_waits (h : outcome.waits = true) :
    readRound (loop, incoming) outcome =
      if Reading.maxRetries < loop.retryCount + 1 then .done (.timedOut, incoming)
      else .again ({ loop with retryCount := loop.retryCount + 1 }, incoming) := by
  have hwaits : ∀ errno : Errno, errno = .eagain ∨ errno = .ewouldblock →
      (loop.attempt (.error errno)).map (·, incoming) (·, incoming) =
        if Reading.maxRetries < loop.retryCount + 1 then .done (.timedOut, incoming)
        else .again ({ loop with retryCount := loop.retryCount + 1 }, incoming) := by
    rintro errno (rfl | rfl)
    · exact apply_ite (Progress.map (·, incoming) (·, incoming)) _ _ _
    · exact apply_ite (Progress.map (·, incoming) (·, incoming)) _ _ _
  cases outcome with
  | ready n =>
    obtain rfl : n = 0 := by simpa [Recv.waits] using h
    have hrecv : recv loop.remaining incoming (.ready 0) = (.error .eagain, incoming) := by
      simp [recv]
    rw [readRound, hrecv]
    exact hwaits .eagain (.inl rfl)
  | closed => cases h
  | error errno =>
    cases errno with
    | eintr => cases h
    | eagain => exact hwaits .eagain (.inl rfl)
    | ewouldblock => exact hwaits .ewouldblock (.inr rfl)
    | other message => cases h

theorem readRound_broken (h : ¬Sound outcome) :
    readRound (loop, incoming) outcome = .done (.disconnected, incoming) := by
  cases outcome with
  | ready n => exact absurd sound_ready h
  | closed => rfl
  | error errno =>
    cases errno with
    | other message => rfl
    | eintr => exact absurd (sound_error fun _ heq => by cases heq) h
    | eagain => exact absurd (sound_error fun _ heq => by cases heq) h
    | ewouldblock => exact absurd (sound_error fun _ heq => by cases heq) h

theorem readRound_eintr : readRound (loop, incoming) (.error .eintr) = .again (loop, incoming) :=
  rfl

theorem quiet_cases (h : outcome.delivers = false) :
    outcome.waits = true ∧ Sound outcome ∨ outcome = .error .eintr ∨ ¬Sound outcome := by
  cases outcome with
  | ready n =>
    refine .inl ⟨?_, sound_ready⟩
    simpa [Recv.waits, Recv.delivers] using h
  | closed => exact .inr (.inr fun hsound => hsound.1 rfl)
  | error errno =>
    cases errno with
    | eintr => exact .inr (.inl rfl)
    | eagain => exact .inl ⟨rfl, sound_error fun _ heq => by cases heq⟩
    | ewouldblock => exact .inl ⟨rfl, sound_error fun _ heq => by cases heq⟩
    | other message => exact .inr (.inr fun hsound => hsound.2 message rfl)

theorem not_completes_of_round {r : ReadOutcome} (hr : ∀ data, r ≠ .complete data)
    (hround : readRound (loop, incoming) outcome = .done (r, incoming)) (outcomes : List Recv) :
    ¬Completes (.again (loop, incoming)) (outcome :: outcomes) := by
  rintro ⟨data, left, rest, hdrive⟩
  rw [drive, hround, drive_done] at hdrive
  have hpair : (r, incoming) = (.complete data, left) :=
    congrArg Prod.fst (Option.some.inj hdrive)
  exact hr data (Prod.ext_iff.mp hpair).1

theorem completes_cons {next : Progress (Reading × Bytes) (ReadOutcome × Bytes)}
    (hround : readRound (loop, incoming) outcome = next) (outcomes : List Recv) :
    Completes (.again (loop, incoming)) (outcome :: outcomes) ↔ Completes next outcomes := by
  subst hround
  rfl

/-- The loop reads all that is missing when enough arrives before it has to give up; the
induction is along the outcomes. -/
theorem completes_iff (outcomes : List Recv) (hretry : loop.retryCount ≤ Reading.maxRetries)
    (hmore : 0 < loop.remaining) (hlen : loop.remaining ≤ incoming.length) :
    Completes (.again (loop, incoming)) outcomes ↔
      Suffices loop.remaining loop.retryCount outcomes := by
  induction outcomes generalizing loop incoming with
  | nil =>
    constructor
    · rintro ⟨data, left, rest, hdrive⟩
      cases hdrive
    · rintro ⟨used, hused, hneed, _⟩
      rw [List.prefix_nil.mp hused] at hneed
      exact absurd hneed (Nat.not_le.mpr hmore)
  | cons outcome outcomes ih =>
    cases hd : outcome.delivers with
    | true =>
      obtain ⟨n, hn, rfl⟩ := ready_of_delivers hd
      by_cases hlt : n < loop.remaining
      · have hleft : ({ loop with data := loop.data ++ incoming.take n, retryCount := 0 } :
            Reading).remaining = loop.remaining - n := by
          unfold Reading.remaining at hlen ⊢
          dsimp only
          rw [List.length_append, List.length_take]
          omega
        rw [completes_cons (readRound_part hn hlt hlen), suffices_ready hn hlt, ← hleft]
        apply ih (Nat.zero_le _)
        · omega
        · rw [hleft, List.length_drop]
          omega
      · have hround := readRound_rest hmore (Nat.not_lt.mp hlt) hlen
        rw [completes_cons hround]
        exact iff_of_true ⟨_, _, outcomes, drive_done _ _ _⟩
          (suffices_last hn (Nat.not_lt.mp hlt))
    | false =>
      rw [suffices_quiet hmore hd]
      obtain ⟨hwaits, hsound⟩ | rfl | hbroken := quiet_cases hd
      · have hround := @readRound_waits loop incoming outcome hwaits
        rw [if_pos hwaits]
        by_cases hlast : Reading.maxRetries < loop.retryCount + 1
        · rw [if_pos hlast] at hround
          refine iff_of_false (not_completes_of_round (r := .timedOut) nofun hround outcomes) ?_
          rintro ⟨⟨_, hle⟩, _⟩
          omega
        · rw [if_neg hlast] at hround
          have hrest := @ih { loop with retryCount := loop.retryCount + 1 } incoming
            (Nat.not_lt.mp hlast) hmore hlen
          rw [completes_cons hround, hrest]
          exact (and_iff_right ⟨hsound, Nat.not_lt.mp hlast⟩).symm
      · rw [completes_cons readRound_eintr, ih hretry hmore hlen]
        exact (and_iff_right ⟨sound_error (fun _ heq => by cases heq), hretry⟩).symm
      · have hround := @readRound_broken loop incoming outcome hbroken
        refine iff_of_false (not_completes_of_round (r := .disconnected) nofun hround outcomes) ?_
        rintro ⟨⟨hsound, _⟩, _⟩
        exact hbroken hsound

theorem start_completes_iff (length : Nat) (incoming : Bytes) (hlen : length ≤ incoming.length)
    (outcomes : List Recv) :
    Completes ((Reading.start length).map (·, incoming) (·, incoming)) outcomes ↔
      ∃ used, used <+: outcomes ∧ length ≤ arrived used ∧ Lasts used := by
  have hlasts : ∀ used, LastsFrom 0 used ↔ Lasts used := by
    intro used
    rw [lastsFrom_iff (Nat.zero_le _)]
    exact and_iff_left_of_imp Lasts.waitsWithin
  by_cases hpos : 0 < length
  · rw [start_again hpos]
    have hiff := @completes_iff ⟨length, [], 0⟩ incoming outcomes (Nat.zero_le _) hpos hlen
    simp only [Suffices, hlasts] at hiff
    exact hiff
  · obtain rfl : length = 0 := Nat.eq_zero_of_not_pos hpos
    refine iff_of_true ⟨[], incoming, outcomes, drive_done _ _ _⟩ ⟨[], List.nil_prefix, ?_⟩
    exact ⟨Nat.zero_le _, (hlasts []).mp trivial⟩

/-- What the loop can still take: the bytes that are missing, and before each of them the
waits. -/
def budget (loop : Reading) : Nat :=
  loop.remaining * (Reading.maxRetries + 1) + (Reading.maxRetries - loop.retryCount)

def Advances (loop : Reading) (p : Progress (Reading × Bytes) (ReadOutcome × Bytes)) : Prop :=
  p.Holds (fun next => budget next.1 < budget loop) fun _ => True

theorem waits_advances (h : outcome.waits = true) :
    Advances loop (readRound (loop, incoming) outcome) := by
  rw [readRound_waits h]
  split
  · trivial
  · change budget { loop with retryCount := loop.retryCount + 1 } < budget loop
    unfold budget Reading.remaining
    dsimp only
    omega

theorem check_advances {chunk : Bytes} (hpos : 0 < chunk.length)
    (hle : chunk.length ≤ loop.remaining) (rest : Bytes) :
    Advances loop ((Reading.check { loop with data := loop.data ++ chunk, retryCount := 0 }).map
      (·, rest) (·, rest)) := by
  unfold Reading.check
  split
  · change budget { loop with data := loop.data ++ chunk, retryCount := 0 } < budget loop
    unfold budget
    unfold Reading.remaining at hle ⊢
    dsimp only
    rw [List.length_append, Reading.maxRetries]
    omega
  · trivial

/-- Every call that is not interrupted ends the loop or brings it closer to its end. -/
theorem readRound_advances (h : outcome ≠ .error .eintr) :
    Advances loop (readRound (loop, incoming) outcome) := by
  cases hd : outcome.delivers with
  | true =>
    obtain ⟨n, hn, rfl⟩ := ready_of_delivers hd
    cases hempty : (incoming.take (min n loop.remaining)).isEmpty with
    | true =>
      have hnone :
          readRound (loop, incoming) (.ready n) = readRound (loop, incoming) (.ready 0) := by
        simp only [readRound, recv, hempty, Nat.zero_min, List.take_zero, List.isEmpty_nil, if_true]
      rw [hnone]
      exact waits_advances rfl
    | false =>
      have hround : readRound (loop, incoming) (.ready n) =
          (Reading.check { loop with
            data := loop.data ++ incoming.take (min n loop.remaining), retryCount := 0 }).map
            (·, incoming.drop (min n loop.remaining))
            (·, incoming.drop (min n loop.remaining)) := by
        simp only [readRound, recv, hempty, Bool.false_eq_true, if_false, Reading.attempt]
      rw [hround]
      apply check_advances
      · exact List.length_pos_iff.mpr (List.isEmpty_eq_false_iff.mp hempty)
      · rw [List.length_take]
        omega
  | false =>
    obtain ⟨hwaits, _⟩ | rfl | hbroken := quiet_cases hd
    · exact waits_advances hwaits
    · exact absurd rfl h
    · rw [readRound_broken hbroken]
      trivial

variable {recvs : Nat → Recv}

theorem skip_interrupted (d : Nat) {i : Nat} (s : Reading × Bytes)
    (h : ∀ k, k < d → recvs (i + k) = .error .eintr) (n : Nat) :
    drive readRound (.again s) (outcomes recvs i (d + n)) =
      drive readRound (.again s) (outcomes recvs (i + d) n) := by
  induction d generalizing i with
  | zero => rw [Nat.zero_add, Nat.add_zero]
  | succ d ih =>
    have hfirst : recvs i = .error .eintr := h 0 (Nat.zero_lt_succ d)
    have hrest : ∀ k, k < d → recvs (i + 1 + k) = .error .eintr := by
      intro k hk
      rw [Nat.add_right_comm, Nat.add_assoc]
      exact h (k + 1) (Nat.succ_lt_succ hk)
    rw [Nat.add_right_comm, outcomes_succ, drive, hfirst, readRound_eintr, ih hrest,
      Nat.add_right_comm, Nat.add_assoc]

/-- The induction is on the budget: the next call that is not interrupted takes from it. -/
theorem read_ends (h : ∀ i, ∃ j, i ≤ j ∧ recvs j ≠ .error .eintr) (b : Nat) {i : Nat}
    (p : Progress (Reading × Bytes) (ReadOutcome × Bytes))
    (hb : p.Holds (fun s => budget s.1 < b) fun _ => True) :
    ∃ n result, drive readRound p (outcomes recvs i n) = some (result, []) := by
  induction b generalizing i p with
  | zero =>
    cases p with
    | done r => exact ⟨0, r, rfl⟩
    | again s => exact absurd hb (Nat.not_lt_zero _)
  | succ b ih =>
    cases p with
    | done r => exact ⟨0, r, rfl⟩
    | again s =>
      have hnext : ∃ d, recvs (i + d) ≠ .error .eintr := by
        obtain ⟨j, hij, hj⟩ := h i
        exact ⟨j - i, by rwa [Nat.add_sub_cancel' hij]⟩
      let d := Nat.find hnext
      have hskip : ∀ k, k < d → recvs (i + k) = .error .eintr :=
        fun k hk => not_not.mp (Nat.find_min hnext hk)
      have hround : (readRound s (recvs (i + d))).Holds (fun next => budget next.1 < b)
          fun _ => True := by
        have hadvances : Advances s.1 (readRound s (recvs (i + d))) :=
          readRound_advances (Nat.find_spec hnext)
        exact hadvances.mono fun next hlt => Nat.lt_of_lt_of_le hlt (Nat.le_of_lt_succ hb)
      obtain ⟨n, result, hn⟩ := @ih (i + d + 1) _ hround
      refine ⟨d + (n + 1), result, ?_⟩
      rw [skip_interrupted d s hskip, outcomes_succ, drive, hn]

theorem start_within_budget (length : Nat) (incoming : Bytes) :
    ((Reading.start length).map (·, incoming) (·, incoming)).Holds
      (fun s => budget s.1 < budget ⟨length, [], 0⟩ + 1) fun _ => True := by
  unfold Reading.start Reading.check
  split
  · exact Nat.lt_succ_self _
  · trivial

theorem prefix_outcomes {used : List Recv} {n : Nat} (h : used <+: outcomes recvs 0 n) :
    used = outcomes recvs 0 used.length := by
  have hlength : ∀ m, (outcomes recvs 0 m).length = m := by
    intro m
    rw [outcomes, List.length_map, List.length_range']
  have hle := h.length_le
  rw [hlength] at hle
  have hsplit := @outcomes_add recvs 0 used.length (n - used.length)
  rw [Nat.add_sub_cancel' hle] at hsplit
  rw [hsplit] at h
  exact (List.prefix_of_prefix_length_le h (List.prefix_append _ _) (hlength _).ge).eq_of_length
    (hlength _).symm

/-- The loop that has ended has read everything if enough arrives at any time. -/
theorem complete_iff {length n : Nat} {stream rest : Bytes} {result : ReadOutcome}
    (hn : drive readRound ((Reading.start length).map (·, stream) (·, stream))
      (outcomes recvs 0 n) = some ((result, rest), [])) :
    (∃ data, result = .complete data) ↔ length ≤ stream.length ∧
      ∃ m, length ≤ arrived (outcomes recvs 0 m) ∧ Lasts (outcomes recvs 0 m) := by
  constructor
  · rintro ⟨data, rfl⟩
    have hexact := drive_holds readRound_holds (start_holds length stream) hn
    obtain ⟨hlength, hstream⟩ := hexact data rfl
    have hlen : length ≤ stream.length := by
      rw [← hstream, List.length_append]
      omega
    obtain ⟨used, hused, hneed, hlasts⟩ :=
      (start_completes_iff length stream hlen _).mp ⟨data, rest, [], hn⟩
    rw [prefix_outcomes hused] at hneed hlasts
    exact ⟨hlen, used.length, hneed, hlasts⟩
  · rintro ⟨hlen, m, hneed, hlasts⟩
    obtain ⟨data, left, later, hm⟩ := (start_completes_iff length stream hlen _).mpr
      ⟨outcomes recvs 0 m, List.prefix_refl _, hneed, hlasts⟩
    -- both ends are those of the loop on the longer of the two schedules
    have hfirst := drive_append hn (outcomes recvs (0 + n) m)
    have hsecond := drive_append hm (outcomes recvs (0 + m) n)
    rw [← outcomes_add] at hfirst hsecond
    rw [Nat.add_comm, hfirst] at hsecond
    have hsame := congrArg Prod.fst (Option.some.inj hsecond)
    exact ⟨data, (Prod.ext_iff.mp hsame).1⟩

end Rounds

/-- When calls are not interrupted forever, `readExactly` returns; it returns true just when
enough arrives in time, and has then taken that and no more off the stream. -/
theorem readExactly_ends_exact {recvs : Nat → Recv}
    (h : ∀ i, ∃ j, i ≤ j ∧ recvs j ≠ .error .eintr) (length : Nat) (data : Bytes) (c : TcpClient) :
    ∃ (n : Nat) (success : Bool) (filled : Bytes) (c' : TcpClient),
      (∀ later, (readExactly length data).run { c with recvs := outcomes recvs 0 n ++ later } =
        some ((success, filled), { c' with recvs := later })) ∧
      (success = true ↔ length ≤ c.incoming.length ∧
        ∃ m, length ≤ arrived (outcomes recvs 0 m) ∧ Lasts (outcomes recvs 0 m)) ∧
      (success = true →
        filled = c.incoming.take length ∧ c'.incoming = c.incoming.drop length) ∧
      (success = false → filled = []) := by
  obtain ⟨n, ⟨result, incoming⟩, hn⟩ :=
    read_ends h _ _ (start_within_budget length c.incoming)
  have hiff := complete_iff hn
  have hexact := drive_holds readRound_holds (start_holds length c.incoming) hn
  have hdrive : ∀ later, drive TcpClient.readRound
      ((Reading.start length).map (·, c.incoming) (·, c.incoming)) (outcomes recvs 0 n ++ later) =
        some ((result, incoming), later) := fun later => drive_append hn later
  cases result with
  | complete got =>
    obtain ⟨hlength, hstream⟩ := hexact got rfl
    refine ⟨n, true, got, { c with incoming := incoming }, ?_, ?_, ?_, nofun⟩
    · intro later
      rw [readExactly_refines, readExactly_run, hdrive]
      rfl
    · exact (iff_of_true rfl ⟨got, rfl⟩).trans hiff
    · intro _
      dsimp only at hstream
      rw [← hstream, ← hlength, List.take_left, List.drop_left]
      exact ⟨rfl, rfl⟩
  | timedOut =>
    refine ⟨n, false, [], { c with incoming := incoming }, ?_, ?_, nofun, fun _ => rfl⟩
    · intro later
      rw [readExactly_refines, readExactly_run, hdrive]
      rfl
    · exact (iff_of_false Bool.false_ne_true (by rintro ⟨_, h⟩; cases h)).trans hiff
  | disconnected =>
    refine ⟨n, false, [], { c with incoming := incoming, state := .disconnected }, ?_, ?_, nofun,
      fun _ => rfl⟩
    · intro later
      rw [readExactly_refines, readExactly_run, hdrive]
      rfl
    · exact (iff_of_false Bool.false_ne_true (by rintro ⟨_, h⟩; cases h)).trans hiff

/-- Two bytes, an interrupted call, a wait, and then more than is asked for. -/
def broken : Nat → Recv
  | 0 => .ready 2
  | 1 => .error .eintr
  | 2 => .error .eagain
  | _ => .ready 9

theorem readExactly_ends_exact_broken :
    let c : TcpClient := ⟨3, .connected, [1, 2, 3, 4], [], [], []⟩
    ∃ (n : Nat) (c' : TcpClient), c'.incoming = [4] ∧ ∀ later,
      (readExactly 3 [7]).run { c with recvs := outcomes broken 0 n ++ later } =
        some ((true, [1, 2, 3]), { c' with recvs := later }) := by
  intro c
  have hrecurs : ∀ i, ∃ j, i ≤ j ∧ broken j ≠ .error .eintr :=
    fun i => ⟨i + 3, Nat.le_add_right i 3, nofun⟩
  have hlasts : LastsFrom 0 (outcomes broken 0 4) :=
    ⟨sound_ready, sound_error (fun _ h => by cases h), Nat.zero_le _,
      sound_error (fun _ h => by cases h), by decide, sound_ready, trivial⟩
  obtain ⟨n, success, filled, c', hrun, hiff, htrue, _⟩ :=
    readExactly_ends_exact hrecurs 3 [7] c
  have hsuccess : success = true :=
    hiff.mpr ⟨by decide, 4, by decide, ((lastsFrom_iff (Nat.zero_le _)).mp hlasts).1⟩
  obtain ⟨hfilled, hincoming⟩ := htrue hsuccess
  subst hsuccess
  refine ⟨n, c', hincoming, ?_⟩
  intro later
  rw [hrun later, hfilled]
  rfl

end Mprpc.ReadExactly
