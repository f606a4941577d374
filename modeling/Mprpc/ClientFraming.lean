import Mprpc.ClientReads
import Mprpc.FrameCodec
import Mprpc.Library.Transition

namespace Mprpc.ClientFraming

open Transport TcpClient ClientReads Library.ByteOrder Library.Loop Library.Transition

/-- A client that is called for one message after the other: what the calls that
returned true gave, and what the last call returned. -/
structure Receiving where
  client : TcpClient
  returned : List Bytes
  last : Option (Option Bytes)

def Receiving.start (client : TcpClient) : Receiving := ⟨client, [], none⟩

/-- One call of `receive`. -/
def step (s : Receiving) (_ : Unit) : Option Receiving :=
  (receive.run s.client).map fun (r, client) => ⟨client, s.returned ++ r.toList, some r⟩

def AtBoundary (frames : List Bytes) (stream : Bytes) : Prop :=
  ∃ k ≤ frames.length, stream = (frames.drop k).flatMap FrameCodec.encode

/-- What was returned are whole frames in their order, and a call that failed has
left the stream at a boundary or the client not connected. -/
def Framed (frames : List Bytes) (s : Receiving) : Prop :=
  s.returned.Sublist frames ∧
    (s.last = some none → AtBoundary frames s.client.incoming ∨ s.client.state ≠ .connected)

/-- The loop finds nothing to read, and its patience is at an end. -/
def GivesUp (s : Reading × Bytes) (outcome : Recv) : Prop :=
  Reading.maxRetries < s.1.retryCount + 1 ∧
    ∃ errno : Errno, errno.wouldBlock = true ∧ (recv s.1.remaining s.2 outcome).1 = .error errno

/-- The same, with a part of what it was to read already taken. -/
def GivesUpInside (s : Reading × Bytes) (outcome : Recv) : Prop := s.1.data ≠ [] ∧ GivesUp s outcome

abbrev start (length : Nat) (incoming : Bytes) :
    Progress (Reading × Bytes) (ReadOutcome × Bytes) :=
  (Reading.start length).map (·, incoming) (·, incoming)

/-- The wait for more bytes gets too long when a part of the header has been
taken, or the header and no whole body. -/
def TimesOutInside (c : TcpClient) : Prop :=
  MeetsAt readRound GivesUpInside (start 4 c.incoming) c.recvs ∨
    ∃ lengthBytes c₁, (readExactly 4).run c = some (some lengthBytes, c₁) ∧
      MeetsAt readRound GivesUp (start (byteSwap 4 (ofLittleEndian lengthBytes)) c₁.incoming)
        c₁.recvs

variable {length : Nat} {stream : Bytes}

theorem givesUp_done {s : Reading × Bytes} {outcome : Recv} (h : GivesUp s outcome) :
    readRound s outcome = .done (.timedOut, s.2) := by
  obtain ⟨loop, incoming⟩ := s
  obtain ⟨hretry, errno, hw, hr⟩ := h
  have hrest := recv_rest loop.remaining incoming outcome (by simp [hr])
  dsimp only at hretry hr
  rw [readRound]
  dsimp only
  rw [hr, hrest]
  cases errno with
  | eagain => simp [Reading.attempt, hretry, Progress.map]
  | ewouldblock => simp [Reading.attempt, hretry, Progress.map]
  | eintr => cases hw
  | other message => cases hw

theorem readRound_timedOut {s : Reading × Bytes} {outcome : Recv} {rest : Bytes}
    (h : readRound s outcome = .done (.timedOut, rest)) : GivesUp s outcome ∧ rest = s.2 := by
  obtain ⟨loop, incoming⟩ := s
  have hrest := recv_rest loop.remaining incoming outcome
  unfold readRound at h
  unfold GivesUp
  cases hr : recv loop.remaining incoming outcome with
  | mk received left =>
    rw [hr] at h hrest
    dsimp only at h hrest ⊢
    cases received with
    | bytes data =>
      simp only [Reading.attempt, Reading.check] at h
      split at h <;> cases h
    | closed => cases h
    | error errno =>
      have hleft := hrest (by simp)
      cases errno with
      | eintr => cases h
      | other message => cases h
      | eagain =>
        simp only [Reading.attempt] at h
        split at h
        · next hretry =>
          cases h
          exact ⟨⟨hretry, .eagain, rfl, rfl⟩, hleft⟩
        · cases h
      | ewouldblock =>
        simp only [Reading.attempt] at h
        split at h
        · next hretry =>
          cases h
          exact ⟨⟨hretry, .ewouldblock, rfl, rfl⟩, hleft⟩
        · cases h

/-- How the read of a header ends when it does not give up inside. -/
def Intact (length : Nat) (stream : Bytes) (result : ReadOutcome × Bytes) : Prop :=
  Exact length stream result ∧ (result.1 = .timedOut → result.2 = stream)

theorem readRound_intact {s : Reading × Bytes} {outcome : Recv} (h : Within length stream s)
    (hb : ¬GivesUpInside s outcome) :
    (readRound s outcome).Holds (Within length stream) (Intact length stream) := by
  have hkept := readRound_holds s outcome h
  cases hr : readRound s outcome with
  | again s' =>
    rw [hr] at hkept
    exact hkept
  | done result =>
    obtain ⟨read, rest⟩ := result
    rw [hr] at hkept
    refine ⟨hkept, ?_⟩
    rintro rfl
    obtain ⟨hgives, rfl⟩ := readRound_timedOut hr
    have hnone : s.1.data = [] := by
      by_contra hne
      exact hb ⟨hne, hgives⟩
    have hall := h.2.2
    rwa [hnone, List.nil_append] at hall

/-- How the read of a body ends when it does not give up. -/
def Finished (length : Nat) (stream : Bytes) (result : ReadOutcome × Bytes) : Prop :=
  Exact length stream result ∧ result.1 ≠ .timedOut

theorem readRound_finished {s : Reading × Bytes} {outcome : Recv} (h : Within length stream s)
    (hb : ¬GivesUp s outcome) :
    (readRound s outcome).Holds (Within length stream) (Finished length stream) := by
  have hkept := readRound_holds s outcome h
  cases hr : readRound s outcome with
  | again s' =>
    rw [hr] at hkept
    exact hkept
  | done result =>
    obtain ⟨read, rest⟩ := result
    rw [hr] at hkept
    refine ⟨hkept, ?_⟩
    rintro rfl
    exact hb (readRound_timedOut hr).1

theorem start_holds_of {Q : ReadOutcome × Bytes → Prop} (hpos : 0 < length) (incoming : Bytes) :
    (start length incoming).Holds (Within length incoming) Q := by
  rw [start, start_again hpos]
  exact ⟨rfl, hpos, rfl⟩

/-- How a read ends that gives up with the bytes `data` taken. -/
def Torn (length : Nat) (stream : Bytes) (taken : Bytes → Prop) (result : ReadOutcome × Bytes) :
    Prop :=
  result.1 = .timedOut ∧
    ∃ data : Bytes, taken data ∧ data.length < length ∧ data ++ result.2 = stream

theorem readRound_kept (s : Reading × Bytes) (outcome : Recv) (h : Within length stream s) :
    (readRound s outcome).Holds (Within length stream) fun _ => True := by
  have hkept := readRound_holds s outcome h
  cases hr : readRound s outcome with
  | again s' =>
    rw [hr] at hkept
    exact hkept
  | done result => trivial

theorem givesUp_torn {s : Reading × Bytes} {outcome : Recv} {taken : Bytes → Prop}
    (h : Within length stream s) (ht : taken s.1.data) (hb : GivesUp s outcome) :
    ∃ result, readRound s outcome = .done result ∧ Torn length stream taken result := by
  obtain ⟨hl, hd, hs⟩ := h
  exact ⟨_, givesUp_done hb, rfl, s.1.data, ht, hd, hs⟩

section Read

variable {c c' : TcpClient} {r : Option Bytes}

theorem read_complete {data : Bytes} (hpos : 0 < length)
    (h : (readExactly length).run c = some (some data, c')) :
    data.length = length ∧ data ++ c'.incoming = c.incoming ∧ c'.state = c.state := by
  rw [readExactly_run] at h
  obtain ⟨⟨⟨outcome, incoming⟩, recvs⟩, hd, hr⟩ := Option.map_eq_some_iff.mp h
  have hexact := drive_holds readRound_holds (start_holds_of hpos c.incoming) hd
  cases outcome with
  | complete got =>
    cases hr
    obtain ⟨hlen, hall⟩ := hexact data rfl
    exact ⟨hlen, hall, rfl⟩
  | timedOut => cases hr
  | disconnected => cases hr

theorem read_header (hpos : 0 < length)
    (hg : ¬MeetsAt readRound GivesUpInside (start length c.incoming) c.recvs)
    (h : (readExactly length).run c = some (r, c')) :
    (∃ data, r = some data ∧ data.length = length ∧ data ++ c'.incoming = c.incoming ∧
      c'.state = c.state) ∨
    (r = none ∧ (c'.state = .disconnected ∨ c'.incoming = c.incoming)) := by
  rw [readExactly_run] at h
  obtain ⟨⟨⟨outcome, incoming⟩, recvs⟩, hd, hr⟩ := Option.map_eq_some_iff.mp h
  obtain ⟨hexact, hrest⟩ := drive_of_not_meetsAt (fun _ _ => readRound_intact)
    (start_holds_of hpos c.incoming) hg hd
  cases outcome with
  | complete data =>
    cases hr
    obtain ⟨hlen, hall⟩ := hexact data rfl
    exact .inl ⟨data, rfl, hlen, hall, rfl⟩
  | timedOut =>
    cases hr
    exact .inr ⟨rfl, .inr (hrest rfl)⟩
  | disconnected =>
    cases hr
    exact .inr ⟨rfl, .inl rfl⟩

theorem read_body (hpos : 0 < length)
    (hg : ¬MeetsAt readRound GivesUp (start length c.incoming) c.recvs)
    (h : (readExactly length).run c = some (r, c')) :
    (∃ data, r = some data ∧ data.length = length ∧ data ++ c'.incoming = c.incoming ∧
      c'.state = c.state) ∨
    (r = none ∧ c'.state = .disconnected) := by
  rw [readExactly_run] at h
  obtain ⟨⟨⟨outcome, incoming⟩, recvs⟩, hd, hr⟩ := Option.map_eq_some_iff.mp h
  obtain ⟨hexact, hdone⟩ := drive_of_not_meetsAt (fun _ _ => readRound_finished)
    (start_holds_of hpos c.incoming) hg hd
  cases outcome with
  | complete data =>
    cases hr
    obtain ⟨hlen, hall⟩ := hexact data rfl
    exact .inl ⟨data, rfl, hlen, hall, rfl⟩
  | timedOut => exact absurd rfl hdone
  | disconnected =>
    cases hr
    exact .inr ⟨rfl, rfl⟩

theorem read_torn {bad : Reading × Bytes → Recv → Prop} (taken : Bytes → Prop) (hpos : 0 < length)
    (hbad : ∀ s outcome, bad s outcome → taken s.1.data ∧ GivesUp s outcome)
    (hg : MeetsAt readRound bad (start length c.incoming) c.recvs) :
    ∃ c' data, (readExactly length).run c = some (none, c') ∧ c'.state = c.state ∧
      taken data ∧ data.length < length ∧ data ++ c'.incoming = c.incoming := by
  obtain ⟨⟨outcome, incoming⟩, recvs, hd, htimed, data, htaken, hlen, hall⟩ :=
    drive_of_meetsAt readRound_kept
      (fun s outcome hs hb => givesUp_torn hs (hbad s outcome hb).1 (hbad s outcome hb).2)
      (start_holds_of hpos c.incoming) hg
  change outcome = _ at htimed
  subst htimed
  refine ⟨{ c with incoming := incoming, recvs := recvs }, data, ?_, rfl, htaken, hlen, hall⟩
  rw [readExactly_run, hd]
  rfl

end Read

section Receive

variable {c c' : TcpClient} {r : Option Bytes} {m more : Bytes}

theorem header_taken {data : Bytes} (hm : m ≠ []) (hmax : m.length ≤ maxMessageSize)
    (hlen : data.length = 4) (hall : data ++ stream = FrameCodec.encode m ++ more) :
    byteSwap 4 (ofLittleEndian data) = m.length ∧ stream = m ++ more := by
  have hk : maxMessageSize = 10485760 := rfl
  have htake := FrameCodec.encode_take hm more
  have hdrop := FrameCodec.encode_drop hm more
  rw [← hall, List.take_left' hlen] at htake
  rw [← hall, List.drop_left' hlen] at hdrop
  rw [htake]
  exact ⟨FrameCodec.header_value (by omega), hdrop⟩

theorem receive_whole (hs : c.state = .connected) (hm : m ≠ []) (hmax : m.length ≤ maxMessageSize)
    (hin : c.incoming = FrameCodec.encode m ++ more) (hg : ¬TimesOutInside c)
    (h : receive.run c = some (r, c')) :
    (r = some m ∧ c'.incoming = more) ∨
      (r = none ∧ (c'.state = .disconnected ∨ c'.incoming = c.incoming)) := by
  obtain ⟨hheader, hbody⟩ := not_or.mp hg
  rw [receive_run hs] at h
  obtain ⟨⟨header, c₁⟩, hread, hrest⟩ := Option.bind_eq_some_iff.mp h
  obtain ⟨data, rfl, hlen, hall, -⟩ | ⟨rfl, hend⟩ := read_header (by decide) hheader hread
  · rw [hin] at hall
    obtain ⟨hvalue, hc₁⟩ := header_taken hm hmax hlen hall
    have hpos := List.length_pos_iff.mpr hm
    dsimp only at hrest
    rw [hvalue, if_neg (by omega)] at hrest
    have hpatient : ¬MeetsAt readRound GivesUp (start m.length c₁.incoming) c₁.recvs := by
      intro hgives
      exact hbody ⟨data, c₁, hread, by rwa [hvalue]⟩
    obtain ⟨body, rfl, hbodyLen, hbodyAll, -⟩ | ⟨rfl, hend⟩ := read_body hpos hpatient hrest
    · rw [hc₁] at hbodyAll
      obtain ⟨rfl, hmore⟩ := List.append_inj hbodyAll hbodyLen
      exact .inl ⟨rfl, hmore⟩
    · exact .inr ⟨rfl, .inl hend⟩
  · cases hrest
    exact .inr ⟨rfl, hend⟩

theorem receive_nothing (hs : c.state = .connected) (hin : c.incoming = [])
    (hg : ¬TimesOutInside c) (h : receive.run c = some (r, c')) :
    r = none ∧ (c'.state = .disconnected ∨ c'.incoming = []) := by
  obtain ⟨hheader, -⟩ := not_or.mp hg
  rw [receive_run hs] at h
  obtain ⟨⟨header, c₁⟩, hread, hrest⟩ := Option.bind_eq_some_iff.mp h
  obtain ⟨data, -, hlen, hall, -⟩ | ⟨rfl, hend⟩ := read_header (by decide) hheader hread
  · rw [hin, List.append_eq_nil_iff] at hall
    rw [hall.1] at hlen
    cases hlen
  · cases hrest
    rw [hin] at hend
    exact ⟨rfl, hend⟩

/-- A time-out inside leaves the client connected and the stream cut within the frame. -/
theorem receive_torn (hs : c.state = .connected) (hm : m ≠ []) (hmax : m.length ≤ maxMessageSize)
    (hin : c.incoming = FrameCodec.encode m ++ more) (hg : TimesOutInside c) :
    ∃ c', receive.run c = some (none, c') ∧ c'.state = .connected ∧
      more.length < c'.incoming.length ∧ c'.incoming.length < c.incoming.length := by
  have hframe : c.incoming.length = 4 + m.length + more.length := by
    rw [hin, List.length_append, FrameCodec.encode_length hm]
  have hpos := List.length_pos_iff.mpr hm
  rw [receive_run hs]
  obtain hheader | ⟨lengthBytes, c₁, hread, hbody⟩ := hg
  · obtain ⟨c', data, hrun, hstate, htaken, hlen, hall⟩ :=
      read_torn (· ≠ []) (by decide) (fun _ _ hb => hb) hheader
    have hsplit := congrArg List.length hall
    have htaken := List.length_pos_iff.mpr htaken
    rw [List.length_append] at hsplit
    refine ⟨c', by rw [hrun]; rfl, hstate.trans hs, by omega, by omega⟩
  · obtain ⟨hlen, hall, hstate₁⟩ := read_complete (by decide) hread
    rw [hin] at hall
    obtain ⟨hvalue, hrest⟩ := header_taken hm hmax hlen hall
    rw [hvalue] at hbody
    obtain ⟨c', data, hrun, hstate, -, hdata, hbodyAll⟩ :=
      read_torn (fun _ => True) hpos (fun _ _ hb => ⟨trivial, hb⟩) hbody
    have hsplit := congrArg List.length hbodyAll
    rw [List.length_append, hrest, List.length_append] at hsplit
    refine ⟨c', ?_, hstate.trans (hstate₁.trans hs), by omega, by omega⟩
    rw [hread, Option.bind_some]
    dsimp only
    rw [hvalue, if_neg (by omega)]
    exact hrun

theorem not_torn_nothing (hin : c.incoming = []) : ¬TimesOutInside c := by
  rintro (hheader | ⟨lengthBytes, c₁, hread, -⟩)
  · obtain ⟨c', data, -, -, htaken, -, hall⟩ :=
      read_torn (· ≠ []) (by decide) (fun _ _ hb => hb) hheader
    rw [hin, List.append_eq_nil_iff] at hall
    exact htaken hall.1
  · obtain ⟨hlen, hall, -⟩ := read_complete (by decide) hread
    rw [hin, List.append_eq_nil_iff] at hall
    rw [hall.1] at hlen
    cases hlen

end Receive

section Boundary

variable {frames : List Bytes} {m : Bytes}

/-- What the peer still has to send after `k` frames. -/
def rest (frames : List Bytes) (k : Nat) : Bytes := (frames.drop k).flatMap FrameCodec.encode

theorem rest_length {j k : Nat} (h : j ≤ k) : (rest frames k).length ≤ (rest frames j).length := by
  obtain ⟨d, rfl⟩ := Nat.exists_eq_add_of_le h
  have hsplit := List.take_append_drop d (frames.drop j)
  rw [rest, rest, ← hsplit, List.flatMap_append, List.length_append, List.drop_drop]
  exact Nat.le_add_left _ _

theorem rest_of_lt {k : Nat} (hk : k < frames.length) :
    rest frames k = FrameCodec.encode frames[k] ++ rest frames (k + 1) := by
  rw [rest, List.drop_eq_getElem_cons hk, List.flatMap_cons, rest]

/-- Between two neighbouring boundaries there is no other. -/
theorem not_atBoundary {k : Nat} {xs : Bytes} (hlt : (rest frames (k + 1)).length < xs.length)
    (hgt : xs.length < (rest frames k).length) : ¬AtBoundary frames xs := by
  rintro ⟨j, -, rfl⟩
  change _ < (rest frames j).length at hlt
  change (rest frames j).length < _ at hgt
  obtain hj | hj := Nat.lt_or_ge k j
  · exact absurd (rest_length hj) (not_le.mpr hlt)
  · exact absurd (rest_length hj) (not_le.mpr hgt)

end Boundary

/-- The invariant of a client that never gave up inside a frame: the first `k`
frames have been returned, and the rest is under way. -/
def InOrder (frames : List Bytes) (s : Receiving) : Prop :=
  ∃ k ≤ frames.length, s.returned = frames.take k ∧
    (s.client.state = .connected → s.client.incoming = rest frames k)

theorem InOrder.framed {frames : List Bytes} {s : Receiving} (h : InOrder frames s) :
    Framed frames s := by
  obtain ⟨k, hk, hreturned, hincoming⟩ := h
  refine ⟨hreturned ▸ List.take_sublist k frames, ?_⟩
  intro _
  by_cases hs : s.client.state = .connected
  · exact .inl ⟨k, hk, hincoming hs⟩
  · exact .inr hs

/-- The schedule of the call that comes next leaves it the time to finish what it begins. -/
def Patient (s : Receiving) (_ : Unit) : Prop :=
  s.client.state = .connected → ¬TimesOutInside s.client

section Run

variable {frames : List Bytes} (hf : ∀ m ∈ frames, 1 ≤ m.length ∧ m.length ≤ maxMessageSize)
include hf

theorem step_inOrder (s : Receiving) (u : Unit) (t : Receiving) (h : InOrder frames s)
    (hp : Patient s u) (ht : step s u = some t) : InOrder frames t := by
  obtain ⟨k, hk, hreturned, hincoming⟩ := h
  obtain ⟨⟨r, c'⟩, hrun, rfl⟩ := Option.map_eq_some_iff.mp ht
  by_cases hs : s.client.state = .connected
  · have hin := hincoming hs
    by_cases hlt : k < frames.length
    · obtain ⟨hpos, hmax⟩ := hf frames[k] (List.getElem_mem hlt)
      rw [rest_of_lt hlt] at hin
      obtain ⟨rfl, hmore⟩ | ⟨rfl, hend⟩ :=
        receive_whole hs (List.length_pos_iff.mp hpos) hmax hin (hp hs) hrun
      · refine ⟨k + 1, hlt, ?_, fun _ => hmore⟩
        rw [hreturned, List.take_succ_eq_append_getElem hlt]
        rfl
      · refine ⟨k, hk, (List.append_nil _).trans hreturned, ?_⟩
        intro hs'
        obtain hend | hend := hend
        · rw [hend] at hs'
          cases hs'
        · exact hend.trans (hincoming hs)
    · have hnil : rest frames k = [] := by
        rw [rest, List.drop_eq_nil_of_le (not_lt.mp hlt), List.flatMap_nil]
      rw [hnil] at hin
      obtain ⟨rfl, hend⟩ := receive_nothing hs hin (hp hs) hrun
      refine ⟨k, hk, (List.append_nil _).trans hreturned, ?_⟩
      intro hs'
      obtain hend | hend := hend
      · rw [hend] at hs'
        cases hs'
      · rw [hnil]
        exact hend
  · rw [receive_disconnected hs] at hrun
    cases hrun
    exact ⟨k, hk, (List.append_nil _).trans hreturned, hincoming⟩

/-- A call that runs out of patience inside a frame is the end of the framing. -/
theorem patient_of_framed (s : Receiving) (u : Unit) (h : InOrder frames s)
    (hall : ∀ t, step s u = some t → Framed frames t) : Patient s u := by
  obtain ⟨k, hk, hreturned, hincoming⟩ := h
  intro hs htorn
  have hin := hincoming hs
  by_cases hlt : k < frames.length
  · obtain ⟨hpos, hmax⟩ := hf frames[k] (List.getElem_mem hlt)
    have hsplit := rest_of_lt hlt
    obtain ⟨c', hrun, hs', hmore, hless⟩ :=
      receive_torn hs (List.length_pos_iff.mp hpos) hmax (hin.trans hsplit) htorn
    have hstep : step s u = some ⟨c', s.returned ++ [], some none⟩ := by
      rw [step, hrun]
      rfl
    rw [hin] at hless
    obtain hboundary | hlost := (hall _ hstep).2 rfl
    · exact not_atBoundary hmore hless hboundary
    · exact hlost hs'
  · apply not_torn_nothing (c := s.client) _ htorn
    rw [hin, rest, List.drop_eq_nil_of_le (not_lt.mp hlt), List.flatMap_nil]

end Run

/-- The calls on a connected client return the frames of its stream, and stop at
boundaries only, exactly as long as no call times out inside a frame. -/
theorem reads_framed_iff_patient (frames : List Bytes)
    (hf : ∀ m ∈ frames, 1 ≤ m.length ∧ m.length ≤ 10 * 1024 * 1024) (c : TcpClient)
    (hin : c.incoming = frames.flatMap FrameCodec.encode) (calls : List Unit) :
    (∀ before t, before <+: calls → run step (.start c) before = some t → Framed frames t) ↔
      Guarded step Patient (.start c) calls := by
  have hstart : InOrder frames (.start c) := ⟨0, Nat.zero_le _, rfl, fun _ => hin⟩
  exact forall_prefix_iff_guarded_of_invariant (fun _ => InOrder.framed) (step_inOrder hf)
    (patient_of_framed hf) hstart

theorem reads_framed_iff_patient_one_byte :
    (∀ before t, before <+: [(), ()] →
      run step (.start ⟨3, .connected, [0, 0, 0, 1, 65], [], [.ready 9, .ready 9], []⟩) before =
        some t → Framed [[65]] t) ↔
      Guarded step Patient
        (.start ⟨3, .connected, [0, 0, 0, 1, 65], [], [.ready 9, .ready 9], []⟩) [(), ()] := by
  have hf : ∀ m ∈ ([[65]] : List Bytes), 1 ≤ m.length ∧ m.length ≤ 10 * 1024 * 1024 := by simp
  exact reads_framed_iff_patient [[65]] hf
    ⟨3, .connected, [0, 0, 0, 1, 65], [], [.ready 9, .ready 9], []⟩ rfl [(), ()]

/-- The frame of a body that looks like a frame itself, held up after its header. -/
def heldUp : TcpClient :=
  ⟨3, .connected, [0, 0, 0, 5, 0, 0, 0, 1, 66], [],
    .ready 4 :: (List.replicate 5001 (.error .eagain) ++ [.ready 4, .ready 1]), []⟩

/-- The call after a time-out takes a part of the body for a frame. -/
theorem body_read_as_frame :
    heldUp.state = .connected ∧
    heldUp.incoming = ([[0, 0, 0, 1, 66]] : List Bytes).flatMap FrameCodec.encode ∧
    ∃ t, run step (.start heldUp) [(), ()] = some t ∧ t.last = some (some [66]) ∧
      t.client.state = .connected ∧ ¬Framed [[0, 0, 0, 1, 66]] t := by
  have hrun : (run step (.start heldUp) [(), ()]).map
      (fun t => (t.returned, t.last, t.client.state)) =
        some ([[66]], some (some [66]), .connected) := by
    decide +kernel
  obtain ⟨t, ht, hview⟩ := Option.map_eq_some_iff.mp hrun
  simp only [Prod.mk.injEq] at hview
  obtain ⟨hreturned, hlast, hstate⟩ := hview
  refine ⟨rfl, rfl, t, ht, hlast, hstate, ?_⟩
  rintro ⟨hsub, -⟩
  rw [hreturned] at hsub
  revert hsub
  decide

end Mprpc.ClientFraming
