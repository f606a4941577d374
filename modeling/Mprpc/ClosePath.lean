import Mprpc.EventLoop

namespace Mprpc.ClosePath

open Transport TcpServer ServerReads EventLoop Library.Transition

def enters (i : Nat) : LoopNote → Bool
  | .entered j _ => j = i
  | _ => false

/-- The close path is entered for listed connections only, at most once for each,
and no method of a connection is called after it. -/
structure ClosesOnce (notes : List LoopNote) : Prop where
  listed : ∀ i listed, .entered i listed ∈ notes → listed = true
  once : ∀ i, notes.countP (enters i) ≤ 1
  final : notes.Pairwise fun before after => ∀ i, before = .left i → after ≠ .called i

/-- Not both the read and the hang-up of an event close the connection. -/
def OneReason (s : EventLoop) : LoopEvent → Prop
  | .handle result =>
    ∀ event ∈ s.events.head?, ¬(ReadEnds event result ∧ event.hangUp = true)
  | _ => True

section Notes

variable {i : Nat} {notes more calls : List LoopNote}

/-- The notes have nothing of a close path of the connection. -/
def Open (i : Nat) (notes : List LoopNote) : Prop :=
  (∀ listed, .entered i listed ∉ notes) ∧ .left i ∉ notes

theorem Open.count (h : Open i notes) : notes.countP (enters i) = 0 := by
  refine List.countP_eq_zero.mpr ?_
  intro n hn
  cases n with
  | entered j listed =>
    intro hj
    have heq : j = i := by simpa [enters] using hj
    exact h.1 listed (heq ▸ hn)
  | called j => simp [enters]
  | left j => simp [enters]

theorem Open.append (h : Open i notes) (hmore : Open i more) : Open i (notes ++ more) := by
  refine ⟨?_, ?_⟩
  · intro listed hmem
    exact (List.mem_append.mp hmem).elim (h.1 listed) (hmore.1 listed)
  · intro hmem
    exact (List.mem_append.mp hmem).elim h.2 hmore.2

theorem ClosesOnce.append (once : ClosesOnce notes) (more_once : ClosesOnce more)
    (hopen : Open i notes) (hmore : ∀ n ∈ more, n = .called i ∨ n = .left i ∨ enters i n = true) :
    ClosesOnce (notes ++ more) := by
  refine ⟨?_, ?_, ?_⟩
  · intro j listed hmem
    cases List.mem_append.mp hmem with
    | inl h => exact once.listed j listed h
    | inr h => exact more_once.listed j listed h
  · intro j
    rw [List.countP_append]
    by_cases hj : j = i
    · subst hj
      have hcount := hopen.count
      have hone := more_once.once j
      omega
    · have hnone : more.countP (enters j) = 0 := by
        refine List.countP_eq_zero.mpr ?_
        intro n hn
        obtain rfl | rfl | henters := hmore n hn
        · simp [enters]
        · simp [enters]
        · cases n with
          | entered k listed =>
            have hk : k = i := by simpa [enters] using henters
            simpa [enters, hk] using Ne.symm hj
          | called k => cases henters
          | left k => cases henters
      have hone := once.once j
      omega
  · refine List.pairwise_append.mpr ⟨once.final, more_once.final, ?_⟩
    intro a ha b hb j hleft hcalled
    obtain h | h | h := hmore b hb
    · rw [hcalled] at h
      cases h
      exact hopen.2 (hleft ▸ ha)
    · rw [hcalled] at h
      cases h
    · rw [hcalled] at h
      cases h

theorem calls_once (hcalls : ∀ n ∈ calls, n = .called i) : ClosesOnce calls := by
  refine ⟨?_, ?_, ?_⟩
  · intro j listed hmem
    cases hcalls _ hmem
  · intro j
    have hnone : calls.countP (enters j) = 0 := by
      refine List.countP_eq_zero.mpr ?_
      intro n hn
      rw [hcalls n hn]
      simp [enters]
    omega
  · refine List.pairwise_of_forall_mem_list ?_
    intro a ha b _ j hleft
    rw [hcalls a ha] at hleft
    cases hleft

theorem calls_open (hcalls : ∀ n ∈ calls, n = .called i) : Open i calls := by
  refine ⟨?_, ?_⟩
  · intro listed hmem
    cases hcalls _ hmem
  · intro hmem
    cases hcalls _ hmem

theorem closeNotes_once (i : Nat) : ClosesOnce (closeNotes i true) := by
  refine ⟨?_, ?_, ?_⟩
  · simp [closeNotes]
  · intro j
    by_cases hj : i = j <;> simp [closeNotes, enters, hj]
  · simp [closeNotes]

theorem mem_closeNotes {listed : Bool} {n : LoopNote} (h : n ∈ closeNotes i listed) :
    n = .called i ∨ n = .left i ∨ enters i n = true := by
  simp only [closeNotes, List.mem_cons, List.not_mem_nil, or_false] at h
  obtain rfl | rfl | rfl | rfl | rfl := h
  · simp [enters]
  all_goals simp

theorem calls_closeNotes_once (hcalls : ∀ n ∈ calls, n = .called i) :
    ClosesOnce (calls ++ closeNotes i true) :=
  (calls_once hcalls).append (closeNotes_once i) (calls_open hcalls) fun _ => mem_closeNotes

theorem others_open {j : Nat} (hj : j ≠ i)
    (hmore : ∀ n ∈ more, n = .called i ∨ n = .left i ∨ enters i n = true) : Open j more := by
  refine ⟨?_, ?_⟩
  · intro listed hmem
    obtain h | h | h := hmore _ hmem
    · cases h
    · cases h
    · exact hj (by simpa [enters] using h)
  · intro hmem
    obtain h | h | h := hmore _ hmem
    · cases h
    · cases h
      exact hj rfl
    · cases h

theorem mem_calls_closeNotes {listed : Bool} (hcalls : ∀ n ∈ calls, n = .called i) (n : LoopNote)
    (h : n ∈ calls ++ closeNotes i listed) : n = .called i ∨ n = .left i ∨ enters i n = true := by
  cases List.mem_append.mp h with
  | inl h => exact .inl (hcalls n h)
  | inr h => exact mem_closeNotes h

end Notes

/-- The connections that the loop can still meet are those the server keeps; no
close path has begun for them. -/
structure Sound (s : EventLoop) : Prop where
  closes : ClosesOnce s.notes
  nodup : s.connections.Nodup
  fetched : (s.events.map (·.connection)).Nodup
  events : ∀ event ∈ s.events, event.connection ∈ s.connections
  kept : ∀ i ∈ s.connections, s.Serves i
  unclosed : ∀ i, i ∈ s.connections ∨ s.objects.length ≤ i → Open i s.notes

theorem started_sound : Sound .started :=
  ⟨⟨by simp [EventLoop.started], by simp [EventLoop.started], List.Pairwise.nil⟩, List.nodup_nil,
    List.nodup_nil, by simp [EventLoop.started], by simp [EventLoop.started],
    by simp [Open, EventLoop.started]⟩

section Steps

variable {s t : EventLoop} (sound : Sound s)
include sound

theorem Sound.dropped (object : Accepted) :
    Sound { s with objects := s.objects ++ [object] } := by
  refine ⟨sound.closes, sound.nodup, sound.fetched, sound.events,
    fun i hi => (sound.kept i hi).append rfl, ?_⟩
  intro i hi
  apply sound.unclosed i
  obtain h | h := hi
  · exact .inl h
  · rw [List.length_append] at h
    exact .inr (Nat.le_of_add_right_le h)

theorem handleNewConnection_sound (client : Option (Nat × Text)) (added : Bool) :
    Sound (handleNewConnection s client added) := by
  obtain hsame | ⟨sockfd, peerAddr, hnew | ⟨c, -, hnew⟩⟩ :=
    handleNewConnection_cases s client added
  · rw [hsame]
    exact sound
  · rw [hnew]
    have dropped := sound.dropped ⟨sockfd, accepted sockfd peerAddr⟩
    refine ⟨dropped.closes, ?_, dropped.fetched, ?_, ?_, ?_⟩
    · have hfresh : s.objects.length ∉ s.connections := fun hin =>
        Nat.lt_irrefl _ (sound.kept _ hin).lt_length
      simpa using List.nodup_append_comm.mp (List.nodup_cons.mpr ⟨hfresh, sound.nodup⟩)
    · intro event hevent
      exact List.mem_append_left _ (sound.events event hevent)
    · intro i hi
      cases List.mem_append.mp hi with
      | inl hi => exact dropped.kept i hi
      | inr hi =>
        rw [List.mem_singleton.mp hi]
        exact ⟨_, List.getElem?_concat_length, accepted_live sockfd peerAddr, rfl⟩
    · intro i hi
      obtain h | h := hi
      · cases List.mem_append.mp h with
        | inl h => exact sound.unclosed i (.inl h)
        | inr h => exact sound.unclosed i (.inr (List.mem_singleton.mp h).ge)
      · exact dropped.unclosed i (.inr h)
  · rw [hnew]
    exact sound.dropped _

/-- The step lemma of the loop: an event with one reason at most to close its
connection closes it once. -/
theorem handled_sound {event : EpollEvent} {rest : List EpollEvent} {result : Readv}
    {c : TcpConnection} (hevents : s.events = event :: rest)
    (ht : Handled { s with events := rest } event result c t) (live : Live c.inputBuffer)
    (hcb : c.messageCallback = true) (hone : ¬(ReadEnds event result ∧ event.hangUp = true)) :
    Sound t := by
  have hlisted : event.connection ∈ s.connections := sound.events event (by simp [hevents])
  have hopen : Open event.connection s.notes := sound.unclosed _ (.inl hlisted)
  have hfetched : event.connection ∉ rest.map (·.connection) ∧ (rest.map (·.connection)).Nodup := by
    have h := sound.fetched
    rw [hevents] at h
    exact List.nodup_cons.mp h
  have hrest : ∀ other ∈ rest, other.connection ∈ s.connections := fun other hother =>
    sound.events other (by simp [hevents, hother])
  have hkept : ∀ j ∈ s.connections, (s.put event.connection c).Serves j := fun j hj =>
    (sound.kept j hj).put fun _ => ⟨live, hcb⟩
  have hlength : (s.put event.connection c).objects.length = s.objects.length :=
    List.length_modify ..
  cases ht with
  | stays calls hcalls =>
    refine ⟨?_, sound.nodup, hfetched.2, hrest, hkept, ?_⟩
    · exact sound.closes.append (calls_once hcalls) hopen fun n hn => .inl (hcalls n hn)
    · intro j hj
      have hj' : j ∈ s.connections ∨ s.objects.length ≤ j := hj.imp_right hlength.ge.trans
      refine (sound.unclosed j hj').append ⟨?_, ?_⟩
      · intro listed hmem
        cases hcalls _ hmem
      · intro hmem
        cases hcalls _ hmem
  | closes calls hcalls =>
    have hnotes : calls ++ closeNotes event.connection (event.connection ∈ s.connections) =
        calls ++ closeNotes event.connection true := by
      rw [decide_eq_true hlisted]
    refine ⟨?_, sound.nodup.erase _, hfetched.2, ?_, ?_, ?_⟩
    · change ClosesOnce (s.notes ++ (calls ++ closeNotes event.connection _))
      rw [hnotes]
      exact sound.closes.append (calls_closeNotes_once hcalls) hopen (mem_calls_closeNotes hcalls)
    · intro other hother
      refine (List.mem_erase_of_ne ?_).mpr (hrest other hother)
      intro heq
      exact hfetched.1 (heq ▸ List.mem_map_of_mem hother)
    · intro j hj
      exact hkept j (List.mem_of_mem_erase hj)
    · intro j hj
      have hne : j ≠ event.connection := by
        rintro rfl
        obtain h | h := hj
        · exact sound.nodup.not_mem_erase h
        · exact Nat.lt_irrefl _ ((sound.kept _ hlisted).lt_length.trans_le (hlength.ge.trans h))
      have hj' : j ∈ s.connections ∨ s.objects.length ≤ j :=
        hj.imp List.mem_of_mem_erase hlength.ge.trans
      exact (sound.unclosed j hj').append (others_open hne (mem_calls_closeNotes hcalls))
  | closesTwice calls hcalls hread hhangUp => exact absurd ⟨hread, hhangUp⟩ hone

theorem step_sound {l : LoopEvent} (hone : OneReason s l) (h : step s l = some t) : Sound t := by
  cases l with
  | accept client added =>
    cases h
    exact handleNewConnection_sound sound client added
  | wait events =>
    obtain ⟨⟨-, -, hnodup, hlisted⟩, hs⟩ := Option.ite_none_right_eq_some.mp h
    cases hs
    exact ⟨sound.closes, sound.nodup, hnodup, hlisted, sound.kept, sound.unclosed⟩
  | handle result =>
    cases hevents : s.events with
    | nil => simp [step, hevents] at h
    | cons event rest =>
      by_cases hd : s.delivers event result = true
      · obtain ⟨object, c, t', -, -, -, -, -, live, hcb, hstep, ht⟩ :=
          handle_run hevents (sound.kept _ (sound.events event (by simp [hevents]))) hd
        cases hstep.symm.trans h
        exact handled_sound sound hevents ht live hcb (hone event (by simp [hevents]))
      · simp [step, hevents, hd] at h

/-- A read that closes the connection in an event that has a hang-up too makes the
loop close it again, when it is no longer listed. -/
theorem handle_breaks {event : EpollEvent} {rest : List EpollEvent} {result : Readv}
    (hevents : s.events = event :: rest) (hread : ReadEnds event result)
    (hhangUp : event.hangUp = true) :
    ∃ t, step s (.handle result) = some t ∧ ¬ClosesOnce t.notes := by
  have hlisted : event.connection ∈ s.connections := sound.events event (by simp [hevents])
  have hsize : result.size = 0 := by
    cases result with
    | bytes data => exact List.length_eq_zero_iff.mpr hread.2
    | error errno => rfl
  have hserves := sound.kept event.connection hlisted
  have hd : s.delivers event result = true := by
    obtain ⟨object, hobject, -⟩ := hserves
    simp [delivers, hobject, hsize]
  obtain ⟨object, c, t, -, -, -, -, -, -, -, hstep, ht⟩ := handle_run hevents hserves hd
  refine ⟨t, hstep, ?_⟩
  intro hcloses
  cases ht with
  | stays _ _ _ hquiet => exact absurd (hhangUp.symm.trans hquiet) (by decide)
  | closes _ _ honce => exact honce ⟨hread, hhangUp⟩
  | closesTwice calls =>
    have hgone : event.connection ∉ s.connections.erase event.connection :=
      sound.nodup.not_mem_erase
    have hentered : decide (event.connection ∈ s.connections.erase event.connection) = true := by
      apply hcloses.listed event.connection
      refine List.mem_append_right _ (List.mem_append_right _ ?_)
      exact List.mem_cons_self
    exact hgone (of_decide_eq_true hentered)

end Steps

/-- The close path runs once at most for each connection exactly over the runs in
which no event that ends its connection in the read has a hang-up as well. -/
theorem closes_once_iff {labels : List LoopEvent} :
    (∀ before t, before <+: labels → run step .started before = some t → ClosesOnce t.notes) ↔
      Guarded step OneReason .started labels := by
  refine forall_prefix_iff_guarded_of_invariant (fun _ => Sound.closes)
    (fun _ _ _ sound => step_sound sound) ?_ started_sound
  intro s l sound hsafe
  cases l with
  | accept | wait => trivial
  | handle result =>
    rintro event hevent ⟨hread, hhangUp⟩
    obtain ⟨rest, hevents⟩ := List.head?_eq_some_iff.mp hevent
    obtain ⟨t, hstep, hbreaks⟩ := handle_breaks sound hevents hread hhangUp
    exact hbreaks (hsafe t hstep)

/-- A peer that resets its connection after it has closed its side. -/
def resetPeer : List LoopEvent :=
  [.accept (some (7, [49])) true, .wait [⟨0, true, true⟩], .handle (.bytes [])]

/-- The read of the end of the file closes the connection, and the hang-up in the
same event closes it again. -/
theorem reset_closed_twice : ∃ t, run step .started resetPeer = some t ∧
    t.notes.countP (enters 0) = 2 ∧ ¬ClosesOnce t.notes := by
  have h : (run step .started resetPeer).map (fun t => t.notes.countP (enters 0)) = some 2 := by
    decide +kernel
  obtain ⟨t, hrun, hcount⟩ := Option.map_eq_some_iff.mp h
  refine ⟨t, hrun, hcount, ?_⟩
  intro hcloses
  have hone := hcloses.once 0
  omega

end Mprpc.ClosePath
