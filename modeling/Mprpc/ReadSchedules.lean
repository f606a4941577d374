import Mprpc.ClientReads

namespace Mprpc.ReadSchedules

open Transport

/-- How many bytes the calls have brought. -/
def arrived (outcomes : List Recv) : Nat :=
  (outcomes.map fun | .ready n => n | _ => 0).sum

def Sound (outcome : Recv) : Prop :=
  outcome ≠ .closed ∧ ∀ message, outcome ≠ .error (.other message)

/-- The stream is not closed and does not fail, and there are no more than `maxRetries` calls
that find nothing without one between them that brings bytes. -/
structure Lasts (outcomes : List Recv) : Prop where
  sound : ∀ outcome ∈ outcomes, Sound outcome
  patient : ∀ wait, wait <:+: outcomes → (∀ outcome ∈ wait, outcome.delivers = false) →
    wait.countP Recv.waits ≤ Reading.maxRetries

/-- The same for a loop whose counter is at `retry`, one outcome after the other. -/
def LastsFrom : Nat → List Recv → Prop
  | _, [] => True
  | retry, outcome :: outcomes =>
    Sound outcome ∧
      if outcome.delivers then LastsFrom 0 outcomes
      else retry + (if outcome.waits then 1 else 0) ≤ Reading.maxRetries ∧
        LastsFrom (retry + if outcome.waits then 1 else 0) outcomes

section Schedules

variable {outcome : Recv} {outcomes : List Recv} {retry : Nat}

/-- The waits at the front of the outcomes, after `retry` others. -/
def WaitsWithin (retry : Nat) (outcomes : List Recv) : Prop :=
  ∀ wait, wait <+: outcomes → (∀ outcome ∈ wait, outcome.delivers = false) →
    retry + wait.countP Recv.waits ≤ Reading.maxRetries

theorem waitsWithin_cons_delivers (hretry : retry ≤ Reading.maxRetries)
    (h : outcome.delivers = true) :
    WaitsWithin retry (outcome :: outcomes) := by
  intro wait hwait hquiet
  obtain rfl | ⟨rest, rfl, _⟩ := List.prefix_cons_iff.mp hwait
  · exact hretry
  · rw [hquiet outcome List.mem_cons_self] at h
    cases h

theorem waitsWithin_cons_quiet (h : outcome.delivers = false) :
    WaitsWithin retry (outcome :: outcomes) ↔
      WaitsWithin (retry + if outcome.waits then 1 else 0) outcomes := by
  constructor
  · intro hwithin wait hwait hquiet
    have hcount := hwithin (outcome :: wait) (List.prefix_cons_inj outcome |>.mpr hwait)
      (List.forall_mem_cons.mpr ⟨h, hquiet⟩)
    rw [List.countP_cons] at hcount
    omega
  · intro hwithin wait hwait hquiet
    obtain rfl | ⟨rest, rfl, hrest⟩ := List.prefix_cons_iff.mp hwait
    · have hnone := hwithin [] List.nil_prefix (fun _ h => by cases h)
      rw [List.countP_nil] at hnone ⊢
      omega
    · have hcount := hwithin rest hrest (List.forall_mem_cons.mp hquiet).2
      rw [List.countP_cons]
      omega

theorem WaitsWithin.le (h : WaitsWithin retry outcomes) : retry ≤ Reading.maxRetries :=
  h [] List.nil_prefix (fun _ h => by cases h)

theorem lasts_cons :
    Lasts (outcome :: outcomes) ↔ Sound outcome ∧ Lasts outcomes ∧
      WaitsWithin 0 (outcome :: outcomes) := by
  constructor
  · intro h
    obtain ⟨hsound, hrest⟩ := List.forall_mem_cons.mp h.sound
    refine ⟨hsound, ⟨hrest, ?_⟩, ?_⟩
    · intro wait hwait
      exact h.patient wait (List.infix_cons hwait)
    · intro wait hwait hquiet
      rw [Nat.zero_add]
      exact h.patient wait hwait.isInfix hquiet
  · rintro ⟨hsound, hlasts, hwithin⟩
    refine ⟨List.forall_mem_cons.mpr ⟨hsound, hlasts.sound⟩, ?_⟩
    intro wait hwait hquiet
    obtain hwait | hwait := List.infix_cons_iff.mp hwait
    · exact (Nat.zero_add _).symm.trans_le (hwithin wait hwait hquiet)
    · exact hlasts.patient wait hwait hquiet

theorem Lasts.waitsWithin (h : Lasts outcomes) : WaitsWithin 0 outcomes := by
  intro wait hwait hquiet
  rw [Nat.zero_add]
  exact h.patient wait hwait.isInfix hquiet

theorem WaitsWithin.mono {retry' : Nat} (h : WaitsWithin retry outcomes) (hle : retry' ≤ retry) :
    WaitsWithin retry' outcomes := by
  intro wait hwait hquiet
  have hcount := h wait hwait hquiet
  omega

theorem lastsFrom_iff (hretry : retry ≤ Reading.maxRetries) :
    LastsFrom retry outcomes ↔ Lasts outcomes ∧ WaitsWithin retry outcomes := by
  induction outcomes generalizing retry with
  | nil =>
    refine ⟨fun _ => ⟨⟨?_, ?_⟩, ?_⟩, fun _ => trivial⟩
    · intro _ hmem
      cases hmem
    · intro wait hwait _
      rw [List.infix_nil.mp hwait]
      exact Nat.zero_le _
    · intro wait hwait _
      rw [List.prefix_nil.mp hwait]
      exact hretry
  | cons outcome outcomes ih =>
    rw [LastsFrom, lasts_cons]
    cases hd : outcome.delivers with
    | true =>
      rw [if_pos rfl, ih (Nat.zero_le _)]
      constructor
      · rintro ⟨hsound, hlasts, _⟩
        exact ⟨⟨hsound, hlasts, waitsWithin_cons_delivers (Nat.zero_le _) hd⟩,
          waitsWithin_cons_delivers hretry hd⟩
      · rintro ⟨⟨hsound, hlasts, _⟩, _⟩
        exact ⟨hsound, hlasts, hlasts.waitsWithin⟩
    | false =>
      rw [if_neg Bool.false_ne_true]
      constructor
      · rintro ⟨hsound, hle, hfrom⟩
        obtain ⟨hlasts, hrest⟩ := (ih hle).mp hfrom
        have hwithin := (waitsWithin_cons_quiet hd).mpr hrest
        exact ⟨⟨hsound, hlasts, hwithin.mono (Nat.zero_le _)⟩, hwithin⟩
      · rintro ⟨⟨hsound, hlasts, _⟩, hwithin⟩
        have hrest := (waitsWithin_cons_quiet hd).mp hwithin
        exact ⟨hsound, hrest.le, (ih hrest.le).mpr ⟨hlasts, hrest⟩⟩

/-- Some of the first outcomes bring `need` bytes. -/
def Suffices (need retry : Nat) (outcomes : List Recv) : Prop :=
  ∃ used, used <+: outcomes ∧ need ≤ arrived used ∧ LastsFrom retry used

variable {need n : Nat}

theorem suffices_cons (hneed : 0 < need) :
    Suffices need retry (outcome :: outcomes) ↔ ∃ rest, rest <+: outcomes ∧
      need ≤ arrived (outcome :: rest) ∧ LastsFrom retry (outcome :: rest) := by
  constructor
  · rintro ⟨used, hused, hneeds, hlasts⟩
    obtain rfl | ⟨rest, rfl, hrest⟩ := List.prefix_cons_iff.mp hused
    · exact absurd hneeds (Nat.not_le.mpr hneed)
    · exact ⟨rest, hrest, hneeds, hlasts⟩
  · rintro ⟨rest, hrest, hneeds, hlasts⟩
    exact ⟨outcome :: rest, (List.prefix_cons_inj outcome).mpr hrest, hneeds, hlasts⟩

theorem arrived_cons_ready : arrived (.ready n :: outcomes) = n + arrived outcomes := by
  simp [arrived]

theorem arrived_cons_quiet (h : outcome.delivers = false) :
    arrived (outcome :: outcomes) = arrived outcomes := by
  cases outcome with
  | ready n =>
    obtain rfl : n = 0 := by simpa [Recv.delivers] using h
    simp [arrived]
  | closed => simp [arrived]
  | error errno => simp [arrived]

theorem sound_ready : Sound (.ready n) := by
  constructor
  · intro h
    cases h
  · intro _ h
    cases h

theorem sound_error {errno : Errno} (h : ∀ message, errno ≠ .other message) :
    Sound (.error errno) := by
  constructor
  · intro heq
    cases heq
  · intro message heq
    exact h message (Recv.error.inj heq)

theorem lastsFrom_ready (hn : 0 < n) :
    LastsFrom retry (.ready n :: outcomes) ↔ LastsFrom 0 outcomes := by
  have hd : (Recv.ready n).delivers = true := by simpa [Recv.delivers] using hn
  rw [LastsFrom, if_pos hd]
  exact and_iff_right sound_ready

theorem suffices_ready (hn : 0 < n) (hlt : n < need) :
    Suffices need retry (.ready n :: outcomes) ↔ Suffices (need - n) 0 outcomes := by
  rw [suffices_cons (by omega)]
  apply exists_congr
  intro rest
  rw [arrived_cons_ready, lastsFrom_ready hn, Nat.sub_le_iff_le_add']

theorem suffices_last (hn : 0 < n) (hle : need ≤ n) :
    Suffices need retry (.ready n :: outcomes) := by
  refine ⟨[.ready n], (List.prefix_cons_inj _).mpr List.nil_prefix, ?_, ?_⟩
  · rw [arrived_cons_ready]
    omega
  · exact (lastsFrom_ready hn).mpr trivial

theorem suffices_quiet (hneed : 0 < need) (h : outcome.delivers = false) :
    Suffices need retry (outcome :: outcomes) ↔
      (Sound outcome ∧ retry + (if outcome.waits then 1 else 0) ≤ Reading.maxRetries) ∧
        Suffices need (retry + if outcome.waits then 1 else 0) outcomes := by
  rw [suffices_cons hneed]
  constructor
  · rintro ⟨rest, hrest, hneeds, hlasts⟩
    rw [LastsFrom, if_neg (by simp [h])] at hlasts
    rw [arrived_cons_quiet h] at hneeds
    exact ⟨⟨hlasts.1, hlasts.2.1⟩, rest, hrest, hneeds, hlasts.2.2⟩
  · rintro ⟨⟨hsound, hle⟩, rest, hrest, hneeds, hlasts⟩
    refine ⟨rest, hrest, (arrived_cons_quiet h).symm ▸ hneeds, ?_⟩
    rw [LastsFrom, if_neg (by simp [h])]
    exact ⟨hsound, hle, hlasts⟩

end Schedules

end Mprpc.ReadSchedules
