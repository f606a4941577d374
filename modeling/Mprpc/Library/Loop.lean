import Mprpc.Library.Transition

namespace Mprpc.Library.Loop

variable {σ ι ρ : Type*}

/-- Where a loop stands: before another round, or past its last one. -/
inductive Progress (σ ρ : Type*)
  | again (s : σ)
  | done (r : ρ)

/-- Run a loop on the outcomes of the calls it makes, one a round. The result is
`none` while the loop still runs, and else comes with the outcomes left over. -/
def drive (step : σ → ι → Progress σ ρ) : Progress σ ρ → List ι → Option (ρ × List ι)
  | .done r, xs => some (r, xs)
  | .again _, [] => none
  | .again s, x :: xs => drive step (step s x) xs

theorem drive_done (step : σ → ι → Progress σ ρ) (r : ρ) (xs : List ι) :
    drive step (.done r) xs = some (r, xs) := by
  cases xs <;> rfl

def Progress.map {τ υ : Type*} (f : σ → τ) (g : ρ → υ) : Progress σ ρ → Progress τ υ
  | .again s => .again (f s)
  | .done r => .done (g r)

/-- `P` holds of a loop that goes on and `Q` of one that is through. -/
def Progress.Holds (P : σ → Prop) (Q : ρ → Prop) : Progress σ ρ → Prop
  | .again s => P s
  | .done r => Q r

theorem Progress.Holds.mono {P P' : σ → Prop} {Q : ρ → Prop} {p : Progress σ ρ}
    (h : p.Holds P Q) (hmono : ∀ s, P s → P' s) : p.Holds P' Q := by
  cases p with
  | again s => exact hmono s h
  | done r => exact h

variable {step : σ → ι → Progress σ ρ} {P : σ → Prop} {Q : ρ → Prop}

/-- The rule for loops: what every round keeps holds of the result. -/
theorem drive_holds (hstep : ∀ s x, P s → (step s x).Holds P Q) {p : Progress σ ρ}
    {xs rest : List ι} {r : ρ} (hp : p.Holds P Q) (h : drive step p xs = some (r, rest)) : Q r := by
  induction xs generalizing p with
  | nil =>
    cases p with
    | again s => cases h
    | done r' =>
      cases h
      exact hp
  | cons x xs ih =>
    cases p with
    | again s => exact ih (hstep s x hp) h
    | done r' =>
      cases h
      exact hp

section Related

variable {τ υ : Type*} {next : τ → ι → Progress τ υ} {R : σ → τ → Prop} {S : ρ → υ → Prop}

/-- Two loops that stand at related places. -/
def Progress.Related (R : σ → τ → Prop) (S : ρ → υ → Prop) : Progress σ ρ → Progress τ υ → Prop
  | .again s, .again t => R s t
  | .done r, .done u => S r u
  | _, _ => False

/-- The rule for two loops: when every round keeps them related, they end on the same
outcomes, with related results. -/
theorem drive_related (hstep : ∀ s t x, R s t → (step s x).Related R S (next t x))
    {p : Progress σ ρ} {q : Progress τ υ} (h : p.Related R S q) (xs : List ι) :
    Option.Rel (fun a b => S a.1 b.1 ∧ a.2 = b.2) (drive step p xs) (drive next q xs) := by
  induction xs generalizing p q with
  | nil =>
    cases p with
    | again s =>
      cases q with
      | again t => exact .none
      | done u => cases h
    | done r =>
      cases q with
      | again t => cases h
      | done u => exact .some ⟨h, rfl⟩
  | cons x xs ih =>
    cases p with
    | again s =>
      cases q with
      | again t => exact ih (hstep s t x h)
      | done u => cases h
    | done r =>
      cases q with
      | again t => cases h
      | done u => exact .some ⟨h, rfl⟩

/-- What is made of related results is the same. -/
theorem drive_map_eq {ω : Type*} {f : ρ × List ι → ω} {g : υ × List ι → ω}
    (hstep : ∀ s t x, R s t → (step s x).Related R S (next t x))
    {p : Progress σ ρ} {q : Progress τ υ} (h : p.Related R S q)
    (hsame : ∀ r u rest, S r u → f (r, rest) = g (u, rest)) (xs : List ι) :
    (drive step p xs).map f = (drive next q xs).map g := by
  have hrel := drive_related hstep h xs
  cases hp : drive step p xs with
  | none =>
    rw [hp] at hrel
    cases hq : drive next q xs with
    | none => rfl
    | some u =>
      rw [hq] at hrel
      cases hrel
  | some r =>
    rw [hp] at hrel
    cases hq : drive next q xs with
    | none =>
      rw [hq] at hrel
      cases hrel
    | some u =>
      rw [hq] at hrel
      obtain ⟨u, rest⟩ := u
      obtain ⟨r, rest'⟩ := r
      cases hrel with
      | some h =>
        obtain ⟨hs, hrest⟩ := h
        dsimp only at hs hrest
        rw [hrest, Option.map_some, Option.map_some, hsame r u rest hs]

end Related

theorem drive_append {p : Progress σ ρ} {xs rest : List ι} {r : ρ}
    (h : drive step p xs = some (r, rest)) (ys : List ι) :
    drive step p (xs ++ ys) = some (r, rest ++ ys) := by
  induction xs generalizing p with
  | nil =>
    cases p with
    | again s => cases h
    | done r' =>
      cases h
      exact drive_done step r ys
  | cons x xs ih =>
    cases p with
    | again s => exact ih h
    | done r' =>
      cases h
      rfl

/-- A system that takes a step for every round of a loop comes to where the loop
ends, by the steps for the outcomes that the loop uses up. -/
theorem drive_run {τ ℓ : Type*} {next : τ → ℓ → Option τ} {act : ι → ℓ} {view : Progress σ ρ → τ}
    (hview : ∀ s x, next (view (.again s)) (act x) = some (view (step s x)))
    {p : Progress σ ρ} {xs rest : List ι} {r : ρ} (h : drive step p xs = some (r, rest)) :
    ∃ used, xs = used ++ rest ∧
      Transition.run next (view p) (used.map act) = some (view (.done r)) := by
  induction xs generalizing p with
  | nil =>
    cases p with
    | again s => cases h
    | done r' =>
      cases h
      exact ⟨[], rfl, rfl⟩
  | cons x xs ih =>
    cases p with
    | again s =>
      obtain ⟨used, hxs, hrun⟩ := ih h
      refine ⟨x :: used, by rw [hxs, List.cons_append], ?_⟩
      rw [List.map_cons, Transition.run_cons_some]
      exact ⟨_, hview s x, hrun⟩
    | done r' =>
      cases h
      exact ⟨[], rfl, rfl⟩

/-- One of the outcomes that the loop takes is a bad one. -/
def Meets (step : σ → ι → Progress σ ρ) (bad : ι → Prop) : Progress σ ρ → List ι → Prop
  | .done _, _ => False
  | .again _, [] => False
  | .again s, x :: xs => bad x ∨ Meets step bad (step s x) xs

section Meets

variable {bad : ι → Prop} {lost : ρ → Prop}

/-- A loop that breaks off at a bad outcome ends once it meets one. -/
theorem drive_of_meets (hbad : ∀ s x, bad x → ∃ r, step s x = .done r ∧ lost r)
    {p : Progress σ ρ} {xs : List ι} (h : Meets step bad p xs) :
    ∃ r rest, drive step p xs = some (r, rest) ∧ lost r := by
  induction xs generalizing p with
  | nil => cases p <;> cases h
  | cons x xs ih =>
    cases p with
    | done r => cases h
    | again s =>
      obtain hx | h := h
      · obtain ⟨r, hr, hl⟩ := hbad s x hx
        refine ⟨r, xs, ?_, hl⟩
        rw [drive, hr, drive_done]
      · exact ih h

theorem drive_of_not_meets (hgood : ∀ s x r, ¬bad x → step s x = .done r → ¬lost r)
    {p : Progress σ ρ} {xs rest : List ι} {r : ρ} (hp : ∀ r, p = .done r → ¬lost r)
    (hm : ¬Meets step bad p xs) (h : drive step p xs = some (r, rest)) : ¬lost r := by
  induction xs generalizing p with
  | nil =>
    cases p with
    | again s => cases h
    | done r' =>
      cases h
      exact hp r rfl
  | cons x xs ih =>
    cases p with
    | done r' =>
      cases h
      exact hp r rfl
    | again s =>
      obtain ⟨hx, hm⟩ := not_or.mp hm
      exact ih (fun r hr => hgood s x r hx hr) hm h

end Meets

/-- In one of the states that the loop comes to, it takes an outcome that is bad there. -/
def MeetsAt (step : σ → ι → Progress σ ρ) (bad : σ → ι → Prop) : Progress σ ρ → List ι → Prop
  | .done _, _ => False
  | .again _, [] => False
  | .again s, x :: xs => bad s x ∨ MeetsAt step bad (step s x) xs

section MeetsAt

variable {bad : σ → ι → Prop}

/-- What every round keeps is there to be used when the loop meets a bad outcome. -/
theorem drive_of_meetsAt (hstep : ∀ s x, P s → (step s x).Holds P fun _ => True)
    (hbad : ∀ s x, P s → bad s x → ∃ r, step s x = .done r ∧ Q r)
    {p : Progress σ ρ} {xs : List ι} (hp : p.Holds P fun _ => True)
    (h : MeetsAt step bad p xs) : ∃ r rest, drive step p xs = some (r, rest) ∧ Q r := by
  induction xs generalizing p with
  | nil => cases p <;> cases h
  | cons x xs ih =>
    cases p with
    | done r => cases h
    | again s =>
      obtain hx | h := h
      · obtain ⟨r, hr, hq⟩ := hbad s x hp hx
        refine ⟨r, xs, ?_, hq⟩
        rw [drive, hr, drive_done]
      · exact ih (hstep s x hp) h

/-- The rule for loops, for the rounds that meet nothing bad. -/
theorem drive_of_not_meetsAt (hstep : ∀ s x, P s → ¬bad s x → (step s x).Holds P Q)
    {p : Progress σ ρ} {xs rest : List ι} {r : ρ} (hp : p.Holds P Q) (hm : ¬MeetsAt step bad p xs)
    (h : drive step p xs = some (r, rest)) : Q r := by
  induction xs generalizing p with
  | nil =>
    cases p with
    | again s => cases h
    | done r' =>
      cases h
      exact hp
  | cons x xs ih =>
    cases p with
    | done r' =>
      cases h
      exact hp
    | again s =>
      obtain ⟨hx, hm⟩ := not_or.mp hm
      exact ih (hstep s x hp hx) hm h

end MeetsAt

end Mprpc.Library.Loop
