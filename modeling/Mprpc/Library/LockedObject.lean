import Mprpc.Library.SharedMutex
import Mprpc.Library.Transition

namespace Mprpc.Library

/-- What an operation does to an object, one access at a time. -/
inductive Body (σ ρ : Type*)
  | done (result : ρ)
  | access (effect : σ → σ) (next : σ → Body σ ρ)

namespace Body

variable {σ ρ : Type*}

/-- All of it at once. -/
def exec : Body σ ρ → σ → ρ × σ
  | .done result, object => (result, object)
  | .access effect next, object => (next object).exec (effect object)

/-- It looks at the object only. -/
inductive ReadOnly : Body σ ρ → Prop
  | done (result : ρ) : ReadOnly (.done result)
  | access {next : σ → Body σ ρ} (h : ∀ object, ReadOnly (next object)) : ReadOnly (.access id next)

end Body

/-- Operations of an object with a lock. Only those that hold the lock alone may change the
object, and those that do not take it do not come to the object. -/
structure LockedObject (σ ο ρ : Type*) where
  mode : ο → SharedMutex.Mode
  body : ο → Body σ ρ
  reads : ∀ op, mode op = .shared → (body op).ReadOnly
  stays : ∀ op, mode op = .free → ∃ result, body op = .done result

namespace LockedObject

variable {ι σ ο ρ : Type*}

/-- Where a caller is in an operation, with what it has still to do. -/
inductive Caller (σ ο ρ : Type*)
  | outside
  | waiting (op : ο)
  | inside (op : ο) (rest : Body σ ρ)

structure State (ι σ ο ρ : Type*) where
  object : σ
  mutex : SharedMutex ι
  callers : ι → Caller σ ο ρ
  returned : List (ι × ο × ρ)

inductive Act (ο : Type*)
  | call (op : ο)
  | enter
  | access
  | leave

def start (object : σ) : State ι σ ο ρ := ⟨object, .unlocked, fun _ => .outside, []⟩

/-- The operations one after the other. -/
def replay (obj : LockedObject σ ο ρ) (object : σ) (ops : List ο) : σ :=
  ops.foldl (fun object op => ((obj.body op).exec object).2) object

def results (obj : LockedObject σ ο ρ) : σ → List ο → List ρ
  | _, [] => []
  | object, op :: ops =>
    ((obj.body op).exec object).1 :: obj.results ((obj.body op).exec object).2 ops

theorem replay_concat (obj : LockedObject σ ο ρ) (object : σ) (ops : List ο) (op : ο) :
    obj.replay object (ops ++ [op]) = ((obj.body op).exec (obj.replay object ops)).2 := by
  rw [replay, List.foldl_append]
  rfl

theorem results_append (obj : LockedObject σ ο ρ) (object : σ) (ops more : List ο) :
    obj.results object (ops ++ more) =
      obj.results object ops ++ obj.results (obj.replay object ops) more := by
  induction ops generalizing object with
  | nil => rfl
  | cons op ops ih => exact congrArg (_ :: ·) (ih _)

theorem length_results (obj : LockedObject σ ο ρ) (object : σ) (ops : List ο) :
    (obj.results object ops).length = ops.length := by
  induction ops generalizing object with
  | nil => rfl
  | cons op ops ih => exact congrArg (· + 1) (ih _)

theorem results_split {obj : LockedObject σ ο ρ} {object : σ} {before after : List (ο × ρ)} {op : ο}
    {result : ρ}
    (h : (before ++ (op, result) :: after).map Prod.snd =
      obj.results object ((before ++ (op, result) :: after).map Prod.fst)) :
    before.map Prod.snd = obj.results object (before.map Prod.fst) ∧
      ((obj.body op).exec (obj.replay object (before.map Prod.fst))).1 = result := by
  rw [List.map_append, List.map_append, results_append] at h
  have hlength : (before.map Prod.snd).length =
      (obj.results object (before.map Prod.fst)).length := by
    rw [length_results, List.length_map, List.length_map]
  obtain ⟨hbefore, hrest⟩ := List.append_inj h hlength
  exact ⟨hbefore, (List.cons.inj hrest).1.symm⟩

def State.ops (s : State ι σ ο ρ) : List ο := s.returned.map fun r => r.2.1

variable [DecidableEq ι]

def State.goTo (i : ι) (caller : Caller σ ο ρ) (s : State ι σ ο ρ) : State ι σ ο ρ :=
  { s with callers := Function.update s.callers i caller }

def take (mode : SharedMutex.Mode) (i : ι) (m : SharedMutex ι) : Option (SharedMutex ι) :=
  match mode with
  | .free => some m
  | .shared => m.lockShared i
  | .exclusive => m.lock i

def release (mode : SharedMutex.Mode) (i : ι) (m : SharedMutex ι) : SharedMutex ι :=
  match mode with
  | .free => m
  | .shared => m.unlockShared i
  | .exclusive => m.unlock

def step (obj : LockedObject σ ο ρ) (s : State ι σ ο ρ) : ι × Act ο → Option (State ι σ ο ρ)
  | (i, .call op) =>
    match s.callers i with
    | .outside => some (s.goTo i (.waiting op))
    | _ => none
  | (i, .enter) =>
    match s.callers i with
    | .waiting op =>
      (take (obj.mode op) i s.mutex).map fun m =>
        { s.goTo i (.inside op (obj.body op)) with mutex := m }
    | _ => none
  | (i, .access) =>
    match s.callers i with
    | .inside op (.access effect next) =>
      some { s.goTo i (.inside op (next s.object)) with object := effect s.object }
    | _ => none
  | (i, .leave) =>
    match s.callers i with
    | .inside op (.done result) =>
      some { s.goTo i .outside with
        mutex := release (obj.mode op) i s.mutex
        returned := s.returned ++ [(i, op, result)] }
    | _ => none

def Caller.mode (obj : LockedObject σ ο ρ) : Caller σ ο ρ → SharedMutex.Mode
  | .outside | .waiting _ => .free
  | .inside op _ => obj.mode op

/-- What is left of an operation does what the whole of it does after those that have returned. -/
def Agrees (obj : LockedObject σ ο ρ) (before object : σ) (op : ο) (rest : Body σ ρ) : Prop :=
  match obj.mode op with
  | .free => rest = obj.body op
  | .shared => rest.ReadOnly ∧ rest.exec before = (obj.body op).exec before
  | .exclusive => rest.exec object = (obj.body op).exec before

/-- The lock is held as it should be, what has returned is what the operations return one after
the other, and the object is as they leave it, but for the operation that holds the lock alone. -/
structure Sound (obj : LockedObject σ ο ρ) (object : σ) (s : State ι σ ο ρ) : Prop where
  guards : s.mutex.Guards (Caller.mode obj ∘ s.callers)
  returned : s.returned.map (fun r => r.2.2) = obj.results object s.ops
  agrees : ∀ i op rest, s.callers i = .inside op rest →
    Agrees obj (obj.replay object s.ops) s.object op rest
  quiet : (∀ i, Caller.mode obj (s.callers i) ≠ .exclusive) → s.object = obj.replay object s.ops

variable {obj : LockedObject σ ο ρ} {object : σ} {s : State ι σ ο ρ} {i j : ι} {op : ο}
  {m : SharedMutex ι}

omit [DecidableEq ι] in
theorem start_sound (obj : LockedObject σ ο ρ) (object : σ) :
    Sound obj object (start object : State ι σ ο ρ) := by
  refine ⟨SharedMutex.unlocked_guards, rfl, ?_, fun _ => rfl⟩
  intro i op rest h
  cases h

omit [DecidableEq ι] in
theorem Agrees.of_free {before object before' object' : σ} {rest : Body σ ρ}
    (h : Agrees obj before object op rest) (hfree : obj.mode op = .free) :
    Agrees obj before' object' op rest := by
  rw [Agrees, hfree] at h ⊢
  exact h

omit [DecidableEq ι] in
theorem Sound.quiet_of_shared (sound : Sound obj object s)
    (hi : Caller.mode obj (s.callers i) = .shared) : s.object = obj.replay object s.ops :=
  sound.quiet fun _ hj => sound.guards.not_shared hj i hi

omit [DecidableEq ι] in
theorem Sound.free_of_exclusive (sound : Sound obj object s)
    (hi : Caller.mode obj (s.callers i) = .exclusive) (hj : j ≠ i) :
    Caller.mode obj (s.callers j) = .free := by
  cases hmode : Caller.mode obj (s.callers j) with
  | free => rfl
  | shared => exact absurd hmode (sound.guards.not_shared hi j)
  | exclusive =>
    have hboth := (sound.guards.exclusive j).mpr hmode
    rw [(sound.guards.exclusive i).mpr hi] at hboth
    exact absurd (Option.some.inj hboth).symm hj

theorem guards_goTo {caller : Caller σ ο ρ}
    (h : m.Guards (Function.update (Caller.mode obj ∘ s.callers) i (caller.mode obj))) :
    m.Guards (Caller.mode obj ∘ (s.goTo i caller).callers) := by
  rw [← Function.comp_update] at h
  exact h

theorem goTo_callers {caller : Caller σ ο ρ} (hj : j ≠ i) :
    (s.goTo i caller).callers j = s.callers j := Function.update_of_ne hj _ _

theorem goTo_self {caller : Caller σ ο ρ} : (s.goTo i caller).callers i = caller :=
  Function.update_self _ _ _

theorem none_exclusive {caller : Caller σ ο ρ} (hi : Caller.mode obj (s.callers i) ≠ .exclusive)
    (h : ∀ j, Caller.mode obj ((s.goTo i caller).callers j) ≠ .exclusive) :
    ∀ j, Caller.mode obj (s.callers j) ≠ .exclusive := by
  intro j
  by_cases hj : j = i
  · rwa [hj]
  · rw [← goTo_callers hj]
    exact h j

theorem Sound.call (sound : Sound obj object s) (hi : s.callers i = .outside) :
    Sound obj object (s.goTo i (.waiting op)) := by
  have hmode : Caller.mode obj (s.callers i) = .free := by rw [hi]; rfl
  refine ⟨guards_goTo ?_, sound.returned, ?_, ?_⟩
  · have hsame := Function.update_eq_self i (Caller.mode obj ∘ s.callers)
    rw [Function.comp_apply, hmode] at hsame
    rw [Caller.mode, hsame]
    exact sound.guards
  · intro j op' rest hj
    by_cases hji : j = i
    · subst hji
      rw [goTo_self] at hj
      cases hj
    · rw [goTo_callers hji] at hj
      exact sound.agrees j op' rest hj
  · intro hall
    exact sound.quiet (none_exclusive (by simp [hmode]) hall)

/-- Who takes the lock finds the object as the operations that have returned left it. -/
theorem Sound.take (sound : Sound obj object s) (hi : Caller.mode obj (s.callers i) = .free)
    {mode : SharedMutex.Mode} (h : take mode i s.mutex = some m) :
    m.Guards (Function.update (Caller.mode obj ∘ s.callers) i mode) ∧
      (mode ≠ .free → s.object = obj.replay object s.ops) := by
  cases mode with
  | free =>
    cases h
    have hsame := Function.update_eq_self i (Caller.mode obj ∘ s.callers)
    rw [Function.comp_apply, hi] at hsame
    rw [hsame]
    exact ⟨sound.guards, fun hfree => absurd rfl hfree⟩
  | shared =>
    refine ⟨sound.guards.lockShared hi h, fun _ => sound.quiet ?_⟩
    intro j hj
    have hsome := (sound.guards.exclusive j).mpr hj
    rw [(Option.ite_none_right_eq_some.mp h).1] at hsome
    cases hsome
  | exclusive =>
    obtain ⟨hguards, hfree⟩ := sound.guards.lock h
    refine ⟨hguards, fun _ => sound.quiet ?_⟩
    intro j hj
    have hboth := hfree j
    rw [Function.comp_apply, hj] at hboth
    cases hboth

theorem Sound.enter (sound : Sound obj object s) (hi : s.callers i = .waiting op)
    (h : LockedObject.take (obj.mode op) i s.mutex = some m) :
    Sound obj object { s.goTo i (.inside op (obj.body op)) with mutex := m } := by
  have hmode : Caller.mode obj (s.callers i) = .free := by rw [hi]; rfl
  obtain ⟨hguards, hquiet⟩ := sound.take hmode h
  refine ⟨guards_goTo hguards, sound.returned, ?_, ?_⟩
  · intro j op' rest hj
    by_cases hji : j = i
    · subst hji
      cases (goTo_self (s := s)).symm.trans hj
      change Agrees obj (obj.replay object s.ops) s.object op (obj.body op)
      rw [Agrees]
      split
      · rfl
      · rename_i hshared
        exact ⟨obj.reads op hshared, rfl⟩
      · rename_i hexclusive
        rw [hquiet (by simp [hexclusive])]
    · exact sound.agrees j op' rest ((goTo_callers (s := s) hji).symm.trans hj)
  · intro hall
    exact sound.quiet (none_exclusive (by simp [hmode]) hall)

theorem Sound.access (sound : Sound obj object s) {effect : σ → σ} {next : σ → Body σ ρ}
    (hi : s.callers i = .inside op (.access effect next)) :
    Sound obj object
      { s.goTo i (.inside op (next s.object)) with object := effect s.object } := by
  have hmode : Caller.mode obj (s.callers i) = obj.mode op := by rw [hi]; rfl
  have hagrees := sound.agrees i op _ hi
  have hguards : s.mutex.Guards
      (Caller.mode obj ∘ (s.goTo i (.inside op (next s.object))).callers) := by
    have hsame := Function.update_eq_self i (Caller.mode obj ∘ s.callers)
    rw [Function.comp_apply, hmode] at hsame
    apply guards_goTo
    rw [Caller.mode, hsame]
    exact sound.guards
  cases hcase : obj.mode op with
  | free =>
    obtain ⟨result, hresult⟩ := obj.stays op hcase
    rw [Agrees, hcase, hresult] at hagrees
    cases hagrees
  | shared =>
    rw [Agrees, hcase] at hagrees
    obtain ⟨hreads, hexec⟩ := hagrees
    cases hreads with
    | access hnext =>
    have hquiet := sound.quiet_of_shared (hmode.trans hcase)
    refine ⟨hguards, sound.returned, ?_, fun hall =>
      sound.quiet (none_exclusive (by simp [hmode, hcase]) hall)⟩
    intro j op' rest hj
    by_cases hji : j = i
    · subst hji
      cases (goTo_self (s := s)).symm.trans hj
      rw [Agrees, hcase]
      refine ⟨hnext _, ?_⟩
      change (next s.object).exec (obj.replay object s.ops) = _
      rw [hquiet]
      exact hexec
    · exact sound.agrees j op' rest ((goTo_callers (s := s) hji).symm.trans hj)
  | exclusive =>
    refine ⟨hguards, sound.returned, ?_, ?_⟩
    · intro j op' rest hj
      by_cases hji : j = i
      · subst hji
        cases (goTo_self (s := s)).symm.trans hj
        rw [Agrees, hcase] at hagrees ⊢
        exact hagrees
      · have hthread := (goTo_callers (s := s) hji).symm.trans hj
        have hfree := sound.free_of_exclusive (hmode.trans hcase) hji
        rw [hthread] at hfree
        exact (sound.agrees j op' rest hthread).of_free hfree
    · intro hnone
      have hstill : (s.goTo i (.inside op (next s.object))).callers i = _ := goTo_self
      have hmode' := congrArg (Caller.mode obj) hstill
      exact absurd (hmode'.trans hcase) (hnone i)

omit [DecidableEq ι] in
/-- The result of an operation and the object it leaves, when it comes to its end. -/
theorem Sound.ends (sound : Sound obj object s) {result : ρ}
    (hi : s.callers i = .inside op (.done result)) :
    (obj.body op).exec (obj.replay object s.ops) =
      (result, if obj.mode op = .exclusive then s.object else obj.replay object s.ops) := by
  have hagrees := sound.agrees i op _ hi
  cases hcase : obj.mode op with
  | free =>
    rw [Agrees, hcase] at hagrees
    rw [← hagrees]
    rfl
  | shared =>
    rw [Agrees, hcase] at hagrees
    exact hagrees.2.symm
  | exclusive =>
    rw [Agrees, hcase] at hagrees
    exact hagrees.symm

theorem Sound.release (sound : Sound obj object s)
    (hi : Caller.mode obj (s.callers i) = obj.mode op) :
    (release (obj.mode op) i s.mutex).Guards
      (Function.update (Caller.mode obj ∘ s.callers) i .free) := by
  cases hcase : obj.mode op with
  | free =>
    have hsame := Function.update_eq_self i (Caller.mode obj ∘ s.callers)
    rw [Function.comp_apply, hi, hcase] at hsame
    rw [hsame]
    exact sound.guards
  | shared => exact sound.guards.unlockShared (hi.trans hcase)
  | exclusive => exact sound.guards.unlock (hi.trans hcase)

theorem Sound.leave (sound : Sound obj object s) {result : ρ}
    (hi : s.callers i = .inside op (.done result)) :
    Sound obj object { s.goTo i .outside with
      mutex := LockedObject.release (obj.mode op) i s.mutex
      returned := s.returned ++ [(i, op, result)] } := by
  have hmode : Caller.mode obj (s.callers i) = obj.mode op := by rw [hi]; rfl
  have hends := sound.ends hi
  have hops : (s.returned ++ [(i, op, result)]).map (fun r => r.2.1) = s.ops ++ [op] := by
    rw [List.map_append]
    rfl
  have hafter : obj.replay object (s.ops ++ [op]) =
      if obj.mode op = .exclusive then s.object else obj.replay object s.ops := by
    rw [replay_concat, hends]
  refine ⟨guards_goTo (sound.release hmode), ?_, ?_, ?_⟩
  · change (s.returned ++ _).map _ = obj.results object (List.map _ (s.returned ++ _))
    rw [hops, results_append, List.map_append, sound.returned, results, hends]
    rfl
  · intro j op' rest hj
    change Agrees obj (obj.replay object (List.map _ (s.returned ++ _))) s.object op' rest
    rw [hops, hafter]
    by_cases hji : j = i
    · subst hji
      cases (goTo_self (s := s)).symm.trans hj
    · have hthread := (goTo_callers (s := s) hji).symm.trans hj
      split
      · rename_i hexclusive
        have hfree := sound.free_of_exclusive (hmode.trans hexclusive) hji
        rw [hthread] at hfree
        exact (sound.agrees j op' rest hthread).of_free hfree
      · exact sound.agrees j op' rest hthread
  · intro hall
    change s.object = obj.replay object (List.map _ (s.returned ++ _))
    rw [hops, hafter]
    split
    · rfl
    · rename_i hexclusive
      exact sound.quiet (none_exclusive (hmode ▸ hexclusive) hall)

theorem step_sound (s : State ι σ ο ρ) (l : ι × Act ο) (t : State ι σ ο ρ)
    (sound : Sound obj object s) (h : step obj s l = some t) : Sound obj object t := by
  obtain ⟨i, act⟩ := l
  cases act with
  | call op =>
    simp only [step] at h
    split at h
    · rename_i hi
      cases h
      exact sound.call hi
    · cases h
  | enter =>
    simp only [step] at h
    split at h
    · rename_i op hi
      obtain ⟨m, hm, rfl⟩ := Option.map_eq_some_iff.mp h
      exact sound.enter hi hm
    · cases h
  | access =>
    simp only [step] at h
    split at h
    · rename_i op effect next hi
      cases h
      exact sound.access hi
    · cases h
  | leave =>
    simp only [step] at h
    split at h
    · rename_i op result hi
      cases h
      exact sound.leave hi
    · cases h

/-- Calls from any threads return, in the order in which they return, what the operations
return one after the other. -/
theorem returned_sequential {acts : List (ι × Act ο)}
    (h : Transition.run (step obj) (start object) acts = some s) :
    s.returned.map (fun r => r.2.2) = obj.results object s.ops :=
  (Transition.run_invariant_of_forall step_sound (start_sound obj object) h).returned

end LockedObject

end Mprpc.Library
