import Mprpc.Library.SharedMutex
import Mprpc.Library.Transition
import Mprpc.Transport

namespace Mprpc.ServiceCalls

open Transport Library Library.Transition

variable {τ S : Type}

/-- What `registerService` and `unregisterService` do to `services_`. -/
inductive Change (S : Type)
  | register (serviceName : Text) (service : S)
  | unregister (serviceName : Text)
deriving DecidableEq

def Change.apply (services : Text → Option S) : Change S → Text → Option S
  | .register serviceName service => Function.update services serviceName (some service)
  | .unregister serviceName => Function.update services serviceName none

/-- Where a thread is. In `callServiceMethod` it looks the service up and then is in
`CallMethod`; a loop of `start`, `stop` and the heartbeat goes over the services. A
change waits for the lock and then makes it; `within` is the call that it is made in,
by the method of a service. -/
inductive Thread (S : Type)
  | outside
  | looking (serviceName : Text)
  | calling (serviceName : Text) (service : S)
  | listing
  | waiting (within : Option (Text × S)) (change : Change S)
  | changing (within : Option (Text × S)) (change : Change S)
deriving DecidableEq

structure Server (τ S : Type) where
  services : Text → Option S
  servicesMutex : SharedMutex τ
  threads : τ → Thread S

inductive Act (S : Type)
  | call (serviceName : Text)
  | list
  | request (change : Change S)
  | proceed
deriving DecidableEq

def start (services : Text → Option S) : Server τ S := ⟨services, .unlocked, fun _ => .outside⟩

variable [DecidableEq τ]

def Server.goTo (i : τ) (thread : Thread S) (s : Server τ S) : Server τ S :=
  { s with threads := Function.update s.threads i thread }

def Server.locked (s : Server τ S) (m : SharedMutex τ) : Server τ S :=
  { s with servicesMutex := m }

/-- The next part of what a thread is doing. -/
def proceed (i : τ) (s : Server τ S) : Option (Server τ S) :=
  match s.threads i with
  | .outside => none
  | .looking serviceName =>
    match s.services serviceName with
    | some service => some (s.goTo i (.calling serviceName service))
    | none => some ((s.locked (s.servicesMutex.unlockShared i)).goTo i .outside)
  | .calling _ _ => some ((s.locked (s.servicesMutex.unlockShared i)).goTo i .outside)
  | .listing => some ((s.locked (s.servicesMutex.unlockShared i)).goTo i .outside)
  | .waiting within change =>
    (s.servicesMutex.lock i).map fun m => (s.locked m).goTo i (.changing within change)
  | .changing within change =>
    let s := { s.locked s.servicesMutex.unlock with services := change.apply s.services }
    match within with
    | none => some (s.goTo i .outside)
    | some (serviceName, service) => some (s.goTo i (.calling serviceName service))

def step (s : Server τ S) : τ × Act S → Option (Server τ S)
  | (i, .call serviceName) =>
    match s.threads i with
    | .outside =>
      (s.servicesMutex.lockShared i).map fun m => (s.locked m).goTo i (.looking serviceName)
    | _ => none
  | (i, .list) =>
    match s.threads i with
    | .outside => (s.servicesMutex.lockShared i).map fun m => (s.locked m).goTo i .listing
    | _ => none
  | (i, .request change) =>
    match s.threads i with
    | .outside => some (s.goTo i (.waiting none change))
    | .calling serviceName service =>
      some (s.goTo i (.waiting (some (serviceName, service)) change))
    | _ => none
  | (i, .proceed) => proceed i s

/-- The call of a service that a thread is in. -/
def Thread.inCall : Thread S → Option (Text × S)
  | .calling serviceName service => some (serviceName, service)
  | .waiting within _ => within
  | .changing within _ => within
  | .outside | .looking _ | .listing => none

def Thread.mode : Thread S → SharedMutex.Mode
  | .outside | .waiting none _ => .free
  | .looking _ | .calling _ _ | .listing | .waiting (some _) _ => .shared
  | .changing _ _ => .exclusive

/-- The threads hold the lock as they should, and those that are in a call are in one
of a service that is registered. -/
structure Sound (s : Server τ S) : Prop where
  guards : s.servicesMutex.Guards (Thread.mode ∘ s.threads)
  registered : ∀ i serviceName service,
    (s.threads i).inCall = some (serviceName, service) → s.services serviceName = some service
  alone : ∀ i within change, s.threads i = .changing within change → within = none

omit [DecidableEq τ] in
theorem start_sound (services : Text → Option S) : Sound (start services : Server τ S) := by
  refine ⟨SharedMutex.unlocked_guards, ?_, ?_⟩
  · intro i serviceName service h
    cases h
  · intro i within change h
    cases h

section Steps

variable {s t : Server τ S} {i : τ} {thread : Thread S} {m : SharedMutex τ}

/-- The rule for a step that changes no service: the lock follows the thread, and a call
that the thread goes to is one of a registered service. -/
theorem Sound.goTo (sound : Sound s)
    (hguards : m.Guards (Function.update (Thread.mode ∘ s.threads) i thread.mode))
    (hcall : ∀ serviceName service, thread.inCall = some (serviceName, service) →
      s.services serviceName = some service)
    (halone : ∀ within change, thread = .changing within change → within = none) :
    Sound ((s.locked m).goTo i thread) := by
  refine ⟨?_, ?_, ?_⟩
  · rw [← Function.comp_update] at hguards
    exact hguards
  · intro j serviceName service h
    by_cases hj : j = i
    · subst hj
      exact hcall serviceName service (by simpa [Server.goTo] using h)
    · exact sound.registered j serviceName service
        (by simpa [Server.goTo, Server.locked, hj] using h)
  · intro j within change h
    by_cases hj : j = i
    · subst hj
      exact halone within change (by simpa [Server.goTo] using h)
    · exact sound.alone j within change (by simpa [Server.goTo, Server.locked, hj] using h)

omit [DecidableEq τ] in
theorem mode_eq (hthread : s.threads i = thread) : (Thread.mode ∘ s.threads) i = thread.mode :=
  congrArg Thread.mode hthread

theorem leave_sound (sound : Sound s) (hi : (Thread.mode ∘ s.threads) i = .shared) :
    Sound ((s.locked (s.servicesMutex.unlockShared i)).goTo i .outside) := by
  refine sound.goTo (sound.guards.unlockShared hi) ?_ ?_
  · intro serviceName service h
    cases h
  · intro within change h
    cases h

theorem Sound.stays (sound : Sound s) (hmode : thread.mode = (Thread.mode ∘ s.threads) i)
    (hcall : ∀ serviceName service, thread.inCall = some (serviceName, service) →
      s.services serviceName = some service)
    (halone : ∀ within change, thread = .changing within change → within = none) :
    Sound (s.goTo i thread) := by
  have hguards : s.servicesMutex.Guards
      (Function.update (Thread.mode ∘ s.threads) i thread.mode) := by
    rw [hmode, Function.update_eq_self]
    exact sound.guards
  exact sound.goTo hguards hcall halone

theorem step_call_sound {serviceName : Text} (sound : Sound s)
    (h : step s (i, .call serviceName) = some t) : Sound t := by
  cases hthread : s.threads i with
  | outside =>
    simp only [step, hthread] at h
    obtain ⟨m, hlock, rfl⟩ := Option.map_eq_some_iff.mp h
    refine sound.goTo (sound.guards.lockShared (mode_eq hthread) hlock) ?_ ?_
    · intro _ _ hcall
      cases hcall
    · intro _ _ hchanging
      cases hchanging
  | looking _ | calling _ _ | listing | waiting _ _ | changing _ _ =>
    simp only [step, hthread] at h
    cases h

theorem step_list_sound (sound : Sound s) (h : step s (i, .list) = some t) : Sound t := by
  cases hthread : s.threads i with
  | outside =>
    simp only [step, hthread] at h
    obtain ⟨m, hlock, rfl⟩ := Option.map_eq_some_iff.mp h
    refine sound.goTo (sound.guards.lockShared (mode_eq hthread) hlock) ?_ ?_
    · intro _ _ hcall
      cases hcall
    · intro _ _ hchanging
      cases hchanging
  | looking _ | calling _ _ | listing | waiting _ _ | changing _ _ =>
    simp only [step, hthread] at h
    cases h

theorem step_request_sound {change : Change S} (sound : Sound s)
    (h : step s (i, .request change) = some t) : Sound t := by
  cases hthread : s.threads i with
  | outside =>
    simp only [step, hthread] at h
    cases h
    refine sound.stays (mode_eq hthread).symm ?_ ?_
    · intro _ _ hcall
      cases hcall
    · intro _ _ hchanging
      cases hchanging
  | calling serviceName service =>
    simp only [step, hthread] at h
    cases h
    refine sound.stays (mode_eq hthread).symm ?_ ?_
    · intro name other hcall
      cases hcall
      exact sound.registered i serviceName service (by rw [hthread]; rfl)
    · intro _ _ hchanging
      cases hchanging
  | looking _ | listing | waiting _ _ | changing _ _ =>
    simp only [step, hthread] at h
    cases h

omit [DecidableEq τ] in
/-- While a change is made, no thread is in a call. -/
theorem Sound.inCall_eq_none (sound : Sound s) {within : Option (Text × S)} {change : Change S}
    (hthread : s.threads i = .changing within change) (j : τ) : (s.threads j).inCall = none := by
  have hshared := sound.guards.not_shared (mode_eq hthread) j
  cases hj : s.threads j with
  | outside | looking _ | listing => rfl
  | calling serviceName service => exact absurd (mode_eq hj) hshared
  | waiting within' change' =>
    cases within' with
    | none => rfl
    | some call => exact absurd (mode_eq hj) hshared
  | changing within' change' => exact sound.alone j within' change' hj

theorem Sound.changed (sound : Sound s) {change : Change S}
    (hthread : s.threads i = .changing none change) :
    Sound (({ s.locked s.servicesMutex.unlock with
      services := change.apply s.services } : Server τ S).goTo i .outside) := by
  have hnone := sound.inCall_eq_none hthread
  have hguards : s.servicesMutex.unlock.Guards
      (Thread.mode ∘ Function.update s.threads i .outside) := by
    rw [Function.comp_update]
    exact sound.guards.unlock (mode_eq hthread)
  refine ⟨hguards, ?_, ?_⟩
  · intro j serviceName service h
    by_cases hj : j = i
    · subst hj
      simp [Server.goTo, Thread.inCall] at h
    · have hcall : (s.threads j).inCall = some (serviceName, service) := by
        simpa [Server.goTo, Server.locked, hj] using h
      rw [hnone j] at hcall
      cases hcall
  · intro j within other h
    by_cases hj : j = i
    · subst hj
      simp [Server.goTo] at h
    · exact sound.alone j within other (by simpa [Server.goTo, Server.locked, hj] using h)

theorem proceed_sound (sound : Sound s) (h : proceed i s = some t) : Sound t := by
  cases hthread : s.threads i with
  | outside =>
    simp only [proceed, hthread] at h
    cases h
  | looking serviceName =>
    cases hfound : s.services serviceName with
    | none =>
      simp only [proceed, hthread, hfound] at h
      cases h
      exact leave_sound sound (mode_eq hthread)
    | some service =>
      simp only [proceed, hthread, hfound] at h
      cases h
      refine sound.stays (mode_eq hthread).symm ?_ ?_
      · intro _ _ hcall
        cases hcall
        exact hfound
      · intro _ _ hchanging
        cases hchanging
  | calling serviceName service =>
    simp only [proceed, hthread] at h
    cases h
    exact leave_sound sound (mode_eq hthread)
  | listing =>
    simp only [proceed, hthread] at h
    cases h
    exact leave_sound sound (mode_eq hthread)
  | waiting within change =>
    simp only [proceed, hthread] at h
    obtain ⟨m, hlock, rfl⟩ := Option.map_eq_some_iff.mp h
    obtain ⟨hguards, hfree⟩ := sound.guards.lock hlock
    refine sound.goTo hguards ?_ ?_
    · intro serviceName service hcall
      exact sound.registered i serviceName service (by rw [hthread]; exact hcall)
    · intro within' change' hchanging
      cases hchanging
      cases within with
      | none => rfl
      | some call =>
        have hshared := hfree i
        rw [mode_eq hthread] at hshared
        cases hshared
  | changing within change =>
    obtain rfl := sound.alone i within change hthread
    simp only [proceed, hthread] at h
    cases h
    exact sound.changed hthread

theorem step_sound (s : Server τ S) (l : τ × Act S) (t : Server τ S) (sound : Sound s)
    (h : step s l = some t) : Sound t := by
  obtain ⟨i, act⟩ := l
  cases act with
  | call serviceName => exact step_call_sound sound h
  | list => exact step_list_sound sound h
  | request change => exact step_request_sound sound h
  | proceed => exact proceed_sound sound h

/-- A step moves one thread, and changes the services only where that thread holds the
lock alone. -/
structure Moves (s t : Server τ S) (i : τ) : Prop where
  threads : ∃ thread, t.threads = Function.update s.threads i thread
  services : t.services = s.services ∨ ∃ within change, s.threads i = .changing within change

theorem moves_goTo (m : SharedMutex τ) (thread : Thread S) :
    Moves s ((s.locked m).goTo i thread) i :=
  ⟨⟨thread, rfl⟩, .inl rfl⟩

theorem moves_of_proceed (h : proceed i s = some t) : Moves s t i := by
  cases hthread : s.threads i with
  | outside =>
    simp only [proceed, hthread] at h
    cases h
  | looking serviceName =>
    cases hfound : s.services serviceName with
    | none | some service =>
      simp only [proceed, hthread, hfound] at h
      cases h
      exact moves_goTo _ _
  | calling _ _ | listing =>
    simp only [proceed, hthread] at h
    cases h
    exact moves_goTo _ _
  | waiting within change =>
    simp only [proceed, hthread] at h
    obtain ⟨m, -, rfl⟩ := Option.map_eq_some_iff.mp h
    exact moves_goTo _ _
  | changing within change =>
    simp only [proceed, hthread] at h
    cases within with
    | none | some call =>
      cases h
      exact ⟨⟨_, rfl⟩, .inr ⟨_, change, hthread⟩⟩

theorem moves_of_step {l : τ × Act S} (h : step s l = some t) : Moves s t l.1 := by
  obtain ⟨i, act⟩ := l
  cases act with
  | call serviceName | list =>
    cases hthread : s.threads i with
    | outside =>
      simp only [step, hthread] at h
      obtain ⟨m, -, rfl⟩ := Option.map_eq_some_iff.mp h
      exact moves_goTo _ _
    | looking _ | calling _ _ | listing | waiting _ _ | changing _ _ =>
      simp only [step, hthread] at h
      cases h
  | request change =>
    cases hthread : s.threads i with
    | outside | calling _ _ =>
      simp only [step, hthread] at h
      cases h
      exact moves_goTo _ _
    | looking _ | listing | waiting _ _ | changing _ _ =>
      simp only [step, hthread] at h
      cases h
  | proceed => exact moves_of_proceed h

/-- A thread that is in a call and waits to change the services takes no step, and no
other thread gets the lock alone. -/
theorem stuck_step {call : Text × S} {change : Change S} (sound : Sound s)
    (hthread : s.threads i = .waiting (some call) change) {l : τ × Act S}
    (h : step s l = some t) :
    t.threads i = .waiting (some call) change ∧ t.services = s.services := by
  obtain ⟨j, act⟩ := l
  have hshared : (Thread.mode ∘ s.threads) i = .shared := mode_eq hthread
  have moves := moves_of_step h
  have hsame : t.services = s.services := by
    obtain hsame | ⟨within, other, hchanging⟩ := moves.services
    · exact hsame
    · exact absurd hshared (sound.guards.not_shared (mode_eq hchanging) i)
  refine ⟨?_, hsame⟩
  by_cases hj : i = j
  · subst hj
    cases act with
    | call serviceName | list | request other =>
      simp only [step, hthread] at h
      cases h
    | proceed =>
      simp only [step, proceed, hthread, sound.guards.lock_eq_none hshared i] at h
      cases h
  · obtain ⟨thread, hthreads⟩ := moves.threads
    rw [hthreads, Function.update_of_ne hj, hthread]

end Steps

variable {services : Text → Option S} {acts : List (τ × Act S)} {s : Server τ S}

theorem run_sound (hrun : run step (start services) acts = some s) : Sound s :=
  run_invariant_of_forall step_sound (start_sound services) hrun

/-- In every state any threads can come to, a service that is being called is one that is
registered, under the name it is called by, and no step that changes the services is
taken while any is being called: once `unregisterService` has returned, the service is
not in use. -/
theorem calls_on_registered (hrun : run step (start services) acts = some s) :
    (∀ i serviceName service, (s.threads i).inCall = some (serviceName, service) →
      s.services serviceName = some service) ∧
    ∀ l t, step s l = some t → t.services ≠ s.services → ∀ i, (s.threads i).inCall = none := by
  have sound := run_sound hrun
  refine ⟨sound.registered, ?_⟩
  intro l t h hchanged i
  obtain hsame | ⟨within, change, hthread⟩ := (moves_of_step h).services
  · exact absurd hsame hchanged
  · exact sound.inCall_eq_none hthread i

/-- A service is registered and called. -/
def calledOnce : List (Nat × Act Nat) :=
  [(0, .request (.register [115] 7)), (0, .proceed), (0, .proceed), (1, .call [115]),
    (1, .proceed), (2, .request (.unregister [115]))]

/-- The thread that unregisters it has to wait for the call. -/
theorem calls_on_registered_once : ∃ s : Server Nat Nat,
    run step (start fun _ => none) calledOnce = some s ∧
    (s.threads 1).inCall = some ([115], 7) ∧ (step s (2, .proceed)).isNone ∧
    s.services [115] = some 7 := by
  have h : (run step (start fun _ => none) calledOnce).map
      (fun s => ((s.threads 1).inCall, (step s (2, .proceed)).isNone)) =
        some (some ([115], 7), true) := by
    decide +kernel
  obtain ⟨s, hrun, hview⟩ := Option.map_eq_some_iff.mp h
  obtain ⟨hcall, hwaits⟩ := Prod.mk.inj hview
  exact ⟨s, hrun, hcall, hwaits, (calls_on_registered hrun).1 1 [115] 7 hcall⟩

/-- When the method of a service registers or unregisters a service of its own server,
it never returns, and no service is registered or unregistered any more. -/
theorem nested_change_blocks {i : τ} {call : Text × S} {change : Change S}
    (hrun : run step (start services) acts = some s)
    (hthread : s.threads i = .waiting (some call) change) {more : List (τ × Act S)}
    {t : Server τ S} (hmore : run step s more = some t) :
    t.threads i = .waiting (some call) change ∧ t.services = s.services := by
  have hstep : ∀ u l v, (Sound u ∧ u.threads i = .waiting (some call) change ∧
      u.services = s.services) → step u l = some v →
      Sound v ∧ v.threads i = .waiting (some call) change ∧ v.services = s.services := by
    rintro u l v ⟨sound, hwaiting, hsame⟩ h
    obtain ⟨hstays, hkept⟩ := stuck_step sound hwaiting h
    exact ⟨step_sound u l v sound h, hstays, hkept.trans hsame⟩
  exact (run_invariant_of_forall hstep ⟨run_sound hrun, hthread, rfl⟩ hmore).2

theorem nested_change_blocks_self : ∃ s t : Server Nat Nat,
    run step (start fun _ => none) (calledOnce ++ [(1, .request (.unregister [115]))]) = some s ∧
    run step s [(3, .call [115]), (3, .proceed)] = some t ∧
    t.threads 1 = .waiting (some ([115], 7)) (.unregister [115]) ∧ t.services = s.services := by
  have h : ((run step (start fun _ => none)
      (calledOnce ++ [(1, .request (.unregister [115]))])).map fun s =>
        (s.threads 1, (run step s [(3, .call [115]), (3, .proceed)]).isSome)) =
        some (.waiting (some ([115], 7)) (.unregister [115]), true) := by
    decide +kernel
  obtain ⟨s, hrun, hview⟩ := Option.map_eq_some_iff.mp h
  obtain ⟨hthread, hsome⟩ := Prod.mk.inj hview
  obtain ⟨t, hmore⟩ := Option.isSome_iff_exists.mp hsome
  exact ⟨s, t, hrun, hmore, nested_change_blocks hrun hthread hmore⟩

end Mprpc.ServiceCalls
