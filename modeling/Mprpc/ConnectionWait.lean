import Mprpc.ServiceDirectory

namespace Mprpc.ConnectionWait

open ZooKeeperRegistry Library.Transition

/-- A thread in `waitForConnection`. It wants the lock, checks `connected_` under it, and sleeps
when that is false and its time is not over. -/
inductive Waiter
  | outside
  | entering (timedOut : Bool)
  | checking (timedOut : Bool)
  | failing
  | asleep
  | back (connected : Bool)
deriving DecidableEq, Repr

/-- The thread of the ZooKeeper client in `connectionWatcher`; `stored` is before `notify_all`. -/
inductive Watcher
  | outside
  | inside (state : SessionState)
  | stored
  | leaving
deriving DecidableEq, Repr

/-- The watcher holds the lock as `some none`. -/
structure Registry (τ : Type) where
  connected : Bool
  mutex : Option (Option τ)
  waiters : τ → Waiter
  watcher : Watcher

inductive Act (τ : Type)
  | call (i : τ)
  | lock (i : τ)
  | check (i : τ)
  | sleep (i : τ)
  | wake (i : τ) (timedOut : Bool)
  | event (state : SessionState)
  | watch
  | close
deriving DecidableEq, Repr

variable {τ : Type}

def start : Registry τ := ⟨false, none, fun _ => .outside, .outside⟩

def woken : Waiter → Waiter
  | .asleep => .entering false
  | waiter => waiter

/-- The next part of `connectionWatcher`. -/
def watchStep (s : Registry τ) : Option (Registry τ) :=
  match s.watcher with
  | .outside => none
  | .inside state =>
    some { s with
      connected := (connectionWatcher state ⟨0, s.connected⟩).connected
      watcher := if state = .connected then .stored else .leaving }
  | .stored => some { s with waiters := woken ∘ s.waiters, watcher := .leaving }
  | .leaving => some { s with watcher := .outside, mutex := none }

variable [DecidableEq τ]

def Registry.goTo (i : τ) (waiter : Waiter) (s : Registry τ) : Registry τ :=
  { s with waiters := Function.update s.waiters i waiter }

/-- A thread wakes up when it is notified, when its time is over, or for no reason.
`closeZooKeeper` stores `connected_` without the lock. -/
def step (s : Registry τ) : Act τ → Option (Registry τ)
  | .call i =>
    match s.waiters i with
    | .outside | .back _ => some (s.goTo i (.entering false))
    | _ => none
  | .lock i =>
    match s.waiters i, s.mutex with
    | .entering timedOut, none => some { s.goTo i (.checking timedOut) with mutex := some (some i) }
    | _, _ => none
  | .check i =>
    match s.waiters i with
    | .checking timedOut =>
      if s.connected then some { s.goTo i (.back true) with mutex := none }
      else if timedOut then some { s.goTo i (.back false) with mutex := none }
      else some (s.goTo i .failing)
    | _ => none
  | .sleep i =>
    match s.waiters i with
    | .failing => some { s.goTo i .asleep with mutex := none }
    | _ => none
  | .wake i timedOut =>
    match s.waiters i with
    | .asleep => some (s.goTo i (.entering timedOut))
    | _ => none
  | .event state =>
    match s.watcher, s.mutex with
    | .outside, none => some { s with watcher := .inside state, mutex := some none }
    | _, _ => none
  | .watch => watchStep s
  | .close => some { s with connected := false }

def Waiter.holds : Waiter → Bool
  | .checking _ | .failing => true
  | _ => false

/-- The lock has one holder, who goes to sleep has seen that there is no connection, and once
there is one and its notification is out, nobody sleeps. -/
structure Sound (s : Registry τ) : Prop where
  held : ∀ i, (s.waiters i).holds = true ↔ s.mutex = some (some i)
  watching : s.watcher ≠ .outside ↔ s.mutex = some none
  failing : ∀ i, s.waiters i = .failing → s.connected = false
  awake : s.connected = true → s.watcher ≠ .stored → ∀ i, s.waiters i ≠ .asleep

omit [DecidableEq τ] in
theorem start_sound : Sound (start : Registry τ) := by
  refine ⟨?_, ?_, ?_, ?_⟩
  · intro i
    simp [start, Waiter.holds]
  · simp [start]
  · intro i h
    cases h
  · intro _ _ i h
    cases h

section Steps

variable {s t : Registry τ} {i : τ} {waiter : Waiter} {mutex : Option (Option τ)}

/-- The rule for a step of one thread. -/
theorem Sound.goTo (sound : Sound s)
    (hheld : ∀ j, (Function.update s.waiters i waiter j).holds = true ↔ mutex = some (some j))
    (hwatching : mutex = some none ↔ s.mutex = some none)
    (hfailing : waiter = .failing → s.connected = false)
    (hawake : waiter = .asleep → s.connected = false) :
    Sound { s.goTo i waiter with mutex := mutex } := by
  refine ⟨hheld, sound.watching.trans hwatching.symm, ?_, ?_⟩
  · intro j h
    by_cases hj : j = i
    · subst hj
      exact hfailing (by simpa [Registry.goTo] using h)
    · exact sound.failing j (by simpa [Registry.goTo, hj] using h)
  · intro hconnected hwatcher j h
    by_cases hj : j = i
    · subst hj
      have hfalse := hawake (by simpa [Registry.goTo] using h)
      exact absurd (hfalse.symm.trans hconnected) Bool.false_ne_true
    · exact sound.awake hconnected hwatcher j (by simpa [Registry.goTo, hj] using h)

theorem Sound.goTo_unheld (sound : Sound s) (hi : (s.waiters i).holds = false)
    (hholds : waiter.holds = false) (hawake : waiter = .asleep → s.connected = false) :
    Sound (s.goTo i waiter) := by
  refine sound.goTo ?_ Iff.rfl ?_ hawake
  · intro j
    by_cases hj : j = i
    · subst hj
      rw [Function.update_self, hholds, ← sound.held j, hi]
    · rw [Function.update_of_ne hj]
      exact sound.held j
  · rintro rfl
    cases hholds

theorem Sound.goTo_unlocked (sound : Sound s) (hi : (s.waiters i).holds = true)
    (hholds : waiter.holds = false) (hawake : waiter = .asleep → s.connected = false) :
    Sound { s.goTo i waiter with mutex := none } := by
  have hmutex := (sound.held i).mp hi
  refine sound.goTo ?_ ?_ ?_ hawake
  · intro j
    by_cases hj : j = i
    · subst hj
      simp [hholds]
    · rw [Function.update_of_ne hj, sound.held j, hmutex]
      simp [Ne.symm hj]
  · simp [hmutex]
  · rintro rfl
    cases hholds

theorem Sound.lock (sound : Sound s) {timedOut : Bool} (hi : s.waiters i = .entering timedOut)
    (hfree : s.mutex = none) :
    Sound { s.goTo i (.checking timedOut) with mutex := some (some i) } := by
  refine sound.goTo ?_ ?_ (fun h => by cases h) (fun h => by cases h)
  · intro j
    by_cases hj : j = i
    · subst hj
      simp [Waiter.holds]
    · rw [Function.update_of_ne hj, sound.held j, hfree]
      simp [Ne.symm hj]
  · simp [hfree]

omit [DecidableEq τ] in
theorem watchStep_sound (sound : Sound s) (h : watchStep s = some t) : Sound t := by
  unfold watchStep at h
  split at h
  · cases h
  · rename_i state hwatcher
    cases h
    have hmutex := sound.watching.mp (by simp [hwatcher])
    refine ⟨sound.held, ?_, ?_, ?_⟩
    · refine iff_of_true ?_ hmutex
      dsimp only
      split <;> simp
    · intro i h
      have hheld := (sound.held i).mp (by rw [h]; rfl)
      rw [hmutex] at hheld
      cases hheld
    · intro hconnected hnotified i hasleep
      by_cases hstate : state = .connected
      · exact hnotified (if_pos hstate)
      · cases state with
        | connected => exact hstate rfl
        | expiredSession | authFailed => cases hconnected
        | other => exact sound.awake hconnected (by simp [hwatcher]) i hasleep
  · rename_i hwatcher
    cases h
    have hmutex := sound.watching.mp (by simp [hwatcher])
    refine ⟨?_, iff_of_true (by simp) hmutex, ?_, ?_⟩
    · intro i
      rw [← sound.held i]
      cases h : s.waiters i <;> simp [h, woken, Waiter.holds]
    · intro i h
      apply sound.failing i
      cases hi : s.waiters i <;> simp_all [woken]
    · intro _ _ i h
      cases hi : s.waiters i <;> simp_all [woken]
  · rename_i hwatcher
    cases h
    have hmutex := sound.watching.mp (by simp [hwatcher])
    refine ⟨?_, by simp, sound.failing, fun hconnected _ => sound.awake hconnected
      (by simp [hwatcher])⟩
    intro i
    rw [sound.held i, hmutex]
    simp

end Steps

theorem step_sound (s : Registry τ) (act : Act τ) (t : Registry τ) (sound : Sound s)
    (h : step s act = some t) : Sound t := by
  cases act with
  | call i =>
    simp only [step] at h
    split at h
    · rename_i hi
      cases h
      exact sound.goTo_unheld (by rw [hi]; rfl) rfl (fun h => by cases h)
    · rename_i connected hi
      cases h
      exact sound.goTo_unheld (by rw [hi]; rfl) rfl (fun h => by cases h)
    · cases h
  | lock i =>
    simp only [step] at h
    split at h
    · rename_i timedOut hi hfree
      cases h
      exact sound.lock hi hfree
    · cases h
  | check i =>
    simp only [step] at h
    split at h
    · rename_i timedOut hi
      have hholds : (s.waiters i).holds = true := by rw [hi]; rfl
      split at h
      · cases h
        exact sound.goTo_unlocked hholds rfl (fun h => by cases h)
      · rename_i hconnected
        split at h
        · cases h
          exact sound.goTo_unlocked hholds rfl (fun h => by cases h)
        · cases h
          change Sound { s.goTo i .failing with mutex := s.mutex }
          refine sound.goTo ?_ Iff.rfl
            (fun _ => by simpa using hconnected) (fun h => by cases h)
          intro j
          by_cases hj : j = i
          · subst hj
            rw [Function.update_self, ← sound.held j, hholds]
            rfl
          · rw [Function.update_of_ne hj]
            exact sound.held j
    · cases h
  | sleep i =>
    simp only [step] at h
    split at h
    · rename_i hi
      cases h
      exact sound.goTo_unlocked (by rw [hi]; rfl) rfl (fun _ => sound.failing i hi)
    · cases h
  | wake i timedOut =>
    simp only [step] at h
    split at h
    · rename_i hi
      cases h
      exact sound.goTo_unheld (by rw [hi]; rfl) rfl (fun h => by cases h)
    · cases h
  | event state =>
    simp only [step] at h
    split at h
    · rename_i hwatcher hfree
      cases h
      refine ⟨?_, by simp, sound.failing, fun hconnected _ => sound.awake hconnected
        (by simp [hwatcher])⟩
      intro i
      rw [sound.held i, hfree]
      simp
    · cases h
  | watch => exact watchStep_sound sound h
  | close =>
    cases h
    exact ⟨sound.held, sound.watching, fun _ _ => rfl, fun h => by cases h⟩

section Returns

variable {s : Registry τ} {i : τ} {timedOut : Bool}

theorem check_returns (hi : s.waiters i = .checking timedOut) (hconnected : s.connected = true) :
    step s (.check i) = some { s.goTo i (.back true) with mutex := none } := by
  simp only [step, hi, hconnected, if_true]

theorem lock_returns (hi : s.waiters i = .entering timedOut) (hfree : s.mutex = none)
    (hconnected : s.connected = true) :
    ∃ t, run step s [.lock i, .check i] = some t ∧ t.waiters i = .back true := by
  have hlock : step s (.lock i) =
      some { s.goTo i (.checking timedOut) with mutex := some (some i) } := by
    simp only [step, hi, hfree]
  have hcheck := check_returns (s := { s.goTo i (.checking timedOut) with mutex := some (some i) })
    (Function.update_self _ _ _) hconnected
  exact ⟨_, run_cons_some.mpr ⟨_, hlock, run_cons_some.mpr ⟨_, hcheck, rfl⟩⟩,
    Function.update_self _ _ _⟩

/-- While a registry is connected nobody sleeps in `waitForConnection`: whoever is in it returns
true after at most three steps that take the lock and check, without any time-out. -/
theorem waiters_return {acts : List (Act τ)} (h : run step start acts = some s)
    (hconnected : s.connected = true) (hwatcher : s.watcher = .outside)
    (hin : s.waiters i ≠ .outside ∧ ∀ connected, s.waiters i ≠ .back connected) :
    ∃ more : List (Act τ), more.length ≤ 3 ∧ (∀ act ∈ more, ∃ j, act = .lock j ∨ act = .check j) ∧
      ∃ t, run step s more = some t ∧ t.waiters i = .back true := by
  have sound : Sound s := run_invariant_of_forall step_sound start_sound h
  cases hi : s.waiters i with
  | outside => exact absurd hi hin.1
  | back connected => exact absurd hi (hin.2 connected)
  | asleep => exact absurd hi (sound.awake hconnected (by simp [hwatcher]) i)
  | failing =>
    have hfalse := sound.failing i hi
    rw [hconnected] at hfalse
    cases hfalse
  | checking timedOut =>
    refine ⟨[.check i], by simp, by simp, _, run_cons_some.mpr
      ⟨_, check_returns hi hconnected, rfl⟩, Function.update_self _ _ _⟩
  | entering timedOut =>
    cases hmutex : s.mutex with
    | none =>
      obtain ⟨t, ht, hback⟩ := lock_returns hi hmutex hconnected
      exact ⟨_, by simp, by simp, t, ht, hback⟩
    | some holder =>
      cases holder with
      | none => exact absurd hwatcher (sound.watching.mpr hmutex)
      | some j =>
        -- the one that has the lock returns first
        have hheld := (sound.held j).mpr hmutex
        have hne : i ≠ j := by
          rintro rfl
          rw [hi] at hheld
          cases hheld
        cases hj : s.waiters j with
        | checking timedOut' =>
          have hcheck := check_returns hj hconnected
          obtain ⟨t, ht, hback⟩ := lock_returns
            (s := { s.goTo j (.back true) with mutex := none }) (i := i)
            ((Function.update_of_ne hne _ _).trans hi) rfl hconnected
          exact ⟨[.check j, .lock i, .check i], by simp, by simp, t,
            run_cons_some.mpr ⟨_, hcheck, ht⟩, hback⟩
        | failing =>
          have hfalse := sound.failing j hj
          rw [hconnected] at hfalse
          cases hfalse
        | _ =>
          rw [hj] at hheld
          cases hheld

/-- One thread goes to sleep before the connection is there, the other one checks after. -/
def connecting : List (Act Bool) :=
  [.call true, .lock true, .check true, .sleep true, .event .connected, .watch, .call false, .watch,
    .watch, .lock false]

theorem waiters_return_connecting :
    ∃ s : Registry Bool, run step start connecting = some s ∧ s.waiters true = .entering false ∧
      ∃ more : List (Act Bool), more.length ≤ 3 ∧
        (∀ act ∈ more, ∃ j, act = .lock j ∨ act = .check j) ∧
        ∃ t, run step s more = some t ∧ t.waiters true = .back true := by
  have h : (run step start connecting).map (fun s => (s.connected, s.watcher, s.waiters true)) =
      some (true, .outside, .entering false) := by
    decide
  obtain ⟨s, hrun, hview⟩ := Option.map_eq_some_iff.mp h
  obtain ⟨hconnected, hview⟩ := Prod.mk.inj hview
  obtain ⟨hwatcher, hwaiting⟩ := Prod.mk.inj hview
  exact ⟨s, hrun, hwaiting, waiters_return hrun hconnected hwatcher (by simp [hwaiting])⟩

end Returns

end Mprpc.ConnectionWait
