import Mprpc.Subscription

namespace Mprpc.Watching

open Transport ZooKeeperRegistry Subscription Subscription.Subscriptions
open Library Library.Transition

variable {β : Type}

/-- A registry object and what has been called on it. -/
structure Registry (β : Type) where
  connected : Bool
  logged : Logged β

def new : Registry β := ⟨false, start⟩

namespace Registry

abbrev subscriptions (s : Registry β) : Subscriptions β := s.logged.subscriptions

def setSubscriptions (s : Registry β) (subscriptions : Subscriptions β) : Registry β :=
  { s with logged := { s.logged with subscriptions := subscriptions } }

/-- The last call on the service that returned true was a subscription. -/
def Subscribed (s : Registry β) (serviceName : Text) : Prop :=
  (standing serviceName s.logged.history).isSome

/-- The next change of the service's children will be told, or one is on its way. -/
def Watched (s : Registry β) (serviceName : Text) : Prop :=
  s.subscriptions.watches.Covers .children (cString (servicePath serviceName))

end Registry

/-- What can happen: calls of the program, `connectionWatcher`, the rounds of the watcher
thread, the reading of a service by `discoverService` or `unregisterService`, the change of
a node by a registration or a removal of any client, and the delivery of an event. -/
inductive Event (β : Type)
  | call (call : Call β)
  | session (connected : Bool)
  | round (rc : ExistsRc)
  | read (serviceName : Text) (children : List Text)
  | change (change : Change) (path : Text)
  | deliver (i : Nat) (cached told : ServiceReading)

def step (s : Registry β) : Event β → Option (Registry β)
  | .call call => (Subscription.step s.logged call).map fun logged => { s with logged := logged }
  | .session connected => some { s with connected := connected }
  | .round rc => some (s.setSubscriptions (s.subscriptions.watcherRound s.connected rc))
  | .read serviceName children =>
    if s.connected then
      some (s.setSubscriptions (s.subscriptions.readChildren serviceName children))
    else some s
  | .change change path =>
    let watches := s.subscriptions.watches.change change path
    some (s.setSubscriptions { s.subscriptions with watches := watches })
  | .deliver i cached told =>
    match s.subscriptions.watches.inFlight[i]? with
    | none => none
    | some (change, path) =>
      let watches := s.subscriptions.watches.deliver i
      (serviceWatcher change path cached told { s.subscriptions with watches := watches }).map
        s.setSubscriptions

/-- No watch is set that would tell of children, and nothing has been told. -/
structure Unaware (s : Subscriptions β) : Prop where
  blind : s.watches.Blind .children
  notified : s.notified = []

section Steps

variable {s : Subscriptions β}

theorem new_unaware : Unaware (Subscriptions.new : Subscriptions β) :=
  ⟨WatchTable.blind_empty _, rfl⟩

theorem blind_wexists {watches : WatchTable Text} (h : watches.Blind .children) (path : Text)
    (rc : ExistsRc) : (wexists path rc watches).Blind .children := by
  unfold wexists
  split
  · exact h
  · exact h.arm rfl path

theorem perform_unaware (h : Unaware s) (call : Call β) : Unaware (call.perform s).2 := by
  cases call with
  | subscribe serviceName callback rc =>
    cases callback with
    | none => exact h
    | some callback =>
      by_cases hname : serviceName = []
      · have hperform : (Call.subscribe serviceName (some callback) rc).perform s =
            (false, s) := if_pos hname
        rw [hperform]
        exact h
      · have hperform := subsribeService_eq hname callback rc s
        change (Call.subscribe serviceName (some callback) rc).perform s = _ at hperform
        rw [hperform]
        exact ⟨blind_wexists h.blind _ rc, h.notified⟩
  | unsubscribe serviceName =>
    simp only [Call.perform, unsubsribeService]
    split
    · exact ⟨h.blind, h.notified⟩
    · exact h

/-- Every reading passes 0 for the watch. -/
theorem readChildren_eq (serviceName : Text) (children : List Text) (s : Subscriptions β) :
    s.readChildren serviceName children = s := by
  have hfold : ∀ watches : WatchTable Text, children.foldl (fun watches name =>
      zooGet (cString (childPath (servicePath serviceName) name)) false watches) watches =
        watches := by
    intro watches
    induction children with
    | nil => rfl
    | cons name children ih => exact ih
  simp only [readChildren, hfold]
  rfl

theorem watcherRound_unaware (h : Unaware s) (connected : Bool) (rc : ExistsRc) :
    Unaware (s.watcherRound connected rc) := by
  unfold watcherRound
  split
  · exact ⟨blind_wexists h.blind _ rc, h.notified⟩
  · exact h

theorem serviceWatcher_eq {change : Change} (hchange : change ≠ .children) (path : Text)
    (cached told : ServiceReading) (s : Subscriptions β) :
    s.serviceWatcher change path cached told = some s := if_neg hchange

theorem step_unaware (s : Registry β) (event : Event β) (t : Registry β)
    (h : Unaware s.subscriptions) (hstep : step s event = some t) : Unaware t.subscriptions := by
  cases event with
  | call call =>
    cases hstep
    exact perform_unaware h call
  | session connected =>
    cases hstep
    exact h
  | round rc =>
    cases hstep
    exact watcherRound_unaware h s.connected rc
  | read serviceName children =>
    simp only [step, readChildren_eq] at hstep
    split at hstep <;> cases hstep <;> exact h
  | change change path =>
    cases hstep
    exact ⟨h.blind.change change path, h.notified⟩
  | deliver i cached told =>
    simp only [step] at hstep
    split at hstep
    · cases hstep
    · rename_i change path hevent
      have hchange : change ≠ .children := h.blind.inFlight _ (List.mem_of_getElem? hevent)
      rw [serviceWatcher_eq hchange] at hstep
      cases hstep
      exact ⟨h.blind.deliver i, h.notified⟩

end Steps

theorem run_unaware {events : List (Event β)} {t : Registry β} (h : run step new events = some t) :
    Unaware t.subscriptions :=
  run_invariant_of_forall (P := fun s : Registry β => Unaware s.subscriptions) step_unaware
    new_unaware h

/-- Every subscribed service is watched only while none is subscribed. -/
theorem subscribed_watched_iff {events : List (Event β)} {t : Registry β}
    (h : run step new events = some t) :
    (∀ serviceName, t.Subscribed serviceName → t.Watched serviceName) ↔
      ∀ serviceName, ¬t.Subscribed serviceName := by
  constructor
  · intro hwatched serviceName hsubscribed
    exact (run_unaware h).blind.not_covers _ (hwatched serviceName hsubscribed)
  · intro hnone serviceName hsubscribed
    exact absurd hsubscribed (hnone serviceName)

/-- A subscription, and a change of the service's children. -/
def missedEvents : List (Event Nat) :=
  [.session true, .call (.subscribe [115] (some 7) .ok), .round .ok,
    .change .children (servicePath [115])]

def missedState : Registry Nat := ((run step new missedEvents).getD new)

theorem subscribed_watched_iff_missed :
    (∀ serviceName, missedState.Subscribed serviceName → missedState.Watched serviceName) ↔
      ∀ serviceName, ¬missedState.Subscribed serviceName := by
  have hrun : run step new missedEvents = some missedState := rfl
  exact subscribed_watched_iff hrun

/-- The change goes unnoticed: nothing is on its way, and no child watch is set. -/
theorem child_change_missed :
    ∃ t, run step new missedEvents = some t ∧ t.Subscribed [115] ∧ ¬t.Watched [115] ∧
      t.subscriptions.watches.inFlight = [] ∧ t.subscriptions.notified = [] := by
  refine ⟨missedState, rfl, rfl, ?_, by decide +kernel, by decide +kernel⟩
  rintro (⟨watch, hmem, hsees⟩ | hmem)
  · have harmed : ∀ entry ∈ missedState.subscriptions.watches.armed,
        entry.1.sees .children = false := by decide +kernel
    rw [harmed _ hmem] at hsees
    cases hsees
  · have hnone : missedState.subscriptions.watches.inFlight = [] := by decide +kernel
    rw [hnone] at hmem
    cases hmem

end Mprpc.Watching
