import Mprpc.Library.Transition
import Mprpc.Library.WatchTable
import Mprpc.ZooKeeperRegistry

namespace Mprpc.Subscription

open Transport ZooKeeperRegistry Library Library.Transition

variable {β : Type}

/-- The return codes of `zoo_wexists`. -/
inductive ExistsRc
  | ok
  | noNode
  | failed
deriving DecidableEq, Repr

/-- The calls of the client library that take a watch. A watch is set on a node that
does not exist as well; with the argument 0 none is set. -/
def wexists (path : Text) (rc : ExistsRc) (watches : WatchTable Text) : WatchTable Text :=
  if rc = .failed then watches else watches.arm .exists path

def zooGetChildren (path : Text) (watch : Bool) (watches : WatchTable Text) : WatchTable Text :=
  if watch then watches.arm .children path else watches

def zooGet (path : Text) (watch : Bool) (watches : WatchTable Text) : WatchTable Text :=
  if watch then watches.arm .data path else watches

/-- The part of the registry that follows changes: its callbacks, the watches of its
handle, and the calls of callbacks so far. -/
structure Subscriptions (β : Type) where
  callbacks : Text → Option β
  watches : WatchTable Text
  notified : List (Text × β × List ServiceInstance)

namespace Subscriptions

def new : Subscriptions β := ⟨fun _ => none, .empty, []⟩

/-- `none` is an empty callback. -/
def subsribeService (serviceName : Text) (callback : Option β) (rc : ExistsRc)
    (s : Subscriptions β) : Bool × Subscriptions β :=
  match callback with
  | none => (false, s)
  | some callback =>
    if serviceName = [] then (false, s)
    else
      let s := { s with callbacks := Function.update s.callbacks serviceName (some callback) }
      let s := { s with watches := wexists (cString (servicePath serviceName)) rc s.watches }
      if rc ≠ .ok then (false, s) else (true, s)

/-- The callback is in the map whatever the watch comes to. -/
theorem subsribeService_eq {serviceName : Text} (hname : serviceName ≠ []) (callback : β)
    (rc : ExistsRc) (s : Subscriptions β) :
    s.subsribeService serviceName (some callback) rc =
      (decide (rc = .ok), { s with
        callbacks := Function.update s.callbacks serviceName (some callback)
        watches := wexists (cString (servicePath serviceName)) rc s.watches }) := by
  simp only [subsribeService, if_neg hname]
  by_cases hrc : rc = .ok
  · rw [if_neg (not_not.mpr hrc), decide_eq_true hrc]
  · rw [if_pos hrc, decide_eq_false hrc]

def unsubsribeService (serviceName : Text) (s : Subscriptions β) : Bool × Subscriptions β :=
  match s.callbacks serviceName with
  | some _ => (true, { s with callbacks := Function.update s.callbacks serviceName none })
  | none => (false, s)

/-- The watches that `getServiceInstances` and the loop of `deleteServiceInstanceNode`
set on the way. -/
def readChildren (serviceName : Text) (children : List Text) (s : Subscriptions β) :
    Subscriptions β :=
  let path := servicePath serviceName
  let watches := zooGetChildren (cString path) false s.watches
  { s with
    watches := children.foldl (fun watches name => zooGet (cString (childPath path name)) false
      watches) watches }

/-- What a reading of a service finds: the names of its children, and the instances in them. -/
structure ServiceReading where
  children : List Text
  instances : List ServiceInstance
deriving DecidableEq, Repr

def updateServiceCache (serviceName : Text) (reading : ServiceReading) (s : Subscriptions β) :
    Subscriptions β := s.readChildren serviceName reading.children

def notifyServiceChange (serviceName : Text) (reading : ServiceReading) (s : Subscriptions β) :
    Subscriptions β :=
  match s.callbacks serviceName with
  | none => s
  | some callback =>
    let s := s.readChildren serviceName reading.children
    { s with notified := s.notified ++ [(serviceName, callback, reading.instances)] }

/-- `none` is the exception of `substr`, on a path that is too short. -/
def serviceWatcher (change : Change) (path : Text) (cached told : ServiceReading)
    (s : Subscriptions β) : Option (Subscriptions β) :=
  if change = .children then
    if path.length < servicesPath.length + 1 then none
    else
      let serviceName := path.drop (servicesPath.length + 1)
      some ((s.updateServiceCache serviceName cached).notifyServiceChange serviceName told)
  else some s

/-- One round of `watcherMain`. -/
def watcherRound (connected : Bool) (rc : ExistsRc) (s : Subscriptions β) : Subscriptions β :=
  if connected then { s with watches := wexists (cString rootPath) rc s.watches } else s

end Subscriptions

open Subscriptions

inductive Call (β : Type)
  | subscribe (serviceName : Text) (callback : Option β) (rc : ExistsRc)
  | unsubscribe (serviceName : Text)

def Call.perform (s : Subscriptions β) : Call β → Bool × Subscriptions β
  | .subscribe serviceName callback rc => s.subsribeService serviceName callback rc
  | .unsubscribe serviceName => s.unsubsribeService serviceName

/-- A call that has returned, what it has returned, and the callbacks before it. -/
structure Returned (β : Type) where
  call : Call β
  result : Bool
  before : Text → Option β

/-- The subscriptions, and the calls that have returned, the latest first. -/
structure Logged (β : Type) where
  subscriptions : Subscriptions β
  history : List (Returned β)

def start : Logged β := ⟨.new, []⟩

def step (s : Logged β) (call : Call β) : Option (Logged β) :=
  let (result, subscriptions) := call.perform s.subscriptions
  some ⟨subscriptions, ⟨call, result, s.subscriptions.callbacks⟩ :: s.history⟩

/-- The callback of the last subscription of a service, if no later call on it that
returned true has taken it back. -/
def standing (serviceName : Text) : List (Returned β) → Option β
  | [] => none
  | ⟨.subscribe name callback _, true, _⟩ :: history =>
    if name = serviceName then callback else standing serviceName history
  | ⟨.unsubscribe name, true, _⟩ :: history =>
    if name = serviceName then none else standing serviceName history
  | ⟨_, false, _⟩ :: history => standing serviceName history

/-- The callbacks are those of the standing subscriptions, and a last call that
returned false has left them as they were. -/
structure Consistent (s : Logged β) : Prop where
  standing : ∀ serviceName, s.subscriptions.callbacks serviceName =
    standing serviceName s.history
  unchanged : ∀ last ∈ s.history.head?, last.result = false →
    s.subscriptions.callbacks = last.before

/-- A subscription whose watch is refused has its callback in the map already. -/
def Harmless (s : Logged β) : Call β → Prop
  | .subscribe serviceName (some callback) rc => serviceName ≠ [] → rc ≠ .ok →
    s.subscriptions.callbacks serviceName = some callback
  | _ => True

theorem start_consistent : Consistent (start : Logged β) := ⟨fun _ => rfl, fun _ h => by cases h⟩

section Steps

variable {s : Logged β} {call : Call β} {subscriptions : Subscriptions β}

/-- A call that returns false is consistent exactly if it has changed no callback. -/
theorem consistent_false_iff (consistent : Consistent s) :
    Consistent ⟨subscriptions, ⟨call, false, s.subscriptions.callbacks⟩ :: s.history⟩ ↔
      subscriptions.callbacks = s.subscriptions.callbacks := by
  constructor
  · intro h
    exact h.unchanged _ rfl rfl
  · intro h
    refine ⟨?_, ?_⟩
    · intro serviceName
      have hstanding := consistent.standing serviceName
      rw [← h] at hstanding
      cases call <;> exact hstanding
    · rintro last ⟨⟩ -
      exact h

theorem consistent_true {serviceName : Text} {callback : Option β} (consistent : Consistent s)
    (hstanding : ∀ name, standing name (⟨call, true, s.subscriptions.callbacks⟩ :: s.history) =
      if serviceName = name then callback else standing name s.history)
    (h : subscriptions.callbacks =
      Function.update s.subscriptions.callbacks serviceName callback) :
    Consistent ⟨subscriptions, ⟨call, true, s.subscriptions.callbacks⟩ :: s.history⟩ := by
  refine ⟨?_, ?_⟩
  · intro name
    rw [hstanding, h, Function.update_apply, consistent.standing]
    simp only [eq_comm]
  · rintro last ⟨⟩ hfalse
    cases hfalse

theorem step_consistent_iff (consistent : Consistent s) (call : Call β) :
    (∀ t, step s call = some t → Consistent t) ↔ Harmless s call := by
  have hstep : (∀ t, step s call = some t → Consistent t) ↔
      Consistent ⟨(call.perform s.subscriptions).2,
        ⟨call, (call.perform s.subscriptions).1, s.subscriptions.callbacks⟩ :: s.history⟩ := by
    simp [step]
  rw [hstep]
  cases call with
  | subscribe serviceName callback rc =>
    cases callback with
    | none => exact iff_of_true ((consistent_false_iff consistent).mpr rfl) trivial
    | some callback =>
      by_cases hname : serviceName = []
      · have hperform : (Call.subscribe serviceName (some callback) rc).perform s.subscriptions =
            (false, s.subscriptions) := if_pos hname
        rw [hperform]
        exact iff_of_true ((consistent_false_iff consistent).mpr rfl) fun h => absurd hname h
      have hperform := subsribeService_eq hname callback rc s.subscriptions
      change (Call.subscribe serviceName (some callback) rc).perform s.subscriptions = _ at hperform
      rw [hperform]
      by_cases hrc : rc = .ok
      · subst hrc
        refine iff_of_true ?_ fun _ h => absurd rfl h
        exact consistent_true consistent (fun _ => rfl) rfl
      · rw [decide_eq_false hrc, consistent_false_iff consistent, Function.update_eq_self_iff]
        constructor
        · exact fun h _ _ => h.symm
        · exact fun h => (h hname hrc).symm
  | unsubscribe serviceName =>
    refine iff_of_true ?_ trivial
    cases hfind : s.subscriptions.callbacks serviceName with
    | none =>
      have hperform : (Call.unsubscribe serviceName).perform s.subscriptions =
          (false, s.subscriptions) := by
        simp [Call.perform, unsubsribeService, hfind]
      rw [hperform]
      exact (consistent_false_iff consistent).mpr rfl
    | some callback =>
      have hperform : (Call.unsubscribe serviceName).perform s.subscriptions =
          (true, { s.subscriptions with
            callbacks := Function.update s.subscriptions.callbacks serviceName none }) := by
        simp [Call.perform, unsubsribeService, hfind]
      rw [hperform]
      exact consistent_true consistent (fun _ => rfl) rfl

end Steps

/-- The callbacks follow the calls all along exactly when no subscription whose watch
is refused brings a callback that the map does not have. -/
theorem failed_subscription_iff (calls : List (Call β)) :
    (∀ before t, before <+: calls → run step start before = some t → Consistent t) ↔
      Guarded step Harmless start calls :=
  forall_prefix_iff_guarded (fun _ _ _ (_ : True) _ => trivial)
    (fun _ call _ consistent => step_consistent_iff consistent call) trivial start_consistent

/-- The callback of a subscription that has failed is called on the next change. -/
theorem failed_subscription_notified :
    ∃ t : Logged Nat, run step start [.subscribe [115] (some 7) .failed] = some t ∧
      t.history.map (·.result) = [false] ∧ t.subscriptions.callbacks [115] = some 7 ∧
      (t.subscriptions.serviceWatcher .children (servicePath [115]) ⟨[], []⟩ ⟨[], []⟩).map
        (·.notified) = some [([115], 7, [])] ∧ ¬Consistent t := by
  refine ⟨_, rfl, rfl, rfl, by decide +kernel, ?_⟩
  intro consistent
  have hnone := consistent.standing [115]
  cases hnone

end Mprpc.Subscription
