import Mprpc.Unregistering

namespace Mprpc.MalformedNodes

open Transport InstanceText ZooKeeper ZooKeeperRegistry Discovery

variable {zk : ZooKeeper} {t : zk.Tree} {path instanceId : Text} {name : Text} {names : List Text}

/-- What `zoo_get` gives of a child. -/
def dataOf (path : Text) (t : zk.Tree) (name : Text) : Option Bytes :=
  zk.get t (cString (childPath path name)) bufferSize

/-- The instance in a child, if `zoo_get` gives it and its text is in order. -/
def instanceIn (path : Text) (t : zk.Tree) (name : Text) : Option ServiceInstance :=
  (dataOf path t name).bind fun data => (deserializeInstance data).toOption

/-- The decoder throws on the child. -/
def Malformed (path : Text) (t : zk.Tree) (name : Text) : Prop :=
  ∃ data e, dataOf path t name = some data ∧ deserializeInstance data = .error e

/-- The child is read as an instance with the id. -/
def HasId (path instanceId : Text) (t : zk.Tree) (name : Text) : Prop :=
  ∃ inst, instanceIn path t name = some inst ∧ inst.getId = instanceId

/-- No child is malformed that stands before every child with the id. -/
def Undisturbed (path instanceId : Text) (t : zk.Tree) (names : List Text) : Prop :=
  ∀ before name after, names = before ++ name :: after →
    (∀ other ∈ before, ¬HasId path instanceId t other) → ¬Malformed path t name

/-- What is expected of a removal: it does not throw, and where a child has the id, it
deletes one that has. -/
def Removes (path instanceId : Text) (t : zk.Tree) (names : List Text)
    (result : Except Decimal.NumberError Bool × zk.Tree) : Prop :=
  (∃ deleted, result.1 = .ok deleted) ∧
    ((∃ name ∈ names, HasId path instanceId t name) →
      ∃ name ∈ names, HasId path instanceId t name ∧
        result = (.ok (zk.delete t (cString (childPath path name))).1,
          (zk.delete t (cString (childPath path name))).2))

theorem child_cases (path : Text) (t : zk.Tree) (name : Text) :
    (dataOf path t name = none ∧ instanceIn path t name = none ∧ ¬Malformed path t name) ∨
    (∃ data e, dataOf path t name = some data ∧ deserializeInstance data = .error e ∧
      instanceIn path t name = none ∧ Malformed path t name) ∨
    ∃ data inst, dataOf path t name = some data ∧ deserializeInstance data = .ok inst ∧
      instanceIn path t name = some inst ∧ ¬Malformed path t name := by
  cases hget : dataOf path t name with
  | none => exact .inl ⟨rfl, by simp [instanceIn, hget], by simp [Malformed, hget]⟩
  | some data =>
    cases hdata : deserializeInstance data with
    | error e =>
      refine .inr (.inl ⟨data, e, rfl, hdata, ?_, ⟨data, e, hget, hdata⟩⟩)
      rw [instanceIn, hget, Option.bind_some, hdata]
      rfl
    | ok inst =>
      refine .inr (.inr ⟨data, inst, rfl, hdata, ?_, ?_⟩)
      · rw [instanceIn, hget, Option.bind_some, hdata]
        rfl
      · rintro ⟨data', e, hget', herror⟩
        cases hget.symm.trans hget'
        cases hdata.symm.trans herror

section Discovering

theorem collect_eq_iff :
    collect zk path t names = .ok (names.filterMap (instanceIn path t)) ↔
      ∀ name ∈ names, ¬Malformed path t name := by
  induction names with
  | nil => simp [collect]
  | cons name names ih =>
    rw [List.forall_mem_cons, ← ih]
    obtain ⟨hget, hnone, hwell⟩ | ⟨data, e, hget, hdata, hnone, hbad⟩ |
      ⟨data, inst, hget, hdata, hsome, hwell⟩ := child_cases path t name
    · rw [dataOf] at hget
      rw [collect, hget, List.filterMap_cons_none hnone]
      exact (and_iff_right hwell).symm
    · rw [dataOf] at hget
      simp only [collect, hget, hdata]
      exact iff_of_false (fun h => by cases h) fun h => h.1 hbad
    · rw [dataOf] at hget
      simp only [collect, hget, hdata, List.filterMap_cons_some hsome]
      rw [and_iff_right hwell]
      cases hrest : collect zk path t names with
      | error e => exact iff_of_false (fun h => by cases h) fun h => by cases h
      | ok instances =>
        constructor
        · intro h
          exact congrArg _ (List.cons.inj (Except.ok.inj h)).2
        · intro h
          rw [← Except.ok.inj h]
          rfl

end Discovering

section Removing

theorem undisturbed_cons :
    Undisturbed path instanceId t (name :: names) ↔ ¬Malformed path t name ∧
      (¬HasId path instanceId t name → Undisturbed path instanceId t names) := by
  constructor
  · intro h
    refine ⟨h [] name names rfl (by simp), ?_⟩
    rintro hname before other after rfl hbefore
    exact h (name :: before) other after rfl (List.forall_mem_cons.mpr ⟨hname, hbefore⟩)
  · rintro ⟨hwell, hrest⟩ before other after hsplit hbefore
    cases before with
    | nil =>
      cases hsplit
      exact hwell
    | cons first before =>
      cases hsplit
      obtain ⟨hfirst, hbefore⟩ := List.forall_mem_cons.mp hbefore
      exact hrest hfirst before other after rfl hbefore

theorem removes_cons (hname : ¬HasId path instanceId t name)
    {result : Except Decimal.NumberError Bool × zk.Tree} :
    Removes path instanceId t (name :: names) result ↔ Removes path instanceId t names result := by
  have hexists : ∀ P : Text → Prop, (∃ other ∈ name :: names, HasId path instanceId t other ∧
      P other) ↔ ∃ other ∈ names, HasId path instanceId t other ∧ P other := by
    intro P
    simp [hname]
  have hsome := hexists fun _ => True
  simp only [and_true] at hsome
  rw [Removes, Removes, hexists, hsome]

theorem deleteMatching_removes_iff :
    Removes path instanceId t names (deleteMatching zk path instanceId t names) ↔
      Undisturbed path instanceId t names := by
  induction names with
  | nil => simp [Removes, Undisturbed, deleteMatching]
  | cons name names ih =>
    rw [undisturbed_cons]
    obtain ⟨hget, hnone, hwell⟩ | ⟨data, e, hget, hdata, hnone, hbad⟩ |
      ⟨data, inst, hget, hdata, hsome, hwell⟩ := child_cases path t name
    · have hname : ¬HasId path instanceId t name := by simp [HasId, hnone]
      rw [dataOf] at hget
      rw [removes_cons hname, deleteMatching, hget, and_iff_right hwell]
      exact ih.trans (imp_iff_right hname).symm
    · rw [dataOf] at hget
      refine iff_of_false ?_ fun h => h.1 hbad
      simp [Removes, deleteMatching, hget, hdata]
    · rw [dataOf] at hget
      by_cases hid : inst.getId = instanceId
      · have hname : HasId path instanceId t name := ⟨inst, hsome, hid⟩
        refine iff_of_true ?_ ⟨hwell, fun h => absurd hname h⟩
        simp only [deleteMatching, hget, hdata, if_pos hid]
        exact ⟨⟨_, rfl⟩, fun _ => ⟨name, List.mem_cons_self, hname, rfl⟩⟩
      · have hname : ¬HasId path instanceId t name := by
          rintro ⟨other, hother, hotherId⟩
          cases hsome.symm.trans hother
          exact hid hotherId
        rw [removes_cons hname, and_iff_right hwell]
        simp only [deleteMatching, hget, hdata, if_neg hid]
        exact ih.trans (imp_iff_right hname).symm

end Removing

/-- The loops over the children do what is expected of them exactly when they meet no
malformed child: discovery goes to the last, a removal to the first with the id. -/
theorem malformed_nodes_iff {r : ZooKeeperRegistry} {serviceName : Text}
    (hconnected : r.connected = true)
    (hchildren : zk.getChildren t (cString (servicePath serviceName)) = some names)
    (instanceId : Text) :
    (discoverService zk r serviceName t =
        .ok (names.filterMap (instanceIn (servicePath serviceName) t)) ↔
      ∀ name ∈ names, ¬Malformed (servicePath serviceName) t name) ∧
    (Removes (servicePath serviceName) instanceId t names
        (unregisterService zk r serviceName instanceId t) ↔
      Undisturbed (servicePath serviceName) instanceId t names) := by
  have hup : ¬r.connected = false := by simp [hconnected]
  constructor
  · rw [discoverService, if_neg hup, getServiceInstances, hchildren]
    exact collect_eq_iff
  · rw [unregisterService, if_neg hup, deleteServiceInstanceNode, hchildren]
    exact deleteMatching_removes_iff

section Broken

/-- A registered instance behind a node whose third line is no number. -/
def brokenTree : standalone.Tree :=
  let t := (createServicePath standalone plainInstance.serviceName standalone.empty).2
  let t := (standalone.create t (childPath (servicePath plainInstance.serviceName) [98])
    [10, 10, 98, 10]).2
  (registerService standalone ⟨1, true⟩ plainInstance t).2

def brokenNames : List Text :=
  Standalone.children brokenTree (servicePath plainInstance.serviceName)

theorem brokenTree_children :
    standalone.getChildren brokenTree (cString (servicePath plainInstance.serviceName)) =
      some brokenNames := by decide +kernel

theorem malformed_nodes_iff_broken :
    (discoverService standalone ⟨1, true⟩ plainInstance.serviceName brokenTree =
        .ok (brokenNames.filterMap
          (instanceIn (servicePath plainInstance.serviceName) brokenTree)) ↔
      ∀ name ∈ brokenNames,
        ¬Malformed (servicePath plainInstance.serviceName) brokenTree name) ∧
    (Removes (servicePath plainInstance.serviceName) plainInstance.getId brokenTree brokenNames
        (unregisterService standalone ⟨1, true⟩ plainInstance.serviceName plainInstance.getId
          brokenTree) ↔
      Undisturbed (servicePath plainInstance.serviceName) plainInstance.getId brokenTree
        brokenNames) :=
  malformed_nodes_iff rfl brokenTree_children plainInstance.getId

/-- One bad node makes both calls throw, though the instance is there. -/
theorem bad_node_hides_instance :
    (∀ name ∈ brokenNames,
      (dataOf (servicePath plainInstance.serviceName) brokenTree name).isSome) ∧
    brokenNames.filterMap (instanceIn (servicePath plainInstance.serviceName) brokenTree) =
      [plainInstance] ∧
    (discoverService standalone ⟨1, true⟩ plainInstance.serviceName brokenTree).toOption = none ∧
    (unregisterService standalone ⟨1, true⟩ plainInstance.serviceName plainInstance.getId
      brokenTree).1.toOption = none := by
  decide +kernel

end Broken

end Mprpc.MalformedNodes
