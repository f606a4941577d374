import Mprpc.Discovery

namespace Mprpc.Unregistering

open Transport InstanceText ZooKeeper ZooKeeperRegistry Discovery Library.Transition

variable {zk : ZooKeeper}

/-- The id was unregistered from the service, and has not been registered there since. -/
def Gone (serviceName instanceId : Text) : List Call → Prop
  | [] => False
  | .register inst :: history =>
    ¬(inst.serviceName = serviceName ∧ inst.getId = instanceId) ∧
      Gone serviceName instanceId history
  | .unregister serviceName' instanceId' :: history =>
    (serviceName' = serviceName ∧ instanceId' = instanceId) ∨ Gone serviceName instanceId history

/-- No id that is gone is discovered. -/
def Removed (s : Logged zk) : Prop :=
  ∀ serviceName instanceId, Gone serviceName instanceId s.history →
    ∀ r instances, discoverService zk r serviceName s.tree = .ok instances →
      ∀ inst ∈ instances, inst.getId ≠ instanceId

/-- The id that the loops over the children read in a node. -/
def ReadAs (node : Znode) (instanceId : Text) : Prop :=
  ∃ inst, deserializeInstance (node.data.take bufferSize) = .ok inst ∧ inst.getId = instanceId

/-- The registration makes a node among the children of the service that is read as one
with the id: that of another service, if it is not there yet, or that of the instance. -/
def Advertises (t : zk.Tree) (r : ZooKeeperRegistry) (inst : ServiceInstance)
    (serviceName instanceId : Text) : Prop :=
  ∃ name, 47 ∉ name ∧
    ((cString (servicePath inst.serviceName) = childPath (servicePath serviceName) name ∧
      r.connected = true ∧ inst.serviceName ≠ [] ∧
      zk.find t (childPath (servicePath serviceName) name) = none ∧
      ReadAs ⟨[], none⟩ instanceId) ∨
    (cString (instancePath inst) = childPath (servicePath serviceName) name ∧
      (registerService zk r inst t).1 = true ∧
      ReadAs ⟨serializeInstance inst, none⟩ instanceId))

/-- A call of `unregisterService` that returns true finds one node only with the id,
and a registration brings no id back but the one that is registered. -/
def Unambiguous (s : Logged zk) : ZooKeeperRegistry × Call → Prop
  | (r, .register inst) => ∀ serviceName instanceId, Gone serviceName instanceId s.history →
    Advertises s.tree r inst serviceName instanceId →
      inst.serviceName = serviceName ∧ inst.getId = instanceId
  | (r, .unregister serviceName instanceId) =>
    (unregisterService zk r serviceName instanceId s.tree).1 = .ok true →
      ∀ name name' node node', 47 ∉ name → 47 ∉ name' →
        zk.find s.tree (childPath (servicePath serviceName) name) = some node →
        zk.find s.tree (childPath (servicePath serviceName) name') = some node' →
        ReadAs node instanceId → ReadAs node' instanceId → name = name'

/-- No child of a service is read as an id that is gone from it. -/
def Sound (s : Logged zk) : Prop :=
  ∀ serviceName instanceId, Gone serviceName instanceId s.history →
    0 ∉ serviceName ∧ ∀ node, Child s.tree serviceName node → ¬ReadAs node instanceId

theorem start_sound (zk : ZooKeeper) : Sound (start zk) := fun _ _ h => h.elim

theorem Sound.removed {s : Logged zk} (sound : Sound s) : Removed s := by
  intro serviceName instanceId hgone r instances hall inst hinst hid
  obtain ⟨hnul, hnone⟩ := sound serviceName instanceId hgone
  obtain ⟨node, hnode, hread⟩ := child_of_mem_discover hnul hall hinst
  exact hnone node hnode ⟨inst, hread, hid⟩

section Paths

variable {path name serviceName : Text}

theorem length_childPath : (childPath path name).length = path.length + name.length + 1 := by
  simp [childPath]
  omega

theorem not_child_of_mem_roots (h : path ∈ [rootPath, servicesPath]) :
    path ≠ childPath (servicePath serviceName) name := by
  intro heq
  have hlength := congrArg List.length heq
  rw [length_childPath, servicePath, length_childPath] at hlength
  have hservices : servicesPath.length = 13 := by decide
  have hroot : rootPath.length = 4 := by decide
  simp only [List.mem_cons, List.not_mem_nil, or_false] at h
  obtain rfl | rfl := h <;> omega

end Paths

section Steps

variable {s : Logged zk} {t u : zk.Tree} {serviceName instanceId : Text}

theorem tries_of_changed {r : ZooKeeperRegistry} {inst : ServiceInstance} {result : Bool}
    (h : registerService zk r inst t = (result, u)) (hne : u ≠ t) :
    r.connected = true ∧ inst.serviceName ≠ [] := by
  constructor
  · by_contra hlost
    have hsame : registerService zk r inst t = (false, t) :=
      if_pos (Bool.eq_false_of_not_eq_true hlost)
    exact hne (congrArg Prod.snd (h.symm.trans hsame))
  · intro hunnamed
    have hsame : registerService zk r inst t = (false, t) := by
      rw [registerService, if_pos hunnamed, ite_self]
    exact hne (congrArg Prod.snd (h.symm.trans hsame))

/-- A new child of a service was made by the registration of an instance that
advertises what is read there. -/
theorem child_registered {r : ZooKeeperRegistry} {inst : ServiceInstance} {result : Bool}
    (h : registerService zk r inst t = (result, u)) {node : Znode}
    (hchild : Child u serviceName node) (hread : ReadAs node instanceId) (hnul : 0 ∉ serviceName) :
    Child t serviceName node ∨ (Advertises t r inst serviceName instanceId ∧
      (result = true ∨ inst.serviceName ≠ serviceName)) := by
  obtain ⟨name, hslash, hfind⟩ := hchild
  obtain ⟨hgrows, -⟩ := registerService_spec h
  by_cases hthere : zk.find t (childPath (servicePath serviceName) name) = none
  · obtain hold | ⟨hpath, rfl⟩ | ⟨rfl, suffix, hsuffix, hpath, rfl⟩ := hgrows.added _ node hfind
    · exact .inl ⟨name, hslash, hold⟩
    · have hchanged : u ≠ t := by
        rintro rfl
        cases hthere.symm.trans hfind
      obtain ⟨hconnected, hnamed⟩ := tries_of_changed h hchanged
      rw [List.mem_cons, List.mem_cons, List.mem_singleton, ← or_assoc] at hpath
      obtain hroots | hpath := hpath
      · exact absurd rfl (not_child_of_mem_roots (by simpa using hroots))
      · refine .inr ⟨⟨name, hslash, .inl ⟨hpath.symm, hconnected, hnamed, hthere, hread⟩⟩, .inr ?_⟩
        rintro rfl
        rw [cString_of_notMem (nul_notMem_servicePath.mpr hnul)] at hpath
        have hlength := congrArg List.length hpath
        rw [length_childPath] at hlength
        omega
    · obtain ⟨short, hshort, hshortPath⟩ :=
        child_of_append_suffix (slash_mem_instancePath inst) hsuffix hslash hpath.symm
      exact .inr ⟨⟨short, hshort, .inr ⟨hshortPath, congrArg Prod.fst h, hread⟩⟩, .inl rfl⟩
  · obtain ⟨old, hold⟩ := Option.ne_none_iff_exists'.mp hthere
    obtain rfl := Option.some.inj ((hgrows.kept _ old hold).symm.trans hfind)
    exact .inl ⟨name, hslash, hold⟩

theorem child_kept (h : ∀ path node, zk.find u path = some node → zk.find t path = some node)
    {node : Znode} (hchild : Child u serviceName node) : Child t serviceName node := by
  obtain ⟨name, hslash, hfind⟩ := hchild
  exact ⟨name, hslash, h _ _ hfind⟩

/-- After a registration the ids that are gone are those that were gone before, but
for the one that is registered. -/
theorem register_quiet (sound : Sound s) {r : ZooKeeperRegistry} {inst : ServiceInstance}
    {result : Bool} (hrun : registerService zk r inst s.tree = (result, u))
    (hone : Unambiguous s (r, .register inst)) (hgone : Gone serviceName instanceId s.history)
    (hother : result = true → ¬(inst.serviceName = serviceName ∧ inst.getId = instanceId)) :
    0 ∉ serviceName ∧ ∀ node, Child u serviceName node → ¬ReadAs node instanceId := by
  obtain ⟨hnul, hnone⟩ := sound serviceName instanceId hgone
  refine ⟨hnul, ?_⟩
  intro node hchild hread
  obtain hold | ⟨hadvertises, hmade⟩ := child_registered hrun hchild hread hnul
  · exact hnone node hold hread
  · have hsame := hone serviceName instanceId hgone hadvertises
    exact hmade.elim (fun htrue => hother htrue hsame) fun hne => hne hsame.1

theorem removes_quiet {r : ZooKeeperRegistry}
    (hrun : unregisterService zk r serviceName instanceId s.tree = (.ok true, u))
    (hone : Unambiguous s (r, .unregister serviceName instanceId))
    (hremoves : Removes serviceName instanceId s.tree u) :
    0 ∉ serviceName ∧ ∀ node, Child u serviceName node → ¬ReadAs node instanceId := by
  obtain ⟨hnul, name, node, inst, hslash, hfind, hread, hid, -, hupdate⟩ := hremoves
  refine ⟨hnul, ?_⟩
  rintro node' ⟨name', hslash', hfind'⟩ hread'
  obtain ⟨hne, hbefore⟩ := find_removed hupdate hfind'
  have hsame : name' = name :=
    hone (congrArg Prod.fst hrun) name' name node' node hslash' hslash hbefore hfind hread'
      ⟨inst, hread, hid⟩
  exact hne (congrArg _ hsame)

theorem step_sound (s : Logged zk) (l : ZooKeeperRegistry × Call) (t : Logged zk)
    (sound : Sound s) (hone : Unambiguous s l) (h : step s l = some t) : Sound t := by
  obtain ⟨r, call⟩ := l
  cases call with
  | register inst =>
    cases hrun : registerService zk r inst s.tree with
    | mk result tree =>
      cases result with
      | false =>
        simp only [step, hrun] at h
        cases h
        intro serviceName instanceId hgone
        exact register_quiet sound hrun hone hgone (by simp)
      | true =>
        simp only [step, hrun] at h
        cases h
        rintro serviceName instanceId ⟨hother, hgone⟩
        exact register_quiet sound hrun hone hgone fun _ => hother
  | unregister serviceName instanceId =>
    cases hrun : unregisterService zk r serviceName instanceId s.tree with
    | mk result tree =>
      obtain ⟨hfail, hsame⟩ | ⟨rfl, hremoves⟩ := unregisterService_spec hrun
      · cases (step_unregister_failed hrun hfail).symm.trans h
        intro serviceName' instanceId' hgone
        obtain ⟨hnul, hnone⟩ := sound serviceName' instanceId' hgone
        refine ⟨hnul, fun node hchild => hnone node ?_⟩
        exact child_kept (fun path node hfind => hsame ▸ hfind) hchild
      · simp only [step, hrun] at h
        cases h
        rintro serviceName' instanceId' (⟨rfl, rfl⟩ | hgone)
        · exact removes_quiet hrun hone hremoves
        · obtain ⟨hnul, hnone⟩ := sound serviceName' instanceId' hgone
          obtain ⟨-, name, -, -, -, -, -, -, -, hupdate⟩ := hremoves
          refine ⟨hnul, fun node hchild => hnone node ?_⟩
          exact child_kept (fun path node hfind => (find_removed hupdate hfind).2) hchild

end Steps

/-- What is unregistered is not discovered, in every state of every run in which no
call of `unregisterService` leaves a second node with the id behind. -/
theorem unregistered_removed {calls before : List (ZooKeeperRegistry × Call)} {s : Logged zk}
    (h : Guarded step Unambiguous (start zk) calls) (hbefore : before <+: calls)
    (hrun : run step (start zk) before = some s) : Removed s := by
  obtain ⟨after, rfl⟩ := hbefore
  exact (run_invariant step_sound (start_sound zk) h.append_left hrun).removed

def client : ZooKeeperRegistry := ⟨1, true⟩

theorem unregistered_removed_once : ∃ s : Logged .standalone,
    run step (start .standalone) [(client, .register plainInstance),
      (client, .unregister plainInstance.serviceName plainInstance.getId)] = some s ∧
    Gone plainInstance.serviceName plainInstance.getId s.history ∧ Removed s := by
  have hone : (step (start .standalone) (client, .register plainInstance)).map
      (fun s => (s.tree.children (servicePath plainInstance.serviceName)).length) = some 1 := by
    decide +kernel
  have hboth : (run step (start .standalone) [(client, .register plainInstance),
      (client, .unregister plainInstance.serviceName plainInstance.getId)]).map
        (fun s => s.history.head?) =
      some (some (.unregister plainInstance.serviceName plainInstance.getId)) := by
    decide +kernel
  obtain ⟨s₁, hstep, hlength⟩ := Option.map_eq_some_iff.mp hone
  obtain ⟨only, honly⟩ := List.length_eq_one_iff.mp hlength
  obtain ⟨s, hrun, hhistory⟩ := Option.map_eq_some_iff.mp hboth
  obtain ⟨history, hcalls⟩ := List.head?_eq_some_iff.mp hhistory
  have hunique : ∀ name node, 47 ∉ name →
      standalone.find s₁.tree (childPath (servicePath plainInstance.serviceName) name) = some node →
        name = only := by
    intro name node hslash hfind
    have hmem := Standalone.mem_children.mpr ⟨hslash, Option.ne_none_iff_exists'.mpr ⟨node, hfind⟩⟩
    rw [honly] at hmem
    exact List.mem_singleton.mp hmem
  have hguard : Guarded step Unambiguous (start .standalone)
      [(client, .register plainInstance),
        (client, .unregister plainInstance.serviceName plainInstance.getId)] := by
    refine Guarded.cons (fun _ _ hgone => hgone.elim) hstep ⟨?_, fun _ _ => trivial⟩
    intro _ name name' node node' hslash hslash' hfind hfind' _ _
    rw [hunique name node hslash hfind, hunique name' node' hslash' hfind']
  refine ⟨s, hrun, ?_, unregistered_removed hguard (List.prefix_refl _) hrun⟩
  rw [hcalls]
  exact .inl ⟨rfl, rfl⟩

/-- An instance that was registered twice is still discovered when it has been
unregistered. -/
theorem second_node_discovered : ∃ s : Logged .standalone,
    run step (start .standalone) [(client, .register plainInstance),
      (client, .register plainInstance),
      (client, .unregister plainInstance.serviceName plainInstance.getId)] = some s ∧
    Gone plainInstance.serviceName plainInstance.getId s.history ∧ ¬Removed s := by
  have h : (run step (start .standalone) [(client, .register plainInstance),
      (client, .register plainInstance),
      (client, .unregister plainInstance.serviceName plainInstance.getId)]).map
        (fun s => (s.history.head?,
          (discoverService .standalone client plainInstance.serviceName s.tree).toOption)) =
      some (some (.unregister plainInstance.serviceName plainInstance.getId),
        some [plainInstance]) := by
    decide +kernel
  obtain ⟨s, hrun, hview⟩ := Option.map_eq_some_iff.mp h
  obtain ⟨hhistory, hfound⟩ := Prod.mk.inj hview
  obtain ⟨history, hcalls⟩ := List.head?_eq_some_iff.mp hhistory
  have hgone : Gone plainInstance.serviceName plainInstance.getId s.history := by
    rw [hcalls]
    exact .inl ⟨rfl, rfl⟩
  refine ⟨s, hrun, hgone, ?_⟩
  intro hremoved
  cases hok : discoverService .standalone client plainInstance.serviceName s.tree with
  | error e =>
    rw [hok] at hfound
    cases hfound
  | ok instances =>
    rw [hok] at hfound
    have hinstances : instances = [plainInstance] := Option.some.inj hfound
    exact hremoved _ _ hgone client instances hok plainInstance (by simp [hinstances]) rfl

end Mprpc.Unregistering
