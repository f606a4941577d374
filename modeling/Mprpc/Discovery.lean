import Mprpc.Library.Transition
import Mprpc.ZooKeeperRegistry

namespace Mprpc.Discovery

open Transport InstanceText ZooKeeperRegistry Library.Transition

inductive Call
  | register (inst : ServiceInstance)
  | unregister (serviceName instanceId : Text)
deriving DecidableEq, Repr

/-- The nodes in ZooKeeper, and the calls that have returned true, the latest first. -/
structure Logged (zk : ZooKeeper) where
  tree : zk.Tree
  history : List Call

variable {zk : ZooKeeper}

def start (zk : ZooKeeper) : Logged zk := ⟨zk.empty, []⟩

/-- One client calls its registry. -/
def step (s : Logged zk) : ZooKeeperRegistry × Call → Option (Logged zk)
  | (r, .register inst) =>
    match registerService zk r inst s.tree with
    | (true, tree) => some ⟨tree, .register inst :: s.history⟩
    | (false, tree) => some { s with tree := tree }
  | (r, .unregister serviceName instanceId) =>
    match unregisterService zk r serviceName instanceId s.tree with
    | (.ok true, tree) => some ⟨tree, .unregister serviceName instanceId :: s.history⟩
    | (_, tree) => some { s with tree := tree }

/-- The instance was registered, and has not been unregistered since. -/
def Standing (inst : ServiceInstance) : List Call → Prop
  | [] => False
  | .register other :: history => other = inst ∨ Standing inst history
  | .unregister serviceName instanceId :: history =>
    ¬(serviceName = inst.serviceName ∧ instanceId = inst.getId) ∧ Standing inst history

/-- Every standing instance with printable strings can be discovered unchanged. -/
def Discoverable (s : Logged zk) : Prop :=
  ∀ inst, Representable inst → Printable inst → Standing inst s.history →
    ∀ r : ZooKeeperRegistry, r.connected = true →
      ∃ instances, discoverService zk r inst.serviceName s.tree = .ok instances ∧
        ∃ found ∈ instances, Same found inst

/-- What the decoder sees of the bytes is read without an exception. -/
def Decodes (data : Bytes) : Prop :=
  ∃ inst, deserializeInstance (data.take bufferSize) = .ok inst

/-- The node of the instance is made among the children of the service. -/
def Lands (inst : ServiceInstance) (serviceName : Text) : Prop :=
  ∃ name, 47 ∉ name ∧ cString (instancePath inst) = childPath (servicePath serviceName) name

/-- What a registration that returns true must keep to. Its text is decoded without
an exception where an instance with printable strings stands beside it; and if its own
strings are printable, the name has no zero byte, the id no slash in front of one, every
line that is not a default ends within the bytes that the decoder sees, and what is
there already is decoded. -/
def Readable (s : Logged zk) : ZooKeeperRegistry × Call → Prop
  | (r, .register inst) => (registerService zk r inst s.tree).1 = true →
    (∀ other, Representable other → Printable other → Standing other s.history →
      Lands inst other.serviceName → Decodes (serializeInstance inst)) ∧
    (Representable inst → Printable inst →
      0 ∉ inst.serviceName ∧ 47 ∉ cString inst.getId ∧ FitsIn bufferSize inst ∧
        ∀ node, Child s.tree inst.serviceName node → Decodes node.data)
  | (_, .unregister ..) => True

/-- The node of a standing instance, and those beside it. -/
structure Stored (t : zk.Tree) (inst : ServiceInstance) : Prop where
  nul : 0 ∉ inst.serviceName
  fits : FitsIn bufferSize inst
  service : zk.find t (servicePath inst.serviceName) ≠ none
  node : ∃ owner, Child t inst.serviceName ⟨serializeInstance inst, owner⟩
  decodes : ∀ node, Child t inst.serviceName node → Decodes node.data

def Sound (s : Logged zk) : Prop :=
  ∀ inst, Representable inst → Printable inst → Standing inst s.history → Stored s.tree inst

theorem start_sound (zk : ZooKeeper) : Sound (start zk) := fun _ _ _ h => h.elim

theorem Sound.discoverable {s : Logged zk} (sound : Sound s) : Discoverable s := by
  intro inst hrep hprint hstanding r hconnected
  obtain ⟨hnul, hfits, hservice, ⟨owner, hnode⟩, hdecodes⟩ := sound inst hrep hprint hstanding
  obtain ⟨instances, hall⟩ := discoverService_ok (r := r) hnul hdecodes
  refine ⟨instances, hall, inst, ?_, Same.refl inst⟩
  exact mem_discover_of_child hconnected hnul hservice hall hnode
    (deserialize_take hrep hprint hfits)

section Steps

variable {s : Logged zk} {t u : zk.Tree} {inst : ServiceInstance}

theorem Stored.grows {added : Text → Znode → Prop} (stored : Stored t inst) (h : Grows t u added)
    (hadded : ∀ name node, 47 ∉ name →
      added (childPath (servicePath inst.serviceName) name) node → Decodes node.data) :
    Stored u inst := by
  obtain ⟨hnul, hfits, hservice, ⟨owner, name, hslash, hnode⟩, hdecodes⟩ := stored
  obtain ⟨service, hfind⟩ := Option.ne_none_iff_exists'.mp hservice
  refine ⟨hnul, hfits, ?_, ⟨owner, name, hslash, h.kept _ _ hnode⟩, ?_⟩
  · rw [h.kept _ _ hfind]
    exact Option.some_ne_none service
  · rintro node ⟨name', hslash', hnode'⟩
    obtain hold | hnew := h.added _ _ hnode'
    · exact hdecodes node ⟨name', hslash', hold⟩
    · exact hadded name' node hslash' hnew

theorem default_decodes : Decodes [] := ⟨defaultInstance, rfl⟩

theorem decodes_of_added {r : ZooKeeperRegistry} {result : Bool} {serviceName name : Text}
    {node : Znode} (hslash : 47 ∉ name)
    (h : Persistent inst.serviceName (childPath (servicePath serviceName) name) node ∨
      (result = true ∧ Made r inst (childPath (servicePath serviceName) name) node))
    (hlands : result = true → Lands inst serviceName → Decodes (serializeInstance inst)) :
    Decodes node.data := by
  obtain ⟨-, rfl⟩ | ⟨htrue, suffix, hsuffix, hpath, rfl⟩ := h
  · exact default_decodes
  · exact hlands htrue
      (child_of_append_suffix (slash_mem_instancePath inst) hsuffix hslash hpath.symm)

theorem stored_of_registered {r : ZooKeeperRegistry}
    (h : registerService zk r inst t = (true, u)) (hrep : Representable inst)
    (hprint : Printable inst) (hnul : 0 ∉ inst.serviceName) (hslash : 47 ∉ cString inst.getId)
    (hfits : FitsIn bufferSize inst)
    (hdecodes : ∀ node, Child t inst.serviceName node → Decodes node.data) : Stored u inst := by
  obtain ⟨hgrows, hregistered⟩ := registerService_spec h
  obtain ⟨-, hservice, path, node, ⟨suffix, hsuffix, rfl, rfl⟩, -, hfind⟩ := hregistered rfl
  have hpath := nul_notMem_servicePath.mpr hnul
  rw [cString_of_notMem hpath] at hservice
  rw [instancePath, cString_childPath hpath, childPath, List.append_assoc,
    List.cons_append] at hfind
  refine ⟨hnul, hfits, hservice, ⟨some r.session, cString inst.getId ++ suffix, ?_, hfind⟩, ?_⟩
  · intro hmem
    exact (List.mem_append.mp hmem).elim hslash hsuffix
  · rintro node ⟨name, hname, hnode⟩
    obtain hold | hnew := hgrows.added _ _ hnode
    · exact hdecodes node ⟨name, hname, hold⟩
    · exact decodes_of_added hname hnew fun _ _ => ⟨inst, deserialize_take hrep hprint hfits⟩

/-- A node that is removed under another service or another id leaves the instance stored. -/
theorem Stored.removes (hrep : Representable inst) (hprint : Printable inst)
    (stored : Stored t inst) {serviceName instanceId : Text}
    (h : Removes serviceName instanceId t u)
    (hother : ¬(serviceName = inst.serviceName ∧ instanceId = inst.getId)) : Stored u inst := by
  obtain ⟨hnul, hfits, hservice, ⟨owner, name, hslash, hnode⟩, hdecodes⟩ := stored
  obtain ⟨-, gone, node, read, hgone, hfind, hread, hid, hleaf, hupdate⟩ := h
  refine ⟨hnul, hfits, ?_, ⟨owner, name, hslash, ?_⟩, ?_⟩
  · have hne : servicePath inst.serviceName ≠ childPath (servicePath serviceName) gone := by
      intro heq
      rw [← heq] at hleaf
      cases hnode.symm.trans (hleaf name hslash)
    rwa [hupdate, Function.update_of_ne hne]
  · have hne : childPath (servicePath inst.serviceName) name ≠
        childPath (servicePath serviceName) gone := by
      intro heq
      obtain ⟨hpath, rfl⟩ := childPath_inj hslash hgone heq
      have hname := servicePath_inj hpath
      rw [← heq, hnode] at hfind
      cases hfind
      rw [deserialize_take hrep hprint hfits] at hread
      cases hread
      exact hother ⟨hname.symm, hid.symm⟩
    rwa [hupdate, Function.update_of_ne hne]
  · rintro node' ⟨name', hslash', hnode'⟩
    exact hdecodes node' ⟨name', hslash', (find_removed hupdate hnode').2⟩

theorem step_unregister_failed {r : ZooKeeperRegistry} {serviceName instanceId : Text}
    {result : Except Decimal.NumberError Bool}
    (h : unregisterService zk r serviceName instanceId s.tree = (result, u))
    (hfail : result ≠ .ok true) :
    step s (r, .unregister serviceName instanceId) = some { s with tree := u } := by
  simp only [step, h]

/-- Every step that keeps to the rules keeps the standing instances stored. -/
theorem step_sound (s : Logged zk) (l : ZooKeeperRegistry × Call) (t : Logged zk)
    (sound : Sound s) (hread : Readable s l) (h : step s l = some t) : Sound t := by
  obtain ⟨r, call⟩ := l
  cases call with
  | register inst =>
    cases hrun : registerService zk r inst s.tree with
    | mk result tree =>
    obtain ⟨hgrows, -⟩ := registerService_spec hrun
    simp only [Readable, hrun] at hread
    have hkept : ∀ other, Representable other → Printable other → Standing other s.history →
        Stored tree other := by
      intro other hrep hprint hstanding
      refine (sound other hrep hprint hstanding).grows hgrows ?_
      intro name node hslash hadded
      exact decodes_of_added hslash hadded fun htrue =>
        (hread htrue).1 other hrep hprint hstanding
    cases result with
    | false =>
      simp only [step, hrun] at h
      cases h
      exact hkept
    | true =>
      simp only [step, hrun] at h
      cases h
      intro other hrep hprint hstanding
      obtain rfl | hstanding := hstanding
      · obtain ⟨hnul, hslash, hfits, hdecodes⟩ := (hread rfl).2 hrep hprint
        exact stored_of_registered hrun hrep hprint hnul hslash hfits hdecodes
      · exact hkept other hrep hprint hstanding
  | unregister serviceName instanceId =>
    cases hrun : unregisterService zk r serviceName instanceId s.tree with
    | mk result tree =>
    obtain ⟨hfail, hsame⟩ | ⟨rfl, hremoves⟩ := unregisterService_spec hrun
    · cases (step_unregister_failed hrun hfail).symm.trans h
      intro other hrep hprint hstanding
      have hgrows : Grows s.tree tree fun _ _ => False := grows_of_eq hsame _
      exact (sound other hrep hprint hstanding).grows hgrows fun _ _ _ h => h.elim
    · simp only [step, hrun] at h
      cases h
      rintro other hrep hprint ⟨hother, hstanding⟩
      exact (sound other hrep hprint hstanding).removes hrep hprint hremoves hother

end Steps

/-- What is registered can be discovered unchanged, in every state of every run
whose registrations keep to the rules. -/
theorem registered_discoverable {calls before : List (ZooKeeperRegistry × Call)}
    {s : Logged zk} (h : Guarded step Readable (start zk) calls) (hbefore : before <+: calls)
    (hrun : run step (start zk) before = some s) : Discoverable s := by
  obtain ⟨after, rfl⟩ := hbefore
  exact (run_invariant step_sound (start_sound zk) h.append_left hrun).discoverable

def plainInstance : ServiceInstance := ⟨[115], [104], 80, 1, true, 0, [([107], [118])]⟩

theorem registered_discoverable_one : ∃ s : Logged .standalone,
    run step (start .standalone) [(⟨1, true⟩, .register plainInstance)] = some s ∧
    s.history = [.register plainInstance] ∧ Discoverable s := by
  have h : (run step (start .standalone) [(⟨1, true⟩, .register plainInstance)]).map
      Logged.history = some [.register plainInstance] := by
    decide +kernel
  obtain ⟨s, hrun, hhistory⟩ := Option.map_eq_some_iff.mp h
  have hprint : Printable plainInstance := ⟨by decide, by decide, by decide⟩
  have hrep : Representable plainInstance := ⟨by decide, by decide, by decide⟩
  have hfits : FitsIn bufferSize plainInstance := fitsIn_of_length (by decide +kernel)
  have hguard : Guarded step Readable (start .standalone)
      [(⟨1, true⟩, .register plainInstance)] := by
    refine ⟨fun _ => ⟨fun _ _ _ hstanding => hstanding.elim, ?_⟩, fun _ _ => trivial⟩
    intro _ _
    refine ⟨by decide, by decide, hfits, ?_⟩
    rintro node ⟨name, -, hnode⟩
    cases hnode
  exact ⟨s, hrun, hhistory, registered_discoverable hguard (List.prefix_refl _) hrun⟩

/-- An instance with one long metadata value. -/
def longInstance : ServiceInstance :=
  ⟨[115], [104], 80, 1, true, 0, [([107], List.replicate 1100 118)]⟩

/-- The value is discovered without its end. -/
theorem long_value_cut : ∃ s,
    run step (start .standalone) [(⟨1, true⟩, .register longInstance)] = some s ∧
    Representable longInstance ∧ Printable longInstance ∧ Standing longInstance s.history ∧
    ¬Discoverable s := by
  have h : (run step (start .standalone) [(⟨1, true⟩, .register longInstance)]).map
      (fun s => (s.history, (discoverService .standalone ⟨1, true⟩ [115] s.tree).toOption.map
        fun instances => instances.map fun inst =>
          (inst.metadata.lookup [107]).map List.length)) =
        some ([.register longInstance], some [some 1009]) := by
    decide +kernel
  obtain ⟨s, hrun, hview⟩ := Option.map_eq_some_iff.mp h
  obtain ⟨hhistory, hfound⟩ := Prod.mk.inj hview
  have hrep : Representable longInstance := ⟨by decide, by decide, by decide⟩
  have hprint : Printable longInstance := ⟨by decide, by decide, by decide +kernel⟩
  have hstanding : Standing longInstance s.history := by
    rw [hhistory]
    exact .inl rfl
  refine ⟨s, hrun, hrep, hprint, hstanding, ?_⟩
  intro hall
  obtain ⟨instances, hok, found, hmem, hsame⟩ :=
    hall longInstance hrep hprint hstanding ⟨1, true⟩ rfl
  change discoverService .standalone ⟨1, true⟩ [115] s.tree = .ok instances at hok
  rw [hok] at hfound
  have hlengths := Option.some.inj hfound
  have hlength : (found.metadata.lookup [107]).map List.length = some 1009 :=
    List.mem_singleton.mp (hlengths ▸ List.mem_map_of_mem hmem)
  rw [hsame.metadata] at hlength
  exact absurd hlength (by decide +kernel)

end Mprpc.Discovery
