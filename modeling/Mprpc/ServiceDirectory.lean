import Mprpc.Library.Transition
import Mprpc.ZooKeeperRegistry

namespace Mprpc

open Transport InstanceText

namespace ZooKeeperRegistry

/-- The states that `connectionWatcher` tells apart. -/
inductive SessionState
  | connected
  | expiredSession
  | authFailed
  | other
deriving DecidableEq, Repr

def connectionWatcher (state : SessionState) (r : ZooKeeperRegistry) : ZooKeeperRegistry :=
  match state with
  | .connected => { r with connected := true }
  | .expiredSession => { r with connected := false }
  | .authFailed => { r with connected := false }
  | .other => r

/-- `zookeeper_close` ends the session. -/
def closeZooKeeper (zk : ZooKeeper) (r : ZooKeeperRegistry) (t : zk.Tree) :
    ZooKeeperRegistry × zk.Tree :=
  ({ r with connected := false }, zk.closeSession t r.session)

def getAllService (zk : ZooKeeper) (r : ZooKeeperRegistry) (t : zk.Tree) : List Text :=
  if r.connected = false then []
  else
    match zk.getChildren t servicesPath with
    | none => []
    | some names => names

end ZooKeeperRegistry

namespace ServiceDirectory

open ZooKeeperRegistry Library.Transition

inductive Event
  | watcher (state : SessionState)
  | register (inst : ServiceInstance)
  | unregister (serviceName instanceId : Text)
  | close
  | timeout

/-- Registries on one ZooKeeper, each on a session of its own, with what was asked of
them: the services of all registrations, of those that returned true, and the instances
registered by a session that has not ended since. -/
structure Fleet (zk : ZooKeeper) where
  tree : zk.Tree
  connected : Nat → Bool
  called : List Text
  served : List Text
  living : List (Nat × ServiceInstance)

variable {zk : ZooKeeper}

def start (zk : ZooKeeper) : Fleet zk := ⟨zk.empty, fun _ => false, [], [], []⟩

def Fleet.registry (s : Fleet zk) (i : Nat) : ZooKeeperRegistry := ⟨i, s.connected i⟩

def Fleet.endSession (s : Fleet zk) (i : Nat) : List (Nat × ServiceInstance) :=
  s.living.filter fun entry => entry.1 ≠ i

/-- One registry takes a step, or the server ends its session. -/
def step (s : Fleet zk) : Nat × Event → Option (Fleet zk)
  | (i, .watcher state) =>
    some { s with
      connected := Function.update s.connected i
        (connectionWatcher state (s.registry i)).connected }
  | (i, .register inst) =>
    match registerService zk (s.registry i) inst s.tree with
    | (true, tree) =>
      some { s with
        tree := tree, called := inst.serviceName :: s.called,
        served := inst.serviceName :: s.served, living := (i, inst) :: s.living }
    | (false, tree) => some { s with tree := tree, called := inst.serviceName :: s.called }
  | (i, .unregister serviceName instanceId) =>
    some { s with tree := (unregisterService zk (s.registry i) serviceName instanceId s.tree).2 }
  | (i, .close) =>
    match closeZooKeeper zk (s.registry i) s.tree with
    | (r, tree) =>
      some { s with
        tree := tree, connected := Function.update s.connected i r.connected,
        living := s.endSession i }
  | (i, .timeout) => some { s with tree := zk.closeSession s.tree i, living := s.endSession i }

/-- The name of a registered service is one component of a path. -/
def Proper : Nat × Event → Prop
  | (_, .register inst) => 47 ∉ inst.serviceName ∧ 0 ∉ inst.serviceName
  | _ => True

/-- What the nodes under the services come from. -/
structure Kept (s : Fleet zk) : Prop where
  services : ∀ name node, 47 ∉ name → zk.find s.tree (servicePath name) = some node →
    node = ⟨[], none⟩ ∧ name ∈ s.called
  served : ∀ name ∈ s.served, 47 ∉ name ∧ zk.find s.tree (servicePath name) ≠ none
  rooted : s.served ≠ [] → zk.find s.tree servicesPath = some ⟨[], none⟩
  root : ∀ node, zk.find s.tree servicesPath = some node → node = ⟨[], none⟩
  instances : ∀ serviceName node, 47 ∉ serviceName → Child s.tree serviceName node →
    ∃ i inst, (i, inst) ∈ s.living ∧ inst.serviceName = serviceName ∧
      node = ⟨serializeInstance inst, some i⟩

theorem start_kept (zk : ZooKeeper) : Kept (start zk) := by
  have hnone : ∀ path node, zk.find (start zk).tree path ≠ some node := by
    intro path node h
    cases (zk.find_empty path).symm.trans h
  refine ⟨?_, ?_, fun h => absurd rfl h, ?_, ?_⟩
  · intro name node _ h
    exact absurd h (hnone _ _)
  · intro name h
    cases h
  · intro node h
    exact absurd h (hnone _ _)
  · rintro serviceName node - ⟨name, -, h⟩
    exact absurd h (hnone _ _)

section Paths

theorem servicePath_ne_child {name : Text} (hslash : 47 ∉ name) (serviceName below : Text) :
    servicePath name ≠ childPath (servicePath serviceName) below := by
  intro h
  have hname : name = serviceName ++ 47 :: below := by
    apply (List.append_right_inj (servicesPath ++ [47])).mp
    simpa [servicePath, childPath] using h
  exact hslash (by simp [hname])

theorem servicePath_ne_root (name : Text) : servicePath name ∉ [rootPath, servicesPath] := by
  have hlength : ∀ path ∈ [rootPath, servicesPath], path.length ≤ servicesPath.length := by
    decide
  intro h
  have := hlength _ h
  simp only [servicePath, childPath, List.length_append, List.length_cons] at this
  omega

theorem child_ne_root (serviceName below : Text) :
    childPath (servicePath serviceName) below ∉ [rootPath, servicesPath] := by
  have h : childPath (servicePath serviceName) below =
      servicePath (serviceName ++ 47 :: below) := by
    simp [servicePath, childPath]
  rw [h]
  exact servicePath_ne_root _

end Paths

section Steps

variable {s : Fleet zk} {t u : zk.Tree} {inst : ServiceInstance} {r : ZooKeeperRegistry}

theorem createServicePath_services {serviceName : Text}
    (h : createServicePath zk serviceName t = (true, u)) : zk.find u servicesPath ≠ none := by
  let t₁ := (zk.create t rootPath []).2
  let t₂ := (zk.create t₁ servicesPath []).2
  have hservices := (create_grows t₁ servicesPath []).2
  have hgrows := (create_grows t₂ (cString (servicePath serviceName)) []).1
  by_cases hfail₁ : (zk.create t rootPath []).1 = .failed
  · simp [createServicePath, hfail₁] at h
  by_cases hfail₂ : (zk.create t₁ servicesPath []).1 = .failed
  · simp [createServicePath, hfail₁, t₁] at h hfail₂
    simp [hfail₂] at h
  have hu : u = (zk.create t₂ (cString (servicePath serviceName)) []).2 := by
    simp [createServicePath, hfail₁, t₁] at h hfail₂
    simp [hfail₂] at h
    exact h.2.symm
  obtain ⟨node, hnode⟩ := Option.ne_none_iff_exists'.mp (hservices hfail₂)
  rw [hu, hgrows.kept _ _ hnode]
  exact Option.some_ne_none node

theorem registerService_services (h : registerService zk r inst t = (true, u)) :
    zk.find u servicesPath ≠ none := by
  by_cases hconnected : r.connected = false
  · simp [registerService, hconnected] at h
  by_cases hnamed : inst.serviceName = []
  · simp [registerService, hconnected, hnamed] at h
  by_cases hmade : (createServicePath zk inst.serviceName t).1 = false
  · simp [registerService, hconnected, hnamed, hmade] at h
  have hpath : createServicePath zk inst.serviceName t =
      (true, (createServicePath zk inst.serviceName t).2) :=
    Prod.ext (Bool.eq_true_of_not_eq_false hmade) rfl
  obtain ⟨node, hnode⟩ := Option.ne_none_iff_exists'.mp (createServicePath_services hpath)
  have hcreated : (createServiceInstanceNode zk r inst
      (createServicePath zk inst.serviceName t).2).2 = u := by
    simp only [registerService, if_neg hconnected, if_neg hnamed, if_neg hmade] at h
    exact congrArg Prod.snd h
  rw [← hcreated, createServiceInstanceNode]
  obtain ⟨-, hfind⟩ | ⟨suffix, -, -, hnew, hfind⟩ := zk.createSequence_spec
    (Prod.eta (zk.createSequence (createServicePath zk inst.serviceName t).2 r.session
      (cString (instancePath inst)) (serializeInstance inst))).symm
  · rw [hfind, hnode]
    exact Option.some_ne_none node
  · rw [(grows_of_update hnew hfind).kept _ _ hnode]
    exact Option.some_ne_none node

theorem service_of_added {result : Bool} {name : Text} {node : Znode} (hslash : 47 ∉ name)
    (hnul : 0 ∉ inst.serviceName)
    (h : Persistent inst.serviceName (servicePath name) node ∨
      (result = true ∧ Made r inst (servicePath name) node)) :
    node = ⟨[], none⟩ ∧ name = inst.serviceName := by
  have hpath := nul_notMem_servicePath.mpr hnul
  obtain ⟨hmem, hnode⟩ | ⟨-, suffix, -, heq, -⟩ := h
  · refine ⟨hnode, ?_⟩
    rw [cString_of_notMem hpath] at hmem
    have hlast : servicePath name = servicePath inst.serviceName := by
      by_contra hne
      exact servicePath_ne_root name (by simpa [hne] using hmem)
    exact servicePath_inj hlast
  · rw [instancePath, cString_childPath hpath, childPath, List.append_assoc,
      List.cons_append] at heq
    exact absurd heq (servicePath_ne_child hslash _ _)

theorem root_of_added {result : Bool} {node : Znode} (hnul : 0 ∉ inst.serviceName)
    (h : Persistent inst.serviceName servicesPath node ∨
      (result = true ∧ Made r inst servicesPath node)) : node = ⟨[], none⟩ := by
  obtain ⟨-, hnode⟩ | ⟨-, suffix, -, heq, -⟩ := h
  · exact hnode
  · have hpath := nul_notMem_servicePath.mpr hnul
    rw [instancePath, cString_childPath hpath, childPath, List.append_assoc,
      List.cons_append] at heq
    have hmem : childPath (servicePath inst.serviceName) (cString inst.getId ++ suffix) ∈
        [rootPath, servicesPath] := by
      rw [childPath, ← heq]
      simp
    exact absurd hmem (child_ne_root _ _)

theorem instance_of_added {result : Bool} {serviceName name : Text} {node : Znode}
    (hservice : 47 ∉ serviceName) (hslash : 47 ∉ inst.serviceName) (hnul : 0 ∉ inst.serviceName)
    (h : Persistent inst.serviceName (childPath (servicePath serviceName) name) node ∨
      (result = true ∧ Made r inst (childPath (servicePath serviceName) name) node)) :
    result = true ∧ inst.serviceName = serviceName ∧
      node = ⟨serializeInstance inst, some r.session⟩ := by
  have hpath := nul_notMem_servicePath.mpr hnul
  obtain ⟨hmem, -⟩ | ⟨hresult, suffix, -, heq, hnode⟩ := h
  · rw [cString_of_notMem hpath] at hmem
    have hne := (servicePath_ne_child hslash serviceName name).symm
    exact absurd (by simpa [hne] using hmem) (child_ne_root serviceName name)
  · refine ⟨hresult, ?_, hnode⟩
    rw [instancePath, cString_childPath hpath] at heq
    have hnames : serviceName ++ 47 :: name =
        inst.serviceName ++ 47 :: (cString inst.getId ++ suffix) := by
      apply (List.append_right_inj (servicesPath ++ [47])).mp
      simpa [servicePath, childPath] using heq
    exact (Library.Lines.split_first hservice hslash hnames).1.symm

theorem Kept.register {i : Nat} {result : Bool} (kept : Kept s)
    (hslash : 47 ∉ inst.serviceName) (hnul : 0 ∉ inst.serviceName)
    (h : registerService zk (s.registry i) inst s.tree = (result, t))
    {u : Fleet zk} (htree : u.tree = t) (hcalled : u.called = inst.serviceName :: s.called)
    (hserved : u.served = if result then inst.serviceName :: s.served else s.served)
    (hliving : u.living = if result then (i, inst) :: s.living else s.living) : Kept u := by
  obtain ⟨hgrows, hregistered⟩ := registerService_spec h
  have hold : ∀ entry ∈ s.living, entry ∈ u.living := by
    intro entry hentry
    rw [hliving]
    split
    · exact List.mem_cons_of_mem _ hentry
    · exact hentry
  have hroot : ∀ node, zk.find t servicesPath = some node → node = ⟨[], none⟩ := by
    intro node hnode
    obtain hnode | hadded := hgrows.added _ _ hnode
    · exact kept.root node hnode
    · exact root_of_added hnul hadded
  refine ⟨?_, ?_, ?_, htree ▸ hroot, ?_⟩
  · intro name node hname hfind
    rw [htree] at hfind
    rw [hcalled]
    obtain hfind | hadded := hgrows.added _ _ hfind
    · obtain ⟨hnode, hmem⟩ := kept.services name node hname hfind
      exact ⟨hnode, List.mem_cons_of_mem _ hmem⟩
    · obtain ⟨hnode, rfl⟩ := service_of_added hname hnul hadded
      exact ⟨hnode, List.mem_cons_self⟩
  · intro name hname
    rw [htree]
    rw [hserved] at hname
    have hstays : name ∈ s.served → 47 ∉ name ∧ zk.find t (servicePath name) ≠ none := by
      intro hmem
      obtain ⟨hfree, hfind⟩ := kept.served name hmem
      obtain ⟨node, hnode⟩ := Option.ne_none_iff_exists'.mp hfind
      exact ⟨hfree, by rw [hgrows.kept _ _ hnode]; exact Option.some_ne_none node⟩
    cases result with
    | false => exact hstays hname
    | true =>
      obtain rfl | hmem := List.mem_cons.mp hname
      · have hservice := (hregistered rfl).service
        rw [cString_of_notMem (nul_notMem_servicePath.mpr hnul)] at hservice
        exact ⟨hslash, hservice⟩
      · exact hstays hmem
  · intro hsome
    rw [htree]
    rw [hserved] at hsome
    cases result with
    | false => exact hgrows.kept _ _ (kept.rooted hsome)
    | true =>
      obtain ⟨node, hnode⟩ := Option.ne_none_iff_exists'.mp (registerService_services h)
      rwa [hroot node hnode] at hnode
  · rintro serviceName node hservice ⟨name, hname, hfind⟩
    rw [htree] at hfind
    obtain hfind | hadded := hgrows.added _ _ hfind
    · obtain ⟨j, other, hmem, hrest⟩ :=
        kept.instances serviceName node hservice ⟨name, hname, hfind⟩
      exact ⟨j, other, hold _ hmem, hrest⟩
    · obtain ⟨rfl, hnamed, hnode⟩ := instance_of_added hservice hslash hnul hadded
      refine ⟨i, inst, ?_, hnamed, hnode⟩
      rw [hliving]
      exact List.mem_cons_self

/-- No deletion reaches the node of a service. -/
theorem Kept.unregister {i : Nat} (kept : Kept s) (serviceName instanceId : Text)
    {u : Fleet zk}
    (htree : u.tree = (unregisterService zk (s.registry i) serviceName instanceId s.tree).2)
    (hcalled : u.called = s.called) (hserved : u.served = s.served)
    (hliving : u.living = s.living) : Kept u := by
  have hfinds : (∀ path node, zk.find u.tree path = some node →
        zk.find s.tree path = some node) ∧
      (∀ name, 47 ∉ name →
        zk.find u.tree (servicePath name) = zk.find s.tree (servicePath name)) ∧
      zk.find u.tree servicesPath = zk.find s.tree servicesPath := by
    rw [htree]
    obtain ⟨-, hsame⟩ | ⟨-, -, gone, -, -, -, -, -, -, -, hupdate⟩ :=
      unregisterService_spec
        (Prod.eta (unregisterService zk (s.registry i) serviceName instanceId s.tree)).symm
    · rw [hsame]
      exact ⟨fun _ _ h => h, fun _ _ => rfl, rfl⟩
    · refine ⟨fun path node h => (find_removed hupdate h).2, ?_, ?_⟩
      · intro name hname
        rw [hupdate, Function.update_of_ne (servicePath_ne_child hname serviceName gone)]
      · have hne : servicesPath ≠ childPath (servicePath serviceName) gone := by
          intro heq
          exact child_ne_root serviceName gone (by simp [← heq])
        rw [hupdate, Function.update_of_ne hne]
  obtain ⟨hback, hservices, hroot⟩ := hfinds
  refine ⟨?_, ?_, ?_, ?_, ?_⟩
  · intro name node hname hfind
    rw [hcalled]
    exact kept.services name node hname (hback _ _ hfind)
  · intro name hname
    obtain ⟨hfree, hfind⟩ := kept.served name (hserved ▸ hname)
    exact ⟨hfree, by rwa [hservices name hfree]⟩
  · intro hsome
    rw [hroot]
    exact kept.rooted (hserved ▸ hsome)
  · intro node hnode
    exact kept.root node (hback _ _ hnode)
  · rintro service node hservice ⟨name, hname, hfind⟩
    rw [hliving]
    exact kept.instances service node hservice ⟨name, hname, hback _ _ hfind⟩

/-- With its session an instance goes, and the services stay. -/
theorem Kept.ended {i : Nat} (kept : Kept s) {u : Fleet zk}
    (htree : u.tree = zk.closeSession s.tree i) (hcalled : u.called = s.called)
    (hserved : u.served = s.served) (hliving : u.living = s.endSession i) : Kept u := by
  have hfinds : ∀ path, zk.find u.tree path =
      (zk.find s.tree path).filter fun node => node.owner ≠ some i := by
    rw [htree]
    exact zk.find_closeSession s.tree i
  refine ⟨?_, ?_, ?_, ?_, ?_⟩
  · intro name node hname hfind
    rw [hfinds, Option.filter_eq_some_iff] at hfind
    rw [hcalled]
    exact kept.services name node hname hfind.1
  · intro name hname
    obtain ⟨hfree, hfind⟩ := kept.served name (hserved ▸ hname)
    obtain ⟨node, hnode⟩ := Option.ne_none_iff_exists'.mp hfind
    obtain ⟨rfl, -⟩ := kept.services name node hfree hnode
    refine ⟨hfree, ?_⟩
    rw [hfinds, hnode]
    exact Option.some_ne_none _
  · intro hsome
    rw [hfinds, kept.rooted (hserved ▸ hsome)]
    rfl
  · intro node hfind
    rw [hfinds, Option.filter_eq_some_iff] at hfind
    exact kept.root node hfind.1
  · rintro service node hservice ⟨name, hname, hfind⟩
    rw [hfinds, Option.filter_eq_some_iff] at hfind
    obtain ⟨j, inst, hmem, hnamed, rfl⟩ :=
      kept.instances service node hservice ⟨name, hname, hfind.1⟩
    have hother : j ≠ i := by simpa using hfind.2
    refine ⟨j, inst, ?_, hnamed, rfl⟩
    rw [hliving]
    exact List.mem_filter.mpr ⟨hmem, decide_eq_true hother⟩

theorem step_kept (s : Fleet zk) (l : Nat × Event) (t : Fleet zk) (kept : Kept s)
    (hproper : Proper l) (h : step s l = some t) : Kept t := by
  obtain ⟨i, event⟩ := l
  cases event with
  | watcher state =>
    cases h
    exact ⟨kept.services, kept.served, kept.rooted, kept.root, kept.instances⟩
  | register inst =>
    cases hrun : registerService zk (s.registry i) inst s.tree with
    | mk result tree =>
    cases result with
    | true =>
      simp only [step, hrun] at h
      cases h
      exact kept.register hproper.1 hproper.2 hrun rfl rfl rfl rfl
    | false =>
      simp only [step, hrun] at h
      cases h
      exact kept.register hproper.1 hproper.2 hrun rfl rfl rfl rfl
  | unregister serviceName instanceId =>
    cases h
    exact kept.unregister serviceName instanceId rfl rfl rfl rfl
  | close =>
    cases h
    exact kept.ended rfl rfl rfl rfl
  | timeout =>
    cases h
    exact kept.ended rfl rfl rfl rfl

theorem run_kept {events : List (Nat × Event)} (hproper : ∀ l ∈ events, Proper l)
    (h : run step (start zk) events = some s) : Kept s :=
  run_invariant step_kept (start_kept zk)
    (guarded_of_invariant step_kept (fun _ _ _ hl => hl) (start_kept zk) hproper) h

end Steps

section Listing

variable {s : Fleet zk} {events : List (Nat × Event)} {r : ZooKeeperRegistry}

theorem mem_getAllService (hconnected : r.connected = true) {t : zk.Tree}
    (hroot : zk.find t servicesPath ≠ none) (name : Text) :
    name ∈ getAllService zk r t ↔ 47 ∉ name ∧ zk.find t (servicePath name) ≠ none := by
  rw [getAllService, if_neg (by simp [hconnected])]
  cases h : zk.getChildren t servicesPath with
  | none => exact absurd (zk.getChildren_eq_none.mp h) hroot
  | some names => exact zk.mem_getChildren h name

theorem find_of_mem_getAllService {t : zk.Tree} {name : Text} (h : name ∈ getAllService zk r t) :
    47 ∉ name ∧ zk.find t (servicePath name) ≠ none := by
  unfold getAllService at h
  split at h
  · cases h
  · split at h
    · cases h
    · rename_i names hnames
      exact (zk.mem_getChildren hnames name).mp h

/-- After any run the services listed lie between those of the registrations that
returned true and those of all registrations: none is forgotten when its instances are
unregistered or their sessions end. -/
theorem services_listed (hproper : ∀ l ∈ events, Proper l)
    (hrun : run step (start zk) events = some s) (hconnected : r.connected = true) :
    (∀ name ∈ s.served, name ∈ getAllService zk r s.tree) ∧
      ∀ name ∈ getAllService zk r s.tree, name ∈ s.called := by
  have kept := run_kept hproper hrun
  constructor
  · intro name hname
    have hroot : zk.find s.tree servicesPath ≠ none := by
      rw [kept.rooted (List.ne_nil_of_mem hname)]
      exact Option.some_ne_none _
    exact (mem_getAllService hconnected hroot name).mpr (kept.served name hname)
  · intro name hname
    obtain ⟨hslash, hfind⟩ := find_of_mem_getAllService hname
    obtain ⟨node, hnode⟩ := Option.ne_none_iff_exists'.mp hfind
    exact (kept.services name node hslash hnode).2

/-- Two services, one of which goes with its instance. -/
def twoServices : List (Nat × Event) :=
  [(1, .watcher .connected), (2, .watcher .connected),
    (1, .register ⟨[115], [104], 80, 1, true, 0, []⟩),
    (2, .register ⟨[116], [104], 81, 1, true, 0, []⟩),
    (1, .unregister [115] [104, 58, 56, 48]), (2, .timeout)]

theorem services_listed_two : ∃ s : Fleet .standalone,
    run step (start .standalone) twoServices = some s ∧ s.living.length = 1 ∧
    (∀ name ∈ [[116], [115]], name ∈ getAllService .standalone ⟨3, true⟩ s.tree) ∧
      ∀ name ∈ getAllService .standalone ⟨3, true⟩ s.tree, name ∈ s.called := by
  have h : (run step (start .standalone) twoServices).map
      (fun s => (s.living.length, s.served)) = some (1, [[116], [115]]) := by
    decide +kernel
  obtain ⟨s, hrun, hview⟩ := Option.map_eq_some_iff.mp h
  obtain ⟨hliving, hserved⟩ := Prod.mk.inj hview
  have hproper : ∀ l ∈ twoServices, Proper l := by
    simp [twoServices, Proper]
  rw [← hserved]
  exact ⟨s, hrun, hliving, services_listed (r := ⟨3, true⟩) hproper hrun rfl⟩

end Listing

/-- What the decoder reads of an instance that was registered for the service, by a
session that has not ended since. -/
def Living (s : Fleet zk) (serviceName : Text) (found : ServiceInstance) : Prop :=
  ∃ i inst, (i, inst) ∈ s.living ∧ inst.serviceName = serviceName ∧
    deserializeInstance ((serializeInstance inst).take bufferSize) = .ok found

theorem Kept.living_of_discovered {s : Fleet zk} (kept : Kept s) {r : ZooKeeperRegistry}
    {serviceName : Text} (hslash : 47 ∉ serviceName) (hnul : 0 ∉ serviceName)
    {instances : List ServiceInstance}
    (h : discoverService zk r serviceName s.tree = .ok instances) :
    ∀ found ∈ instances, Living s serviceName found := by
  intro found hfound
  obtain ⟨node, hchild, hread⟩ := child_of_mem_discover hnul h hfound
  obtain ⟨i, inst, hmem, hnamed, rfl⟩ := kept.instances serviceName node hslash hchild
  exact ⟨i, inst, hmem, hnamed, hread⟩

end ServiceDirectory

end Mprpc
