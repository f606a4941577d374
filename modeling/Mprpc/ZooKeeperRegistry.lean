import Mprpc.InstanceText
import Mprpc.ZooKeeper

namespace Mprpc

open Transport InstanceText Decimal

/-- A registry object: the session of its ZooKeeper handle, and `connected_`. -/
structure ZooKeeperRegistry where
  session : Nat
  connected : Bool
deriving DecidableEq, Repr

namespace ZooKeeperRegistry

def rootPath : Text := text "/rpc"

def servicesPath : Text := text "/rpc/services"

/-- The array that `zoo_get` reads into. -/
def bufferSize : Nat := 1024

def servicePath (serviceName : Text) : Text := childPath servicesPath serviceName

def instancePath (inst : ServiceInstance) : Text :=
  childPath (servicePath inst.serviceName) inst.getId

/-- What a C function sees of a string: `c_str()` ends at the first zero byte. -/
def cString (s : Text) : Text := s.takeWhile (· ≠ 0)

variable (zk : ZooKeeper)

def createServicePath (serviceName : Text) (t : zk.Tree) : Bool × zk.Tree :=
  let (rc, t) := zk.create t rootPath []
  if rc = .failed then (false, t)
  else
    let (rc, t) := zk.create t servicesPath []
    if rc = .failed then (false, t)
    else
      let (rc, t) := zk.create t (cString (servicePath serviceName)) []
      (rc ≠ .failed, t)

/-- `none` is the empty string. -/
def createServiceInstanceNode (r : ZooKeeperRegistry) (inst : ServiceInstance) (t : zk.Tree) :
    Option Text × zk.Tree :=
  zk.createSequence t r.session (cString (instancePath inst)) (serializeInstance inst)

def registerService (r : ZooKeeperRegistry) (inst : ServiceInstance) (t : zk.Tree) :
    Bool × zk.Tree :=
  if r.connected = false then (false, t)
  else if inst.serviceName = [] then (false, t)
  else
    let (made, t) := createServicePath zk inst.serviceName t
    if made = false then (false, t)
    else
      let (nodePath, t) := createServiceInstanceNode zk r inst t
      (nodePath.isSome, t)

/-- The loop of `deleteServiceInstanceNode` over the children. -/
def deleteMatching (path instanceId : Text) (t : zk.Tree) :
    List Text → Except NumberError Bool × zk.Tree
  | [] => (.ok false, t)
  | name :: names =>
    match zk.get t (cString (childPath path name)) bufferSize with
    | none => deleteMatching path instanceId t names
    | some data =>
      match deserializeInstance data with
      | .error e => (.error e, t)
      | .ok inst =>
        if inst.getId = instanceId then
          let (deleted, t) := zk.delete t (cString (childPath path name))
          (.ok deleted, t)
        else deleteMatching path instanceId t names

def deleteServiceInstanceNode (serviceName instanceId : Text) (t : zk.Tree) :
    Except NumberError Bool × zk.Tree :=
  match zk.getChildren t (cString (servicePath serviceName)) with
  | none => (.ok false, t)
  | some names => deleteMatching zk (servicePath serviceName) instanceId t names

def unregisterService (r : ZooKeeperRegistry) (serviceName instanceId : Text) (t : zk.Tree) :
    Except NumberError Bool × zk.Tree :=
  if r.connected = false then (.ok false, t)
  else deleteServiceInstanceNode zk serviceName instanceId t

/-- The loop of `getServiceInstances` over the children. -/
def collect (path : Text) (t : zk.Tree) : List Text → Except NumberError (List ServiceInstance)
  | [] => .ok []
  | name :: names =>
    match zk.get t (cString (childPath path name)) bufferSize with
    | none => collect path t names
    | some data => do
      let inst ← deserializeInstance data
      let instances ← collect path t names
      return inst :: instances

def getServiceInstances (serviceName : Text) (t : zk.Tree) :
    Except NumberError (List ServiceInstance) :=
  match zk.getChildren t (cString (servicePath serviceName)) with
  | none => .ok []
  | some names => collect zk (servicePath serviceName) t names

def discoverService (r : ZooKeeperRegistry) (serviceName : Text) (t : zk.Tree) :
    Except NumberError (List ServiceInstance) :=
  if r.connected = false then .ok [] else getServiceInstances zk serviceName t

section Paths

variable {s path name : Text}

theorem cString_of_notMem (h : 0 ∉ s) : cString s = s :=
  List.takeWhile_eq_self_iff.mpr fun _ hc => decide_eq_true fun heq => h (heq ▸ hc)

theorem cString_append_of_mem (h : 0 ∈ s) (rest : Text) : cString (s ++ rest) = cString s := by
  induction s with
  | nil => cases h
  | cons c s ih =>
    by_cases hc : c = 0
    · subst hc
      rfl
    · have hmem : 0 ∈ s := (List.mem_cons.mp h).resolve_left (Ne.symm hc)
      have hcons : ∀ rest, cString (c :: rest) = c :: cString rest := fun rest =>
        List.takeWhile_cons_of_pos (decide_eq_true hc)
      rw [List.cons_append, hcons, hcons, ih hmem]

theorem cString_append_of_notMem (h : 0 ∉ s) (rest : Text) :
    cString (s ++ rest) = s ++ cString rest :=
  List.takeWhile_append_of_pos fun _ hc => decide_eq_true fun heq => h (heq ▸ hc)

theorem nul_notMem_servicesPath : (0 : UInt8) ∉ servicesPath := by decide

theorem nul_notMem_childPath : 0 ∉ childPath path name ↔ 0 ∉ path ∧ 0 ∉ name := by
  simp [childPath]

theorem nul_notMem_servicePath : 0 ∉ servicePath name ↔ 0 ∉ name := by
  rw [servicePath, nul_notMem_childPath]
  exact and_iff_right nul_notMem_servicesPath

theorem cString_childPath (h : 0 ∉ path) :
    cString (childPath path name) = childPath path (cString name) := by
  rw [childPath, cString_append_of_notMem h]
  rfl

theorem childPath_inj {path path' name name' : Text} (h : 47 ∉ name) (h' : 47 ∉ name')
    (heq : childPath path name = childPath path' name') : path = path' ∧ name = name' :=
  Library.Lines.split_last h h' heq

theorem servicePath_inj {name name' : Text} (h : servicePath name = servicePath name') :
    name = name' :=
  (List.cons.inj (List.append_cancel_left h)).2

theorem child_of_append_suffix {p suffix : Text} (hslash : 47 ∈ p) (hsuffix : 47 ∉ suffix)
    (hname : 47 ∉ name) (h : p ++ suffix = childPath path name) :
    ∃ short, 47 ∉ short ∧ p = childPath path short := by
  obtain ⟨parent, short, rfl, hshort⟩ := Library.Lines.exists_last_split hslash
  refine ⟨short, hshort, ?_⟩
  have hlong : 47 ∉ short ++ suffix := by simp [hshort, hsuffix]
  rw [List.append_assoc, List.cons_append] at h
  rw [(childPath_inj hlong hname h).1.symm]
  rfl

theorem slash_mem_instancePath (inst : ServiceInstance) : 47 ∈ cString (instancePath inst) := by
  rw [instancePath, servicePath, childPath, childPath, List.append_assoc,
    cString_append_of_notMem nul_notMem_servicesPath]
  exact List.mem_append_left _ (by decide)

end Paths

section Trees

variable {zk} {t u v : zk.Tree}

/-- Nodes are added to a tree, and nothing else happens to it. -/
structure Grows (t u : zk.Tree) (added : Text → Znode → Prop) : Prop where
  kept : ∀ path node, zk.find t path = some node → zk.find u path = some node
  added : ∀ path node, zk.find u path = some node → zk.find t path = some node ∨ added path node

theorem Grows.refl (t : zk.Tree) (added : Text → Znode → Prop) : Grows t t added :=
  ⟨fun _ _ h => h, fun _ _ h => .inl h⟩

theorem grows_of_eq (h : zk.find u = zk.find t) (added : Text → Znode → Prop) : Grows t u added :=
  ⟨fun _ _ hnode => h ▸ hnode, fun _ _ hnode => .inl (h ▸ hnode)⟩

theorem grows_of_update {path : Text} {node : Znode} (hnew : zk.find t path = none)
    (h : zk.find u = Function.update (zk.find t) path (some node)) :
    Grows t u fun p n => p = path ∧ n = node := by
  refine ⟨?_, ?_⟩
  · intro p n hn
    have hp : p ≠ path := by
      rintro rfl
      rw [hnew] at hn
      cases hn
    rwa [h, Function.update_of_ne hp]
  · intro p n hn
    by_cases hp : p = path
    · subst hp
      rw [h, Function.update_self] at hn
      cases hn
      exact .inr ⟨rfl, rfl⟩
    · rw [h, Function.update_of_ne hp] at hn
      exact .inl hn

theorem Grows.trans {added more all : Text → Znode → Prop} (h : Grows t u added)
    (h' : Grows u v more) (hadded : ∀ path node, added path node → all path node)
    (hmore : ∀ path node, more path node → all path node) : Grows t v all := by
  refine ⟨fun path node hnode => h'.kept path node (h.kept path node hnode), ?_⟩
  intro path node hnode
  obtain hu | hu := h'.added path node hnode
  · exact (h.added path node hu).imp_right (hadded path node)
  · exact .inr (hmore path node hu)

theorem create_grows (t : zk.Tree) (path : Text) (data : Bytes) :
    Grows t (zk.create t path data).2 (fun p n => p = path ∧ n = ⟨data, none⟩) ∧
      ((zk.create t path data).1 ≠ .failed → zk.find (zk.create t path data).2 path ≠ none) := by
  obtain ⟨-, hnew, hfind⟩ | ⟨-, hold, hfind⟩ | ⟨hrc, hfind⟩ :=
    zk.create_spec (Prod.eta (zk.create t path data)).symm
  · refine ⟨grows_of_update hnew hfind, fun _ => ?_⟩
    rw [hfind, Function.update_self]
    exact Option.some_ne_none _
  · exact ⟨grows_of_eq hfind _, fun _ => by rwa [hfind]⟩
  · exact ⟨grows_of_eq hfind _, fun hne => absurd hrc hne⟩

/-- The persistent nodes that a registration makes on its way. -/
def Persistent (serviceName path : Text) (node : Znode) : Prop :=
  path ∈ [rootPath, servicesPath, cString (servicePath serviceName)] ∧ node = ⟨[], none⟩

theorem createServicePath_grows (serviceName : Text) (t : zk.Tree) :
    Grows t (createServicePath zk serviceName t).2 (Persistent serviceName) ∧
      ((createServicePath zk serviceName t).1 = true →
        zk.find (createServicePath zk serviceName t).2 (cString (servicePath serviceName)) ≠
          none) := by
  have hmade : ∀ path ∈ [rootPath, servicesPath, cString (servicePath serviceName)], ∀ p n,
      p = path ∧ n = (⟨[], none⟩ : Znode) → Persistent serviceName p n := by
    rintro path hpath p n ⟨rfl, rfl⟩
    exact ⟨hpath, rfl⟩
  have hroot := (create_grows t rootPath []).1
  let t₁ := (zk.create t rootPath []).2
  have hservices := (create_grows t₁ servicesPath []).1
  let t₂ := (zk.create t₁ servicesPath []).2
  have hservice := create_grows t₂ (cString (servicePath serviceName)) []
  have h₁ : Grows t t₁ (Persistent serviceName) :=
    hroot.trans (Grows.refl t₁ _) (hmade rootPath (by simp)) fun _ _ h => h
  have h₂ : Grows t t₂ (Persistent serviceName) :=
    h₁.trans hservices (fun _ _ h => h) (hmade servicesPath (by simp))
  have h₃ := h₂.trans hservice.1 (fun _ _ h => h) (hmade _ (by simp))
  by_cases hfail₁ : (zk.create t rootPath []).1 = .failed
  · have heq : createServicePath zk serviceName t = (false, t₁) := by
      simp [createServicePath, hfail₁, t₁]
    rw [heq]
    exact ⟨h₁, fun h => by cases h⟩
  · by_cases hfail₂ : (zk.create t₁ servicesPath []).1 = .failed
    · have heq : createServicePath zk serviceName t = (false, t₂) := by
        simp [createServicePath, hfail₁, t₁, t₂] at hfail₂ ⊢
        simp [hfail₂]
      rw [heq]
      exact ⟨h₂, fun h => by cases h⟩
    · have heq : createServicePath zk serviceName t =
          (decide ((zk.create t₂ (cString (servicePath serviceName)) []).1 ≠ .failed),
            (zk.create t₂ (cString (servicePath serviceName)) []).2) := by
        simp [createServicePath, hfail₁, t₁, t₂] at hfail₂ ⊢
        simp [hfail₂]
      rw [heq]
      exact ⟨h₃, fun h => hservice.2 (of_decide_eq_true h)⟩

/-- The node of a registration; the sequence number has no slash. -/
def Made (r : ZooKeeperRegistry) (inst : ServiceInstance) (path : Text) (node : Znode) : Prop :=
  ∃ suffix, 47 ∉ suffix ∧ path = cString (instancePath inst) ++ suffix ∧
    node = ⟨serializeInstance inst, some r.session⟩

/-- What a registration that returns true has done. -/
structure Registered (r : ZooKeeperRegistry) (inst : ServiceInstance) (t u : zk.Tree) : Prop where
  named : inst.serviceName ≠ []
  service : zk.find u (cString (servicePath inst.serviceName)) ≠ none
  made : ∃ path node, Made r inst path node ∧ zk.find t path = none ∧ zk.find u path = some node

theorem registerService_spec {r : ZooKeeperRegistry} {inst : ServiceInstance} {result : Bool}
    (h : registerService zk r inst t = (result, u)) :
    Grows t u (fun path node => Persistent inst.serviceName path node ∨
      (result = true ∧ Made r inst path node)) ∧ (result = true → Registered r inst t u) := by
  by_cases hconnected : r.connected = false
  · simp only [registerService, if_pos hconnected] at h
    cases h
    exact ⟨Grows.refl t _, fun h => by cases h⟩
  by_cases hnamed : inst.serviceName = []
  · simp only [registerService, if_neg hconnected, if_pos hnamed] at h
    cases h
    exact ⟨Grows.refl t _, fun h => by cases h⟩
  obtain ⟨hservice, hfound⟩ := createServicePath_grows inst.serviceName t
  let t₁ := (createServicePath zk inst.serviceName t).2
  by_cases hmade : (createServicePath zk inst.serviceName t).1 = false
  · simp only [registerService, if_neg hconnected, if_neg hnamed, if_pos hmade] at h
    cases h
    exact ⟨hservice.trans (Grows.refl _ _) (fun _ _ => .inl) fun _ _ h => h, fun h => by cases h⟩
  simp only [registerService, if_neg hconnected, if_neg hnamed, if_neg hmade] at h
  obtain ⟨hnone, hfind⟩ | ⟨suffix, hslash, hsome, hnew, hfind⟩ := zk.createSequence_spec
    (Prod.eta (zk.createSequence t₁ r.session (cString (instancePath inst))
      (serializeInstance inst))).symm
  · rw [createServiceInstanceNode, hnone] at h
    cases h
    exact ⟨hservice.trans (grows_of_eq hfind _) (fun _ _ => .inl) fun _ _ h => h,
      fun h => by cases h⟩
  · rw [createServiceInstanceNode, hsome] at h
    cases h
    have hmadeNode : Made r inst (cString (instancePath inst) ++ suffix)
        ⟨serializeInstance inst, some r.session⟩ := ⟨suffix, hslash, rfl, rfl⟩
    have hgrows := grows_of_update hnew hfind
    refine ⟨hservice.trans hgrows (fun _ _ => .inl) ?_, fun _ => ⟨hnamed, ?_, ?_⟩⟩
    · rintro path node ⟨rfl, rfl⟩
      exact .inr ⟨rfl, hmadeNode⟩
    · obtain ⟨node, hnode⟩ := Option.ne_none_iff_exists'.mp
        (hfound (Bool.eq_true_of_not_eq_false hmade))
      rw [hgrows.kept _ node hnode]
      exact Option.some_ne_none node
    · refine ⟨_, _, hmadeNode, ?_, ?_⟩
      · by_contra hsome
        obtain ⟨node, hnode⟩ := Option.ne_none_iff_exists'.mp hsome
        rw [hservice.kept _ node hnode] at hnew
        cases hnew
      · rw [hfind, Function.update_self]

theorem find_removed {path : Text} {node : Znode}
    (hupdate : zk.find u = Function.update (zk.find t) path none) {path' : Text}
    (h : zk.find u path' = some node) : path' ≠ path ∧ zk.find t path' = some node := by
  rw [hupdate, Function.update_apply] at h
  split at h
  · cases h
  · rename_i hne
    exact ⟨hne, h⟩

/-- The deletion of a child of a service, a leaf whose bytes are read as an instance
with the id. -/
def Removes (serviceName instanceId : Text) (t u : zk.Tree) : Prop :=
  0 ∉ serviceName ∧ ∃ name node inst, 47 ∉ name ∧
    zk.find t (childPath (servicePath serviceName) name) = some node ∧
    deserializeInstance (node.data.take bufferSize) = .ok inst ∧ inst.getId = instanceId ∧
    (∀ below, 47 ∉ below →
      zk.find t (childPath (childPath (servicePath serviceName) name) below) = none) ∧
    zk.find u = Function.update (zk.find t) (childPath (servicePath serviceName) name) none

theorem deleteMatching_spec {path instanceId : Text} {names : List Text}
    {result : Except NumberError Bool}
    (h : deleteMatching zk path instanceId t names = (result, u)) :
    (result ≠ .ok true ∧ zk.find u = zk.find t) ∨
      (result = .ok true ∧ ∃ name ∈ names, ∃ data inst,
        zk.get t (cString (childPath path name)) bufferSize = some data ∧
        deserializeInstance data = .ok inst ∧ inst.getId = instanceId ∧
        zk.delete t (cString (childPath path name)) = (true, u)) := by
  induction names with
  | nil =>
    cases h
    exact .inl ⟨by simp, rfl⟩
  | cons name names ih =>
    have hlater : deleteMatching zk path instanceId t names = (result, u) →
        (result ≠ .ok true ∧ zk.find u = zk.find t) ∨
          (result = .ok true ∧ ∃ name' ∈ name :: names, ∃ data inst,
            zk.get t (cString (childPath path name')) bufferSize = some data ∧
            deserializeInstance data = .ok inst ∧ inst.getId = instanceId ∧
            zk.delete t (cString (childPath path name')) = (true, u)) := by
      intro hrest
      obtain hkept | ⟨hok, name', hname', hrest⟩ := ih hrest
      · exact .inl hkept
      · exact .inr ⟨hok, name', List.mem_cons_of_mem name hname', hrest⟩
    cases hget : zk.get t (cString (childPath path name)) bufferSize with
    | none =>
      rw [deleteMatching, hget] at h
      exact hlater h
    | some data =>
      cases hdata : deserializeInstance data with
      | error e =>
        simp only [deleteMatching, hget, hdata] at h
        cases h
        exact .inl ⟨by simp, rfl⟩
      | ok inst =>
        by_cases hid : inst.getId = instanceId
        · simp only [deleteMatching, hget, hdata, if_pos hid] at h
          cases h
          cases hdeleted : (zk.delete t (cString (childPath path name))).1 with
          | false =>
            obtain ⟨-, hfind⟩ | ⟨htrue, -⟩ :=
              zk.delete_spec (Prod.eta (zk.delete t (cString (childPath path name)))).symm
            · exact .inl ⟨by simp, hfind⟩
            · rw [hdeleted] at htrue
              cases htrue
          | true =>
            exact .inr ⟨rfl, name, List.mem_cons_self, data, inst, hget, hdata, hid,
              Prod.ext hdeleted rfl⟩
        · simp only [deleteMatching, hget, hdata, if_neg hid] at h
          exact hlater h

/-- With a zero byte in the name of the service the loop would read the service's
own node, and that has children. -/
theorem unregisterService_spec {r : ZooKeeperRegistry} {serviceName instanceId : Text}
    {result : Except NumberError Bool}
    (h : unregisterService zk r serviceName instanceId t = (result, u)) :
    (result ≠ .ok true ∧ zk.find u = zk.find t) ∨
      (result = .ok true ∧ Removes serviceName instanceId t u) := by
  have hnothing : (.ok false, t) = (result, u) → result ≠ .ok true ∧ zk.find u = zk.find t := by
    intro h
    cases h
    exact ⟨by simp, rfl⟩
  unfold unregisterService deleteServiceInstanceNode at h
  split at h
  · exact .inl (hnothing h)
  · split at h
    · exact .inl (hnothing h)
    · rename_i names hnames
      obtain hkept | ⟨hok, name, hname, data, inst, hget, hdata, hid, hdelete⟩ :=
        deleteMatching_spec h
      · exact .inl hkept
      · obtain ⟨hslash, hchild⟩ := (zk.mem_getChildren hnames name).mp hname
        obtain ⟨hfalse, -⟩ | ⟨-, hleaf, hfind⟩ := zk.delete_spec hdelete
        · cases hfalse
        · have hnul : 0 ∉ serviceName := by
            intro hmem
            have hpath : 0 ∈ servicePath serviceName :=
              not_not.mp fun h => nul_notMem_servicePath.mp h hmem
            rw [childPath, cString_append_of_mem hpath] at hleaf
            exact hchild (hleaf name hslash)
          rw [cString_of_notMem (nul_notMem_servicePath.mpr hnul)] at hchild
          obtain ⟨node, hnode⟩ := Option.ne_none_iff_exists'.mp hchild
          have hcut := cString_of_notMem (zk.nul_notMem hnode)
          rw [hcut, zk.get_eq, hnode] at hget
          cases hget
          rw [hcut] at hleaf hfind
          exact .inr ⟨hok, hnul, name, node, inst, hslash, hnode, hdata, hid, hleaf, hfind⟩

theorem collect_ok {path : Text} {names : List Text}
    (h : ∀ name ∈ names, ∀ data, zk.get t (cString (childPath path name)) bufferSize = some data →
      ∃ inst, deserializeInstance data = .ok inst) :
    ∃ instances, collect zk path t names = .ok instances := by
  induction names with
  | nil => exact ⟨[], rfl⟩
  | cons name names ih =>
    obtain ⟨instances, hrest⟩ := ih fun name' hname' => h name' (List.mem_cons_of_mem name hname')
    cases hget : zk.get t (cString (childPath path name)) bufferSize with
    | none => exact ⟨instances, by rw [collect, hget]; exact hrest⟩
    | some data =>
      obtain ⟨inst, hinst⟩ := h name List.mem_cons_self data hget
      refine ⟨inst :: instances, ?_⟩
      rw [collect, hget]
      simp only [hinst, hrest]
      rfl

theorem mem_collect {path : Text} {names : List Text} {instances : List ServiceInstance}
    (h : collect zk path t names = .ok instances) (inst : ServiceInstance) :
    inst ∈ instances ↔ ∃ name ∈ names, ∃ data,
      zk.get t (cString (childPath path name)) bufferSize = some data ∧
      deserializeInstance data = .ok inst := by
  induction names generalizing instances with
  | nil =>
    cases h
    simp
  | cons name names ih =>
    cases hget : zk.get t (cString (childPath path name)) bufferSize with
    | none =>
      rw [collect, hget] at h
      simp only [List.mem_cons, exists_eq_or_imp, hget, reduceCtorEq, false_and, exists_false,
        false_or, ih h]
    | some data =>
      rw [collect, hget] at h
      cases hdata : deserializeInstance data with
      | error e =>
        simp only [hdata] at h
        cases h
      | ok first =>
        cases hrest : collect zk path t names with
        | error e =>
          simp only [hdata, hrest] at h
          cases h
        | ok rest =>
          simp only [hdata, hrest] at h
          cases h
          rw [List.mem_cons, ih hrest]
          simp [hget, hdata, eq_comm]

/-- A node among the children of a service. -/
def Child (t : zk.Tree) (serviceName : Text) (node : Znode) : Prop :=
  ∃ name, 47 ∉ name ∧ zk.find t (childPath (servicePath serviceName) name) = some node

variable {r : ZooKeeperRegistry} {serviceName : Text}

theorem get_child (hnul : 0 ∉ serviceName) (name : Text) (n : Nat) :
    zk.get t (cString (childPath (servicePath serviceName) name)) n =
      (zk.find t (childPath (servicePath serviceName) (cString name))).map
        fun node => node.data.take n := by
  rw [cString_childPath (nul_notMem_servicePath.mpr hnul), zk.get_eq]

/-- A name that is listed leads the loops to a child, and to the data they read of it. -/
theorem child_of_get (hnul : 0 ∉ serviceName) {names : List Text}
    (hnames : zk.getChildren t (servicePath serviceName) = some names) {name data : Text} {n : Nat}
    (hname : name ∈ names)
    (hget : zk.get t (cString (childPath (servicePath serviceName) name)) n = some data) :
    ∃ node, Child t serviceName node ∧ node.data.take n = data := by
  obtain ⟨hslash, hchild⟩ := (zk.mem_getChildren hnames name).mp hname
  obtain ⟨node, hnode⟩ := Option.ne_none_iff_exists'.mp hchild
  have hzero := (nul_notMem_childPath.mp (zk.nul_notMem hnode)).2
  rw [get_child hnul, cString_of_notMem hzero, hnode] at hget
  exact ⟨node, ⟨name, hslash, hnode⟩, Option.some.inj hget⟩

theorem discoverService_ok (hnul : 0 ∉ serviceName)
    (h : ∀ node, Child t serviceName node →
      ∃ inst, deserializeInstance (node.data.take bufferSize) = .ok inst) :
    ∃ instances, discoverService zk r serviceName t = .ok instances := by
  unfold discoverService getServiceInstances
  split
  · exact ⟨[], rfl⟩
  · split
    · exact ⟨[], rfl⟩
    · rename_i names hnames
      rw [cString_of_notMem (nul_notMem_servicePath.mpr hnul)] at hnames
      apply collect_ok
      intro name hname data hget
      obtain ⟨node, hchild, rfl⟩ := child_of_get hnul hnames hname hget
      exact h node hchild

theorem child_of_mem_discover (hnul : 0 ∉ serviceName) {instances : List ServiceInstance}
    (h : discoverService zk r serviceName t = .ok instances) {inst : ServiceInstance}
    (hinst : inst ∈ instances) :
    ∃ node, Child t serviceName node ∧
      deserializeInstance (node.data.take bufferSize) = .ok inst := by
  unfold discoverService getServiceInstances at h
  split at h
  · cases h
    cases hinst
  · split at h
    · cases h
      cases hinst
    · rename_i names hnames
      rw [cString_of_notMem (nul_notMem_servicePath.mpr hnul)] at hnames
      obtain ⟨name, hname, data, hget, hdata⟩ := (mem_collect h inst).mp hinst
      obtain ⟨node, hchild, rfl⟩ := child_of_get hnul hnames hname hget
      exact ⟨node, hchild, hdata⟩

theorem mem_discover_of_child (hconnected : r.connected = true) (hnul : 0 ∉ serviceName)
    (hservice : zk.find t (servicePath serviceName) ≠ none) {instances : List ServiceInstance}
    (h : discoverService zk r serviceName t = .ok instances) {node : Znode}
    (hnode : Child t serviceName node) {inst : ServiceInstance}
    (hinst : deserializeInstance (node.data.take bufferSize) = .ok inst) : inst ∈ instances := by
  obtain ⟨name, hslash, hfind⟩ := hnode
  have hzero := (nul_notMem_childPath.mp (zk.nul_notMem hfind)).2
  unfold discoverService getServiceInstances at h
  rw [if_neg (by simp [hconnected]), cString_of_notMem (nul_notMem_servicePath.mpr hnul)] at h
  split at h
  · rename_i hnone
    exact absurd (zk.getChildren_eq_none.mp hnone) hservice
  · rename_i names hnames
    refine (mem_collect h inst).mpr ⟨name, ?_, node.data.take bufferSize, ?_, hinst⟩
    · exact (zk.mem_getChildren hnames name).mpr ⟨hslash, by simp [hfind]⟩
    · rw [get_child hnul, cString_of_notMem hzero, hfind]
      rfl

end Trees

end ZooKeeperRegistry

end Mprpc
