import Mprpc.InstanceTarget
import Mprpc.ServerRegistration
import Mprpc.Unregistering

namespace Mprpc.ServerIsolation

open Transport Decimal InstanceText InstanceTarget ZooKeeper ZooKeeperRegistry
open ServerRegistration Unregistering Library.Transition

/-- A server among others: its notices are the calls that it has still to make, and
its sessions all those that its registry objects have had. -/
structure Party where
  server : Server
  sessions : List Nat

structure Shared (zk : ZooKeeper) where
  tree : zk.Tree
  parties : Bool → Party

/-- A server begins an operation, or makes its next call of the registry. -/
inductive Event
  | operate (who : Bool) (op : Op)
  | call (who connected : Bool)
deriving DecidableEq, Repr

def Event.who : Event → Bool
  | .operate who _ => who
  | .call who _ => who

def start (zk : ZooKeeper) (configs : Bool → RpcServerConfig) : Shared zk :=
  ⟨zk.empty, fun who => ⟨.new (configs who), []⟩⟩

def IsNameByte (c : UInt8) : Prop :=
  (48 ≤ c ∧ c ≤ 57) ∨ (65 ≤ c ∧ c ≤ 90) ∨ c = 95 ∨ (97 ≤ c ∧ c ≤ 122)

instance : DecidablePred IsNameByte := fun _ => inferInstanceAs (Decidable (_ ∨ _))

/-- The name of a protobuf service has letters, digits and underscores. -/
def IsIdentifier (name : Text) : Prop := name ≠ [] ∧ ∀ c ∈ name, IsNameByte c

instance (name : Text) : Decidable (IsIdentifier name) := inferInstanceAs (Decidable (_ ∧ _))

/-- A registry object gets a session that there was not before. -/
def Admits {zk : ZooKeeper} (s : Shared zk) : Op → Prop
  | .start starting => ∀ who, starting.session ∉ (s.parties who).sessions
  | .registerService serviceName => IsIdentifier serviceName
  | .stop _ | .unregisterService _ | .beat _ => True

instance {zk : ZooKeeper} (s : Shared zk) : DecidablePred (Admits s)
  | .start _ => inferInstanceAs (Decidable (∀ _, _))
  | .registerService serviceName => inferInstanceAs (Decidable (IsIdentifier serviceName))
  | .stop _ | .unregisterService _ | .beat _ => inferInstanceAs (Decidable True)

def opened : Op → List Nat
  | .start starting => [starting.session]
  | .stop _ | .registerService _ | .unregisterService _ | .beat _ => []

variable {zk : ZooKeeper}

def carry (connected : Bool) (t : zk.Tree) : Notice → zk.Tree
  | .registered session inst => (registerService zk ⟨session, connected⟩ inst t).2
  | .unregistered session serviceName instanceId =>
    (unregisterService zk ⟨session, connected⟩ serviceName instanceId t).2
  | .closed session => zk.closeSession t session
  | .bound _ _ | .opened _ | .heartbeat _ _ _ => t

def step (s : Shared zk) : Event → Option (Shared zk)
  | .operate who op =>
    let p := s.parties who
    if p.server.notices = [] ∧ Admits s op then
      (ServerRegistration.step p.server op).map fun server =>
        { s with parties := Function.update s.parties who ⟨server, opened op ++ p.sessions⟩ }
    else none
  | .call who connected =>
    let p := s.parties who
    match p.server.notices with
    | [] => none
    | n :: notices =>
      some ⟨carry connected s.tree n,
        Function.update s.parties who { p with server := { p.server with notices := notices } }⟩

/-- Every node that is not of a session of the server's own is kept. -/
def Spares (who : Bool) (s t : Shared zk) : Prop :=
  ∀ path node, zk.find s.tree path = some node →
    (∀ session ∈ (s.parties who).sessions, node.owner ≠ some session) →
      zk.find t.tree path = some node

/-- The instance that a server registers, whatever its host. -/
def advert (config : RpcServerConfig) (serviceName : Text) : ServiceInstance :=
  newInstance serviceName localHost config.port config.serviceWeight

/-- The id that is unregistered is not read in what the other server registers for
the service, if that has a node there. -/
def Apart (configs : Bool → RpcServerConfig) (s : Shared zk) : Event → Prop
  | .operate _ _ => True
  | .call who connected => ∀ session serviceName instanceId notices,
    (s.parties who).server.notices = .unregistered session serviceName instanceId :: notices →
      connected = true → (∃ node, Child s.tree serviceName node ∧
        ∃ session ∈ (s.parties !who).sessions, node.owner = some session) →
      ¬ReadAs ⟨serializeInstance (advert (configs !who) serviceName), none⟩ instanceId

section Parties

variable {named : Text → Prop} {config : RpcServerConfig} {sessions : List Nat} {s u : Server}
  {op : Op}

/-- The address and the session of a call are the server's own. -/
def Pending (named : Text → Prop) (config : RpcServerConfig) (sessions : List Nat) :
    Notice → Prop
  | .registered session inst =>
    session ∈ sessions ∧ ∃ serviceName, named serviceName ∧ inst = advert config serviceName
  | .unregistered _ _ instanceId => ∃ host, instanceId = idOf (host, config.port)
  | .closed session => session ∈ sessions
  | .bound _ _ | .opened _ | .heartbeat _ _ _ => True

/-- What holds of a server at all times, whatever becomes of its host. -/
structure Trusty (named : Text → Prop) (config : RpcServerConfig) (sessions : List Nat)
    (s : Server) : Prop where
  port : s.config.port = config.port
  weight : s.config.serviceWeight = config.serviceWeight
  registry : ∀ session, s.registry = some session → session ∈ sessions
  services : ∀ name ∈ s.services, named name
  notices : ∀ n ∈ s.notices, Pending named config sessions n

theorem Trusty.mono {sessions' : List Nat} (h : Trusty named config sessions s)
    (hsub : sessions ⊆ sessions') : Trusty named config sessions' s := by
  refine ⟨h.port, h.weight, fun session hs => hsub (h.registry session hs), h.services, ?_⟩
  intro n hn
  have hpending := h.notices n hn
  cases n with
  | registered session inst => exact ⟨hsub hpending.1, hpending.2⟩
  | unregistered => exact hpending
  | closed session => exact hsub hpending
  | bound | opened | heartbeat => trivial

theorem Trusty.note (h : Trusty named config sessions s) {n : Notice}
    (hn : Pending named config sessions n) : Trusty named config sessions (s.note n) :=
  ⟨h.port, h.weight, h.registry, h.services, Server.forall_note h.notices hn⟩

theorem registerToRegistry_trusty (h : Trusty named config sessions s) {serviceName : Text}
    (hname : named serviceName) :
    Trusty named config sessions (registerToRegistry s serviceName) := by
  unfold registerToRegistry
  split
  · exact h
  · rename_i session hsession
    have hlocal : Trusty named config sessions
        { s with config := { s.config with host := localHost } } :=
      ⟨h.port, h.weight, h.registry, h.services, h.notices⟩
    refine hlocal.note ⟨h.registry session hsession, serviceName, hname, ?_⟩
    rw [advert, ← h.port, ← h.weight]

theorem unregisterFromRegistry_trusty (h : Trusty named config sessions s) (serviceName : Text) :
    Trusty named config sessions (unregisterFromRegistry s serviceName) := by
  unfold unregisterFromRegistry
  split
  · exact h
  · exact h.note ⟨advertisedHost s.config, by rw [← h.port]; rfl⟩

theorem sendHeartbeat_trusty (h : Trusty named config sessions s) (serviceName : Text) :
    Trusty named config sessions (sendHeartbeat s serviceName) := by
  unfold sendHeartbeat
  split
  · exact h
  · exact h.note trivial

theorem initializeRegistry_trusty (h : Trusty named config sessions s) {session : Nat}
    (hsession : session ∈ sessions) :
    Trusty named config sessions (initializeRegistry s session) := by
  have hreplaced : Trusty named config sessions { s with registry := some session } := by
    refine ⟨h.port, h.weight, ?_, h.services, h.notices⟩
    rintro _ ⟨⟩
    exact hsession
  have hopened := hreplaced.note (n := .opened session) trivial
  unfold initializeRegistry
  split
  · exact hopened
  · rename_i old hold
    exact hopened.note (h.registry old hold)

theorem during_trusty (h : During s op u) (trusty : Trusty named config sessions s)
    (hnamed : ∀ name, op = .registerService name → named name) (hopened : opened op ⊆ sessions) :
    Trusty named config sessions u := by
  induction h with
  | began => exact trusty
  | flags _ _ _ ih => exact ⟨ih.port, ih.weight, ih.registry, ih.services, ih.notices⟩
  | bound _ ih => exact ih.note trivial
  | initialized hop _ ih =>
    subst hop
    exact initializeRegistry_trusty ih (hopened List.mem_cons_self)
  | @added u serviceName hop _ ih =>
    refine ⟨ih.port, ih.weight, ih.registry, ?_, ih.notices⟩
    intro name hname
    dsimp only at hname
    split at hname
    · exact ih.services name hname
    · cases List.mem_append.mp hname with
      | inl h => exact ih.services name h
      | inr h => exact List.mem_singleton.mp h ▸ hnamed serviceName hop
  | registered _ hname _ ih =>
    exact registerToRegistry_trusty ih (hname.elim (trusty.services _) (hnamed _))
  | unregistered name _ ih => exact unregisterFromRegistry_trusty ih name
  | erased _ _ ih =>
    exact ⟨ih.port, ih.weight, ih.registry,
      fun name h => ih.services name (List.mem_of_mem_erase h), ih.notices⟩
  | beaten name _ ih => exact sendHeartbeat_trusty ih name

end Parties

section Paths

variable {name serviceName : Text} {config : RpcServerConfig}

theorem IsIdentifier.notMem (h : IsIdentifier name) {c : UInt8} (hc : ¬IsNameByte c) : c ∉ name :=
  fun hmem => hc (h.2 c hmem)

theorem notMem_localId {c : UInt8} (hlocal : c ∉ localHost ++ text ":") (hc : ¬IsNameByte c)
    (port : UInt16) : c ∉ idOf (localHost, port) := by
  rw [idOf, List.mem_append, not_or]
  refine ⟨hlocal, fun hdigit => hc (.inl ?_)⟩
  exact digit_of_mem_decimal hdigit

theorem cString_servicePath (h : IsIdentifier serviceName) :
    cString (servicePath serviceName) = servicePath serviceName :=
  cString_of_notMem (nul_notMem_servicePath.mpr (h.notMem (by decide)))

theorem cString_instancePath (h : IsIdentifier serviceName) :
    cString (instancePath (advert config serviceName)) =
      instancePath (advert config serviceName) := by
  refine cString_of_notMem (nul_notMem_childPath.mpr ⟨?_, ?_⟩)
  · exact nul_notMem_servicePath.mpr (h.notMem (by decide))
  · exact notMem_localId (by decide) (by decide) config.port

theorem servicePath_ne_child (h : IsIdentifier serviceName) (hname : 47 ∉ name)
    {serviceName' : Text} :
    servicePath serviceName ≠ childPath (servicePath serviceName') name := by
  intro heq
  obtain ⟨hparent, -⟩ := childPath_inj (h.notMem (by decide)) hname heq
  have hlength := congrArg List.length hparent
  rw [servicePath, length_childPath] at hlength
  omega

theorem serviceName_of_child {serviceName' suffix : Text} (hsuffix : 47 ∉ suffix)
    (hname : 47 ∉ name)
    (h : instancePath (advert config serviceName) ++ suffix =
      childPath (servicePath serviceName') name) : serviceName = serviceName' := by
  have hid : 47 ∉ (advert config serviceName).getId ++ suffix := by
    rw [List.mem_append, not_or]
    exact ⟨notMem_localId (by decide) (by decide) config.port, hsuffix⟩
  rw [instancePath, childPath, List.append_assoc, List.cons_append] at h
  exact servicePath_inj (childPath_inj hid hname h).1

end Paths

/-- A node above the instances, or one that a party registered. -/
def Known (named : Text → Prop) (configs : Bool → RpcServerConfig) (s : Shared zk) (path : Text)
    (node : Znode) : Prop :=
  (node.owner = none ∧
    (path ∈ [rootPath, servicesPath] ∨ ∃ name, named name ∧ path = servicePath name)) ∨
  ∃ who name session suffix, named name ∧ session ∈ (s.parties who).sessions ∧ 47 ∉ suffix ∧
    path = instancePath (advert (configs who) name) ++ suffix ∧
    node = ⟨serializeInstance (advert (configs who) name), some session⟩

structure Sound (named : Text → Prop) (configs : Bool → RpcServerConfig) (s : Shared zk) :
    Prop where
  trusty : ∀ who, Trusty named (configs who) (s.parties who).sessions (s.parties who).server
  disjoint : ∀ who session, session ∈ (s.parties who).sessions →
    session ∉ (s.parties !who).sessions
  known : ∀ path node, zk.find s.tree path = some node → Known named configs s path node

theorem start_sound (zk : ZooKeeper) (named : Text → Prop) (configs : Bool → RpcServerConfig) :
    Sound named configs (start zk configs) := by
  refine ⟨?_, ?_, ?_⟩
  · intro who
    refine ⟨rfl, rfl, ?_, ?_, ?_⟩
    · intro session h
      cases h
    · intro name h
      cases h
    · intro n h
      cases h
  · intro who session h
    cases h
  · intro path node h
    rw [start, zk.find_empty] at h
    cases h

section Steps

variable {named : Text → Prop} {configs : Bool → RpcServerConfig} {s t : Shared zk}

theorem Known.mono {path : Text} {node : Znode} (h : Known named configs s path node)
    (hsub : ∀ who, (s.parties who).sessions ⊆ (t.parties who).sessions) :
    Known named configs t path node := by
  obtain h | ⟨who, name, session, suffix, hname, hsession, h⟩ := h
  · exact .inl h
  · exact .inr ⟨who, name, session, suffix, hname, hsub who hsession, h⟩

theorem opened_fresh {op : Op} (h : Admits s op) {session : Nat} (hsession : session ∈ opened op)
    (who : Bool) : session ∉ (s.parties who).sessions := by
  cases op with
  | start starting => exact List.mem_singleton.mp hsession ▸ h who
  | stop | registerService | unregisterService | beat => cases hsession

theorem step_operate {who : Bool} {op : Op} (h : step s (.operate who op) = some t) :
    Admits s op ∧ ∃ server, During (s.parties who).server op server ∧ t.tree = s.tree ∧
      t.parties = Function.update s.parties who
        ⟨server, opened op ++ (s.parties who).sessions⟩ := by
  obtain ⟨⟨-, hadmits⟩, ht⟩ := Option.ite_none_right_eq_some.mp h
  obtain ⟨server, hserver, rfl⟩ := Option.map_eq_some_iff.mp ht
  exact ⟨hadmits, server, step_during hserver, rfl, rfl⟩

theorem step_call {who connected : Bool} (h : step s (.call who connected) = some t) :
    ∃ n notices, (s.parties who).server.notices = n :: notices ∧
      t.tree = carry connected s.tree n ∧
      t.parties = Function.update s.parties who { s.parties who with
        server := { (s.parties who).server with notices := notices } } := by
  cases hnotices : (s.parties who).server.notices with
  | nil => simp [step, hnotices] at h
  | cons n notices =>
    simp only [step, hnotices] at h
    cases h
    exact ⟨n, notices, rfl, rfl, rfl⟩

theorem operate_sound {who : Bool} {op : Op} (sound : Sound named configs s)
    (hnamed : ∀ name, op = .registerService name → IsIdentifier name → named name)
    (h : step s (.operate who op) = some t) : Sound named configs t := by
  obtain ⟨hadmits, server, hserver, htree, hparties⟩ := step_operate h
  have hnames : ∀ name, op = .registerService name → named name := by
    rintro name rfl
    exact hnamed name rfl hadmits
  refine ⟨?_, ?_, ?_⟩
  · rw [hparties]
    refine (Function.forall_update_iff _ fun who (p : Party) =>
      Trusty named (configs who) p.sessions p.server).mpr ⟨?_, fun who' _ => sound.trusty who'⟩
    exact during_trusty hserver ((sound.trusty who).mono (List.subset_append_right _ _)) hnames
      (List.subset_append_left _ _)
  · intro who' session hsession
    rw [hparties] at hsession ⊢
    by_cases hwho : who' = who
    · subst hwho
      rw [Function.update_self] at hsession
      rw [Function.update_of_ne (by simp)]
      cases List.mem_append.mp hsession with
      | inl hnew => exact opened_fresh hadmits hnew _
      | inr hold => exact sound.disjoint who' session hold
    · have hother : who = !who' := Bool.eq_not.mpr (Ne.symm hwho)
      subst hother
      rw [Function.update_of_ne hwho] at hsession
      rw [Function.update_self, List.mem_append, not_or]
      exact ⟨fun hnew => opened_fresh hadmits hnew who' hsession,
        sound.disjoint who' session hsession⟩
  · intro path node hfind
    rw [htree] at hfind
    refine (sound.known path node hfind).mono ?_
    rw [hparties]
    exact (Function.forall_update_iff _ fun who' (p : Party) =>
      (s.parties who').sessions ⊆ p.sessions).mpr
        ⟨List.subset_append_right _ _, fun _ _ => List.Subset.refl _⟩

/-- The only node that a call can take from the other server is one that is read as
the id it unregisters. -/
theorem carry_spares {who : Bool} (connected : Bool) {n : Notice} {path : Text} {node : Znode}
    (hn : Pending named (configs who) (s.parties who).sessions n)
    (hfind : zk.find s.tree path = some node)
    (hother : ∀ session ∈ (s.parties who).sessions, node.owner ≠ some session) :
    zk.find (carry connected s.tree n) path = some node ∨
      ∃ session serviceName instanceId name, n = .unregistered session serviceName instanceId ∧
        connected = true ∧ 47 ∉ name ∧ path = childPath (servicePath serviceName) name ∧
        ReadAs node instanceId := by
  cases n with
  | bound | opened | heartbeat => exact .inl hfind
  | closed session =>
    rw [carry, zk.find_closeSession, hfind]
    exact .inl (Option.filter_eq_some_iff.mpr ⟨rfl, decide_eq_true (hother session hn)⟩)
  | registered session inst =>
    have hspec := registerService_spec
      (Prod.eta (registerService zk ⟨session, connected⟩ inst s.tree)).symm
    exact .inl (hspec.1.kept path node hfind)
  | unregistered session serviceName instanceId =>
    cases connected with
    | false => exact .inl hfind
    | true =>
      obtain ⟨-, hsame⟩ | ⟨-, -, name, node', inst, hslash, hnode', hread, hinst, -, hupdate⟩ :=
        unregisterService_spec
          (Prod.eta (unregisterService zk ⟨session, true⟩ serviceName instanceId s.tree)).symm
      · exact .inl (hsame ▸ hfind)
      · by_cases hpath : path = childPath (servicePath serviceName) name
        · subst hpath
          cases hfind.symm.trans hnode'
          exact .inr ⟨session, serviceName, instanceId, name, rfl, rfl, hslash, rfl, inst, hread,
            hinst⟩
        · rw [carry, hupdate, Function.update_of_ne hpath]
          exact .inl hfind

section Names

variable (hid : ∀ name, named name → IsIdentifier name)
include hid

theorem carry_known {who connected : Bool} {n : Notice}
    (hn : Pending named (configs who) (s.parties who).sessions n) {path : Text} {node : Znode}
    (h : zk.find (carry connected s.tree n) path = some node) :
    zk.find s.tree path = some node ∨ Known named configs s path node := by
  cases n with
  | bound | opened | heartbeat => exact .inl h
  | closed session =>
    rw [carry, zk.find_closeSession] at h
    exact .inl (Option.filter_eq_some_iff.mp h).1
  | unregistered session serviceName instanceId =>
    obtain ⟨-, hsame⟩ | ⟨-, -, name, -, -, -, -, -, -, -, hupdate⟩ := unregisterService_spec
      (Prod.eta (unregisterService zk ⟨session, connected⟩ serviceName instanceId s.tree)).symm
    · exact .inl (hsame ▸ h)
    · exact .inl (find_removed hupdate h).2
  | registered session inst =>
    obtain ⟨hsession, name, hname, rfl⟩ := hn
    have hspec := registerService_spec
      (Prod.eta (registerService zk ⟨session, connected⟩ (advert (configs who) name) s.tree)).symm
    obtain hold | ⟨hpath, rfl⟩ | ⟨-, suffix, hsuffix, hpath, rfl⟩ := hspec.1.added path node h
    · exact .inl hold
    · have hservice : (advert (configs who) name).serviceName = name := rfl
      rw [hservice, cString_servicePath (hid name hname)] at hpath
      refine .inr (.inl ⟨rfl, ?_⟩)
      simp only [List.mem_cons, List.not_mem_nil, or_false] at hpath ⊢
      obtain hroot | hservices | rfl := hpath
      · exact .inl (.inl hroot)
      · exact .inl (.inr hservices)
      · exact .inr ⟨name, hname, rfl⟩
    · rw [cString_instancePath (hid name hname)] at hpath
      exact .inr (.inr ⟨who, name, session, suffix, hname, hsession, hsuffix, hpath, rfl⟩)

theorem call_sound {who connected : Bool} (sound : Sound named configs s)
    (h : step s (.call who connected) = some t) : Sound named configs t := by
  obtain ⟨n, notices, hnotices, htree, hparties⟩ := step_call h
  have hsessions : ∀ who', (t.parties who').sessions = (s.parties who').sessions := by
    rw [hparties]
    exact (Function.forall_update_iff _ fun who' (p : Party) =>
      p.sessions = (s.parties who').sessions).mpr ⟨rfl, fun _ _ => rfl⟩
  refine ⟨?_, ?_, ?_⟩
  · rw [hparties]
    refine (Function.forall_update_iff _ fun who (p : Party) =>
      Trusty named (configs who) p.sessions p.server).mpr ⟨?_, fun who' _ => sound.trusty who'⟩
    have trusty := sound.trusty who
    refine ⟨trusty.port, trusty.weight, trusty.registry, trusty.services, ?_⟩
    intro m hm
    exact trusty.notices m (hnotices ▸ List.mem_cons_of_mem n hm)
  · intro who' session hsession
    rw [hsessions] at hsession ⊢
    exact sound.disjoint who' session hsession
  · intro path node hfind
    rw [htree] at hfind
    have hpending := (sound.trusty who).notices n (hnotices ▸ List.mem_cons_self)
    have hknown : Known named configs s path node :=
      (carry_known hid hpending hfind).elim (sound.known path node) id
    exact hknown.mono fun who' => (hsessions who').symm ▸ List.Subset.refl _

/-- The invariant rests on nothing but the names of the services. -/
theorem step_sound (s : Shared zk) (e : Event) (t : Shared zk) (sound : Sound named configs s)
    (hnamed : ∀ who name, e = .operate who (.registerService name) → IsIdentifier name → named name)
    (h : step s e = some t) : Sound named configs t := by
  cases e with
  | operate who op => exact operate_sound sound (fun name hop => hnamed who name (hop ▸ rfl)) h
  | call who connected => exact call_sound hid sound h

/-- The children of a service are what the parties have registered for it. -/
theorem Sound.child (sound : Sound named configs s) {serviceName name : Text} {node : Znode}
    (hslash : 47 ∉ name)
    (hfind : zk.find s.tree (childPath (servicePath serviceName) name) = some node) :
    named serviceName ∧ ∃ who, ∃ session ∈ (s.parties who).sessions,
      node = ⟨serializeInstance (advert (configs who) serviceName), some session⟩ := by
  obtain ⟨-, hroots | ⟨short, hshort, hpath⟩⟩ |
    ⟨who, short, session, suffix, hshort, hsession, hsuffix, hpath, hnode⟩ :=
      sound.known _ node hfind
  · exact absurd rfl (not_child_of_mem_roots hroots)
  · exact absurd hpath.symm (servicePath_ne_child (hid short hshort) hslash)
  · obtain rfl := serviceName_of_child hsuffix hslash hpath.symm
    exact ⟨hshort, who, session, hsession, hnode⟩

theorem call_spares {who connected : Bool} (sound : Sound named configs s)
    (hapart : Apart configs s (.call who connected))
    (h : step s (.call who connected) = some t) : Spares who s t := by
  obtain ⟨n, notices, hnotices, htree, -⟩ := step_call h
  intro path node hfind hother
  rw [htree]
  have hpending := (sound.trusty who).notices n (hnotices ▸ List.mem_cons_self)
  obtain hkept | ⟨session, serviceName, instanceId, name, rfl, hconnected, hslash, rfl, hread⟩ :=
    carry_spares connected hpending hfind hother
  · exact hkept
  · exfalso
    obtain ⟨-, who', owner, howner, rfl⟩ := sound.child hid hslash hfind
    have hwho : who' = !who := Bool.eq_not.mpr fun heq => hother owner (heq ▸ howner) rfl
    subst hwho
    exact hapart session serviceName instanceId notices hnotices hconnected
      ⟨_, ⟨name, hslash, hfind⟩, owner, howner, rfl⟩ hread

end Names

end Steps

/-- No server deletes a node of the other, in any order of their operations and calls
in which no id is unregistered that the other has registered for the service. -/
theorem registrations_isolated {configs : Bool → RpcServerConfig} {events before : List Event}
    {e : Event} {s t : Shared zk} (h : Guarded step (Apart configs) (start zk configs) events)
    (hbefore : before ++ [e] <+: events) (hrun : run step (start zk configs) before = some s)
    (hstep : step s e = some t) : Spares e.who s t := by
  obtain ⟨after, rfl⟩ := hbefore
  rw [List.append_assoc] at h
  have hid : ∀ name, IsIdentifier name → IsIdentifier name := fun _ hname => hname
  have sound : Sound IsIdentifier configs s :=
    run_invariant (fun s e t sound _ h => step_sound hid s e t sound (fun _ _ _ hname => hname) h)
      (start_sound zk IsIdentifier configs) h.append_left hrun
  cases e with
  | call who connected => exact call_spares hid sound (h.allows_of_run hrun) hstep
  | operate who op =>
    obtain ⟨-, server, -, htree, -⟩ := step_operate hstep
    intro path node hfind _
    rwa [htree]

/-- The whole address of the service's instances is read, whichever server it is. -/
def Brief (configs : Bool → RpcServerConfig) (name : Text) : Prop :=
  IsIdentifier name ∧ ∀ who, (addressText (advert (configs who) name)).length ≤ bufferSize

theorem apart_of_ports {configs : Bool → RpcServerConfig}
    (hports : ∀ who, (configs who).port ≠ (configs !who).port) {s : Shared zk}
    (sound : Sound (Brief configs) configs s) (e : Event) : Apart configs s e := by
  cases e with
  | operate who op => trivial
  | call who connected =>
    rintro session serviceName instanceId notices hnotices - ⟨node, ⟨name, hslash, hfind⟩, -⟩
      ⟨inst, hread, rfl⟩
    obtain ⟨⟨hname, hbrief⟩, -⟩ := sound.child (fun _ h => h.1) hslash hfind
    obtain ⟨host, hid⟩ := (sound.trusty who).notices _ (hnotices ▸ List.mem_cons_self)
    have hadvert : inst.getId = (advert (configs !who) serviceName).getId :=
      getId_of_read (hname.notMem (by decide)) (by decide : 10 ∉ localHost) (hbrief _) hread
    rw [hadvert, getId_eq] at hid
    exact hports who (Prod.mk.inj (idOf_injective hid)).2.symm

/-- Servers with ports of their own are apart, whatever they do. -/
theorem guarded_of_ports {configs : Bool → RpcServerConfig}
    (hports : ∀ who, (configs who).port ≠ (configs !who).port) {events : List Event}
    (hbrief : ∀ e ∈ events, ∀ who name, e = .operate who (.registerService name) →
      IsIdentifier name → Brief configs name) :
    Guarded step (Apart configs) (start zk configs) events :=
  guarded_of_invariant (fun s e t sound hname h => step_sound (fun _ h => h.1) s e t sound hname h)
    (fun _ e sound _ => apart_of_ports hports sound e) (start_sound zk _ configs) hbrief

/-- Two servers that serve one service each on an interface of its own; the second stops. -/
def twoHosts (port : UInt16) : Bool → RpcServerConfig
  | true => ⟨[49, 48, 46, 48, 46, 48, 46, 49], 8080, true, 1⟩
  | false => ⟨[49, 48, 46, 48, 46, 48, 46, 50], port, true, 1⟩

def serves (who : Bool) (session : Nat) : List Event :=
  [.operate who (.registerService [115]), .operate who (.start ⟨true, true, session, [[115]]⟩),
    .call who true, .call who true, .call who true]

def bothServe : List Event := serves true 1 ++ serves false 2 ++ [.operate false (.stop [[115]])]

theorem registrations_isolated_two_ports : ∃ s t : Shared .standalone,
    run step (start .standalone (twoHosts 8081)) bothServe = some s ∧
    step s (.call false true) = some t ∧ Spares false s t := by
  have hsome : (run step (start .standalone (twoHosts 8081))
      (bothServe ++ [.call false true])).isSome = true := by
    decide +kernel
  obtain ⟨t, hall⟩ := Option.isSome_iff_exists.mp hsome
  obtain ⟨s, hrun, hlast⟩ := run_append_some.mp hall
  obtain ⟨t', hstep, ht⟩ := run_cons_some.mp hlast
  refine ⟨s, t', hrun, hstep, registrations_isolated (guarded_of_ports (by decide) ?_)
    (List.prefix_refl _) hrun hstep⟩
  have hnames : ∀ e ∈ bothServe ++ [.call false true], ∀ who name,
      e = .operate who (.registerService name) → name = [115] := by
    simp [bothServe, serves]
  have hbrief : Brief (twoHosts 8081) [115] := by
    refine ⟨?_, ?_⟩ <;> decide +kernel
  rintro e he who name hop -
  exact hnames e he who name hop ▸ hbrief

/-- With the same port, the server that stops takes the node of the other. -/
theorem second_stops_first : ∃ s t : Shared .standalone,
    (∀ who, (twoHosts 8080 who).host ≠ anyHost) ∧
    (twoHosts 8080 true).host ≠ (twoHosts 8080 false).host ∧
    run step (start .standalone (twoHosts 8080)) bothServe = some s ∧
    step s (.call false true) = some t ∧ ¬Spares false s t := by
  let path := instancePath (advert (twoHosts 8080 true) [115]) ++ Standalone.suffix 0
  have hbefore : (run step (start .standalone (twoHosts 8080)) bothServe).map
      (fun s => ((standalone.find s.tree path).map Znode.owner, (s.parties false).sessions)) =
        some (some (some 1), [2]) := by
    decide +kernel
  have hafter : (run step (start .standalone (twoHosts 8080)) (bothServe ++ [.call false true])).map
      (fun t => standalone.find t.tree path) = some none := by
    decide +kernel
  obtain ⟨t, hall, hgone⟩ := Option.map_eq_some_iff.mp hafter
  obtain ⟨s, hrun, hlast⟩ := run_append_some.mp hall
  obtain ⟨t', hstep, ht⟩ := run_cons_some.mp hlast
  cases ht
  rw [hrun, Option.map_some] at hbefore
  obtain ⟨howner, hsessions⟩ := Prod.mk.inj (Option.some.inj hbefore)
  obtain ⟨node, hfind, howner⟩ := Option.map_eq_some_iff.mp howner
  refine ⟨s, t, by decide, by decide, hrun, hstep, ?_⟩
  intro hspares
  have hkept := hspares path node hfind (by simp [hsessions, howner])
  rw [hgone] at hkept
  cases hkept

end Mprpc.ServerIsolation
