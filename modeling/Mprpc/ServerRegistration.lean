import Mprpc.Decimal
import Mprpc.Library.Transition
import Mprpc.LoadBalancer

namespace Mprpc.ServerRegistration

open Transport Decimal Library.Transition

structure RpcServerConfig where
  host : Text
  port : UInt16
  enableRegistry : Bool
  serviceWeight : Int
deriving DecidableEq, Repr

/-- What a server does in the open: the address it listens on, the ZooKeeper
sessions of its registry objects, and its calls of their methods. -/
inductive Notice
  | bound (port : UInt16) (host : Text)
  | opened (session : Nat)
  | closed (session : Nat)
  | registered (session : Nat) (inst : ServiceInstance)
  | unregistered (session : Nat) (serviceName instanceId : Text)
  | heartbeat (session : Nat) (serviceName instanceId : Text)
deriving DecidableEq, Repr

/-- `registry` is the session of `registry_`, `services` the keys of `services_`. -/
structure Server where
  config : RpcServerConfig
  running : Bool
  registry : Option Nat
  services : List Text
  heartbeatRunning : Bool
  notices : List Notice
deriving DecidableEq, Repr

/-- How the parts of `start` go: the components and the listening socket, the
session of the new registry, and the order in which the services are gone through. -/
structure Starting where
  ready : Bool
  bound : Bool
  session : Nat
  order : List Text
deriving DecidableEq, Repr

inductive Op
  | start (starting : Starting)
  | stop (order : List Text)
  | registerService (serviceName : Text)
  | unregisterService (serviceName : Text)
  | beat (order : List Text)
deriving DecidableEq, Repr

namespace Server

def new (config : RpcServerConfig) : Server := ⟨config, false, none, [], false, []⟩

def note (s : Server) (n : Notice) : Server := { s with notices := s.notices ++ [n] }

end Server

def anyHost : Text := text "0.0.0.0"

def localHost : Text := text "127.0.0.1"

/-- The host that the paths of unregistering and of the heartbeat name. -/
def advertisedHost (config : RpcServerConfig) : Text :=
  if config.host = anyHost then localHost else config.host

def instanceId (config : RpcServerConfig) : Text :=
  advertisedHost config ++ text ":" ++ decimal config.port.toNat

/-- The instance that the constructor of `ServiceInstance` makes. -/
def newInstance (serviceName host : Text) (port : UInt16) (weight : Int) : ServiceInstance :=
  ⟨serviceName, host, port, weight, true, 0, []⟩

/-- `config_.host = "0.0.0.0" ? "127.0.0.1" : config_.host` assigns: the literal is
no null pointer, so the value is always the first. -/
def registerToRegistry (s : Server) (serviceName : Text) : Server :=
  match s.registry with
  | none => s
  | some session =>
    let config := { s.config with host := localHost }
    { s with config := config }.note
      (.registered session
        (newInstance serviceName config.host config.port config.serviceWeight))

def unregisterFromRegistry (s : Server) (serviceName : Text) : Server :=
  match s.registry with
  | none => s
  | some session => s.note (.unregistered session serviceName (instanceId s.config))

/-- The new registry object is there before the old one goes. -/
def initializeRegistry (s : Server) (session : Nat) : Server :=
  let opened := { s with registry := some session }.note (.opened session)
  match s.registry with
  | none => opened
  | some old => opened.note (.closed old)

def start (s : Server) (starting : Starting) : Server :=
  if s.running then s
  else if starting.ready = false then s
  else
    let s := s.note (.bound s.config.port s.config.host)
    if starting.bound = false then s
    else
      let s := { s with running := true }
      if s.config.enableRegistry then
        let s := initializeRegistry s starting.session
        let s := starting.order.foldl registerToRegistry s
        { s with heartbeatRunning := true }
      else s

def stop (s : Server) (order : List Text) : Server :=
  if s.running then
    let s := { s with running := false, heartbeatRunning := false }
    if s.registry.isSome then order.foldl unregisterFromRegistry s else s
  else s

def registerService (s : Server) (serviceName : Text) : Server :=
  let s := { s with
    services := if serviceName ∈ s.services then s.services else s.services ++ [serviceName] }
  if s.running ∧ s.config.enableRegistry ∧ s.registry.isSome then registerToRegistry s serviceName
  else s

def unregisterService (s : Server) (serviceName : Text) : Server :=
  let s := if s.config.enableRegistry ∧ s.registry.isSome then unregisterFromRegistry s serviceName
    else s
  { s with services := s.services.erase serviceName }

def sendHeartbeat (s : Server) (serviceName : Text) : Server :=
  match s.registry with
  | none => s
  | some session => s.note (.heartbeat session serviceName (instanceId s.config))

/-- One round of `heartbeatLoop`. -/
def beat (s : Server) (order : List Text) : Server :=
  if s.heartbeatRunning then order.foldl sendHeartbeat s else s

/-- Where the services are gone through, each comes once. -/
def step (s : Server) : Op → Option Server
  | .start starting => if starting.order.Perm s.services then some (start s starting) else none
  | .stop order => if order.Perm s.services then some (stop s order) else none
  | .registerService serviceName => some (registerService s serviceName)
  | .unregisterService serviceName => some (unregisterService s serviceName)
  | .beat order => if order.Perm s.services then some (beat s order) else none

/-- The notice names the address of the configuration. -/
def Names (config : RpcServerConfig) : Notice → Prop
  | .bound port host => port = config.port ∧ host = config.host
  | .registered _ inst => inst.host = advertisedHost config ∧ inst.port = config.port
  | .unregistered _ _ id => id = instanceId config
  | .heartbeat _ _ id => id = instanceId config
  | .opened _ | .closed _ => True

/-- The configuration is as it was, and all that the server does names it. -/
structure Advertised (config : RpcServerConfig) (s : Server) : Prop where
  config_eq : s.config = config
  names : ∀ n ∈ s.notices, Names config n

/-- The operation registers a service. -/
def Registers (s : Server) : Op → Prop
  | .start starting => s.running = false ∧ starting.ready = true ∧ starting.bound = true ∧
    s.config.enableRegistry = true ∧ starting.order.Perm s.services ∧ s.services ≠ []
  | .registerService _ =>
    s.running = true ∧ s.config.enableRegistry = true ∧ s.registry.isSome = true
  | .stop _ | .unregisterService _ | .beat _ => False

/-- The host is the one that a registration writes, or nothing is registered. -/
def Harmless (s : Server) (op : Op) : Prop := s.config.host = localHost ∨ ¬Registers s op

/-- The states of a server in the course of an operation that began in state `s`: what
the operations are made of. -/
inductive During (s : Server) (op : Op) : Server → Prop
  | began : During s op s
  | flags {u} (running heartbeatRunning : Bool) : During s op u →
      During s op { u with running := running, heartbeatRunning := heartbeatRunning }
  | bound {u} : During s op u → During s op (u.note (.bound u.config.port u.config.host))
  | initialized {u starting} : op = .start starting → During s op u →
      During s op (initializeRegistry u starting.session)
  | added {u serviceName} : op = .registerService serviceName → During s op u →
      During s op { u with
        services := if serviceName ∈ u.services then u.services else u.services ++ [serviceName] }
  | registered {u serviceName} : Registers s op →
      serviceName ∈ s.services ∨ op = .registerService serviceName → During s op u →
      During s op (registerToRegistry u serviceName)
  | unregistered {u} (serviceName) : During s op u →
      During s op (unregisterFromRegistry u serviceName)
  | erased {u} (serviceName) : During s op u →
      During s op { u with services := u.services.erase serviceName }
  | beaten {u} (serviceName) : During s op u → During s op (sendHeartbeat u serviceName)

section Operations

variable {config : RpcServerConfig} {s t u : Server} {op : Op}

theorem start_during {starting : Starting} (horder : starting.order.Perm s.services) :
    During s (.start starting) (start s starting) := by
  unfold start
  split
  · exact .began
  rename_i hrunning
  split
  · exact .began
  rename_i hready
  dsimp only
  split
  · exact .bound .began
  rename_i hbound
  split
  · rename_i henabled
    have hregisters : ∀ name ∈ starting.order, Registers s (.start starting) := fun name hname =>
      ⟨by simpa using hrunning, by simpa using hready, by simpa using hbound, henabled, horder,
        List.ne_nil_of_mem (horder.mem_iff.mp hname)⟩
    have hinitialized : During s (.start starting) (initializeRegistry
        { s.note (.bound s.config.port s.config.host) with running := true } starting.session) :=
      .initialized rfl (.flags true s.heartbeatRunning (.bound .began))
    exact .flags _ true (List.foldlRecOn starting.order registerToRegistry hinitialized
      fun u hu name hname =>
        .registered (hregisters name hname) (.inl (horder.mem_iff.mp hname)) hu)
  · exact .flags true s.heartbeatRunning (.bound .began)

theorem stop_during (s : Server) (order : List Text) : During s (.stop order) (stop s order) := by
  unfold stop
  split
  · dsimp only
    split
    · exact List.foldlRecOn order unregisterFromRegistry (.flags false false .began)
        fun u hu name _ => .unregistered name hu
    · exact .flags false false .began
  · exact .began

theorem registerService_during (s : Server) (serviceName : Text) :
    During s (.registerService serviceName) (registerService s serviceName) := by
  unfold registerService
  dsimp only
  split
  · rename_i hcall
    exact .registered hcall (.inr rfl) (.added rfl .began)
  · exact .added rfl .began

theorem unregisterService_during (s : Server) (serviceName : Text) :
    During s (.unregisterService serviceName) (unregisterService s serviceName) := by
  unfold unregisterService
  dsimp only
  split
  · exact .erased serviceName (.unregistered serviceName .began)
  · exact .erased serviceName .began

theorem beat_during (s : Server) (order : List Text) : During s (.beat order) (beat s order) := by
  unfold beat
  split
  · exact List.foldlRecOn order sendHeartbeat .began fun u hu name _ => .beaten name hu
  · exact .began

theorem step_during (h : step s op = some t) : During s op t := by
  cases op with
  | start starting =>
    obtain ⟨horder, ht⟩ := Option.ite_none_right_eq_some.mp h
    cases ht
    exact start_during horder
  | stop order =>
    obtain ⟨-, ht⟩ := Option.ite_none_right_eq_some.mp h
    cases ht
    exact stop_during s order
  | registerService serviceName =>
    cases h
    exact registerService_during s serviceName
  | unregisterService serviceName =>
    cases h
    exact unregisterService_during s serviceName
  | beat order =>
    obtain ⟨-, ht⟩ := Option.ite_none_right_eq_some.mp h
    cases ht
    exact beat_during s order

theorem Server.forall_note {P : Notice → Prop} {n : Notice} (h : ∀ m ∈ s.notices, P m) (hn : P n) :
    ∀ m ∈ (s.note n).notices, P m := by
  intro m hm
  cases List.mem_append.mp hm with
  | inl hm => exact h m hm
  | inr hm => exact List.mem_singleton.mp hm ▸ hn

theorem Advertised.note (h : Advertised config s) {n : Notice} (hn : Names config n) :
    Advertised config (s.note n) := ⟨h.config_eq, Server.forall_note h.names hn⟩

theorem registerToRegistry_advertised (hhost : config.host = localHost) (h : Advertised config s)
    (serviceName : Text) : Advertised config (registerToRegistry s serviceName) := by
  obtain ⟨rfl, hnames⟩ := h
  unfold registerToRegistry
  split
  · exact ⟨rfl, hnames⟩
  · rename_i session hregistry
    have hsame : { s.config with host := localHost } = s.config := by rw [← hhost]
    have hadvertised : advertisedHost s.config = localHost := by
      rw [advertisedHost, if_neg (by rw [hhost]; decide), hhost]
    refine Advertised.note ⟨hsame, ?_⟩ ⟨hadvertised.symm, rfl⟩
    exact hnames

theorem unregisterFromRegistry_advertised (h : Advertised config s) (serviceName : Text) :
    Advertised config (unregisterFromRegistry s serviceName) := by
  unfold unregisterFromRegistry
  split
  · exact h
  · exact h.note (congrArg instanceId h.config_eq)

theorem sendHeartbeat_advertised (h : Advertised config s) (serviceName : Text) :
    Advertised config (sendHeartbeat s serviceName) := by
  unfold sendHeartbeat
  split
  · exact h
  · exact h.note (congrArg instanceId h.config_eq)

theorem initializeRegistry_advertised (h : Advertised config s) (session : Nat) :
    Advertised config (initializeRegistry s session) := by
  have hreplaced : Advertised config { s with registry := some session } := ⟨h.config_eq, h.names⟩
  have hopened := hreplaced.note (n := .opened session) trivial
  unfold initializeRegistry
  split
  · exact hopened
  · exact hopened.note trivial

/-- Only a registration can change what is advertised. -/
theorem step_advertised (s : Server) (op : Op) (t : Server) (hadv : Advertised config s)
    (hsafe : Harmless s op) (h : step s op = some t) : Advertised config t := by
  rw [Harmless, hadv.config_eq] at hsafe
  replace h := step_during h
  induction h with
  | began => exact hadv
  | flags _ _ _ ih => exact ⟨ih.config_eq, ih.names⟩
  | bound _ ih => exact ih.note (by rw [ih.config_eq]; exact ⟨rfl, rfl⟩)
  | initialized _ _ ih => exact initializeRegistry_advertised ih _
  | added _ _ ih => exact ⟨ih.config_eq, ih.names⟩
  | registered hregisters _ _ ih =>
    exact registerToRegistry_advertised (hsafe.resolve_right (not_not.mpr hregisters)) ih _
  | unregistered name _ ih => exact unregisterFromRegistry_advertised ih name
  | erased _ _ ih => exact ⟨ih.config_eq, ih.names⟩
  | beaten name _ ih => exact sendHeartbeat_advertised ih name

theorem registerToRegistry_host (h : s.registry.isSome = true) (serviceName : Text) :
    (registerToRegistry s serviceName).config.host = localHost ∧
      (registerToRegistry s serviceName).registry.isSome = true := by
  obtain ⟨session, hsession⟩ := Option.isSome_iff_exists.mp h
  simp [registerToRegistry, hsession, Server.note]

theorem foldl_host (h : s.registry.isSome = true) {order : List Text} (hne : order ≠ []) :
    (order.foldl registerToRegistry s).config.host = localHost := by
  induction order generalizing s with
  | nil => exact absurd rfl hne
  | cons name order ih =>
    obtain ⟨hhost, hregistry⟩ := registerToRegistry_host h name
    cases order with
    | nil => exact hhost
    | cons next order => exact ih hregistry (List.cons_ne_nil next order)

theorem initializeRegistry_isSome (s : Server) (session : Nat) :
    (initializeRegistry s session).registry.isSome = true := by
  unfold initializeRegistry
  split <;> rfl

/-- An operation that registers a service leaves the local host in the configuration. -/
theorem registers_host (h : Registers s op) :
    ∃ t, step s op = some t ∧ t.config.host = localHost := by
  cases op with
  | start starting =>
    obtain ⟨hrunning, hready, hbound, henabled, horder, hservices⟩ := h
    refine ⟨start s starting, if_pos horder, ?_⟩
    have hne : starting.order ≠ [] := by
      intro hnil
      rw [hnil] at horder
      exact hservices horder.nil_eq.symm
    have hhost := foldl_host (initializeRegistry_isSome
      { s.note (.bound s.config.port s.config.host) with running := true } starting.session) hne
    simpa [start, hrunning, hready, hbound, henabled, Server.note] using hhost
  | registerService serviceName =>
    refine ⟨registerService s serviceName, rfl, ?_⟩
    have hhost := (registerToRegistry_host (s := { s with
      services := if serviceName ∈ s.services then s.services
        else s.services ++ [serviceName] }) h.2.2 serviceName).1
    simpa [registerService, h.1, h.2.1, h.2.2] using hhost
  | stop | unregisterService | beat => exact h.elim

end Operations

/-- The configuration stays as it is, and is the one that is advertised, exactly over
the runs in which nothing is registered or the host is the local one anyway. -/
theorem advertised_iff (config : RpcServerConfig) (ops : List Op) :
    (∀ before t, before <+: ops → run step (.new config) before = some t → Advertised config t) ↔
      Guarded step Harmless (.new config) ops := by
  refine forall_prefix_iff_guarded_of_invariant (fun _ h => h) step_advertised ?_
    ⟨rfl, fun n hn => by cases hn⟩
  intro s op hadv hsafe
  by_contra hharm
  obtain ⟨hhost, hregisters⟩ := not_or.mp hharm
  obtain ⟨t, hstep, hlocal⟩ := registers_host (not_not.mp hregisters)
  rw [hadv.config_eq] at hhost
  rw [(hsafe t hstep).config_eq] at hlocal
  exact hhost hlocal

/-- A server on one interface that serves one service, and is started again. -/
def restarted : List Op :=
  [.registerService [115], .start ⟨true, true, 1, [[115]]⟩, .stop [[115]],
    .start ⟨true, true, 2, [[115]]⟩]

/-- It binds another address than it was configured with, and advertises that. -/
theorem restart_binds_localhost : ∃ s,
    run step (.new ⟨[49, 48, 46, 48, 46, 48, 46, 50], 8080, true, 1⟩) restarted = some s ∧
    s.config.host = localHost ∧ .bound 8080 localHost ∈ s.notices ∧
    ¬Advertised ⟨[49, 48, 46, 48, 46, 48, 46, 50], 8080, true, 1⟩ s := by
  have h : (run step (.new ⟨[49, 48, 46, 48, 46, 48, 46, 50], 8080, true, 1⟩) restarted).map
      (fun s => (s.config.host, decide (.bound 8080 localHost ∈ s.notices))) =
        some (localHost, true) := by
    decide +kernel
  obtain ⟨s, hrun, hview⟩ := Option.map_eq_some_iff.mp h
  obtain ⟨hhost, hbound⟩ := Prod.mk.inj hview
  refine ⟨s, hrun, hhost, of_decide_eq_true hbound, ?_⟩
  intro hadv
  rw [hadv.config_eq] at hhost
  exact absurd hhost (by decide)

end Mprpc.ServerRegistration
