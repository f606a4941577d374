import Mprpc.ConnectionLoss
import Mprpc.Decimal
import Mprpc.Library.Transition

namespace Mprpc

open Transport

/-- The kernel's account of the descriptors that one object obtained: those still
open, and the closes that hit none of them. -/
structure Descriptors where
  held : List Int
  strays : List Int
deriving DecidableEq, Repr

namespace Descriptors

def empty : Descriptors := ⟨[], []⟩

def obtain (d : Descriptors) (fd : Int) : Descriptors := { d with held := fd :: d.held }

def close (d : Descriptors) (fd : Int) : Descriptors :=
  if fd ∈ d.held then { d with held := d.held.erase fd }
  else { d with strays := fd :: d.strays }

/-- Everything obtained has been closed, and nothing was closed twice. -/
def Settled (d : Descriptors) : Prop := d.held = [] ∧ d.strays = []

end Descriptors

/-- The result of `::connect` on a non-blocking socket. -/
inductive ConnectResult
  | connected
  | inProgress
  | failed (errno : Errno)
deriving DecidableEq, Repr

/-- The result of `select`: which of the two sets the socket is in. -/
inductive SelectResult
  | failed (errno : Errno)
  | timedOut
  | ready (error write : Bool)
deriving DecidableEq, Repr

/-- What the system calls of one `connect` return, those it does not come to
included. A socket is `none` where the call gives -1. -/
structure Dialing where
  socket : Option Nat
  setNonBlocking : Bool
  addressValid : Bool
  connect : ConnectResult
  select : SelectResult
  socketError : Bool
deriving DecidableEq, Repr

/-- A `TcpClientImpl` as the owner of its descriptors. -/
structure ClientSocket where
  client : TcpClient
  serverAddr : Text
  descriptors : Descriptors
deriving DecidableEq, Repr

namespace ClientSocket

open ConnectionLoss Library.Transition

abbrev Action := StateM ClientSocket

def new : ClientSocket := ⟨⟨-1, .disconnected, [], [], [], []⟩, [], .empty⟩

def setState (state : ConnectionState) : Action Unit :=
  modify fun s => { s with client := { s.client with state := state } }

def closeSocket : Action Unit :=
  modify fun s =>
    { s with
      client := { s.client with sockfd := -1 }
      descriptors := s.descriptors.close s.client.sockfd }

/-- Every exit of `connect` after a call that fails. -/
def giveUp : Action Bool := do
  closeSocket
  setState .disconnected
  return false

def connect (host : Text) (port : UInt16) (dialing : Dialing) : Action Bool := do
  let s ← get
  if s.client.state = .connected then return true
  setState .connecting
  match dialing.socket with
  | none =>
    modify fun s => { s with client := { s.client with sockfd := -1 } }
    setState .disconnected
    return false
  | some fd =>
    modify fun s =>
      { s with
        client := { s.client with sockfd := fd }
        descriptors := s.descriptors.obtain fd }
    if ¬dialing.setNonBlocking then return ← giveUp
    if ¬dialing.addressValid then return ← giveUp
    match dialing.connect with
    | .failed _ => return ← giveUp
    | .inProgress =>
      match dialing.select with
      | .failed _ => return ← giveUp
      | .timedOut => return ← giveUp
      | .ready error write =>
        if error then return ← giveUp
        if write ∧ dialing.socketError then return ← giveUp
    | .connected => pure ()
    setState .connected
    modify fun s => { s with serverAddr := host ++ text ":" ++ Decimal.decimal port.toNat }
    return true

def disconnect : Action Unit := do
  let s ← get
  if s.client.state ≠ .disconnected then
    setState .disconnecting
    if s.client.sockfd ≠ -1 then closeSocket
    setState .disconnected
    modify fun s => { s with serverAddr := [] }

/-- The destructor. -/
def destroy (s : ClientSocket) : ClientSocket := (disconnect.run s).2

/-- The calls of a client, with what the system calls in them meet. -/
inductive Call
  | connect (host : Text) (port : UInt16) (dialing : Dialing)
  | send (data : Bytes) (results : List SendResult)
  | receive (incoming : Bytes) (outcomes : List Recv)
  | disconnect

def sending (s : ClientSocket) (results : List SendResult) : TcpClient :=
  { s.client with sends := results }

def receiving (s : ClientSocket) (incoming : Bytes) (outcomes : List Recv) : TcpClient :=
  { s.client with incoming := incoming, recvs := outcomes }

/-- The kernel gives no descriptor that is still open. A call whose outcomes run
out while it still waits is no step. -/
def step (s : ClientSocket) : Call → Option ClientSocket
  | .connect host port dialing =>
    if dialing.socket.all fun fd => (fd : Int) ∉ s.descriptors.held then
      some ((connect host port dialing).run s).2
    else none
  | .send data results =>
    ((TcpClient.send data).run (s.sending results)).map fun (_, client) =>
      { s with client := client }
  | .receive incoming outcomes =>
    (TcpClient.receive.run (s.receiving incoming outcomes)).map fun (_, client) =>
      { s with client := client }
  | .disconnect => some (disconnect.run s).2

/-- The state says whether there is a socket, and a destruction at this point
would have every descriptor closed once. -/
def Owns (s : ClientSocket) : Prop :=
  (s.client.state = .disconnected ↔ s.client.sockfd = -1) ∧ s.destroy.descriptors.Settled

/-- No `::send` and no `recv` of the call ends the connection. -/
def Unharmed (s : ClientSocket) : Call → Prop
  | .send data results => s.client.state = .connected → ¬SendFails data (s.sending results)
  | .receive incoming outcomes =>
    s.client.state = .connected → ¬ReceiveFails (s.receiving incoming outcomes)
  | .connect .. | .disconnect => True

/-- Between two calls there is one open socket, or none. -/
inductive Sound (s : ClientSocket) : Prop
  | up (hstate : s.client.state = .connected) (hfd : s.client.sockfd ≠ -1)
    (hheld : s.descriptors = ⟨[s.client.sockfd], []⟩)
  | down (hstate : s.client.state = .disconnected) (hfd : s.client.sockfd = -1)
    (hheld : s.descriptors = .empty)

variable {s : ClientSocket}

theorem destroy_up (hstate : s.client.state = .connected) (hfd : s.client.sockfd ≠ -1) :
    s.destroy = { s with
      client := { s.client with state := .disconnected, sockfd := -1 }
      serverAddr := []
      descriptors := s.descriptors.close s.client.sockfd } := by
  simp [destroy, disconnect, hstate, hfd, setState, closeSocket]
  rfl

theorem destroy_down (hstate : s.client.state = .disconnected) : s.destroy = s := by
  simp [destroy, disconnect, hstate]
  rfl

theorem close_held (fd : Int) : (⟨[fd], []⟩ : Descriptors).close fd = .empty := by
  simp [Descriptors.close, Descriptors.empty]

theorem Sound.owns (h : Sound s) : Owns s := by
  cases h with
  | up hstate hfd hheld =>
    refine ⟨by simp [hstate, hfd], ?_⟩
    rw [destroy_up hstate hfd, hheld, close_held]
    exact ⟨rfl, rfl⟩
  | down hstate hfd hheld =>
    refine ⟨by simp [hstate, hfd], ?_⟩
    rw [destroy_down hstate, hheld]
    exact ⟨rfl, rfl⟩

theorem destroy_sound (h : Sound s) : Sound s.destroy := by
  cases h with
  | up hstate hfd hheld =>
    rw [destroy_up hstate hfd, hheld, close_held]
    exact .down rfl rfl rfl
  | down hstate hfd hheld =>
    rw [destroy_down hstate]
    exact .down hstate hfd hheld

theorem connect_connected (hstate : s.client.state = .connected) (host : Text) (port : UInt16)
    (dialing : Dialing) : (connect host port dialing).run s = (true, s) := by
  simp [connect, hstate]
  rfl

theorem connect_disconnected (hstate : s.client.state = .disconnected) (host : Text) (port : UInt16)
    (dialing : Dialing) :
    (dialing.socket = none ∧ ((connect host port dialing).run s).2 =
      { s with client := { s.client with sockfd := -1, state := .disconnected } }) ∨
    ∃ fd : Nat, dialing.socket = some fd ∧
      (((connect host port dialing).run s).2 =
        { client := { s.client with sockfd := fd, state := .connected }
          serverAddr := host ++ text ":" ++ Decimal.decimal port.toNat
          descriptors := s.descriptors.obtain fd } ∨
      ((connect host port dialing).run s).2 =
        { s with
          client := { s.client with sockfd := -1, state := .disconnected }
          descriptors := (s.descriptors.obtain fd).close fd }) := by
  obtain ⟨socket, setNonBlocking, addressValid, dialed, selected, socketError⟩ := dialing
  cases socket with
  | none =>
    left
    simp [connect, hstate, setState]
    rfl
  | some fd =>
    refine .inr ⟨fd, rfl, ?_⟩
    cases setNonBlocking with
    | false =>
      right
      simp [connect, hstate, setState, giveUp, closeSocket]
      rfl
    | true =>
      cases addressValid with
      | false =>
        right
        simp [connect, hstate, setState, giveUp, closeSocket]
        rfl
      | true =>
        cases dialed with
        | connected =>
          left
          simp [connect, hstate, setState]
          rfl
        | failed errno =>
          right
          simp [connect, hstate, setState, giveUp, closeSocket]
          rfl
        | inProgress =>
          cases selected with
          | failed errno =>
            right
            simp [connect, hstate, setState, giveUp, closeSocket]
            rfl
          | timedOut =>
            right
            simp [connect, hstate, setState, giveUp, closeSocket]
            rfl
          | ready error write =>
            cases error with
            | true =>
              right
              simp [connect, hstate, setState, giveUp, closeSocket]
              rfl
            | false =>
              by_cases hfailed : write = true ∧ socketError = true
              · right
                simp [connect, hstate, setState, giveUp, closeSocket, hfailed]
                rfl
              · left
                simp [connect, hstate, setState, hfailed]
                rfl

theorem connect_sound (h : Sound s) (host : Text) (port : UInt16) (dialing : Dialing) :
    Sound ((connect host port dialing).run s).2 := by
  cases h with
  | up hstate hfd hheld =>
    rw [connect_connected hstate]
    exact .up hstate hfd hheld
  | down hstate hfd hheld =>
    obtain ⟨-, hrun⟩ | ⟨fd, -, hrun | hrun⟩ := connect_disconnected hstate host port dialing
    · rw [hrun]
      exact .down rfl rfl hheld
    · rw [hrun, hheld]
      refine .up rfl ?_ rfl
      change (fd : Int) ≠ -1
      omega
    · rw [hrun, hheld]
      exact .down rfl rfl (close_held fd)

section Calls

open TcpClient ClientReads

variable {c c' : TcpClient} {data : Bytes} {length : Nat}

theorem readExactly_sockfd {r : Option Bytes} (h : (readExactly length).run c = some (r, c')) :
    c'.sockfd = c.sockfd := by
  rw [readExactly_run] at h
  obtain ⟨⟨⟨outcome, incoming⟩, recvs⟩, -, hr⟩ := Option.map_eq_some_iff.mp h
  cases outcome <;> cases hr <;> rfl

theorem receive_sockfd {r : Option Bytes} (h : receive.run c = some (r, c')) :
    c'.sockfd = c.sockfd := by
  by_cases hs : c.state = .connected
  · rw [receive_run hs] at h
    obtain ⟨⟨header, c₁⟩, hread, hrest⟩ := Option.bind_eq_some_iff.mp h
    have hc₁ := readExactly_sockfd hread
    cases header with
    | none =>
      cases hrest
      exact hc₁
    | some lengthBytes =>
      dsimp only at hrest
      split at hrest
      · cases hrest
        exact hc₁
      · exact (readExactly_sockfd hrest).trans hc₁
  · rw [receive_disconnected hs] at h
    cases h
    rfl

theorem send_sockfd {sent : Bool} (h : (send data).run c = some (sent, c')) :
    c'.sockfd = c.sockfd := by
  by_cases hs : c.state = .connected
  · rw [send_run hs] at h
    obtain ⟨⟨⟨outcome, outgoing⟩, sends⟩, _, hback⟩ := Option.map_eq_some_iff.mp h
    cases outcome with
    | complete =>
      cases hback
      rfl
    | failed errorMsg =>
      cases hback
      rfl
  · rw [send_unconnected hs] at h
    cases h
    rfl

end Calls

/-- What a client is left with when its connection was lost: the socket is not closed. -/
theorem not_owns_of_lost {t : ClientSocket} (hstate : t.client.state = .disconnected)
    (hfd : t.client.sockfd ≠ -1) : ¬Owns t := fun h => hfd (h.1.mp hstate)

theorem step_sound (s : ClientSocket) (call : Call) (t : ClientSocket) (h : Sound s)
    (hg : Unharmed s call) (ht : step s call = some t) : Sound t := by
  cases call with
  | connect host port dialing =>
    simp only [step] at ht
    split at ht
    · cases ht
      exact connect_sound h host port dialing
    · cases ht
  | send data results =>
    obtain ⟨⟨sent, c'⟩, hrun, rfl⟩ := Option.map_eq_some_iff.mp ht
    cases h with
    | up hstate hfd hheld =>
      have hsame := send_sockfd hrun
      have hs' := (send_keeps (c := s.sending results) hstate (hg hstate) hrun).2
      refine .up hs' ?_ ?_
      · exact fun h => hfd (hsame.symm.trans h)
      · change s.descriptors = ⟨[c'.sockfd], []⟩
        rw [hsame]
        exact hheld
    | down hstate hfd hheld =>
      rw [TcpClient.send_unconnected (by rw [sending, hstate]; decide)] at hrun
      cases hrun
      exact .down hstate hfd hheld
  | receive incoming outcomes =>
    obtain ⟨⟨r, c'⟩, hrun, rfl⟩ := Option.map_eq_some_iff.mp ht
    cases h with
    | up hstate hfd hheld =>
      have hsame := receive_sockfd hrun
      have hs' := receive_keeps (c := s.receiving incoming outcomes) hstate (hg hstate) hrun
      refine .up hs' ?_ ?_
      · exact fun h => hfd (hsame.symm.trans h)
      · change s.descriptors = ⟨[c'.sockfd], []⟩
        rw [hsame]
        exact hheld
    | down hstate hfd hheld =>
      rw [ClientReads.receive_disconnected (by rw [receiving, hstate]; decide)] at hrun
      cases hrun
      exact .down hstate hfd hheld
  | disconnect =>
    cases ht
    exact destroy_sound h

theorem unharmed_of_owns (s : ClientSocket) (call : Call) (h : Sound s)
    (hall : ∀ t, step s call = some t → Owns t) : Unharmed s call := by
  cases call with
  | connect host port dialing => trivial
  | disconnect => trivial
  | send data results =>
    intro hstate hfails
    cases h with
    | down hstate' _ _ =>
      rw [hstate'] at hstate
      cases hstate
    | up _ hfd _ =>
      obtain ⟨c', hrun, hlost⟩ := send_fails (c := s.sending results) hstate hfails
      have hstep : step s (.send data results) = some { s with client := c' } := by
        rw [step, hrun]
        rfl
      exact not_owns_of_lost hlost (by rw [send_sockfd hrun]; exact hfd) (hall _ hstep)
  | receive incoming outcomes =>
    intro hstate hfails
    cases h with
    | down hstate' _ _ =>
      rw [hstate'] at hstate
      cases hstate
    | up _ hfd _ =>
      obtain ⟨c', hrun, hlost⟩ := receive_fails (c := s.receiving incoming outcomes) hstate hfails
      have hstep : step s (.receive incoming outcomes) = some { s with client := c' } := by
        rw [step, hrun]
        rfl
      exact not_owns_of_lost hlost (by rw [receive_sockfd hrun]; exact hfd) (hall _ hstep)

/-- A client owns its socket through the runs in which no `::send` and no `recv`
ends the connection, and through no others. -/
theorem owns_socket_iff_unharmed (calls : List Call) :
    (∀ before t, before <+: calls → run step new before = some t → Owns t) ↔
      Guarded step Unharmed new calls :=
  forall_prefix_iff_guarded_of_invariant (fun _ => Sound.owns) step_sound unharmed_of_owns
    (.down rfl rfl rfl)

/-- A dial that is accepted at once. -/
def dialing (fd : Nat) : Dialing := ⟨some fd, true, true, .connected, .timedOut, false⟩

/-- A client whose peer goes away and that connects again keeps the first socket open. -/
theorem lost_socket_stays_open : ∃ s t,
    run step new [.connect [49] 80 (dialing 3), .send [1] [.sent 0]] = some s ∧
    s.client.state = .disconnected ∧ s.client.sockfd = 3 ∧
    run step new [.connect [49] 80 (dialing 3), .send [1] [.sent 0],
      .connect [49] 80 (dialing 4)] = some t ∧
    t.destroy.descriptors.held = [3] ∧ ¬Owns s := by
  have hs : (run step new [.connect [49] 80 (dialing 3), .send [1] [.sent 0]]).map
      (fun s => (s.client.state, s.client.sockfd)) = some (.disconnected, 3) := by
    decide +kernel
  have ht : (run step new [.connect [49] 80 (dialing 3), .send [1] [.sent 0],
      .connect [49] 80 (dialing 4)]).map (fun t => t.destroy.descriptors.held) = some [3] := by
    decide +kernel
  obtain ⟨s, hrun, hview⟩ := Option.map_eq_some_iff.mp hs
  obtain ⟨t, hrun', hheld⟩ := Option.map_eq_some_iff.mp ht
  obtain ⟨hstate, hfd⟩ := Prod.mk.inj hview
  refine ⟨s, t, hrun, hstate, hfd, hrun', hheld, ?_⟩
  apply not_owns_of_lost hstate
  rw [hfd]
  decide

end ClientSocket

end Mprpc
