import Mathlib.Data.Finset.Card
import Mathlib.Data.List.Nodup
import Mprpc.ConnectionLoss
import Mprpc.ServerReads

namespace Mprpc.ConnectionTables

open Transport TcpConnection TcpServer ServerReads ConnectionLoss Library.Transition

/-- A started server. A connection is named by its place among all that were
made; the two tables list those that the transport and the RPC server know. -/
structure Server where
  objects : List TcpConnection
  tcpConnections : List Nat
  rpcConnections : Finset Nat
  sends : List (Nat × SendCall)

namespace Server

def started : Server := ⟨[], [], ∅, []⟩

def getConnectionCount (s : Server) : Nat := s.rpcConnections.card

end Server

namespace Rpc

/-- The connection callback of the transport. -/
def handleNewConnection (s : Server) (i : Nat) : Server :=
  { s with
    rpcConnections := insert i s.rpcConnections
    objects := s.objects.modify i fun c =>
      { c with messageCallback := true, errorCallback := true } }

def handleConnectionClosed (s : Server) (i : Nat) : Server :=
  { s with rpcConnections := s.rpcConnections.erase i }

def handleError (s : Server) (i : Nat) (_errorMessage : Text) : Server := handleConnectionClosed s i

end Rpc

/-- The socket and the address that `accept` returned, if any, and whether
`epoll_ctl` took the socket. -/
def handleNewConnection (s : Server) (client : Option (Int × Text)) (added : Bool) : Server :=
  match client with
  | none => s
  | some (sockfd, peerAddr) =>
    if maxConnections ≤ s.tcpConnections.length then s
    else if added then
      let i := s.objects.length
      Rpc.handleNewConnection
        { s with
          objects := s.objects ++ [TcpConnection.new sockfd peerAddr]
          tcpConnections := s.tcpConnections ++ [i] } i
    else s

/-- What an effect of a connection does to the tables. -/
def carry (i : Nat) (s : Server) : Effect → Server
  | .removed => { s with tcpConnections := s.tcpConnections.erase i }
  | .error errorMessage => Rpc.handleError s i errorMessage
  | _ => s

/-- Run a method of a connection and carry its effects out. -/
def onConnection {α : Type} (s : Server) (i : Nat) (method : TcpConnection.Action α) :
    Option (α × Server) :=
  match s.objects[i]? with
  | none => none
  | some c =>
    match method.run { c with effects := [] } with
    | .ok result c' =>
      some (result, c'.effects.foldl (carry i) { s with objects := s.objects.set i c' })
    | .error _ _ => none

inductive Event
  | accept (client : Option (Int × Text)) (added : Bool)
  | client (i : Nat) (readable : Option Readv) (hangUp : Bool)
  | beginSend (i : Nat) (response : Bytes)
  | resumeSend (k : Nat) (result : SendResult)

/-- `readv` gives no more bytes than the connection offers room for. -/
def Server.delivers (s : Server) (i : Nat) : Option Readv → Bool
  | some result => s.objects[i]?.any fun c => result.size ≤ c.inputBuffer.offered
  | none => true

/-- An event of epoll is for a connection in the list of the transport. A worker
sends on any connection there was, one `::send` at a time. -/
def step (s : Server) : Event → Option Server
  | .accept client added => some (handleNewConnection s client added)
  | .client i readable hangUp =>
    if i ∈ s.tcpConnections ∧ s.delivers i readable then
      (onConnection s i (handleClientEvent readable hangUp)).map Prod.snd
    else none
  | .beginSend i response =>
    (onConnection s i (TcpConnection.beginSend response)).map fun (call, s') =>
      { s' with sends := s'.sends ++ [(i, call)] }
  | .resumeSend k result =>
    match s.sends[k]? with
    | some (i, .sending loop) =>
      if (loop.put result).length = result.size then
        (onConnection s i (TcpConnection.resumeSend loop result)).map fun (call, s') =>
          { s' with sends := s'.sends.set k (i, call) }
      else none
    | _ => none

/-- The tables list the same connections, and the count is theirs. -/
def InStep (s : Server) : Prop :=
  (∀ i, i ∈ s.rpcConnections ↔ i ∈ s.tcpConnections) ∧
    s.getConnectionCount = s.tcpConnections.length

/-- The results of `readv` that end a connection. -/
def FatalRead : Readv → Prop
  | .bytes data => data = []
  | .error errno => errno.wouldBlock = false

/-- The event ends no connection. -/
def Quiet : Event → Prop
  | .client _ readable hangUp => (∀ result ∈ readable, ¬ FatalRead result) ∧ hangUp = false
  | .resumeSend _ result => ¬ FatalSend result
  | .accept .. | .beginSend .. => True

/-- A connection that is up, with the callbacks of the RPC server. -/
structure Serving (c : TcpConnection) : Prop where
  connected : c.state = .connected
  live : Live c.inputBuffer
  messageCallback : c.messageCallback = true
  errorCallback : c.errorCallback = true

theorem accepted_serving (sockfd : Int) (peerAddr : Text) : Serving (accepted sockfd peerAddr) :=
  ⟨rfl, accepted_live sockfd peerAddr, rfl, rfl⟩

theorem Serving.withEffects {c : TcpConnection} (h : Serving c) (effects : List Effect) :
    Serving { c with effects := effects } :=
  ⟨h.connected, h.live, h.messageCallback, h.errorCallback⟩

/-- The effects that no table hears of. -/
def Harmless (e : Effect) : Prop := e ≠ .removed ∧ ∀ errorMessage, e ≠ .error errorMessage

section Methods

variable {c : TcpConnection}

/-- The connection is taken off the list of the transport, and the RPC server is not told. -/
def Ends (method : TcpConnection.Action Unit) (c : TcpConnection) : Prop :=
  ∃ c', method.run c = .ok () c' ∧ .removed ∈ c'.effects ∧
    ∀ errorMessage, .error errorMessage ∈ c'.effects → .error errorMessage ∈ c.effects

theorem handleClientClose_ends (c : TcpConnection) : Ends handleClientClose c := by
  by_cases hs : c.state = .disconnected
  · refine ⟨{ c with effects := c.effects ++ [.unregistered c.sockfd, .removed] }, ?_, ?_, ?_⟩
    · simp [handleClientClose, close, emit, hs]
    · simp
    · simp
  · by_cases hf : c.sockfd = -1
    · refine ⟨{ c with
        state := .disconnected
        effects := c.effects ++ [.unregistered c.sockfd, .removed] }, ?_, ?_, ?_⟩
      · simp [handleClientClose, close, emit, hs, hf]
      · simp
      · simp
    · refine ⟨{ c with
        state := .disconnected
        sockfd := -1
        effects := c.effects ++ [.unregistered c.sockfd, .removed, .closed c.sockfd] }, ?_, ?_, ?_⟩
      · simp [handleClientClose, close, emit, hs, hf]
      · simp
      · simp

theorem read_quiet (sv : Serving c) {result : Readv} (hfit : Fits c.inputBuffer result)
    (h : ¬ FatalRead result) :
    ∃ c', (handleClientRead result).run c = .ok () c' ∧ Serving c' ∧
      ∃ frames : List Bytes, c'.effects = c.effects ++ frames.map .message := by
  cases result with
  | bytes data =>
    obtain ⟨b', hrun, live', -⟩ := handleClientRead_bytes sv.live sv.messageCallback h hfit
    exact ⟨_, hrun, ⟨sv.connected, live', sv.messageCallback, sv.errorCallback⟩, _, rfl⟩
  | error errno =>
    have hw : errno.wouldBlock = true := by simpa [FatalRead] using h
    exact ⟨c, handleClientRead_waits sv.live hw, sv, [], by simp⟩

theorem read_fatal (sv : Serving c) {result : Readv} (h : FatalRead result) :
    Ends (handleClientRead result) c := by
  cases result with
  | bytes data =>
    cases h
    obtain ⟨b, hrun, -⟩ := handleClientRead_ends sv.live
    unfold Ends
    rw [hrun]
    exact handleClientClose_ends { c with inputBuffer := b }
  | error errno =>
    unfold Ends
    rw [handleClientRead_fails sv.live h]
    exact handleClientClose_ends c

theorem Ends.then_close {method : TcpConnection.Action Unit} (h : Ends method c) :
    Ends (method >>= fun _ => handleClientClose) c := by
  obtain ⟨c₁, hrun₁, -, herr₁⟩ := h
  obtain ⟨c₂, hrun₂, hrem₂, herr₂⟩ := handleClientClose_ends c₁
  refine ⟨c₂, ?_, hrem₂, fun errorMessage h => herr₁ errorMessage (herr₂ errorMessage h)⟩
  simp only [EStateM.run_bind, hrun₁, hrun₂]

theorem handleClientEvent_quiet (sv : Serving c) {readable : Option Readv}
    (hfit : ∀ result ∈ readable, Fits c.inputBuffer result)
    (h : ∀ result ∈ readable, ¬ FatalRead result) :
    ∃ c', (handleClientEvent readable false).run c = .ok () c' ∧ Serving c' ∧
      ∃ frames : List Bytes, c'.effects = c.effects ++ frames.map .message := by
  cases readable with
  | none => exact ⟨c, rfl, sv, [], by simp⟩
  | some result =>
    obtain ⟨c', hrun, sv', heff⟩ := read_quiet sv (hfit result rfl) (h result rfl)
    exact ⟨c', by simp [handleClientEvent, hrun], sv', heff⟩

theorem handleClientEvent_hangUp (readable : Option Readv) :
    handleClientEvent readable true =
      (handleClientEvent readable false >>= fun _ => handleClientClose) := by
  cases readable <;> simp [handleClientEvent]

/-- An event that is not quiet ends the connection, in the read or after it. -/
theorem handleClientEvent_ends (sv : Serving c) {readable : Option Readv} {hangUp : Bool}
    (hfit : ∀ result ∈ readable, Fits c.inputBuffer result)
    (h : ¬ ((∀ result ∈ readable, ¬ FatalRead result) ∧ hangUp = false)) :
    Ends (handleClientEvent readable hangUp) c := by
  by_cases hfatal : ∃ result ∈ readable, FatalRead result
  · obtain ⟨result, hr, hf⟩ := hfatal
    cases hr
    have hread : Ends (handleClientEvent (some result) false) c := by
      simpa [handleClientEvent] using read_fatal sv hf
    cases hangUp with
    | false => exact hread
    | true =>
      rw [handleClientEvent_hangUp]
      exact hread.then_close
  · have hquiet : ∀ result ∈ readable, ¬ FatalRead result :=
      fun result hr hf => hfatal ⟨result, hr, hf⟩
    have hh : hangUp = true := Bool.eq_true_of_not_eq_false (not_and.mp h hquiet)
    subst hh
    obtain ⟨c₁, hrun₁, -, frames, heff₁⟩ := handleClientEvent_quiet sv hfit hquiet
    obtain ⟨c₂, hrun₂, hrem₂, herr₂⟩ := handleClientClose_ends c₁
    refine ⟨c₂, ?_, hrem₂, ?_⟩
    · rw [handleClientEvent_hangUp]
      simp only [EStateM.run_bind, hrun₁, hrun₂]
    · intro errorMessage herr
      have hmem := herr₂ errorMessage herr
      simpa [heff₁] using hmem

end Methods

section Sends

theorem check_quiet (loop : Sending) (errorMessage : Text) :
    Sending.check loop ≠ .done (.failed errorMessage) := by
  unfold Sending.check
  split <;> simp

variable {c : TcpConnection} (sv : Serving c)
include sv

theorem afterRound_quiet {p : Library.Loop.Progress Sending SendOutcome}
    (h : ∀ errorMessage, p ≠ .done (.failed errorMessage)) :
    ∃ call c', (afterRound p).run c = .ok call c' ∧ Serving c' ∧
      ∃ added, c'.effects = c.effects ++ added ∧ ∀ e ∈ added, Harmless e := by
  cases p with
  | again loop => exact ⟨_, c, rfl, sv, [], by simp⟩
  | done outcome =>
    cases outcome with
    | failed errorMessage => exact absurd rfl (h errorMessage)
    | complete =>
      by_cases hcb : c.writeCompleteCallback
      · refine ⟨.returned true, _, ?_, sv.withEffects (c.effects ++ [.writeComplete]),
          [.writeComplete], rfl, ?_⟩
        · simp only [afterRound, EStateM.run_bind, EStateM.run_get, EStateM.run_pure, if_pos hcb,
            emit_run]
        · simp [Harmless]
      · exact ⟨.returned true, c, by simp [afterRound, hcb], sv, [], by simp⟩

theorem beginSend_quiet (response : Bytes) :
    ∃ call c', (TcpConnection.beginSend response).run c = .ok call c' ∧ Serving c' ∧
      ∃ added, c'.effects = c.effects ++ added ∧ ∀ e ∈ added, Harmless e := by
  obtain ⟨call, c', hrun, h⟩ := afterRound_quiet sv (check_quiet ⟨response, 0⟩)
  exact ⟨call, c', by simp [TcpConnection.beginSend, sv.connected, Sending.start, hrun], h⟩

theorem resumeSend_quiet (loop : Sending) {result : SendResult} (h : ¬ FatalSend result) :
    ∃ call c', (TcpConnection.resumeSend loop result).run c = .ok call c' ∧ Serving c' ∧
      ∃ added, c'.effects = c.effects ++ added ∧ ∀ e ∈ added, Harmless e := by
  have hnext : ∀ errorMessage, loop.attempt result ≠ .done (.failed errorMessage) :=
    not_exists.mp (mt (attempt_failed_iff loop result).mp h)
  obtain ⟨call, c', hrun, sv', added, heff, hadded⟩ :=
    afterRound_quiet (sv.withEffects (c.effects ++ [.wrote (loop.put result)])) hnext
  refine ⟨call, c', ?_, sv', .wrote (loop.put result) :: added, by simp [heff], ?_⟩
  · simp [TcpConnection.resumeSend, emit_run, hrun]
  · simpa [Harmless] using hadded

theorem resumeSend_fatal (loop : Sending) {result : SendResult} (h : FatalSend result) :
    ∃ call c' errorMessage, (TcpConnection.resumeSend loop result).run c = .ok call c' ∧
      c'.effects = c.effects ++ [.wrote (loop.put result), .error errorMessage] := by
  obtain ⟨errorMessage, hattempt⟩ := (attempt_failed_iff loop result).mpr h
  refine ⟨.returned false, { c with
    state := .disconnected
    effects := c.effects ++ [.wrote (loop.put result), .error errorMessage] }, errorMessage,
    ?_, rfl⟩
  simp [-bind_pure_comp, TcpConnection.resumeSend, hattempt, afterRound, handleError, emit,
    sv.errorCallback]

end Sends

section Tables

variable {i : Nat} {s : Server} {effects : List Effect}

theorem carry_harmless (h : ∀ e ∈ effects, Harmless e) : effects.foldl (carry i) s = s := by
  induction effects with
  | nil => rfl
  | cons e effects ih =>
    obtain ⟨hremoved, herror⟩ := h e (by simp)
    have hcarry : carry i s e = s := by
      cases e with
      | removed => exact absurd rfl hremoved
      | error errorMessage => exact absurd rfl (herror errorMessage)
      | _ => rfl
    rw [List.foldl_cons, hcarry]
    exact ih fun e he => h e (by simp [he])

theorem carry_removed (hnd : s.tcpConnections.Nodup)
    (hremoved : .removed ∈ effects ∨ i ∉ s.tcpConnections)
    (herror : ∀ errorMessage, .error errorMessage ∉ effects) :
    i ∉ (effects.foldl (carry i) s).tcpConnections ∧
      (effects.foldl (carry i) s).rpcConnections = s.rpcConnections := by
  induction effects generalizing s with
  | nil => exact ⟨by simpa using hremoved, rfl⟩
  | cons e effects ih =>
    have herror' : ∀ errorMessage, .error errorMessage ∉ effects :=
      fun errorMessage he => herror errorMessage (by simp [he])
    rw [List.foldl_cons]
    cases e with
    | removed => exact ih (hnd.erase i) (.inr hnd.not_mem_erase) herror'
    | error errorMessage => exact absurd (by simp) (herror errorMessage)
    | _ => exact ih hnd (by simpa [carry] using hremoved) herror'

theorem onConnection_some {α : Type} {method : TcpConnection.Action α} {r : α × Server}
    (h : onConnection s i method = some r) :
    ∃ c c', s.objects[i]? = some c ∧ method.run { c with effects := [] } = .ok r.1 c' ∧
      r.2 = c'.effects.foldl (carry i) { s with objects := s.objects.set i c' } := by
  unfold onConnection at h
  split at h
  · cases h
  · rename_i c hc
    split at h
    · rename_i result c' hrun
      cases h
      exact ⟨c, c', hc, hrun, rfl⟩
    · cases h

theorem step_client {t : Server} {readable : Option Readv} {hangUp : Bool}
    (h : step s (.client i readable hangUp) = some t) :
    s.delivers i readable ∧
      ∃ r, onConnection s i (handleClientEvent readable hangUp) = some r ∧ r.2 = t := by
  simp only [step] at h
  split at h
  · rename_i hready
    exact ⟨hready.2, Option.map_eq_some_iff.mp h⟩
  · cases h

theorem step_resumeSend {t : Server} {k : Nat} {result : SendResult}
    (h : step s (.resumeSend k result) = some t) :
    ∃ j loop r, onConnection s j (TcpConnection.resumeSend loop result) = some r ∧
      t = { r.2 with sends := r.2.sends.set k (j, r.1) } := by
  simp only [step] at h
  split at h
  · rename_i j loop hsend
    split at h
    · obtain ⟨r, hrun, rfl⟩ := Option.map_eq_some_iff.mp h
      exact ⟨j, loop, r, hrun, rfl⟩
    · cases h
  · cases h

end Tables

/-- Every connection that was made is up and in both tables. -/
structure Sound (s : Server) : Prop where
  tcp : s.tcpConnections = List.range s.objects.length
  rpc : s.rpcConnections = Finset.range s.objects.length
  serving : ∀ c ∈ s.objects, Serving c

theorem started_sound : Sound .started := ⟨rfl, rfl, by simp [Server.started]⟩

theorem Sound.inStep {s : Server} (h : Sound s) : InStep s := by
  refine ⟨fun i => ?_, ?_⟩
  · rw [h.tcp, h.rpc, List.mem_range, Finset.mem_range]
  · rw [Server.getConnectionCount, h.tcp, h.rpc, List.length_range, Finset.card_range]

theorem modify_last {α : Type} (f : α → α) (xs : List α) (x : α) :
    (xs ++ [x]).modify xs.length f = xs ++ [f x] := by
  induction xs with
  | nil => rfl
  | cons y ys ih => simp [ih]

theorem delivers_fits {s : Server} {i : Nat} {c : TcpConnection} {readable : Option Readv}
    (h : s.delivers i readable) (hc : s.objects[i]? = some c) :
    ∀ result ∈ readable, Fits c.inputBuffer result := by
  intro result hr
  cases hr
  have hsize : result.size ≤ c.inputBuffer.offered := by simpa [Server.delivers, hc] using h
  exact hsize

section Steps

variable {s t : Server} {i : Nat} {c : TcpConnection} (sound : Sound s)
include sound

theorem Sound.nodup : s.tcpConnections.Nodup := by
  rw [sound.tcp]
  exact List.nodup_range

theorem Sound.object (hc : s.objects[i]? = some c) :
    Serving c ∧ i ∈ s.tcpConnections ∧ i ∈ s.rpcConnections := by
  obtain ⟨hi, rfl⟩ := List.getElem?_eq_some_iff.mp hc
  rw [sound.tcp, sound.rpc, List.mem_range, Finset.mem_range]
  exact ⟨sound.serving _ (List.getElem_mem hi), hi, hi⟩

theorem Sound.set {c' : TcpConnection} (sv' : Serving c') {effects : List Effect}
    (h : ∀ e ∈ effects, Harmless e) :
    Sound (effects.foldl (carry i) { s with objects := s.objects.set i c' }) := by
  rw [carry_harmless h]
  refine ⟨?_, ?_, ?_⟩
  · rw [List.length_set]
    exact sound.tcp
  · rw [List.length_set]
    exact sound.rpc
  · intro c hc
    cases List.mem_or_eq_of_mem_set hc with
    | inl hc => exact sound.serving c hc
    | inr hc => exact hc ▸ sv'

theorem Sound.withSends (sends : List (Nat × SendCall)) : Sound { s with sends := sends } :=
  ⟨sound.tcp, sound.rpc, sound.serving⟩

theorem handleNewConnection_sound (client : Option (Int × Text)) (added : Bool) :
    Sound (handleNewConnection s client added) := by
  cases client with
  | none => exact sound
  | some client =>
    obtain ⟨sockfd, peerAddr⟩ := client
    simp only [handleNewConnection]
    split
    · exact sound
    · split
      · rw [Rpc.handleNewConnection, modify_last]
        refine ⟨?_, ?_, ?_⟩
        · simp [sound.tcp, List.range_succ]
        · simp [sound.rpc, Finset.range_add_one]
        · intro c hc
          cases List.mem_append.mp hc with
          | inl hc => exact sound.serving c hc
          | inr hc =>
            rw [List.mem_singleton.mp hc]
            exact accepted_serving sockfd peerAddr
      · exact sound

theorem onConnection_sound {α : Type} {method : TcpConnection.Action α} {r : α × Server}
    (h : onConnection s i method = some r)
    (hmethod : ∀ c, s.objects[i]? = some c → Serving c →
      ∃ result c', method.run { c with effects := [] } = .ok result c' ∧ Serving c' ∧
        ∀ e ∈ c'.effects, Harmless e) : Sound r.2 := by
  obtain ⟨c, c', hc, hrun, ht⟩ := onConnection_some h
  obtain ⟨result, c₁, hrun₁, sv₁, hharmless⟩ := hmethod c hc (sound.object hc).1
  rw [hrun₁] at hrun
  cases hrun
  rw [ht]
  exact sound.set sv₁ hharmless

/-- A step that is quiet keeps every connection in both tables. -/
theorem step_sound {e : Event} (hq : Quiet e) (h : step s e = some t) : Sound t := by
  cases e with
  | accept client added =>
    cases h
    exact handleNewConnection_sound sound client added
  | client i readable hangUp =>
    obtain ⟨hquiet, rfl⟩ := hq
    obtain ⟨hready, r, hrun, rfl⟩ := step_client h
    apply onConnection_sound sound hrun
    intro c hc sv
    have hfit := delivers_fits hready hc
    obtain ⟨c', hevent, sv', frames, heff⟩ :=
      handleClientEvent_quiet (sv.withEffects []) hfit hquiet
    refine ⟨(), c', hevent, sv', ?_⟩
    simp [heff, Harmless]
  | beginSend i response =>
    obtain ⟨r, hrun, rfl⟩ := Option.map_eq_some_iff.mp h
    apply Sound.withSends
    apply onConnection_sound sound hrun
    intro c hc sv
    obtain ⟨call, c', hsend, sv', added, heff, hadded⟩ :=
      beginSend_quiet (sv.withEffects []) response
    exact ⟨call, c', hsend, sv', by simpa [heff] using hadded⟩
  | resumeSend k result =>
    obtain ⟨i, loop, r, hrun, rfl⟩ := step_resumeSend h
    apply Sound.withSends
    apply onConnection_sound sound hrun
    intro c hc sv
    obtain ⟨call, c', hsend, sv', added, heff, hadded⟩ :=
      resumeSend_quiet (sv.withEffects []) loop hq
    exact ⟨call, c', hsend, sv', by simpa [heff] using hadded⟩

theorem step_breaks {e : Event} (hq : ¬ Quiet e) (h : step s e = some t) : ¬ InStep t := by
  rintro ⟨hsame, -⟩
  cases e with
  | accept | beginSend => exact hq trivial
  | client i readable hangUp =>
    obtain ⟨hready, r, hrun, rfl⟩ := step_client h
    obtain ⟨c, c', hc, hevent, ht⟩ := onConnection_some hrun
    obtain ⟨sv, -, hrpc⟩ := sound.object hc
    have hfit := delivers_fits hready hc
    obtain ⟨c₁, hrun₁, hremoved, herror⟩ := handleClientEvent_ends (sv.withEffects []) hfit hq
    rw [hrun₁] at hevent
    cases hevent
    have hnone : ∀ errorMessage, .error errorMessage ∉ c'.effects := by
      intro errorMessage he
      simpa using herror errorMessage he
    obtain ⟨htcp, hkept⟩ := carry_removed (s := { s with objects := s.objects.set i c' })
      sound.nodup (.inl hremoved) hnone
    rw [ht, hkept] at hsame
    exact htcp ((hsame i).mp hrpc)
  | resumeSend k result =>
    obtain ⟨i, loop, r, hrun, rfl⟩ := step_resumeSend h
    obtain ⟨c, c', hc, hcall, ht⟩ := onConnection_some hrun
    obtain ⟨sv, htcp, -⟩ := sound.object hc
    obtain ⟨call, c₁, errorMessage, hrun₁, heff⟩ := resumeSend_fatal (sv.withEffects []) loop
      (not_not.mp hq)
    rw [hrun₁] at hcall
    cases hcall
    rw [ht, heff] at hsame
    have hin := (hsame i).mpr htcp
    simp [carry, Rpc.handleError, Rpc.handleConnectionClosed] at hin

end Steps

/-- The tables stay in step exactly over the runs in which no event ends a connection. -/
theorem in_step_iff {events : List Event} {s : Server}
    (h : run step .started events = some s) :
    (∀ before t, before <+: events → run step .started before = some t → InStep t) ↔
      ∀ e ∈ events, Quiet e :=
  forall_prefix_iff_forall_mem (fun _ => Sound.inStep) (fun _ _ _ sound => step_sound sound)
    (fun _ _ _ sound => step_breaks sound) started_sound h

/-- A response whose first `::send` fails. -/
def failedResponse : List Event :=
  [.accept (some (7, [49])) true, .beginSend 0 [1], .resumeSend 0 (.sent 0)]

theorem in_step_iff_failed :
    (∀ before t, before <+: failedResponse → run step .started before = some t → InStep t) ↔
      ∀ e ∈ failedResponse, Quiet e :=
  in_step_iff rfl

/-- A peer that connects and closes is gone from the transport and still counted
by the RPC server. -/
theorem closed_peer_counted : ∃ s,
    run step .started [.accept (some (7, [49])) true, .client 0 (some (.bytes [])) false] = some s ∧
    s.tcpConnections = [] ∧ s.getConnectionCount = 1 ∧ ¬ InStep s := by
  have h : (run step .started [.accept (some (7, [49])) true,
      .client 0 (some (.bytes [])) false]).map
        (fun s => (s.tcpConnections, s.getConnectionCount)) = some ([], 1) := by
    decide +kernel
  obtain ⟨s, hrun, hs⟩ := Option.map_eq_some_iff.mp h
  obtain ⟨htcp, hcount⟩ := Prod.mk.inj hs
  refine ⟨s, hrun, htcp, hcount, ?_⟩
  rintro ⟨-, hsame⟩
  rw [htcp, hcount] at hsame
  cases hsame

end Mprpc.ConnectionTables
