import Mprpc.EventLoop

namespace Mprpc.ConnectionClosing

open Transport TcpConnection TcpServer ServerReads EventLoop Library.Transition Library.Loop
open ConnectionLoss (FatalSend attempt_failed_iff)

/-- A started transport and the calls of `send` that workers are in. -/
structure Server where
  loop : EventLoop
  sends : List (Nat × SendCall)

def Server.started : Server := ⟨.started, []⟩

inductive Event
  | loop (event : LoopEvent)
  | beginSend (i : Nat) (response : Bytes)
  | resumeSend (k : Nat) (result : SendResult)
  | stop

/-- A step of the loop's thread, of a worker, or of the thread that stops the server. -/
def step (s : Server) : Event → Option Server
  | .loop event => (s.loop.step event).map fun loop => { s with loop := loop }
  | .beginSend i response =>
    match (onObject i (TcpConnection.beginSend response)).run s.loop with
    | .ok call loop => some ⟨loop, s.sends ++ [(i, call)]⟩
    | .error _ _ => none
  | .resumeSend k result =>
    match s.sends[k]? with
    | some (i, .sending loop) =>
      if (loop.put result).length = result.size then
        match (onObject i (TcpConnection.resumeSend loop result)).run s.loop with
        | .ok call loop => some ⟨loop, s.sends.set k (i, call)⟩
        | .error _ _ => none
      else none
    | _ => none
  | .stop =>
    match EventLoop.stop.run s.loop with
    | .ok _ loop => some { s with loop := loop }
    | .error _ _ => none

/-- The destructor. -/
def destroy : TcpConnection.Action Unit := TcpConnection.close

def closedSocket : Effect → Option Int
  | .closed fd => some fd
  | _ => none

/-- The descriptors that the connection has closed so far. -/
def closings (c : TcpConnection) : List Int := c.effects.filterMap closedSocket

/-- A disconnected object holds no descriptor, and once the object is destroyed
its descriptor has been closed, and closed once. -/
structure ClosesSocket (object : Accepted) : Prop where
  released : object.connection.state = .disconnected → object.connection.sockfd = -1
  destroyed : ∃ c, destroy.run object.connection = .ok () c ∧
    closings c = [(object.descriptor : Int)]

def AllClose (s : Server) : Prop := ∀ object ∈ s.loop.objects, ClosesSocket object

/-- No `::send` fails on a connection that still has its descriptor. -/
def FailsLate (s : Server) : Event → Prop
  | .resumeSend k result => FatalSend result →
    ∀ i loop, s.sends[k]? = some (i, .sending loop) →
      ∀ object, s.loop.objects[i]? = some object → object.connection.sockfd = -1
  | _ => True

section Connection

variable {descriptor : Nat} {c c' : TcpConnection}

/-- Where a connection stands: up with its descriptor, or down with the descriptor closed. -/
inductive Kept (descriptor : Nat) (c : TcpConnection) : Prop
  | up (hstate : c.state = .connected) (hfd : c.sockfd = descriptor) (hnone : closings c = [])
  | down (hstate : c.state = .disconnected) (hfd : c.sockfd = -1)
      (hone : closings c = [(descriptor : Int)])

/-- All but the state of the connection, as far as closing goes. -/
structure SameSocket (c c' : TcpConnection) : Prop where
  sockfd : c'.sockfd = c.sockfd
  closings : closings c' = closings c
  inputBuffer : c'.inputBuffer = c.inputBuffer
  messageCallback : c'.messageCallback = c.messageCallback

theorem closings_append (c : TcpConnection) (effects : List Effect) :
    closings { c with effects := c.effects ++ effects } =
      closings c ++ effects.filterMap closedSocket := by
  rw [closings, List.filterMap_append]
  rfl

theorem Kept.same (kept : Kept descriptor c) (hstate : c'.state = c.state)
    (hfd : c'.sockfd = c.sockfd) (hclosings : closings c' = closings c) : Kept descriptor c' := by
  cases kept with
  | up hs hf hn => exact .up (hstate.trans hs) (hfd.trans hf) (hclosings.trans hn)
  | down hs hf ho => exact .down (hstate.trans hs) (hfd.trans hf) (hclosings.trans ho)

theorem Kept.withEffects (kept : Kept descriptor c) (effects : List Effect)
    (h : effects.filterMap closedSocket = []) :
    Kept descriptor { c with effects := c.effects ++ effects } := by
  refine kept.same rfl rfl ?_
  rw [closings_append, h, List.append_nil]

theorem close_down (kept : Kept descriptor c) :
    ∃ c', close.run c = .ok () c' ∧ Kept descriptor c' ∧
      closings c' = [(descriptor : Int)] := by
  cases kept with
  | up hstate hfd hnone =>
    let c₁ : TcpConnection := { c with
      state := .disconnected
      sockfd := -1
      effects := c.effects ++ [.closed c.sockfd] }
    have hne : ¬c.sockfd = -1 := by omega
    have hrun : close.run c = .ok () c₁ := by
      simp [close, emit, hstate, hne, c₁]
    have hclosings : closings c₁ = [(descriptor : Int)] := by
      change closings { c with effects := c.effects ++ [.closed c.sockfd] } = _
      rw [closings_append, hnone, hfd]
      rfl
    exact ⟨c₁, hrun, .down rfl rfl hclosings, hclosings⟩
  | down hstate hfd hone =>
    refine ⟨c, ?_, .down hstate hfd hone, hone⟩
    simp [close, hstate]

theorem Kept.closesSocket {object : Accepted} (kept : Kept object.descriptor object.connection) :
    ClosesSocket object := by
  obtain ⟨c, hrun, -, hone⟩ := close_down kept
  refine ⟨?_, c, hrun, hone⟩
  intro hdown
  cases kept with
  | up hstate => exact absurd (hstate.symm.trans hdown) (by decide)
  | down _ hfd => exact hfd

theorem close_kept (kept : Kept descriptor c) (h : close.run c = .ok () c') :
    Kept descriptor c' := by
  obtain ⟨c₁, hrun, kept', -⟩ := close_down kept
  cases hrun.symm.trans h
  exact kept'

theorem handleClientClose_kept (kept : Kept descriptor c)
    (h : TcpServer.handleClientClose.run c = .ok () c') : Kept descriptor c' := by
  simp only [TcpServer.handleClientClose, EStateM.run_bind, EStateM.run_get, emit_run] at h
  refine close_kept ?_ h
  exact (kept.withEffects [.unregistered c.sockfd] rfl).withEffects [.removed] rfl

theorem messages_closedSocket (frames : List Bytes) :
    (frames.map Effect.message).filterMap closedSocket = [] := by
  rw [List.filterMap_map]
  exact List.filterMap_eq_nil_iff.mpr fun _ _ => rfl

theorem handleClientRead_kept (kept : Kept descriptor c) (live : Live c.inputBuffer)
    (hcb : c.messageCallback = true) {result : Readv} (hfit : Fits c.inputBuffer result)
    (h : (TcpServer.handleClientRead result).run c = .ok () c') : Kept descriptor c' := by
  cases result with
  | error errno =>
    cases hw : errno.wouldBlock with
    | true =>
      rw [handleClientRead_waits live hw] at h
      cases h
      exact kept
    | false =>
      rw [handleClientRead_fails live hw] at h
      exact handleClientClose_kept kept h
  | bytes data =>
    by_cases hne : data = []
    · subst hne
      obtain ⟨b, hrun, -⟩ := handleClientRead_ends live
      rw [hrun] at h
      refine handleClientClose_kept ?_ h
      exact kept.same rfl rfl rfl
    · obtain ⟨b, hrun, -⟩ := handleClientRead_bytes live hcb hne hfit
      rw [hrun] at h
      cases h
      have kept' : Kept descriptor { c with inputBuffer := b } := kept.same rfl rfl rfl
      exact kept'.withEffects _ (messages_closedSocket _)

theorem handleClientEvent_kept (kept : Kept descriptor c) (live : Live c.inputBuffer)
    (hcb : c.messageCallback = true) {readable : Option Readv} {hangUp : Bool}
    (hfit : ∀ result ∈ readable, Fits c.inputBuffer result)
    (h : (TcpServer.handleClientEvent readable hangUp).run c = .ok () c') :
    Kept descriptor c' := by
  have hread : ∃ c₁, (TcpServer.handleClientEvent readable false).run c = .ok () c₁ ∧
      Kept descriptor c₁ := by
    cases readable with
    | none => exact ⟨c, rfl, kept⟩
    | some result =>
      obtain ⟨c₁, hrun, -⟩ := handleClientRead_live live hcb (hfit result rfl)
      refine ⟨c₁, ?_, handleClientRead_kept kept live hcb (hfit result rfl) hrun⟩
      simpa [TcpServer.handleClientEvent] using hrun
  obtain ⟨c₁, hrun, kept₁⟩ := hread
  cases hangUp with
  | false =>
    cases hrun.symm.trans h
    exact kept₁
  | true =>
    rw [ConnectionTables.handleClientEvent_hangUp, EStateM.run_bind, hrun] at h
    exact handleClientClose_kept kept₁ h

/-- A round of `send` leaves the socket alone; one that fails takes the state down. -/
theorem afterRound_same (p : Progress Sending SendOutcome) (c : TcpConnection) :
    ∃ c', (afterRound p).run c = .ok (callOf p) c' ∧ SameSocket c c' ∧
      ((c'.state = c.state ∧ ∀ errorMsg, p ≠ .done (.failed errorMsg)) ∨
        (c'.state = .disconnected ∧ ∃ errorMsg, p = .done (.failed errorMsg))) := by
  cases p with
  | again loop => exact ⟨c, rfl, ⟨rfl, rfl, rfl, rfl⟩, by simp⟩
  | done outcome =>
    cases outcome with
    | complete =>
      by_cases hcb : c.writeCompleteCallback = true
      · refine ⟨{ c with effects := c.effects ++ [.writeComplete] }, ?_, ?_, by simp⟩
        · simp only [afterRound, EStateM.run_bind, EStateM.run_get, EStateM.run_pure, if_pos hcb,
            emit_run, callOf]
        · exact ⟨rfl, (closings_append c _).trans (List.append_nil _), rfl, rfl⟩
      · refine ⟨c, ?_, ⟨rfl, rfl, rfl, rfl⟩, by simp⟩
        simp only [afterRound, EStateM.run_bind, EStateM.run_get, EStateM.run_pure, if_neg hcb,
          callOf]
    | failed errorMsg =>
      by_cases hcb : c.errorCallback = true
      · refine ⟨{ { c with state := .disconnected } with
          effects := c.effects ++ [.error errorMsg] }, ?_, ?_, by simp⟩
        · simp only [afterRound, handleError, EStateM.run_bind, EStateM.run_get, EStateM.run_pure,
            EStateM.run_modify, if_pos hcb, emit_run, callOf]
        · exact ⟨rfl, (closings_append { c with state := .disconnected } _).trans
            (List.append_nil _), rfl, rfl⟩
      · refine ⟨{ c with state := .disconnected }, ?_, ⟨rfl, rfl, rfl, rfl⟩, by simp⟩
        simp only [afterRound, handleError, EStateM.run_bind, EStateM.run_get, EStateM.run_pure,
          EStateM.run_modify, if_neg hcb, callOf]

theorem beginSend_same (data : Bytes) (c : TcpConnection) :
    ∃ call c', (TcpConnection.beginSend data).run c = .ok call c' ∧ SameSocket c c' ∧
      c'.state = c.state := by
  by_cases hs : c.state = .connected
  · obtain ⟨c', hrun, same, hstate⟩ := afterRound_same (Sending.start data) c
    have hsend : (TcpConnection.beginSend data).run c = .ok (callOf (Sending.start data)) c' := by
      simp [TcpConnection.beginSend, hs, hrun]
    refine ⟨_, c', hsend, same, ?_⟩
    obtain ⟨hstate, -⟩ | ⟨-, errorMsg, hfailed⟩ := hstate
    · exact hstate
    · exact absurd hfailed (ConnectionTables.check_quiet _ _)
  · have hsend : (TcpConnection.beginSend data).run c = .ok (.returned false) c := by
      simp [TcpConnection.beginSend, hs]
    exact ⟨_, c, hsend, ⟨rfl, rfl, rfl, rfl⟩, rfl⟩

theorem resumeSend_same (loop : Sending) (result : SendResult) (c : TcpConnection) :
    ∃ call c', (TcpConnection.resumeSend loop result).run c = .ok call c' ∧ SameSocket c c' ∧
      ((c'.state = c.state ∧ ¬FatalSend result) ∨
        (c'.state = .disconnected ∧ FatalSend result)) := by
  let c₁ : TcpConnection := { c with effects := c.effects ++ [.wrote (loop.put result)] }
  have hwrote : closings c₁ = closings c := (closings_append c _).trans (List.append_nil _)
  obtain ⟨c', hrun, same, hstate⟩ := afterRound_same (loop.attempt result) c₁
  have hsend : (TcpConnection.resumeSend loop result).run c =
      .ok (callOf (loop.attempt result)) c' := by
    simpa [TcpConnection.resumeSend, emit_run, c₁] using hrun
  refine ⟨_, c', hsend, ?_, ?_⟩
  · exact ⟨same.sockfd, same.closings.trans hwrote, same.inputBuffer, same.messageCallback⟩
  · rw [← attempt_failed_iff loop]
    obtain ⟨hstate, hnone⟩ | hdown := hstate
    · exact .inl ⟨hstate, not_exists.mpr hnone⟩
    · exact .inr hdown

end Connection

/-- Every object is kept, and those the loop can still meet are fit to be read. -/
structure Sound (s : EventLoop) : Prop where
  kept : ∀ object ∈ s.objects, Kept object.descriptor object.connection
  served : ∀ i, i ∈ s.connections ∨ i ∈ s.events.map (·.connection) → s.Serves i

theorem Sound.allClose {s : Server} (sound : Sound s.loop) : AllClose s :=
  fun object hobject => (sound.kept object hobject).closesSocket

theorem started_sound : Sound .started :=
  ⟨by simp [EventLoop.started], by simp [EventLoop.started]⟩

section Steps

variable {s t : EventLoop} (sound : Sound s)
include sound

theorem Sound.mono (hobjects : t.objects = s.objects)
    (hconnections : ∀ i ∈ t.connections, i ∈ s.connections)
    (hevents : ∀ event ∈ t.events, event ∈ s.events) : Sound t := by
  refine ⟨?_, ?_⟩
  · rw [hobjects]
    exact sound.kept
  · intro i hi
    refine Serves.append (sound.served i ?_) (hobjects.trans (List.append_nil _).symm)
    obtain h | h := hi
    · exact .inl (hconnections i h)
    · obtain ⟨event, hevent, rfl⟩ := List.mem_map.mp h
      exact .inr (List.mem_map_of_mem (hevents event hevent))

theorem Sound.put {i : Nat} {object : Accepted} {c : TcpConnection}
    (h : s.objects[i]? = some object) (kept : Kept object.descriptor c)
    (hlive : Live object.connection.inputBuffer → Live c.inputBuffer)
    (hcb : object.connection.messageCallback = true → c.messageCallback = true) :
    Sound (s.put i c) := by
  refine ⟨?_, ?_⟩
  · intro other hother
    obtain ⟨j, hj⟩ := List.mem_iff_getElem?.mp hother
    by_cases hij : i = j
    · subst hij
      rw [put_at h] at hj
      cases hj
      exact kept
    · rw [put_other hij] at hj
      exact sound.kept other (List.mem_of_getElem? hj)
  · intro j hj
    refine (sound.served j hj).put ?_
    rintro ⟨other, hother, live, hcb'⟩
    cases h.symm.trans hother
    exact ⟨hlive live, hcb hcb'⟩

theorem Sound.object {i : Nat} {object : Accepted} (h : s.objects[i]? = some object) :
    Kept object.descriptor object.connection :=
  sound.kept object (List.mem_of_getElem? h)

theorem Sound.append {object : Accepted} (kept : Kept object.descriptor object.connection)
    {connections : List Nat}
    (hconnections : ∀ i ∈ connections, i ∈ s.connections ∨ (i = s.objects.length ∧
      Live object.connection.inputBuffer ∧ object.connection.messageCallback = true)) :
    Sound { s with objects := s.objects ++ [object], connections := connections } := by
  refine ⟨?_, ?_⟩
  · intro other hother
    cases List.mem_append.mp hother with
    | inl h => exact sound.kept other h
    | inr h =>
      rw [List.mem_singleton.mp h]
      exact kept
  · intro i hi
    obtain h | h := hi
    · obtain h | ⟨rfl, hserved⟩ := hconnections i h
      · exact (sound.served i (.inl h)).append rfl
      · exact ⟨object, List.getElem?_concat_length, hserved⟩
    · exact (sound.served i (.inr h)).append rfl

theorem handleNewConnection_sound (client : Option (Nat × Text)) (added : Bool) :
    Sound (handleNewConnection s client added) := by
  obtain hsame | ⟨sockfd, peerAddr, hnew | ⟨c, hclose, hnew⟩⟩ :=
    handleNewConnection_cases s client added
  · rw [hsame]
    exact sound
  · rw [hnew]
    refine sound.append (.up rfl rfl rfl) ?_
    intro i hi
    cases List.mem_append.mp hi with
    | inl h => exact .inl h
    | inr h => exact .inr ⟨List.mem_singleton.mp h, accepted_live sockfd peerAddr, rfl⟩
  · rw [hnew]
    have kept : Kept sockfd (TcpConnection.new sockfd peerAddr) := .up rfl rfl rfl
    exact sound.append (close_kept kept hclose) fun i hi => .inl hi

/-- The event that is handled may be the last the loop knows of its connection. -/
theorem handled_sound {event : EpollEvent} {result : Readv} {object : Accepted}
    {c : TcpConnection} (h : s.objects[event.connection]? = some object)
    (kept : Kept object.descriptor c) (live : Live c.inputBuffer) (hcb : c.messageCallback = true)
    (ht : Handled s event result c t) : Sound t := by
  have hput : Sound (s.put event.connection c) := sound.put h kept (fun _ => live) fun _ => hcb
  cases ht with
  | stays => exact hput.mono rfl (fun _ => id) fun _ => id
  | closes => exact hput.mono rfl (fun _ => List.mem_of_mem_erase) fun _ => id
  | closesTwice =>
    exact hput.mono rfl (fun _ hi => List.mem_of_mem_erase (List.mem_of_mem_erase hi)) fun _ => id

theorem loop_sound {event : LoopEvent} (h : s.step event = some t) : Sound t := by
  cases event with
  | accept client added =>
    cases h
    exact handleNewConnection_sound sound client added
  | wait events =>
    obtain ⟨⟨-, -, -, hlisted⟩, ht⟩ := Option.ite_none_right_eq_some.mp h
    cases ht
    refine ⟨sound.kept, ?_⟩
    intro i hi
    apply sound.served
    obtain h | h := hi
    · exact .inl h
    · obtain ⟨event, hevent, rfl⟩ := List.mem_map.mp h
      exact .inl (hlisted event hevent)
  | handle result =>
    cases hevents : s.events with
    | nil => simp [EventLoop.step, hevents] at h
    | cons event rest =>
      by_cases hd : s.delivers event result = true
      · have sound' : Sound { s with events := rest } :=
          sound.mono rfl (fun _ => id) fun other hother => by simp [hevents, hother]
        obtain ⟨object, c, t', hobject, live, hcb, hfit, hclient, live', hcb', hstep, ht⟩ :=
          handle_run hevents (sound.served event.connection (.inr (by simp [hevents]))) hd
        have hfit' : ∀ r ∈ (if event.readable then some result else none),
            Fits object.connection.inputBuffer r := by
          intro r hr
          obtain ⟨hreadable, hr⟩ := Option.ite_none_right_eq_some.mp hr
          cases hr
          exact hfit hreadable
        have kept := handleClientEvent_kept (sound.object hobject) live hcb hfit' hclient
        cases hstep.symm.trans h
        exact handled_sound sound' hobject kept live' hcb' ht
      · simp [EventLoop.step, hevents, hd] at h

theorem onObject_sound {α : Type} {i : Nat} {method : TcpConnection.Action α} {result : α}
    (h : (onObject i method).run s = .ok result t)
    (hmethod : ∀ object, s.objects[i]? = some object → ∃ r c,
      method.run object.connection = .ok r c ∧
      Kept object.descriptor c ∧ c.inputBuffer = object.connection.inputBuffer ∧
      c.messageCallback = object.connection.messageCallback) : Sound t := by
  cases hobject : s.objects[i]? with
  | none =>
    simp only [onObject, EStateM.run, hobject] at h
    cases h
  | some object =>
    obtain ⟨r, c, hrun, kept, hbuf, hcb⟩ := hmethod object hobject
    cases (onObject_run hobject hrun).symm.trans h
    exact sound.put hobject kept (fun live => hbuf ▸ live) fun hc => hcb.trans hc

end Steps

theorem closeAll_sound {is : List Nat} {s t : EventLoop} (sound : Sound s)
    (h : (closeAll is).run s = .ok () t) : Sound t := by
  induction is generalizing s with
  | nil =>
    cases h
    exact sound
  | cons i is ih =>
    rw [closeAll, EStateM.run_bind] at h
    cases hclose : (onObject i TcpConnection.close).run s with
    | error e u =>
      rw [hclose] at h
      cases h
    | ok r u =>
      rw [hclose] at h
      refine ih (onObject_sound sound hclose ?_) h
      intro object hobject
      obtain ⟨c, hrun, hbuf, hcb⟩ := ServerReads.close_run object.connection
      exact ⟨(), c, hrun, close_kept (sound.object hobject) hrun, hbuf, hcb⟩

theorem stop_sound {s t : EventLoop} (sound : Sound s) (h : EventLoop.stop.run s = .ok () t) :
    Sound t := by
  by_cases hrunning : s.running = true
  · let s₁ : EventLoop := { s with running := false }
    have sound₁ : Sound s₁ := sound.mono rfl (fun _ => id) fun _ => id
    simp only [EventLoop.stop, EStateM.run_bind, EStateM.run_get, if_pos hrunning,
      EStateM.run_modify] at h
    cases hall : (closeAll s.connections).run s₁ with
    | error e u =>
      rw [hall] at h
      cases h
    | ok r u =>
      rw [hall] at h
      cases h
      exact (closeAll_sound sound₁ hall).mono rfl (fun _ hi => by cases hi) fun _ => id
  · simp only [EventLoop.stop, EStateM.run_bind, EStateM.run_get, if_neg hrunning] at h
    cases h
    exact sound

theorem Kept.send {descriptor : Nat} {c c' : TcpConnection} (kept : Kept descriptor c)
    (same : SameSocket c c')
    (hstate : c'.state = c.state ∨ (c'.state = .disconnected ∧ c.sockfd = -1)) :
    Kept descriptor c' := by
  cases kept with
  | up hs hf hn =>
    obtain h | ⟨-, hdown⟩ := hstate
    · exact .up (h.trans hs) (same.sockfd.trans hf) (same.closings.trans hn)
    · omega
  | down hs hf ho =>
    have hdown : c'.state = .disconnected := hstate.elim (·.trans hs) (·.1)
    exact .down hdown (same.sockfd.trans hf) (same.closings.trans ho)

theorem step_resumeSend {s t : Server} {k : Nat} {result : SendResult}
    (h : step s (.resumeSend k result) = some t) :
    ∃ i loop call, s.sends[k]? = some (i, .sending loop) ∧
      (onObject i (TcpConnection.resumeSend loop result)).run s.loop = .ok call t.loop := by
  simp only [step] at h
  split at h
  · rename_i i loop hk
    obtain ⟨-, h⟩ := Option.ite_none_right_eq_some.mp h
    split at h
    · rename_i call u hrun
      cases h
      exact ⟨i, loop, call, hk, hrun⟩
    · cases h
  · cases h

theorem step_sound {s t : Server} {e : Event} (sound : Sound s.loop) (hlate : FailsLate s e)
    (h : step s e = some t) : Sound t.loop := by
  cases e with
  | loop event =>
    obtain ⟨loop, hloop, rfl⟩ := Option.map_eq_some_iff.mp h
    exact loop_sound sound hloop
  | beginSend i response =>
    simp only [step] at h
    split at h
    · rename_i call u hrun
      cases h
      refine onObject_sound sound hrun ?_
      intro object hobject
      obtain ⟨r, c, hsend, same, hstate⟩ := beginSend_same response object.connection
      exact ⟨r, c, hsend, (sound.object hobject).send same (.inl hstate), same.inputBuffer,
        same.messageCallback⟩
    · cases h
  | resumeSend k result =>
    obtain ⟨i, loop, call, hk, hrun⟩ := step_resumeSend h
    refine onObject_sound sound hrun ?_
    intro object hobject
    obtain ⟨r, c, hsend, same, hstate⟩ := resumeSend_same loop result object.connection
    refine ⟨r, c, hsend, (sound.object hobject).send same ?_, same.inputBuffer,
      same.messageCallback⟩
    obtain ⟨hstate, -⟩ | ⟨hdown, hfatal⟩ := hstate
    · exact .inl hstate
    · exact .inr ⟨hdown, hlate hfatal i loop hk object hobject⟩
  | stop =>
    simp only [step] at h
    split at h
    · rename_i u hrun
      cases h
      exact stop_sound sound hrun
    · cases h

/-- A `::send` that fails on a connection which still has its descriptor makes it
disconnected, and `close` then does nothing. -/
theorem step_breaks {s : Server} {k : Nat} {result : SendResult} (hfatal : FatalSend result)
    {i : Nat} {loop : Sending} (hk : s.sends[k]? = some (i, .sending loop)) {object : Accepted}
    (hobject : s.loop.objects[i]? = some object) (hfd : object.connection.sockfd ≠ -1) :
    ∃ t, step s (.resumeSend k result) = some t ∧ ¬AllClose t := by
  obtain ⟨r, c, hsend, same, hstate⟩ := resumeSend_same loop result object.connection
  have hsize : (loop.put result).length = result.size := by
    cases result with
    | sent n =>
      cases hfatal
      rfl
    | error errno => rfl
  have hrun := onObject_run hobject hsend
  refine ⟨⟨s.loop.put i c, s.sends.set k (i, r)⟩, ?_, ?_⟩
  · simp only [step, hk, if_pos hsize, hrun]
  · intro hall
    have hclose := hall _ (List.mem_of_getElem? (put_at hobject c))
    obtain ⟨-, halive⟩ | ⟨hdown, -⟩ := hstate
    · exact halive hfatal
    · exact hfd (same.sockfd.symm.trans (hclose.released hdown))

/-- Every accepted socket is closed exactly once, over exactly the runs in which no
`::send` fails on a connection that has its descriptor. -/
theorem closes_sockets_iff {events : List Event} :
    (∀ before t, before <+: events → run step .started before = some t → AllClose t) ↔
      Guarded step FailsLate .started events := by
  refine forall_prefix_iff_guarded_of_invariant (fun s (sound : Sound s.loop) => sound.allClose)
    (fun _ _ _ sound => step_sound sound) ?_ started_sound
  intro s e sound hsafe
  cases e with
  | resumeSend k result =>
    intro hfatal i loop hk object hobject
    by_contra hfd
    obtain ⟨t, hstep, hbreaks⟩ := step_breaks hfatal hk hobject hfd
    exact hbreaks (hsafe t hstep)
  | loop | beginSend | stop => trivial

/-- A response whose first `::send` fails; the hang-up that follows, and the end of
the object. -/
def brokenClient : List Event :=
  [.loop (.accept (some (7, [49])) true), .beginSend 0 [1], .resumeSend 0 (.sent 0),
    .loop (.wait [⟨0, false, true⟩]), .loop (.handle (.bytes []))]

/-- Nothing closes the descriptor of a connection that a failing `send` took down,
not even the destructor. -/
theorem broken_client_leaks : ∃ t object, run step .started brokenClient = some t ∧
    t.loop.objects = [object] ∧ object.connection.state = .disconnected ∧
    object.connection.sockfd = 7 ∧ closings object.connection = [] ∧
    destroy.run object.connection = .ok () object.connection ∧ ¬AllClose t := by
  have h : (run step .started brokenClient).map (fun t => t.loop.objects.map fun object =>
      (object.connection.state, object.connection.sockfd, closings object.connection)) =
        some [(.disconnected, 7, [])] := by
    decide +kernel
  obtain ⟨t, hrun, hobjects⟩ := Option.map_eq_some_iff.mp h
  obtain ⟨object, htotal, hobject⟩ := List.map_eq_singleton_iff.mp hobjects
  obtain ⟨hstate, hrest⟩ := Prod.mk.inj hobject
  obtain ⟨hfd, hclosings⟩ := Prod.mk.inj hrest
  refine ⟨t, object, hrun, htotal, hstate, hfd, hclosings, ?_, ?_⟩
  · simp [destroy, TcpConnection.close, hstate]
  · intro hall
    have hreleased := (hall object (by simp [htotal])).released hstate
    rw [hfd] at hreleased
    cases hreleased

end Mprpc.ConnectionClosing
