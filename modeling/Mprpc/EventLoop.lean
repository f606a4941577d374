import Mprpc.ConnectionTables

namespace Mprpc

open Transport TcpConnection TcpServer ServerReads

/-- A connection object, and the descriptor that `accept` returned for it. -/
structure Accepted where
  descriptor : Nat
  connection : TcpConnection

/-- What the thread of the event loop does with a connection: it enters
`handleClientClose`, with the connection in `connections_` or not, it calls a
method of the connection, and it leaves `handleClientClose`. -/
inductive LoopNote
  | entered (i : Nat) (listed : Bool)
  | called (i : Nat)
  | left (i : Nat)
deriving DecidableEq, Repr

/-- An event that `epoll_wait` returned: its connection, and whether it has
`EPOLLIN` and one of `EPOLLERR` and `EPOLLHUP`. -/
structure EpollEvent where
  connection : Nat
  readable : Bool
  hangUp : Bool
deriving DecidableEq, Repr

/-- A started transport. A connection is named by its place among all that were
made; `connections` lists those the server keeps, `events` what is left of the
events that the loop fetched last. -/
structure EventLoop where
  objects : List Accepted
  connections : List Nat
  running : Bool
  events : List EpollEvent
  notes : List LoopNote

namespace EventLoop

abbrev Action := EStateM Fault EventLoop

def started : EventLoop := ⟨[], [], true, [], []⟩

def put (s : EventLoop) (i : Nat) (c : TcpConnection) : EventLoop :=
  { s with objects := s.objects.modify i fun object => { object with connection := c } }

def noted (s : EventLoop) (notes : List LoopNote) : EventLoop :=
  { s with notes := s.notes ++ notes }

def unlisted (s : EventLoop) (i : Nat) : EventLoop :=
  { s with connections := s.connections.erase i }

def note (n : LoopNote) : Action Unit := modify fun s => s.noted [n]

def onObject {α : Type} (i : Nat) (method : TcpConnection.Action α) : Action α := fun s =>
  match s.objects[i]? with
  | none => .error .outOfRange s
  | some object =>
    match method.run object.connection with
    | .ok result c => .ok result (s.put i c)
    | .error e c => .error e (s.put i c)

/-- A call that the loop makes of a method of a connection. -/
def call {α : Type} (i : Nat) (method : TcpConnection.Action α) : Action α := do
  let result ← onObject i method
  note (.called i)
  return result

def getSocketFd : TcpConnection.Action Int := do
  let c ← get
  return c.sockfd

def getRemoteAddress : TcpConnection.Action Text := do
  let c ← get
  return c.peerAddr

def handleClientClose (i : Nat) : Action Unit := do
  let s ← get
  note (.entered i (i ∈ s.connections))
  let sockfd ← call i getSocketFd
  let _peerAddr ← call i getRemoteAddress
  onObject i (emit (.unregistered sockfd))
  onObject i (emit .removed)
  modify fun s => s.unlisted i
  call i TcpConnection.close
  note (.left i)

def readableBytes : TcpConnection.Action Nat := do
  let c ← get
  return c.inputBuffer.readableBytes

/-- The calls of `decodeFrame` in a row are noted as one. -/
def handleClientRead (i : Nat) (result : Readv) : Action Unit := do
  let (n, savedErrno) ← call i (onInput (Buffer.readFromFd result))
  if 0 < n then
    let bytes ← onObject i readableBytes
    call i (decodeLoop (bytes + 1))
  else if n = 0 then
    handleClientClose i
  else if savedErrno ≠ some .eagain ∧ savedErrno ≠ some .ewouldblock then
    handleClientClose i

def handleClientEvent (event : EpollEvent) (result : Readv) : Action Unit := do
  if event.readable then handleClientRead event.connection result
  if event.hangUp then handleClientClose event.connection

/-- The socket and the address that `accept` returned, if any, and whether
`epoll_ctl` took the socket. A socket over the limit gets no object. -/
def handleNewConnection (s : EventLoop) (client : Option (Nat × Text)) (added : Bool) : EventLoop :=
  match client with
  | none => s
  | some (sockfd, peerAddr) =>
    if maxConnections ≤ s.connections.length then s
    else
      let i := s.objects.length
      if added then
        { s with
          objects := s.objects ++ [⟨sockfd, accepted sockfd peerAddr⟩]
          connections := s.connections ++ [i] }
      else
        match TcpConnection.close.run (TcpConnection.new sockfd peerAddr) with
        | .ok _ c => { s with objects := s.objects ++ [⟨sockfd, c⟩] }
        | .error _ c => { s with objects := s.objects ++ [⟨sockfd, c⟩] }

def closeAll : List Nat → Action Unit
  | [] => return ()
  | i :: is => do
    onObject i TcpConnection.close
    closeAll is

/-- `stop`, from another thread than that of the loop. -/
def stop : Action Unit := do
  let s ← get
  if s.running then
    modify fun s => { s with running := false }
    closeAll s.connections
    modify fun s => { s with connections := [] }

inductive LoopEvent
  | accept (client : Option (Nat × Text)) (added : Bool)
  | wait (events : List EpollEvent)
  | handle (result : Readv)

/-- `readv` gives no more bytes than the connection offers room for. -/
def delivers (s : EventLoop) (event : EpollEvent) (result : Readv) : Bool :=
  !event.readable ||
    s.objects[event.connection]?.any fun object =>
      result.size ≤ object.connection.inputBuffer.offered

/-- The kernel reports each connection in the epoll set at most once, and those in
the set are the ones the server keeps. The loop fetches events when it has none left. -/
def step (s : EventLoop) : LoopEvent → Option EventLoop
  | .accept client added => some (handleNewConnection s client added)
  | .wait events =>
    if s.running ∧ s.events = [] ∧ (events.map (·.connection)).Nodup ∧
        ∀ event ∈ events, event.connection ∈ s.connections then
      some { s with events := events }
    else none
  | .handle result =>
    match s.events with
    | [] => none
    | event :: events =>
      if s.delivers event result then
        match (handleClientEvent event result).run { s with events := events } with
        | .ok _ s' => some s'
        | .error _ _ => none
      else none

section Objects

variable {s : EventLoop} {i : Nat} {object : Accepted}

theorem bind_run {α β : Type} {x : Action α} {f : α → Action β} {t : EventLoop} {a : α}
    (h : x.run s = .ok a t) : (x >>= f).run s = (f a).run t := by
  rw [EStateM.run_bind, h]

theorem put_at (h : s.objects[i]? = some object) (c : TcpConnection) :
    (s.put i c).objects[i]? = some { object with connection := c } := by
  simp [put, h]

theorem put_other {j : Nat} (h : i ≠ j) (c : TcpConnection) :
    (s.put i c).objects[j]? = s.objects[j]? := by
  simp [put, h]

@[simp]
theorem put_put (c c' : TcpConnection) : (s.put i c).put i c' = s.put i c' := by
  simp only [put, List.modify_modify_eq]
  rfl

@[simp]
theorem noted_put (notes : List LoopNote) (c : TcpConnection) :
    (s.noted notes).put i c = (s.put i c).noted notes := rfl

@[simp]
theorem unlisted_put (j : Nat) (c : TcpConnection) :
    (s.unlisted j).put i c = (s.put i c).unlisted j := rfl

@[simp]
theorem noted_unlisted (notes : List LoopNote) (j : Nat) :
    (s.noted notes).unlisted j = (s.unlisted j).noted notes := rfl

@[simp]
theorem noted_noted (notes more : List LoopNote) :
    (s.noted notes).noted more = s.noted (notes ++ more) := by
  simp only [noted, List.append_assoc]

theorem onObject_run {α : Type} {method : TcpConnection.Action α} {result : α}
    {c : TcpConnection} (h : s.objects[i]? = some object)
    (hm : method.run object.connection = .ok result c) :
    (onObject i method).run s = .ok result (s.put i c) := by
  simp only [onObject, EStateM.run, h] at hm ⊢
  rw [hm]

theorem call_run {α : Type} {method : TcpConnection.Action α} {result : α} {c : TcpConnection}
    (h : s.objects[i]? = some object) (hm : method.run object.connection = .ok result c) :
    (call i method).run s = .ok result ((s.put i c).noted [.called i]) := by
  rw [call, bind_run (onObject_run h hm)]
  rfl

/-- What `handleClientClose` leaves in the notes. -/
def closeNotes (i : Nat) (listed : Bool) : List LoopNote :=
  [.entered i listed, .called i, .called i, .called i, .left i]

/-- The close path does to the object what it does to a connection on its own,
and takes it off the list. -/
theorem handleClientClose_run (h : s.objects[i]? = some object) {c : TcpConnection}
    (hc : TcpServer.handleClientClose.run object.connection = .ok () c) :
    (handleClientClose i).run s =
      .ok () (((s.put i c).unlisted i).noted (closeNotes i (i ∈ s.connections))) := by
  let c₁ : TcpConnection := { object.connection with
    effects := object.connection.effects ++ [.unregistered object.connection.sockfd] }
  let c₂ : TcpConnection := { c₁ with effects := c₁.effects ++ [.removed] }
  have hclose : TcpConnection.close.run c₂ = .ok () c := by
    simp only [TcpServer.handleClientClose, EStateM.run_bind, EStateM.run_get, emit_run] at hc
    exact hc
  let s₁ := s.noted [.entered i (i ∈ s.connections)]
  have h₁ : s₁.objects[i]? = some object := h
  have hfd : (call i getSocketFd).run s₁ = .ok object.connection.sockfd
      ((s₁.put i object.connection).noted [.called i]) := call_run h₁ rfl
  let s₂ := (s₁.put i object.connection).noted [.called i]
  have h₂ : s₂.objects[i]? = some object := put_at h₁ _
  have haddr : (call i getRemoteAddress).run s₂ = .ok object.connection.peerAddr
      ((s₂.put i object.connection).noted [.called i]) := call_run h₂ rfl
  let s₃ := (s₂.put i object.connection).noted [.called i]
  have h₃ : s₃.objects[i]? = some object := put_at h₂ _
  have hunregister : (onObject i (emit (.unregistered object.connection.sockfd))).run s₃ =
      .ok () (s₃.put i c₁) := onObject_run h₃ rfl
  let s₄ := s₃.put i c₁
  have h₄ : s₄.objects[i]? = some { object with connection := c₁ } := put_at h₃ _
  have hremove : (onObject i (emit .removed)).run s₄ = .ok () (s₄.put i c₂) := onObject_run h₄ rfl
  let s₅ := (s₄.put i c₂).unlisted i
  have h₅ : s₅.objects[i]? = some { object with connection := c₂ } := put_at h₄ _
  have hcall : (call i TcpConnection.close).run s₅ = .ok () ((s₅.put i c).noted [.called i]) :=
    call_run h₅ hclose
  have hall : (handleClientClose i).run s =
      .ok () (((s₅.put i c).noted [.called i]).noted [.left i]) := by
    refine (bind_run (rfl : EStateM.run get s = .ok s s)).trans ?_
    refine (bind_run (rfl : (note _).run s = .ok () s₁)).trans ?_
    refine (bind_run hfd).trans ?_
    refine (bind_run haddr).trans ?_
    refine (bind_run hunregister).trans ?_
    refine (bind_run hremove).trans ?_
    refine (bind_run (rfl : EStateM.run (modify _) _ = .ok () s₅)).trans ?_
    exact (bind_run hcall).trans rfl
  rw [hall]
  simp [s₁, s₂, s₃, s₄, s₅, closeNotes]

open ConnectionTables (FatalRead)

/-- A read does to the object what it does to a connection on its own; one that
ends the connection takes the close path. -/
theorem handleClientRead_run (h : s.objects[i]? = some object)
    (live : Live object.connection.inputBuffer) (hcb : object.connection.messageCallback = true)
    {result : Readv} (hfit : Fits object.connection.inputBuffer result) :
    ∃ c calls, (TcpServer.handleClientRead result).run object.connection = .ok () c ∧
      Live c.inputBuffer ∧ c.messageCallback = true ∧ (∀ n ∈ calls, n = .called i) ∧
      (¬FatalRead result → (handleClientRead i result).run s = .ok () ((s.put i c).noted calls)) ∧
      (FatalRead result → (handleClientRead i result).run s =
        .ok () (((s.put i c).unlisted i).noted (calls ++ closeNotes i (i ∈ s.connections)))) := by
  obtain ⟨c, hrun, live', hcb'⟩ := handleClientRead_live live hcb hfit
  cases result with
  | error errno =>
    have hread : (call i (onInput (Buffer.readFromFd (.error errno)))).run s =
        .ok (-1, some errno) ((s.put i object.connection).noted [.called i]) :=
      call_run h (onInput_run (Buffer.readFromFd_error live.wellFormed errno))
    refine ⟨c, [.called i], hrun, live', hcb', by simp, ?_, ?_⟩
    · intro hquiet
      have hw : errno.wouldBlock = true := by simpa [FatalRead] using hquiet
      have hsame := handleClientRead_waits live hw
      rw [hsame] at hrun
      cases hrun
      rw [handleClientRead, bind_run hread]
      cases errno with
      | eagain => rfl
      | ewouldblock => rfl
      | eintr => cases hw
      | other message => cases hw
    · intro hfatal
      have hw : errno.wouldBlock = false := hfatal
      rw [handleClientRead_fails live hw] at hrun
      let s₁ := (s.put i object.connection).noted [.called i]
      have h₁ : s₁.objects[i]? = some object := put_at h _
      have hclose := handleClientClose_run h₁ hrun
      rw [handleClientRead, bind_run hread]
      have hbranch : (if (0 : Int) < -1 then (onObject i readableBytes >>= fun bytes =>
            call i (decodeLoop (bytes + 1)))
          else if (-1 : Int) = 0 then handleClientClose i
          else if some errno ≠ some .eagain ∧ some errno ≠ some .ewouldblock then
            handleClientClose i
          else pure ()) = handleClientClose i := by
        cases errno <;> simp [Errno.wouldBlock] at hw ⊢
      change (if (0 : Int) < -1 then _ else _ : Action Unit).run s₁ = _
      rw [hbranch, hclose]
      simp [s₁]
      rfl
  | bytes data =>
    obtain ⟨b, hinto, -, -, -⟩ := live.readFromFd data hfit
    let c₁ : TcpConnection := { object.connection with inputBuffer := b }
    let s₁ := (s.put i c₁).noted [.called i]
    have hread : (call i (onInput (Buffer.readFromFd (.bytes data)))).run s =
        .ok ((data.length : Int), none) s₁ := call_run h (onInput_run hinto)
    have h₁ : s₁.objects[i]? = some { object with connection := c₁ } := put_at h _
    by_cases hne : data = []
    · subst hne
      have hclose : TcpServer.handleClientClose.run c₁ = .ok () c := by
        rw [← hrun]
        simp only [TcpServer.handleClientRead, EStateM.run_bind, onInput_run hinto,
          List.length_nil, Int.natCast_zero, lt_irrefl, if_false, if_true, c₁]
      refine ⟨c, [.called i], hrun, live', hcb', by simp, fun hquiet => absurd rfl hquiet, ?_⟩
      intro _
      rw [handleClientRead, bind_run hread]
      change (handleClientClose i).run s₁ = _
      rw [handleClientClose_run h₁ hclose]
      simp [s₁]
      rfl
    · have hpos : (0 : Int) < data.length := by
        have hlen := List.length_pos_of_ne_nil hne
        omega
      have hdecode : (decodeLoop (b.readableBytes + 1)).run c₁ = .ok () c := by
        rw [← hrun]
        simp only [TcpServer.handleClientRead, EStateM.run_bind, onInput_run hinto, if_pos hpos,
          EStateM.run_get, c₁]
      refine ⟨c, [.called i, .called i], hrun, live', hcb', by simp, ?_,
        fun hfatal => absurd hfatal hne⟩
      intro _
      have hbytes : (onObject i readableBytes).run s₁ = .ok b.readableBytes (s₁.put i c₁) :=
        onObject_run h₁ rfl
      have hloop := call_run (put_at h₁ c₁) hdecode
      rw [handleClientRead, bind_run hread]
      dsimp only
      rw [if_pos hpos, bind_run hbytes, hloop]
      simp [s₁]

/-- The read handler takes the close path. -/
def ReadEnds (event : EpollEvent) (result : Readv) : Prop :=
  event.readable = true ∧ FatalRead result

/-- The ways an event can go: the connection stays, it is closed, or the close path
is taken a second time. -/
inductive Handled (s : EventLoop) (event : EpollEvent) (result : Readv) (c : TcpConnection) :
    EventLoop → Prop
  | stays (calls : List LoopNote) (hcalls : ∀ n ∈ calls, n = .called event.connection)
    (hread : ¬ReadEnds event result) (hhangUp : event.hangUp = false) :
    Handled s event result c ((s.put event.connection c).noted calls)
  | closes (calls : List LoopNote) (hcalls : ∀ n ∈ calls, n = .called event.connection)
    (honce : ¬(ReadEnds event result ∧ event.hangUp = true)) :
    Handled s event result c (((s.put event.connection c).unlisted event.connection).noted
      (calls ++ closeNotes event.connection (event.connection ∈ s.connections)))
  | closesTwice (calls : List LoopNote) (hcalls : ∀ n ∈ calls, n = .called event.connection)
    (hread : ReadEnds event result) (hhangUp : event.hangUp = true) :
    Handled s event result c
      ((((s.put event.connection c).unlisted event.connection).unlisted event.connection).noted
        (calls ++ closeNotes event.connection (event.connection ∈ s.connections) ++
          closeNotes event.connection (event.connection ∈ s.connections.erase event.connection)))

theorem put_self (h : s.objects[i]? = some object) : s.put i object.connection = s := by
  have hobjects : s.objects.modify i (fun o => { o with connection := object.connection }) =
      s.objects := by
    apply List.ext_getElem?
    intro j
    by_cases hj : i = j
    · subst hj
      simp [h]
    · simp [hj]
  rw [put, hobjects]

theorem handleReadable_run {readable : Bool} {result : Readv} (h : s.objects[i]? = some object)
    (live : Live object.connection.inputBuffer) (hcb : object.connection.messageCallback = true)
    (hfit : readable = true → Fits object.connection.inputBuffer result) :
    ∃ c calls,
      (TcpServer.handleClientEvent (if readable then some result else none) false).run
        object.connection = .ok () c ∧
      Live c.inputBuffer ∧ c.messageCallback = true ∧ (∀ n ∈ calls, n = .called i) ∧
      (¬(readable = true ∧ FatalRead result) →
        (handleClientEvent ⟨i, readable, false⟩ result).run s = .ok () ((s.put i c).noted calls)) ∧
      (readable = true ∧ FatalRead result →
        (handleClientEvent ⟨i, readable, false⟩ result).run s =
          .ok () (((s.put i c).unlisted i).noted (calls ++ closeNotes i (i ∈ s.connections)))) := by
  cases readable with
  | false =>
    refine ⟨object.connection, [], rfl, live, hcb, by simp, ?_, by simp⟩
    intro _
    rw [put_self h, noted, List.append_nil]
    rfl
  | true =>
    obtain ⟨c, calls, hrun, live', hcb', hcalls, hquiet, hfatal⟩ :=
      handleClientRead_run h live hcb (hfit rfl)
    refine ⟨c, calls, ?_, live', hcb', hcalls, ?_, ?_⟩
    · simpa [TcpServer.handleClientEvent] using hrun
    · intro hread
      have hserver := hquiet fun hf => hread ⟨rfl, hf⟩
      simpa [handleClientEvent] using hserver
    · intro hread
      have hserver := hfatal hread.2
      simpa [handleClientEvent] using hserver

theorem handleClientEvent_hangUp (i : Nat) (readable : Bool) (result : Readv) :
    handleClientEvent ⟨i, readable, true⟩ result =
      (handleClientEvent ⟨i, readable, false⟩ result >>= fun _ => handleClientClose i) := by
  cases readable <;> simp [handleClientEvent]

theorem handleClientEvent_run {event : EpollEvent} {result : Readv}
    (h : s.objects[event.connection]? = some object) (live : Live object.connection.inputBuffer)
    (hcb : object.connection.messageCallback = true)
    (hfit : event.readable = true → Fits object.connection.inputBuffer result) :
    ∃ c t,
      (TcpServer.handleClientEvent (if event.readable then some result else none) event.hangUp).run
        object.connection = .ok () c ∧
      Live c.inputBuffer ∧ c.messageCallback = true ∧
      (handleClientEvent event result).run s = .ok () t ∧ Handled s event result c t := by
  obtain ⟨i, readable, hangUp⟩ := event
  obtain ⟨c, calls, hrun, live', hcb', hcalls, hquiet, hfatal⟩ := handleReadable_run h live hcb hfit
  cases hangUp with
  | false =>
    by_cases hread : ReadEnds ⟨i, readable, false⟩ result
    · exact ⟨c, _, hrun, live', hcb', hfatal hread,
        .closes calls hcalls fun hboth => by cases hboth.2⟩
    · exact ⟨c, _, hrun, live', hcb', hquiet hread, .stays calls hcalls hread rfl⟩
  | true =>
    obtain ⟨c', hclose, hbuf, hcb''⟩ := ServerReads.handleClientClose_run c
    have hobject : (TcpServer.handleClientEvent (if readable then some result else none) true).run
        object.connection = .ok () c' := by
      rw [ConnectionTables.handleClientEvent_hangUp, EStateM.run_bind, hrun]
      exact hclose
    rw [handleClientEvent_hangUp]
    by_cases hread : ReadEnds ⟨i, readable, true⟩ result
    · let s₁ := ((s.put i c).unlisted i).noted (calls ++ closeNotes i (i ∈ s.connections))
      have h₁ : s₁.objects[i]? = some { object with connection := c } := put_at h c
      refine ⟨c', _, hobject, by rwa [hbuf], hcb''.trans hcb', ?_,
        .closesTwice calls hcalls hread rfl⟩
      rw [bind_run (hfatal hread), handleClientClose_run h₁ hclose]
      simp [s₁]
      rfl
    · let s₁ := (s.put i c).noted calls
      have h₁ : s₁.objects[i]? = some { object with connection := c } := put_at h c
      refine ⟨c', _, hobject, by rwa [hbuf], hcb''.trans hcb', ?_,
        .closes calls hcalls fun hboth => hread hboth.1⟩
      rw [bind_run (hquiet hread), handleClientClose_run h₁ hclose]
      simp [s₁]
      rfl

/-- The connection has an object, and that is fit to be read. -/
def Serves (s : EventLoop) (i : Nat) : Prop :=
  ∃ object, s.objects[i]? = some object ∧ Live object.connection.inputBuffer ∧
    object.connection.messageCallback = true

variable {t : EventLoop}

theorem Serves.lt_length (h : s.Serves i) : i < s.objects.length := by
  obtain ⟨object, hobject, -⟩ := h
  exact (List.getElem?_eq_some_iff.mp hobject).1

theorem Serves.append (h : s.Serves i) {more : List Accepted}
    (ht : t.objects = s.objects ++ more) : t.Serves i := by
  have hlt := h.lt_length
  obtain ⟨object, hobject, hfit⟩ := h
  refine ⟨object, ?_, hfit⟩
  rw [ht, List.getElem?_append_left hlt, hobject]

theorem Serves.put {j : Nat} {c : TcpConnection} (h : s.Serves j)
    (hc : s.Serves i → Live c.inputBuffer ∧ c.messageCallback = true) : (s.put i c).Serves j := by
  by_cases hij : i = j
  · subst hij
    have hfit := hc h
    obtain ⟨object, hobject, -⟩ := h
    exact ⟨_, put_at hobject c, hfit⟩
  · obtain ⟨object, hobject, hfit⟩ := h
    exact ⟨object, (put_other hij c).trans hobject, hfit⟩

theorem handleNewConnection_cases (s : EventLoop) (client : Option (Nat × Text)) (added : Bool) :
    handleNewConnection s client added = s ∨ ∃ sockfd peerAddr,
      handleNewConnection s client added = { s with
        objects := s.objects ++ [⟨sockfd, accepted sockfd peerAddr⟩]
        connections := s.connections ++ [s.objects.length] } ∨
      ∃ c, TcpConnection.close.run (TcpConnection.new sockfd peerAddr) = .ok () c ∧
        handleNewConnection s client added = { s with objects := s.objects ++ [⟨sockfd, c⟩] } := by
  unfold handleNewConnection
  cases client with
  | none => exact .inl rfl
  | some client =>
    obtain ⟨sockfd, peerAddr⟩ := client
    dsimp only
    split
    · exact .inl rfl
    · refine .inr ⟨sockfd, peerAddr, ?_⟩
      cases added with
      | true => exact .inl rfl
      | false =>
        obtain ⟨c, hrun, -⟩ := ServerReads.close_run (TcpConnection.new sockfd peerAddr)
        refine .inr ⟨c, hrun, ?_⟩
        simp only [Bool.false_eq_true, if_false, hrun]

theorem handle_run {event : EpollEvent} {rest : List EpollEvent} {result : Readv}
    (hevents : s.events = event :: rest) (hserves : s.Serves event.connection)
    (hd : s.delivers event result = true) :
    ∃ object c t, s.objects[event.connection]? = some object ∧
      Live object.connection.inputBuffer ∧ object.connection.messageCallback = true ∧
      (event.readable = true → Fits object.connection.inputBuffer result) ∧
      (TcpServer.handleClientEvent (if event.readable then some result else none)
        event.hangUp).run object.connection = .ok () c ∧
      Live c.inputBuffer ∧ c.messageCallback = true ∧ step s (.handle result) = some t ∧
      Handled { s with events := rest } event result c t := by
  obtain ⟨object, hobject, live, hcb⟩ := hserves
  have hfit : event.readable = true → Fits object.connection.inputBuffer result := by
    intro hreadable
    simpa [delivers, hreadable, hobject, Fits] using hd
  obtain ⟨c, t, hclient, live', hcb', hrun, ht⟩ :=
    handleClientEvent_run (s := { s with events := rest }) hobject live hcb hfit
  refine ⟨object, c, t, hobject, live, hcb, hfit, hclient, live', hcb', ?_, ht⟩
  simp only [step, hevents, if_pos hd, hrun]

end Objects

end EventLoop

end Mprpc
