import Mprpc.Library.Ledger
import Mprpc.Library.Transition
import Mprpc.TcpServer

namespace Mprpc

open Library.Ledger Library.Transition

/-- The thread of the loop. In `handleNewConnection` it has a descriptor that `accept`
returned, before the limit is checked, then before it is in the epoll set, then
before the connection is listed. -/
inductive ServerThread
  | absent
  | waiting
  | accepted (sockfd : Nat)
  | admitted (sockfd : Nat)
  | added (sockfd : Nat)
  | exited
deriving DecidableEq, Repr

/-- How far `stop` has come. -/
inductive Stopping
  | idle
  | flagged
  | deaf
  | cleared
  | blind
deriving DecidableEq, Repr

/-- A listed connection, and whether `handleError` has set it `DISCONNECTED`. -/
structure Peer where
  sockfd : Nat
  failed : Bool
deriving DecidableEq, Repr

/-- What the system calls of a `start` meet. -/
structure Starting where
  socket : Option Nat
  setsockopt : Bool
  bind : Bool
  listen : Bool
  epollCreate : Option Nat
  epollCtl : Bool
deriving DecidableEq, Repr

/-- The descriptor -1 is `none`. `lost` are the descriptors of the connections that
`close` has passed over, and `errors` counts the sends that failed. -/
structure TcpServerImpl where
  listenSockfd : Option Nat
  epollFd : Option Nat
  running : Bool
  serverThread : ServerThread
  connections : List Peer
  stopping : Stopping
  descriptors : Account Nat
  lost : List Nat
  errors : Nat

namespace TcpServerImpl

def new : TcpServerImpl := ⟨none, none, false, .absent, [], .idle, .empty, [], 0⟩

def opened (fd : Nat) (s : TcpServerImpl) : TcpServerImpl :=
  { s with descriptors := s.descriptors.acquire fd }

def closeFd (fd : Nat) (s : TcpServerImpl) : TcpServerImpl :=
  { s with descriptors := s.descriptors.release fd }

def closeListen (s : TcpServerImpl) : TcpServerImpl :=
  match s.listenSockfd with
  | none => s
  | some fd => { s.closeFd fd with listenSockfd := none }

def closeEpoll (s : TcpServerImpl) : TcpServerImpl :=
  match s.epollFd with
  | none => s
  | some fd => { s.closeFd fd with epollFd := none }

/-- `close` on a connection does nothing once `handleError` has set its state. -/
def closePeer (s : TcpServerImpl) (peer : Peer) : TcpServerImpl :=
  if peer.failed then { s with lost := peer.sockfd :: s.lost } else s.closeFd peer.sockfd

/-- The kernel never returns a descriptor that is open. -/
def start (calls : Starting) (s : TcpServerImpl) : Option TcpServerImpl :=
  if s.running then some s
  else
    match calls.socket with
    | none => some { s with listenSockfd := none }
    | some fd =>
      if fd ∈ s.descriptors.held then none
      else
        let s := { s.opened fd with listenSockfd := some fd }
        if !calls.setsockopt then some s.closeListen
        else if !calls.bind then some s.closeListen
        else if !calls.listen then some s.closeListen
        else
          match calls.epollCreate with
          | none => some { s.closeListen with epollFd := none }
          | some epoll =>
            if epoll ∈ s.descriptors.held then none
            else
              let s := { s.opened epoll with epollFd := some epoll }
              if !calls.epollCtl then some s.closeEpoll.closeListen
              else some { s with running := true, serverThread := .waiting }

/-- The next part of `stop`; at its end it waits for the thread. -/
def stopNext (s : TcpServerImpl) : Option TcpServerImpl :=
  match s.stopping with
  | .idle => none
  | .flagged => some { s.closeListen with stopping := .deaf }
  | .deaf =>
    some { s.connections.foldl closePeer s with connections := [], stopping := .cleared }
  | .cleared => some { s.closeEpoll with stopping := .blind }
  | .blind =>
    if s.serverThread = .exited ∨ s.serverThread = .absent then
      some { s with serverThread := .absent, stopping := .idle }
    else none

/-- The parts of `handleNewConnection`; `accept` fails on a closed socket. -/
def acceptNext (result : Option Nat) (epollCtl : Bool) (s : TcpServerImpl) :
    Option TcpServerImpl :=
  match s.serverThread with
  | .waiting =>
    match result with
    | none => some s
    | some fd =>
      if s.listenSockfd = none ∨ fd ∈ s.descriptors.held then none
      else some { s.opened fd with serverThread := .accepted fd }
  | .accepted fd =>
    if TcpServer.maxConnections ≤ s.connections.length then
      some { s.closeFd fd with serverThread := .waiting }
    else some { s with serverThread := .admitted fd }
  | .admitted fd =>
    if epollCtl then some { s with serverThread := .added fd }
    else some { s.closeFd fd with serverThread := .waiting }
  | .added fd =>
    some { s with serverThread := .waiting, connections := s.connections ++ [⟨fd, false⟩] }
  | .absent => none
  | .exited => none

/-- A connection that has left the list is found closed. -/
def handleClientClose (peer : Peer) (s : TcpServerImpl) : TcpServerImpl :=
  if peer ∈ s.connections then
    { s with connections := s.connections.erase peer }.closePeer peer
  else s

/-- A send on a connection has failed. -/
def handleError (peer : Peer) (s : TcpServerImpl) : TcpServerImpl :=
  if peer ∈ s.connections ∧ peer.failed = false then
    { s with
      connections := s.connections.replace peer ⟨peer.sockfd, true⟩, errors := s.errors + 1 }
  else s

end TcpServerImpl

namespace ServerLifecycle

/-- One thread starts and stops the server, and the thread of the loop takes its
steps in between; it leaves the loop when `epoll_wait` fails or the server stops. -/
inductive Act
  | start (calls : Starting)
  | stop
  | stopNext
  | acceptNext (result : Option Nat) (epollCtl : Bool)
  | handleClientClose (peer : Peer)
  | sendFails (peer : Peer)
  | exit
deriving DecidableEq, Repr

def step (s : TcpServerImpl) : Act → Option TcpServerImpl
  | .start calls => if s.stopping = .idle then s.start calls else none
  | .stop =>
    if s.stopping = .idle then
      some (if s.running then { s with running := false, stopping := .flagged } else s)
    else none
  | .stopNext => s.stopNext
  | .acceptNext result epollCtl => s.acceptNext result epollCtl
  | .handleClientClose peer =>
    if s.serverThread = .waiting then some (s.handleClientClose peer) else none
  | .sendFails peer => some (s.handleError peer)
  | .exit =>
    if s.serverThread = .waiting then some { s with serverThread := .exited } else none

def inFlight : ServerThread → List Nat
  | .accepted fd | .admitted fd | .added fd => [fd]
  | .absent | .waiting | .exited => []

/-- The descriptors that a field of the server, the thread of the loop or a connection
has, and those that are lost. -/
def owned (s : TcpServerImpl) : List Nat :=
  s.listenSockfd.toList ++ (s.epollFd.toList ++ (inFlight s.serverThread ++
    (s.connections.map Peer.sockfd ++ s.lost)))

/-- The connections listed, and the one that will be. -/
def admitted (s : TcpServerImpl) : Nat :=
  match s.serverThread with
  | .admitted _ | .added _ => s.connections.length + 1
  | _ => s.connections.length

/-- The server is not running, and no `stop` is under way. -/
def Stopped (s : TcpServerImpl) : Prop := s.running = false ∧ s.stopping = .idle

def Few (s : TcpServerImpl) : Prop :=
  s.connections.length + (inFlight s.serverThread).length ≤ 1

structure Sound (s : TcpServerImpl) : Prop where
  balanced : s.descriptors.Balances (owned s)
  limit : admitted s ≤ TcpServer.maxConnections
  errors : s.lost.length + s.connections.countP Peer.failed = s.errors
  quiet : Stopped s → s.listenSockfd = none ∧ s.epollFd = none ∧ s.serverThread = .absent ∧
    s.connections.length ≤ 1
  deaf : s.stopping = .deaf ∨ s.stopping = .cleared ∨ s.stopping = .blind →
    s.listenSockfd = none
  few : s.stopping = .cleared ∨ s.stopping = .blind → Few s
  blind : s.stopping = .blind → s.epollFd = none

theorem new_sound : Sound .new := by
  refine ⟨Account.empty_balances, Nat.zero_le _, rfl, fun _ => ⟨rfl, rfl, rfl, Nat.zero_le _⟩,
    ?_, ?_, ?_⟩
  · intro _
    rfl
  · intro _
    exact Nat.zero_le _
  · intro _
    rfl

section Starts

variable {s t : TcpServerImpl} {fd : Nat}

theorem closeListen_balanced {rest : List Nat}
    (h : s.descriptors.Balances (s.listenSockfd.toList ++ rest)) :
    s.closeListen.descriptors.Balances rest := by
  unfold TcpServerImpl.closeListen
  cases hlisten : s.listenSockfd with
  | none =>
    rw [hlisten] at h
    exact h
  | some fd =>
    rw [hlisten] at h
    exact h.release

theorem closeListen_eq : s.closeListen =
    { s with listenSockfd := none, descriptors := s.closeListen.descriptors } := by
  unfold TcpServerImpl.closeListen
  cases hlisten : s.listenSockfd with
  | none =>
    obtain ⟨⟩ := s
    cases hlisten
    rfl
  | some fd => rfl

theorem closeEpoll_balanced {rest : List Nat}
    (h : s.descriptors.Balances (s.epollFd.toList ++ rest)) :
    s.closeEpoll.descriptors.Balances rest := by
  unfold TcpServerImpl.closeEpoll
  cases hepoll : s.epollFd with
  | none =>
    rw [hepoll] at h
    exact h
  | some fd =>
    rw [hepoll] at h
    exact h.release

theorem closeEpoll_eq : s.closeEpoll =
    { s with epollFd := none, descriptors := s.closeEpoll.descriptors } := by
  unfold TcpServerImpl.closeEpoll
  cases hepoll : s.epollFd with
  | none =>
    obtain ⟨⟩ := s
    cases hepoll
    rfl
  | some fd => rfl

theorem sound_of_failed (sound : Sound s) (hstopped : Stopped s) {d : Account Nat}
    (hd : d.Balances (owned s)) :
    Sound { s with listenSockfd := none, epollFd := none, descriptors := d } := by
  obtain ⟨hlisten, hepoll, hthread, hconnections⟩ := sound.quiet hstopped
  have hidle := hstopped.2
  refine ⟨?_, sound.limit, sound.errors, fun _ => ⟨rfl, rfl, hthread, hconnections⟩,
    fun _ => rfl, ?_, fun _ => rfl⟩
  · rw [owned, hlisten, hepoll] at hd
    exact hd
  · intro h
    rw [hidle] at h
    simp at h

theorem sound_of_started (sound : Sound s) (hstopped : Stopped s) {d : Account Nat}
    {fd epoll : Nat} (hd : d.Balances (epoll :: fd :: owned s)) :
    Sound { s with
      listenSockfd := some fd, epollFd := some epoll, descriptors := d, running := true,
      serverThread := .waiting } := by
  obtain ⟨hlisten, hepoll, hthread, hconnections⟩ := sound.quiet hstopped
  have hphase : s.stopping ≠ .deaf ∧ s.stopping ≠ .cleared ∧ s.stopping ≠ .blind := by
    simp [hstopped.2]
  refine ⟨?_, ?_, sound.errors, fun h => absurd h.1 (by simp), ?_, ?_, ?_⟩
  · rw [owned, hlisten, hepoll, hthread] at hd
    exact hd.of_perm (.swap fd epoll _)
  · exact hconnections.trans (by decide)
  · rintro (h | h | h)
    · exact absurd h hphase.1
    · exact absurd h hphase.2.1
    · exact absurd h hphase.2.2
  · rintro (h | h)
    · exact absurd h hphase.2.1
    · exact absurd h hphase.2.2
  · intro h
    exact absurd h hphase.2.2

theorem start_sound {calls : Starting} (sound : Sound s) (hidle : s.stopping = .idle)
    (h : s.start calls = some t) : Sound t := by
  by_cases hrunning : s.running = true
  · rw [TcpServerImpl.start, if_pos hrunning] at h
    cases h
    exact sound
  have hstopped : Stopped s := ⟨Bool.eq_false_of_not_eq_true hrunning, hidle⟩
  obtain ⟨hlisten, hepoll, hthread, hconnections⟩ := sound.quiet hstopped
  rw [TcpServerImpl.start, if_neg hrunning] at h
  cases hsocket : calls.socket with
  | none =>
    rw [hsocket] at h
    cases h
    have hsame : { s with listenSockfd := none } =
        { s with listenSockfd := none, epollFd := none } := by simp [hepoll]
    rw [hsame]
    exact sound_of_failed sound hstopped sound.balanced
  | some fd =>
    rw [hsocket] at h
    dsimp only at h
    by_cases hfd : fd ∈ s.descriptors.held
    · rw [if_pos hfd] at h
      cases h
    rw [if_neg hfd] at h
    have hacquired := sound.balanced.acquire hfd
    have hclosed :
        Sound ({ s.opened fd with listenSockfd := some fd } : TcpServerImpl).closeListen := by
      have heq : ({ s.opened fd with listenSockfd := some fd } : TcpServerImpl).closeListen =
          { s with
            listenSockfd := none, epollFd := none,
            descriptors := (s.descriptors.acquire fd).release fd } := by
        simp [TcpServerImpl.closeListen, TcpServerImpl.closeFd, TcpServerImpl.opened, hepoll]
      rw [heq]
      exact sound_of_failed sound hstopped hacquired.release
    by_cases hset : (!calls.setsockopt) = true
    · rw [if_pos hset] at h
      cases h
      exact hclosed
    by_cases hbind : (!calls.bind) = true
    · rw [if_neg hset, if_pos hbind] at h
      cases h
      exact hclosed
    by_cases hlistens : (!calls.listen) = true
    · rw [if_neg hset, if_neg hbind, if_pos hlistens] at h
      cases h
      exact hclosed
    rw [if_neg hset, if_neg hbind, if_neg hlistens] at h
    cases hcreate : calls.epollCreate with
    | none =>
      rw [hcreate] at h
      cases h
      have heq : ({ ({ s.opened fd with listenSockfd := some fd } : TcpServerImpl).closeListen with
          epollFd := none } : TcpServerImpl) =
          ({ s.opened fd with listenSockfd := some fd } : TcpServerImpl).closeListen := by
        simp [TcpServerImpl.closeListen, TcpServerImpl.closeFd, TcpServerImpl.opened, hepoll]
      rw [heq]
      exact hclosed
    | some epoll =>
      rw [hcreate] at h
      dsimp only at h
      by_cases hnew : epoll ∈ (s.opened fd).descriptors.held
      · rw [if_pos hnew] at h
        cases h
      rw [if_neg hnew] at h
      have hboth := hacquired.acquire hnew
      by_cases hctl : (!calls.epollCtl) = true
      · rw [if_pos hctl] at h
        cases h
        exact sound_of_failed sound hstopped hboth.release.release
      · rw [if_neg hctl] at h
        cases h
        exact sound_of_started sound hstopped hboth

end Starts

section Stops

variable {s t : TcpServerImpl}

theorem closeAll_spec (peers : List Peer) (s : TcpServerImpl) {rest : List Nat}
    (h : s.descriptors.Balances (peers.map Peer.sockfd ++ (s.lost ++ rest))) :
    ∃ d lost, peers.foldl TcpServerImpl.closePeer s = { s with descriptors := d, lost := lost } ∧
      d.Balances (lost ++ rest) ∧ lost.length = s.lost.length + peers.countP Peer.failed := by
  induction peers generalizing s with
  | nil => exact ⟨s.descriptors, s.lost, rfl, h, rfl⟩
  | cons peer peers ih =>
    rw [List.foldl_cons]
    cases hfailed : peer.failed with
    | true =>
      have hclose : s.closePeer peer = { s with lost := peer.sockfd :: s.lost } := if_pos hfailed
      rw [hclose]
      have hmoved :
          s.descriptors.Balances (peers.map Peer.sockfd ++ (peer.sockfd :: s.lost ++ rest)) :=
        h.of_perm List.perm_middle.symm
      obtain ⟨d, lost, heq, hd, hlength⟩ := ih { s with lost := peer.sockfd :: s.lost } hmoved
      refine ⟨d, lost, heq, hd, ?_⟩
      rw [hlength, List.countP_cons_of_pos hfailed, List.length_cons]
      omega
    | false =>
      have hclose : s.closePeer peer = s.closeFd peer.sockfd := if_neg (by simp [hfailed])
      rw [hclose]
      obtain ⟨d, lost, heq, hd, hlength⟩ := ih (s.closeFd peer.sockfd) h.release
      refine ⟨d, lost, heq, hd, ?_⟩
      rw [hlength, List.countP_cons_of_neg (by simp [hfailed])]
      rfl

theorem stop_sound (sound : Sound s) :
    Sound (if s.running then { s with running := false, stopping := .flagged } else s) := by
  split
  · refine ⟨sound.balanced, sound.limit, sound.errors, fun h => absurd h.2 (by simp), ?_, ?_, ?_⟩
    · rintro (h | h | h) <;> cases h
    · rintro (h | h) <;> cases h
    · intro h
      cases h
  · exact sound

theorem flagged_sound (sound : Sound s) :
    Sound { s.closeListen with stopping := .deaf } := by
  have hd := closeListen_balanced sound.balanced
  rw [closeListen_eq]
  refine ⟨hd, sound.limit, sound.errors, fun h => absurd h.2 (by simp), fun _ => rfl, ?_, ?_⟩
  · rintro (h | h) <;> cases h
  · intro h
    cases h

theorem inFlight_le (thread : ServerThread) : (inFlight thread).length ≤ 1 := by
  cases thread <;> simp [inFlight]

theorem admitted_le (s : TcpServerImpl) :
    s.connections.length ≤ admitted s ∧
      admitted s ≤ s.connections.length + (inFlight s.serverThread).length := by
  unfold admitted inFlight
  cases s.serverThread <;> simp

theorem deaf_sound (sound : Sound s) (hstopping : s.stopping = .deaf) :
    Sound { s.connections.foldl TcpServerImpl.closePeer s with
      connections := [], stopping := .cleared } := by
  have hmoved : s.descriptors.Balances (s.connections.map Peer.sockfd ++ (s.lost ++
      (s.listenSockfd.toList ++ (s.epollFd.toList ++ inFlight s.serverThread)))) := by
    refine sound.balanced.of_perm (List.perm_iff_count.mpr ?_)
    intro a
    simp only [owned, List.count_append]
    omega
  obtain ⟨d, lost, heq, hd, hlength⟩ := closeAll_spec s.connections s hmoved
  have hlisten := sound.deaf (.inl hstopping)
  rw [heq]
  refine ⟨?_, ?_, ?_, fun h => absurd h.2 (by simp), fun _ => hlisten, ?_, ?_⟩
  · refine hd.of_perm (List.perm_iff_count.mpr ?_)
    intro a
    simp only [owned, List.count_append, List.map_nil, List.count_nil]
    omega
  · have hflight := inFlight_le s.serverThread
    have hadmitted := (admitted_le { s with
      descriptors := d, lost := lost, connections := [], stopping := .cleared }).2
    exact hadmitted.trans ((Nat.zero_add _).le.trans (hflight.trans (by decide)))
  · have herrors := sound.errors
    change lost.length + 0 = s.errors
    omega
  · intro _
    exact (Nat.zero_add _).le.trans (inFlight_le s.serverThread)
  · intro h
    cases h

theorem cleared_sound (sound : Sound s) (hstopping : s.stopping = .cleared) :
    Sound { s.closeEpoll with stopping := .blind } := by
  have hlisten := sound.deaf (.inr (.inl hstopping))
  have hbalanced := sound.balanced
  rw [owned, hlisten, Option.toList_none, List.nil_append] at hbalanced
  have hd := closeEpoll_balanced hbalanced
  rw [closeEpoll_eq]
  refine ⟨?_, sound.limit, sound.errors, fun h => absurd h.2 (by simp), fun _ => hlisten,
    fun _ => sound.few (.inl hstopping), fun _ => rfl⟩
  rw [owned, hlisten]
  exact hd

theorem blind_sound (sound : Sound s) (hstopping : s.stopping = .blind)
    (hthread : s.serverThread = .exited ∨ s.serverThread = .absent) :
    Sound { s with serverThread := .absent, stopping := .idle } := by
  have hflight : inFlight s.serverThread = [] := by
    obtain h | h := hthread <;> rw [h] <;> rfl
  have hlisten := sound.deaf (.inr (.inr hstopping))
  have hfew : s.connections.length ≤ 1 := (Nat.le_add_right _ _).trans (sound.few (.inr hstopping))
  refine ⟨?_, ?_, sound.errors, fun _ => ⟨hlisten, sound.blind hstopping, rfl, hfew⟩, ?_, ?_, ?_⟩
  · have hbalanced := sound.balanced
    rw [owned, hflight] at hbalanced
    exact hbalanced
  · exact hfew.trans (by decide)
  · rintro (h | h | h) <;> cases h
  · rintro (h | h) <;> cases h
  · intro h
    cases h

theorem stopNext_sound (sound : Sound s) (h : s.stopNext = some t) : Sound t := by
  unfold TcpServerImpl.stopNext at h
  cases hstopping : s.stopping with
  | idle =>
    rw [hstopping] at h
    cases h
  | flagged =>
    rw [hstopping] at h
    cases h
    exact flagged_sound sound
  | deaf =>
    rw [hstopping] at h
    cases h
    exact deaf_sound sound hstopping
  | cleared =>
    rw [hstopping] at h
    cases h
    exact cleared_sound sound hstopping
  | blind =>
    rw [hstopping] at h
    dsimp only at h
    split at h
    · rename_i hthread
      cases h
      exact blind_sound sound hstopping hthread
    · cases h

end Stops

section Connections

variable {s t : TcpServerImpl} {peer : Peer}

/-- The rule for what happens to the connections: no more of them are on their way, or
the server still listens. -/
theorem sound_of_connections (sound : Sound s) (thread : ServerThread) (connections : List Peer)
    (d : Account Nat) (lost : List Nat) (errors : Nat)
    (hbalanced : d.Balances (owned { s with
      serverThread := thread, connections := connections, lost := lost }))
    (hlimit : admitted { s with serverThread := thread, connections := connections } ≤
      TcpServer.maxConnections)
    (herrors : lost.length + connections.countP Peer.failed = errors)
    (hquiet : s.serverThread = .absent → thread = .absent ∧
      connections.length ≤ s.connections.length)
    (hfew : s.listenSockfd = none → connections.length + (inFlight thread).length ≤
      s.connections.length + (inFlight s.serverThread).length) :
    Sound { s with
      serverThread := thread, connections := connections, descriptors := d, lost := lost,
      errors := errors } := by
  refine ⟨hbalanced, hlimit, herrors, ?_, sound.deaf, ?_, sound.blind⟩
  · intro hstopped
    obtain ⟨hlisten, hepoll, habsent, hle⟩ := sound.quiet hstopped
    exact ⟨hlisten, hepoll, (hquiet habsent).1, (hquiet habsent).2.trans hle⟩
  · intro h
    exact (hfew (sound.deaf (.inr h))).trans (sound.few h)

theorem accept_sound (sound : Sound s) (hthread : s.serverThread = .waiting) {fd : Nat}
    (hlisten : s.listenSockfd ≠ none) (hfd : fd ∉ s.descriptors.held) :
    Sound { s.opened fd with serverThread := .accepted fd } := by
  have hlimit := sound.limit
  rw [admitted, hthread] at hlimit
  refine sound_of_connections sound (.accepted fd) s.connections (s.descriptors.acquire fd) s.lost
    s.errors ?_ hlimit sound.errors ?_ ?_
  · refine (sound.balanced.acquire hfd).of_perm (List.perm_iff_count.mpr ?_)
    intro a
    simp only [owned, hthread, inFlight, List.count_append, List.count_cons, List.count_nil]
    omega
  · intro habsent
    rw [hthread] at habsent
    cases habsent
  · intro hnone
    exact absurd hnone hlisten

theorem drop_sound (sound : Sound s) {fd : Nat} (hflight : inFlight s.serverThread = [fd]) :
    Sound { s.closeFd fd with serverThread := .waiting } := by
  have hlimit := (admitted_le s).1.trans sound.limit
  refine sound_of_connections sound .waiting s.connections (s.descriptors.release fd) s.lost
    s.errors ?_ hlimit sound.errors ?_ ?_
  · apply Account.Balances.release
    refine sound.balanced.of_perm (List.perm_iff_count.mpr ?_)
    intro a
    have hnone : inFlight .waiting = [] := rfl
    simp only [owned, hflight, hnone, List.count_append, List.count_cons, List.count_nil]
    omega
  · intro habsent
    rw [habsent] at hflight
    cases hflight
  · intro _
    exact Nat.add_le_add_left (Nat.zero_le _) _

theorem advance_sound (sound : Sound s) {fd : Nat} {thread : ServerThread}
    (hflight : inFlight s.serverThread = [fd]) (hnext : inFlight thread = [fd])
    (hlimit : admitted { s with serverThread := thread } ≤ TcpServer.maxConnections) :
    Sound { s with serverThread := thread } := by
  refine sound_of_connections sound thread s.connections s.descriptors s.lost s.errors ?_ hlimit
    sound.errors ?_ ?_
  · have hbalanced := sound.balanced
    rw [owned, hflight, ← hnext] at hbalanced
    exact hbalanced
  · intro habsent
    rw [habsent] at hflight
    cases hflight
  · intro _
    rw [hflight, hnext]

theorem list_sound (sound : Sound s) {fd : Nat} (hthread : s.serverThread = .added fd) :
    Sound { s with
      serverThread := .waiting, connections := s.connections ++ [⟨fd, false⟩] } := by
  have hlimit := sound.limit
  rw [admitted, hthread] at hlimit
  refine sound_of_connections sound .waiting (s.connections ++ [⟨fd, false⟩]) s.descriptors s.lost
    s.errors ?_ ?_ ?_ ?_ ?_
  · refine sound.balanced.of_perm (List.perm_iff_count.mpr ?_)
    intro a
    simp only [owned, hthread, inFlight, List.count_append, List.map_append, List.map_cons,
      List.map_nil, List.count_nil]
    omega
  · simpa [admitted] using hlimit
  · have herrors := sound.errors
    simpa [List.countP_append, List.countP_cons] using herrors
  · intro habsent
    rw [hthread] at habsent
    cases habsent
  · intro _
    simp [hthread, inFlight]

theorem acceptNext_sound {result : Option Nat} {epollCtl : Bool} (sound : Sound s)
    (h : s.acceptNext result epollCtl = some t) : Sound t := by
  unfold TcpServerImpl.acceptNext at h
  cases hthread : s.serverThread with
  | absent =>
    rw [hthread] at h
    cases h
  | exited =>
    rw [hthread] at h
    cases h
  | waiting =>
    rw [hthread] at h
    cases result with
    | none =>
      cases h
      exact sound
    | some fd =>
      dsimp only at h
      split at h
      · cases h
      · rename_i hfree
        cases h
        obtain ⟨hlisten, hfd⟩ := not_or.mp hfree
        exact accept_sound sound hthread hlisten hfd
  | accepted fd =>
    rw [hthread] at h
    dsimp only at h
    have hflight : inFlight s.serverThread = [fd] := by rw [hthread]; rfl
    split at h
    · cases h
      exact drop_sound sound hflight
    · rename_i hroom
      cases h
      exact advance_sound sound hflight rfl (Nat.not_le.mp hroom)
  | admitted fd =>
    rw [hthread] at h
    dsimp only at h
    have hflight : inFlight s.serverThread = [fd] := by rw [hthread]; rfl
    split at h
    · cases h
      have hlimit := sound.limit
      rw [admitted, hthread] at hlimit
      exact advance_sound sound hflight rfl hlimit
    · cases h
      exact drop_sound sound hflight
  | added fd =>
    rw [hthread] at h
    cases h
    exact list_sound sound hthread

theorem handleClientClose_sound (sound : Sound s) : Sound (s.handleClientClose peer) := by
  unfold TcpServerImpl.handleClientClose
  split
  · rename_i hmem
    have hperm := List.perm_cons_erase hmem
    have hlength : (s.connections.erase peer).length + 1 = s.connections.length :=
      hperm.length_eq.symm
    have hcount := hperm.countP_eq Peer.failed
    have herrors := sound.errors
    have hmoved : s.descriptors.Balances
        (peer.sockfd :: owned { s with connections := s.connections.erase peer }) := by
      refine sound.balanced.of_perm (List.perm_iff_count.mpr ?_)
      intro a
      have hsockfds := (hperm.map Peer.sockfd).count_eq a
      simp only [List.map_cons, List.count_cons] at hsockfds
      simp only [owned, List.count_append, List.count_cons]
      omega
    have hlimit : admitted { s with connections := s.connections.erase peer } ≤
        TcpServer.maxConnections := by
      refine le_trans ?_ sound.limit
      unfold admitted
      cases s.serverThread <;> simp only <;> omega
    cases hfailed : peer.failed with
    | true =>
      rw [TcpServerImpl.closePeer, if_pos hfailed]
      refine sound_of_connections sound s.serverThread (s.connections.erase peer) s.descriptors
        (peer.sockfd :: s.lost) s.errors ?_ hlimit ?_ ?_ ?_
      · refine hmoved.of_perm (List.perm_iff_count.mpr ?_)
        intro a
        simp only [owned, List.count_append, List.count_cons]
        omega
      · rw [List.countP_cons_of_pos hfailed] at hcount
        rw [List.length_cons]
        omega
      · intro habsent
        exact ⟨habsent, by omega⟩
      · intro _
        omega
    | false =>
      rw [TcpServerImpl.closePeer, if_neg (by simp [hfailed])]
      refine sound_of_connections sound s.serverThread (s.connections.erase peer)
        (s.descriptors.release peer.sockfd) s.lost s.errors hmoved.release hlimit ?_ ?_ ?_
      · rw [List.countP_cons_of_neg (by simp [hfailed])] at hcount
        omega
      · intro habsent
        exact ⟨habsent, by omega⟩
      · intro _
        omega
  · exact sound

theorem replace_perm {α : Type} [DecidableEq α] {l : List α} {a : α} (h : a ∈ l) (b : α) :
    (l.replace a b).Perm (b :: l.erase a) := by
  induction l with
  | nil => cases h
  | cons c l ih =>
    by_cases hc : c = a
    · subst hc
      simp
    · have hmem : a ∈ l := (List.mem_cons.mp h).resolve_left (Ne.symm hc)
      rw [List.replace_cons, List.erase_cons_tail (by simpa using hc)]
      simp only [beq_eq_false_iff_ne.mpr (Ne.symm hc)]
      exact ((ih hmem).cons c).trans (.swap b c _)

theorem handleError_sound (sound : Sound s) : Sound (s.handleError peer) := by
  unfold TcpServerImpl.handleError
  split
  · rename_i hpeer
    obtain ⟨hmem, hfailed⟩ := hpeer
    have hperm := List.perm_cons_erase hmem
    have hreplace := replace_perm hmem (⟨peer.sockfd, true⟩ : Peer)
    have hsockfds : (s.connections.replace peer ⟨peer.sockfd, true⟩).map Peer.sockfd |>.Perm
        (s.connections.map Peer.sockfd) := by
      exact (hreplace.map Peer.sockfd).trans (hperm.map Peer.sockfd).symm
    have hlength := hsockfds.length_eq
    rw [List.length_map, List.length_map] at hlength
    refine sound_of_connections sound s.serverThread
      (s.connections.replace peer ⟨peer.sockfd, true⟩) s.descriptors s.lost (s.errors + 1)
      ?_ ?_ ?_ ?_ ?_
    · refine sound.balanced.of_perm (List.perm_iff_count.mpr ?_)
      intro a
      have hcount := hsockfds.count_eq a
      simp only [owned, List.count_append]
      omega
    · have hlimit := sound.limit
      unfold admitted at hlimit ⊢
      cases hthread : s.serverThread <;> simp only [hthread] at hlimit ⊢ <;> omega
    · have herrors := sound.errors
      have hcount := hperm.countP_eq Peer.failed
      rw [List.countP_cons_of_neg (by simp [hfailed])] at hcount
      have hmore := hreplace.countP_eq Peer.failed
      rw [List.countP_cons_of_pos rfl] at hmore
      omega
    · intro habsent
      exact ⟨habsent, hlength.le⟩
    · intro _
      omega
  · exact sound

theorem exit_sound (sound : Sound s) (hthread : s.serverThread = .waiting) :
    Sound { s with serverThread := .exited } := by
  have hbalanced := sound.balanced
  have hlimit := sound.limit
  rw [owned, hthread] at hbalanced
  rw [admitted, hthread] at hlimit
  refine sound_of_connections sound .exited s.connections s.descriptors s.lost s.errors hbalanced
    hlimit sound.errors ?_ ?_
  · intro habsent
    rw [hthread] at habsent
    cases habsent
  · intro _
    rw [hthread]
    exact le_rfl

end Connections

theorem step_sound (s : TcpServerImpl) (l : Act) (t : TcpServerImpl) (sound : Sound s)
    (h : step s l = some t) : Sound t := by
  cases l with
  | start calls =>
    obtain ⟨hidle, h⟩ := Option.ite_none_right_eq_some.mp h
    exact start_sound sound hidle h
  | stop =>
    obtain ⟨-, h⟩ := Option.ite_none_right_eq_some.mp h
    cases h
    exact stop_sound sound
  | stopNext => exact stopNext_sound sound h
  | acceptNext result epollCtl => exact acceptNext_sound sound h
  | handleClientClose peer =>
    obtain ⟨-, h⟩ := Option.ite_none_right_eq_some.mp h
    cases h
    exact handleClientClose_sound sound
  | sendFails peer =>
    cases h
    exact handleError_sound sound
  | exit =>
    obtain ⟨hthread, h⟩ := Option.ite_none_right_eq_some.mp h
    cases h
    exact exit_sound sound hthread

/-- Over any number of starts and stops, with the loop running in between and beside
`stop`, no descriptor is closed that is not open, each open one has one owner, the limit
holds, and a send that fails costs the descriptor of its connection. Once `stop` has
returned, the only one besides these is that of a connection accepted while it ran. -/
theorem descriptors_accounted {acts : List Act} {s : TcpServerImpl}
    (hrun : run step .new acts = some s) :
    s.descriptors.Balances (owned s) ∧ s.connections.length ≤ TcpServer.maxConnections ∧
      s.lost.length + s.connections.countP Peer.failed = s.errors ∧
      (Stopped s → s.connections.length ≤ 1 ∧
        s.descriptors.held.Perm (s.connections.map Peer.sockfd ++ s.lost)) := by
  have sound := run_invariant_of_forall step_sound new_sound hrun
  refine ⟨sound.balanced, (admitted_le s).1.trans sound.limit, sound.errors, ?_⟩
  intro hstopped
  obtain ⟨hlisten, hepoll, hthread, hconnections⟩ := sound.quiet hstopped
  refine ⟨hconnections, ?_⟩
  have hperm := sound.balanced.perm
  rw [owned, hlisten, hepoll, hthread] at hperm
  exact hperm

def goodStart : Starting := ⟨some 3, true, true, true, some 4, true⟩

/-- One connection fails to send, and one is accepted while `stop` runs. -/
def overlapping : List Act :=
  [.start goodStart, .acceptNext (some 5) true, .acceptNext none true, .acceptNext none true,
    .acceptNext none true, .sendFails ⟨5, false⟩, .acceptNext (some 6) true, .stop, .stopNext,
    .stopNext, .acceptNext none true, .acceptNext none true, .acceptNext none true, .stopNext,
    .exit, .stopNext]

theorem descriptors_accounted_overlapping : ∃ s : TcpServerImpl,
    run step .new overlapping = some s ∧ Stopped s ∧ s.connections = [⟨6, false⟩] ∧
    s.lost = [5] ∧ s.descriptors.held.Perm (s.connections.map Peer.sockfd ++ s.lost) := by
  have h : (run step .new overlapping).map
      (fun s => (s.running, s.stopping, s.connections, s.lost)) =
        some (false, .idle, [⟨6, false⟩], [5]) := by
    decide +kernel
  obtain ⟨s, hrun, hview⟩ := Option.map_eq_some_iff.mp h
  simp only [Prod.mk.injEq] at hview
  obtain ⟨hrunning, hidle, hconnections, hlost⟩ := hview
  have hstopped : Stopped s := ⟨hrunning, hidle⟩
  exact ⟨s, hrun, hstopped, hconnections, hlost,
    ((descriptors_accounted hrun).2.2.2 hstopped).2⟩

end ServerLifecycle

end Mprpc
