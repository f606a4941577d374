import Mprpc.Library.Transition

namespace Mprpc

/-- Where a thread stands in `workerThread`. It is awake when it is about to take the
lock, at first or after a notification. -/
inductive ThreadPool.Worker
  | awake
  | asleep
  | running (task : Nat)
  | finishing
  | returned
deriving DecidableEq, Repr

/-- Where a thread stands in `waitForAllTasks`. -/
inductive ThreadPool.Waiter
  | awake
  | asleep
  | returned
deriving DecidableEq, Repr

/-- Where a call of `submit` stands: it has seen `stop_` unset, it has put its task into
the queue, it has returned, or it has thrown. -/
inductive ThreadPool.Submitter
  | tested
  | enqueued
  | returned
  | refused
deriving DecidableEq, Repr

/-- Where the call of `stop` stands; it joins the workers in their order. -/
inductive ThreadPool.Stopper
  | idle
  | tested
  | flagged
  | joining (k : Nat)
  | returned
deriving DecidableEq, Repr

/-- The pool and the threads that use it. A task has the number of its `submit` call;
`executed` are the tasks that have run, in their order. -/
structure ThreadPool where
  workers : List ThreadPool.Worker
  tasks : List Nat
  stop : Bool
  activeThreads : Nat
  submitters : List ThreadPool.Submitter
  waiters : List ThreadPool.Waiter
  stopper : ThreadPool.Stopper
  executed : List Nat
deriving DecidableEq, Repr

namespace ThreadPool

/-- How many threads the constructor starts. -/
def threadCount (requested hardwareConcurrency : Nat) : Nat :=
  if requested = 0 then if hardwareConcurrency = 0 then 1 else hardwareConcurrency
  else requested

def new (requested hardwareConcurrency : Nat) : ThreadPool where
  workers := List.replicate (threadCount requested hardwareConcurrency) .awake
  tasks := []
  stop := false
  activeThreads := 0
  submitters := []
  waiters := []
  stopper := .idle
  executed := []

/-- A thread that sleeps on `condition_`. -/
inductive Sleeper
  | worker (w : Nat)
  | waiter (j : Nat)
deriving DecidableEq, Repr

/-- `notify_one` wakes any one of the threads that sleep, and nobody if none does. -/
def notifyOne (woken : Option Sleeper) (s : ThreadPool) : Option ThreadPool :=
  match woken with
  | some (.worker w) =>
    if s.workers[w]? = some .asleep then some { s with workers := s.workers.set w .awake }
    else none
  | some (.waiter j) =>
    if s.waiters[j]? = some .asleep then some { s with waiters := s.waiters.set j .awake }
    else none
  | none => if .asleep ∈ s.workers ∨ .asleep ∈ s.waiters then none else some s

def notifyAll (s : ThreadPool) : ThreadPool :=
  { s with
    workers := s.workers.map fun worker => if worker = .asleep then .awake else worker
    waiters := s.waiters.map fun waiter => if waiter = .asleep then .awake else waiter }

/-- What the threads do between two points at which another thread can come in. -/
inductive Act
  | submit
  | enqueue (i : Nat)
  | notifyOne (i : Nat) (woken : Option Sleeper)
  | worker (w : Nat)
  | waitForAllTasks
  | waiter (j : Nat)
  | stop
  | setStop
  | notifyAll
  | join
deriving DecidableEq, Repr

/-- Under the lock a worker sleeps, leaves or takes a task; the task and the decrement
that follow are outside it. -/
def workerStep (w : Nat) (s : ThreadPool) : Option ThreadPool :=
  match s.workers[w]? with
  | some .awake =>
    match s.tasks with
    | [] => some { s with workers := s.workers.set w (if s.stop then .returned else .asleep) }
    | task :: tasks =>
      some { s with
        workers := s.workers.set w (.running task)
        tasks := tasks
        activeThreads := s.activeThreads + 1 }
  | some (.running task) =>
    some { s with
      workers := s.workers.set w .finishing
      executed := s.executed ++ [task] }
  | some .finishing =>
    some { s with
      workers := s.workers.set w .awake
      activeThreads := s.activeThreads - 1 }
  | _ => none

def waiterStep (j : Nat) (s : ThreadPool) : Option ThreadPool :=
  match s.waiters[j]? with
  | some .awake =>
    if s.tasks = [] ∧ s.activeThreads = 0 then
      some { s with waiters := s.waiters.set j .returned }
    else some { s with waiters := s.waiters.set j .asleep }
  | _ => none

/-- A join goes on when its worker has returned. -/
def joinStep (s : ThreadPool) : Option ThreadPool :=
  match s.stopper with
  | .joining k =>
    match s.workers[k]? with
    | none => some { s with stopper := .returned }
    | some .returned => some { s with stopper := .joining (k + 1) }
    | some _ => none
  | _ => none

def step (s : ThreadPool) : Act → Option ThreadPool
  | .submit =>
    let submitter := if s.stop then .refused else .tested
    some { s with submitters := s.submitters ++ [submitter] }
  | .enqueue i =>
    if s.submitters[i]? = some .tested then
      some { s with submitters := s.submitters.set i .enqueued, tasks := s.tasks ++ [i] }
    else none
  | .notifyOne i woken =>
    if s.submitters[i]? = some .enqueued then
      notifyOne woken { s with submitters := s.submitters.set i .returned }
    else none
  | .worker w => s.workerStep w
  | .waitForAllTasks => some { s with waiters := s.waiters ++ [.awake] }
  | .waiter j => s.waiterStep j
  | .stop =>
    if s.stopper = .idle then
      some { s with stopper := if s.stop then .returned else .tested }
    else none
  | .setStop =>
    if s.stopper = .tested then some { s with stop := true, stopper := .flagged } else none
  | .notifyAll =>
    if s.stopper = .flagged then some { s.notifyAll with stopper := .joining 0 } else none
  | .join => s.joinStep

/-- The ways an act can go. -/
inductive Moves (s : ThreadPool) : Act → ThreadPool → Prop
  | refused : s.stop = true →
      Moves s .submit { s with submitters := s.submitters ++ [.refused] }
  | tested : s.stop = false →
      Moves s .submit { s with submitters := s.submitters ++ [.tested] }
  | enqueues {i : Nat} : s.submitters[i]? = some .tested →
      Moves s (.enqueue i)
        { s with submitters := s.submitters.set i .enqueued, tasks := s.tasks ++ [i] }
  | notifiesWorker {i w : Nat} : s.submitters[i]? = some .enqueued →
      s.workers[w]? = some .asleep →
      Moves s (.notifyOne i (some (.worker w)))
        { s with
          submitters := s.submitters.set i .returned
          workers := s.workers.set w .awake }
  | notifiesWaiter {i j : Nat} : s.submitters[i]? = some .enqueued →
      s.waiters[j]? = some .asleep →
      Moves s (.notifyOne i (some (.waiter j)))
        { s with
          submitters := s.submitters.set i .returned
          waiters := s.waiters.set j .awake }
  | notifiesNobody {i : Nat} : s.submitters[i]? = some .enqueued →
      .asleep ∉ s.workers → .asleep ∉ s.waiters →
      Moves s (.notifyOne i none) { s with submitters := s.submitters.set i .returned }
  | leaves {w : Nat} : s.workers[w]? = some .awake → s.tasks = [] → s.stop = true →
      Moves s (.worker w) { s with workers := s.workers.set w .returned }
  | sleeps {w : Nat} : s.workers[w]? = some .awake → s.tasks = [] → s.stop = false →
      Moves s (.worker w) { s with workers := s.workers.set w .asleep }
  | takes {w task : Nat} {tasks : List Nat} : s.workers[w]? = some .awake →
      s.tasks = task :: tasks →
      Moves s (.worker w)
        { s with
          workers := s.workers.set w (.running task)
          tasks := tasks
          activeThreads := s.activeThreads + 1 }
  | runs {w task : Nat} : s.workers[w]? = some (.running task) →
      Moves s (.worker w)
        { s with workers := s.workers.set w .finishing, executed := s.executed ++ [task] }
  | finishes {w : Nat} : s.workers[w]? = some .finishing →
      Moves s (.worker w)
        { s with
          workers := s.workers.set w .awake
          activeThreads := s.activeThreads - 1 }
  | waits : Moves s .waitForAllTasks { s with waiters := s.waiters ++ [.awake] }
  | passes {j : Nat} : s.waiters[j]? = some .awake → s.tasks = [] → s.activeThreads = 0 →
      Moves s (.waiter j) { s with waiters := s.waiters.set j .returned }
  | dozes {j : Nat} : s.waiters[j]? = some .awake → ¬(s.tasks = [] ∧ s.activeThreads = 0) →
      Moves s (.waiter j) { s with waiters := s.waiters.set j .asleep }
  | stopReturns : s.stopper = .idle → s.stop = true →
      Moves s .stop { s with stopper := .returned }
  | stops : s.stopper = .idle → s.stop = false → Moves s .stop { s with stopper := .tested }
  | flags : s.stopper = .tested → Moves s .setStop { s with stop := true, stopper := .flagged }
  | notifiesAll : s.stopper = .flagged →
      Moves s .notifyAll { s.notifyAll with stopper := .joining 0 }
  | joins {k : Nat} : s.stopper = .joining k → s.workers[k]? = some .returned →
      Moves s .join { s with stopper := .joining (k + 1) }
  | joined {k : Nat} : s.stopper = .joining k → s.workers.length ≤ k →
      Moves s .join { s with stopper := .returned }

section Moves

variable {s t : ThreadPool}

theorem moves_of_notifyOne {i : Nat} {woken : Option Sleeper}
    (hsubmitter : s.submitters[i]? = some .enqueued)
    (h : notifyOne woken { s with submitters := s.submitters.set i .returned } = some t) :
    Moves s (.notifyOne i woken) t := by
  cases woken with
  | none =>
    simp only [notifyOne] at h
    split at h
    · cases h
    · rename_i hnobody
      cases h
      obtain ⟨hworkers, hwaiters⟩ := not_or.mp hnobody
      exact .notifiesNobody hsubmitter hworkers hwaiters
  | some sleeper =>
    cases sleeper with
    | worker w =>
      simp only [notifyOne] at h
      split at h
      · rename_i hworker
        cases h
        exact .notifiesWorker hsubmitter hworker
      · cases h
    | waiter j =>
      simp only [notifyOne] at h
      split at h
      · rename_i hwaiter
        cases h
        exact .notifiesWaiter hsubmitter hwaiter
      · cases h

theorem moves_of_workerStep {w : Nat} (h : s.workerStep w = some t) : Moves s (.worker w) t := by
  unfold workerStep at h
  split at h
  · rename_i hworker
    split at h
    · rename_i htasks
      by_cases hstop : s.stop = true
      · rw [if_pos hstop] at h
        cases h
        exact .leaves hworker htasks hstop
      · rw [if_neg hstop] at h
        cases h
        exact .sleeps hworker htasks (Bool.eq_false_iff.mpr hstop)
    · rename_i task tasks htasks
      cases h
      exact .takes hworker htasks
  · rename_i task hworker
    cases h
    exact .runs hworker
  · rename_i hworker
    cases h
    exact .finishes hworker
  · cases h

theorem moves_of_waiterStep {j : Nat} (h : s.waiterStep j = some t) : Moves s (.waiter j) t := by
  unfold waiterStep at h
  split at h
  · rename_i hwaiter
    split at h
    · rename_i hdone
      cases h
      exact .passes hwaiter hdone.1 hdone.2
    · rename_i hdone
      cases h
      exact .dozes hwaiter hdone
  · cases h

theorem moves_of_joinStep (h : s.joinStep = some t) : Moves s .join t := by
  unfold joinStep at h
  split at h
  · rename_i k hstopper
    split at h
    · rename_i hend
      cases h
      exact .joined hstopper (List.getElem?_eq_none_iff.mp hend)
    · rename_i hworker
      cases h
      exact .joins hstopper hworker
    · cases h
  · cases h

theorem moves_of_step {act : Act} (h : step s act = some t) : Moves s act t := by
  cases act with
  | submit =>
    simp only [step] at h
    by_cases hstop : s.stop = true
    · rw [if_pos hstop] at h
      cases h
      exact .refused hstop
    · rw [if_neg hstop] at h
      cases h
      exact .tested (Bool.eq_false_iff.mpr hstop)
  | enqueue i =>
    simp only [step] at h
    split at h
    · rename_i hsubmitter
      cases h
      exact .enqueues hsubmitter
    · cases h
  | notifyOne i woken =>
    simp only [step] at h
    split at h
    · rename_i hsubmitter
      exact moves_of_notifyOne hsubmitter h
    · cases h
  | worker w => exact moves_of_workerStep h
  | waitForAllTasks =>
    cases h
    exact .waits
  | waiter j => exact moves_of_waiterStep h
  | stop =>
    simp only [step] at h
    split at h
    · rename_i hstopper
      by_cases hstop : s.stop = true
      · rw [if_pos hstop] at h
        cases h
        exact .stopReturns hstopper hstop
      · rw [if_neg hstop] at h
        cases h
        exact .stops hstopper (Bool.eq_false_iff.mpr hstop)
    · cases h
  | setStop =>
    simp only [step] at h
    split at h
    · rename_i hstopper
      cases h
      exact .flags hstopper
    · cases h
  | notifyAll =>
    simp only [step] at h
    split at h
    · rename_i hstopper
      cases h
      exact .notifiesAll hstopper
    · cases h
  | join => exact moves_of_joinStep h

end Moves

section Workers

variable {s t : ThreadPool} {act : Act}

theorem length_workers (h : Moves s act t) : t.workers.length = s.workers.length := by
  cases h <;> simp [notifyAll]

theorem getElem?_set_of_some {α : Type} {l : List α} {i k : Nat} {old new other : α}
    (h : l[i]? = some old) (hk : l[k]? = some other) (hne : old ≠ other) :
    (l.set i new)[k]? = some other := by
  have hik : i ≠ k := by
    rintro rfl
    exact hne (Option.some.inj (h.symm.trans hk))
  rw [List.getElem?_set_ne hik, hk]

theorem returned_stays (h : Moves s act t) {w : Nat} (hw : s.workers[w]? = some .returned) :
    t.workers[w]? = some .returned := by
  cases h with
  | notifiesWorker _ hold => exact getElem?_set_of_some hold hw (by simp)
  | leaves hold => exact getElem?_set_of_some hold hw (by simp)
  | sleeps hold => exact getElem?_set_of_some hold hw (by simp)
  | takes hold => exact getElem?_set_of_some hold hw (by simp)
  | runs hold => exact getElem?_set_of_some hold hw (by simp)
  | finishes hold => exact getElem?_set_of_some hold hw (by simp)
  | notifiesAll => simp [notifyAll, hw]
  | _ => exact hw

theorem countP_set_add {α : Type} (p : α → Bool) {l : List α} {i : Nat} {old : α} (new : α)
    (h : l[i]? = some old) :
    (l.set i new).countP p + (if p old then 1 else 0) =
      l.countP p + (if p new then 1 else 0) := by
  obtain ⟨hi, rfl⟩ := List.getElem?_eq_some_iff.mp h
  have hle : (if p l[i] then 1 else 0) ≤ l.countP p := List.boole_getElem_le_countP hi
  rw [List.countP_set hi]
  omega

end Workers

end ThreadPool

end Mprpc
