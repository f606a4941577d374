import Mprpc.ThreadPool

namespace Mprpc.WakeUps

open ThreadPool Library.Transition

/-- The worker is not on its way to a task. -/
def Resting (worker : Worker) : Prop := worker = .asleep ∨ worker = .returned

def busy : Worker → Bool
  | .running _ => true
  | .finishing => true
  | _ => false

/-- A task in the queue finds a worker awake, unless its `notify_one` is still to come; and
nobody waits for a pool at rest. -/
structure NoLostWakeUp (s : ThreadPool) : Prop where
  workers : (∀ i : Nat, s.submitters[i]? ≠ some .enqueued) → s.tasks ≠ [] → .asleep ∈ s.workers →
    ∃ worker ∈ s.workers, ¬Resting worker
  waiters : s.tasks = [] → s.activeThreads = 0 → (∀ worker ∈ s.workers, Resting worker) →
    .asleep ∉ s.waiters

/-- A `notify_one` that goes to a thread in `waitForAllTasks` leaves no task to sleeping
workers, and the last worker that comes to rest leaves no such thread asleep. -/
def Heard (s : ThreadPool) : Act → Prop
  | .notifyOne i (some (.waiter j)) =>
    s.submitters[i]? = some .enqueued → s.waiters[j]? = some .asleep →
    (∀ k : Nat, k ≠ i → s.submitters[k]? ≠ some .enqueued) → s.tasks ≠ [] → .asleep ∈ s.workers →
      ∃ worker ∈ s.workers, ¬Resting worker
  | .worker w =>
    s.workers[w]? = some .awake → s.tasks = [] →
    (∀ (v : Nat) (worker : Worker), v ≠ w → s.workers[v]? = some worker → Resting worker) →
      .asleep ∉ s.waiters
  | _ => True

/-- `active_threads_` is the number of the workers with a task. -/
def Counted (s : ThreadPool) : Prop := s.activeThreads = s.workers.countP busy

section Counting

variable {s t : ThreadPool} {act : Act}

theorem counted_set {w : Nat} {old new : Worker} (counted : Counted s)
    (hold : s.workers[w]? = some old) (heq : busy new = busy old) :
    s.activeThreads = (s.workers.set w new).countP busy := by
  have hcount := countP_set_add busy new hold
  rw [heq] at hcount
  rw [counted]
  omega

theorem Counted.moves (counted : Counted s) (h : Moves s act t) : Counted t := by
  cases h with
  | notifiesWorker _ hold => exact counted_set counted hold rfl
  | leaves hold => exact counted_set counted hold rfl
  | sleeps hold => exact counted_set counted hold rfl
  | runs hold => exact counted_set counted hold rfl
  | @takes w task tasks hold =>
    have hcount := countP_set_add busy (.running task) hold
    simp only [busy, Bool.false_eq_true, if_false, if_true] at hcount
    change s.activeThreads + 1 = (s.workers.set w (.running task)).countP busy
    rw [counted]
    omega
  | @finishes w hold =>
    have hcount := countP_set_add busy .awake hold
    simp only [busy, Bool.false_eq_true, if_false, if_true] at hcount
    change s.activeThreads - 1 = (s.workers.set w .awake).countP busy
    rw [counted]
    omega
  | notifiesAll =>
    refine counted.trans ?_
    rw [notifyAll, List.countP_map]
    apply List.countP_congr
    intro worker _
    cases worker <;> simp [busy]
  | _ => exact counted

theorem Counted.eq_zero (counted : Counted s) (h : ∀ worker ∈ s.workers, busy worker = false) :
    s.activeThreads = 0 := by
  rw [counted, List.countP_eq_zero]
  intro worker hworker
  simp [h worker hworker]

theorem busy_of_resting {worker : Worker} (h : Resting worker) : busy worker = false := by
  obtain rfl | rfl := h <;> rfl

end Counting

section Waking

variable {s t : ThreadPool} {act : Act}

theorem mem_set_of_some {α : Type} {l : List α} {i : Nat} {old : α} (new : α)
    (h : l[i]? = some old) : new ∈ l.set i new :=
  List.mem_set (List.getElem?_eq_some_iff.mp h).1 new

/-- A worker that is on its way to a task keeps the pool from rest. -/
theorem exists_not_resting {w : Nat} {old new : Worker} (hold : s.workers[w]? = some old)
    (hnew : ¬Resting new) : ∃ worker ∈ s.workers.set w new, ¬Resting worker :=
  ⟨new, mem_set_of_some new hold, hnew⟩

theorem not_resting_of_mem {l : List Worker} (h : ∃ worker ∈ l, ¬Resting worker)
    (hall : ∀ worker ∈ l, Resting worker) : False := by
  obtain ⟨worker, hmem, hnot⟩ := h
  exact hnot (hall worker hmem)

theorem notMem_map_awake (s : ThreadPool) :
    .asleep ∉ s.notifyAll.workers ∧ .asleep ∉ s.notifyAll.waiters := by
  constructor
  · intro hmem
    obtain ⟨worker, -, hworker⟩ := List.mem_map.mp hmem
    split at hworker
    · cases hworker
    · rename_i hne
      exact hne hworker
  · intro hmem
    obtain ⟨waiter, -, hwaiter⟩ := List.mem_map.mp hmem
    split at hwaiter
    · cases hwaiter
    · rename_i hne
      exact hne hwaiter

/-- A task in the queue still finds a worker awake after a step that is heard. -/
theorem moves_workers (lossless : NoLostWakeUp s) (h : Moves s act t) (hheard : Heard s act)
    (hnotified : ∀ i : Nat, t.submitters[i]? ≠ some .enqueued) (htasks : t.tasks ≠ [])
    (hasleep : .asleep ∈ t.workers) : ∃ worker ∈ t.workers, ¬Resting worker := by
  have happend : ∀ {x : Submitter}, t.submitters = s.submitters ++ [x] →
      ∀ i : Nat, s.submitters[i]? ≠ some .enqueued := by
    intro x hsubmitters i hi
    have hlength := (List.getElem?_eq_some_iff.mp hi).1
    exact hnotified i (by rw [hsubmitters, List.getElem?_append_left hlength, hi])
  cases h with
  | refused => exact lossless.workers (happend rfl) htasks hasleep
  | tested => exact lossless.workers (happend rfl) htasks hasleep
  | @enqueues i hold =>
    have hlength := (List.getElem?_eq_some_iff.mp hold).1
    exact absurd (List.getElem?_set_self hlength) (hnotified i)
  | notifiesWorker _ hold => exact exists_not_resting hold (by simp [Resting])
  | @notifiesWaiter i j hold hwaiter =>
    refine hheard hold hwaiter ?_ htasks hasleep
    intro k hk hother
    exact hnotified k (by rw [List.getElem?_set_ne (Ne.symm hk), hother])
  | notifiesNobody _ hnone => exact absurd hasleep hnone
  | leaves _ hempty => exact absurd hempty htasks
  | sleeps _ hempty => exact absurd hempty htasks
  | takes hold => exact exists_not_resting hold (by simp [Resting])
  | runs hold => exact exists_not_resting hold (by simp [Resting])
  | finishes hold => exact exists_not_resting hold (by simp [Resting])
  | notifiesAll => exact absurd hasleep (notMem_map_awake s).1
  | _ => exact lossless.workers hnotified htasks hasleep

/-- Nobody waits for a pool at rest after a step that is heard. -/
theorem moves_waiters (lossless : NoLostWakeUp s) (h : Moves s act t) (hheard : Heard s act)
    (htasks : t.tasks = []) (hactive : t.activeThreads = 0)
    (hresting : ∀ worker ∈ t.workers, Resting worker) : .asleep ∉ t.waiters := by
  have hawake : ∀ {w : Nat} {old new : Worker}, s.workers[w]? = some old →
      t.workers = s.workers.set w new → ¬Resting new → .asleep ∉ t.waiters := by
    intro w old new hold hworkers hnew
    rw [hworkers] at hresting
    exact (not_resting_of_mem (exists_not_resting hold hnew) hresting).elim
  have hrested : ∀ {w : Nat} {new : Worker}, act = .worker w → s.workers[w]? = some .awake →
      s.tasks = [] → t.workers = s.workers.set w new → t.waiters = s.waiters →
      .asleep ∉ t.waiters := by
    rintro w new rfl hold hempty hworkers hwaiters
    rw [hwaiters]
    refine hheard hold hempty ?_
    intro v worker hv hworker
    apply hresting worker
    rw [hworkers]
    exact List.mem_of_getElem? (by rw [List.getElem?_set_ne (Ne.symm hv), hworker])
  cases h with
  | enqueues => exact absurd htasks (by simp)
  | notifiesWorker _ hold => exact hawake hold rfl (by simp [Resting])
  | notifiesWaiter _ hwaiter =>
    exact absurd (List.mem_of_getElem? hwaiter) (lossless.waiters htasks hactive hresting)
  | leaves hold hempty => exact hrested rfl hold hempty rfl rfl
  | sleeps hold hempty => exact hrested rfl hold hempty rfl rfl
  | takes hold => exact hawake hold rfl (by simp [Resting])
  | runs hold => exact hawake hold rfl (by simp [Resting])
  | finishes hold => exact hawake hold rfl (by simp [Resting])
  | waits =>
    have hnone := lossless.waiters htasks hactive hresting
    simpa using hnone
  | passes =>
    intro hmem
    obtain hmem | hreturned := List.mem_or_eq_of_mem_set hmem
    · exact lossless.waiters htasks hactive hresting hmem
    · cases hreturned
  | dozes _ hwaiting => exact absurd ⟨htasks, hactive⟩ hwaiting
  | notifiesAll => exact (notMem_map_awake s).2
  | _ => exact lossless.waiters htasks hactive hresting

/-- A `notify_one` that is not heard leaves the task to sleeping workers. -/
theorem heard_notifyOne {i j : Nat}
    (h : ∀ t, step s (.notifyOne i (some (.waiter j))) = some t → NoLostWakeUp t) :
    Heard s (.notifyOne i (some (.waiter j))) := by
  intro hold hwaiter hothers htasks hasleep
  have hstep : step s (.notifyOne i (some (.waiter j))) = some { s with
      submitters := s.submitters.set i .returned
      waiters := s.waiters.set j .awake } := by
    simp [step, notifyOne, hold, hwaiter]
  refine (h _ hstep).workers ?_ htasks hasleep
  intro k hk
  by_cases hik : k = i
  · subst hik
    rw [List.getElem?_set_self (List.getElem?_eq_some_iff.mp hold).1] at hk
    cases hk
  · rw [List.getElem?_set_ne (Ne.symm hik)] at hk
    exact hothers k hik hk

theorem heard_worker (counted : Counted s) {w : Nat}
    (h : ∀ t, step s (.worker w) = some t → NoLostWakeUp t) : Heard s (.worker w) := by
  intro hold hempty hothers
  have hstep : step s (.worker w) = some { s with
      workers := s.workers.set w (if s.stop then .returned else .asleep) } := by
    simp only [step, workerStep, hold, hempty]
  have hrests : Resting (if s.stop then .returned else .asleep) := by
    split
    · exact .inr rfl
    · exact .inl rfl
  have hall : ∀ worker ∈ s.workers, busy worker = false := by
    intro worker hmem
    obtain ⟨v, hv⟩ := List.mem_iff_getElem?.mp hmem
    by_cases hvw : v = w
    · subst hvw
      cases hold.symm.trans hv
      rfl
    · exact busy_of_resting (hothers v worker hvw hv)
  refine (h _ hstep).waiters hempty (counted.eq_zero hall) ?_
  intro worker hmem
  obtain ⟨v, hv⟩ := List.mem_iff_getElem?.mp hmem
  by_cases hvw : v = w
  · subst hvw
    rw [List.getElem?_set_self (List.getElem?_eq_some_iff.mp hold).1] at hv
    exact Option.some.inj hv ▸ hrests
  · rw [List.getElem?_set_ne (Ne.symm hvw)] at hv
    exact hothers v worker hvw hv

theorem step_lossless_iff (counted : Counted s) (lossless : NoLostWakeUp s) (act : Act) :
    (∀ t, step s act = some t → NoLostWakeUp t) ↔ Heard s act := by
  constructor
  · intro h
    cases act with
    | notifyOne i woken =>
      cases woken with
      | none => trivial
      | some sleeper =>
        cases sleeper with
        | worker w => trivial
        | waiter j => exact heard_notifyOne h
    | worker w => exact heard_worker counted h
    | _ => trivial
  · intro hheard t ht
    have hmoves := moves_of_step ht
    exact ⟨moves_workers lossless hmoves hheard, moves_waiters lossless hmoves hheard⟩

end Waking

section Run

variable {requested hardwareConcurrency : Nat}

theorem new_counted : Counted (new requested hardwareConcurrency) := by
  simp [Counted, new, List.countP_replicate, busy]

theorem new_lossless : NoLostWakeUp (new requested hardwareConcurrency) :=
  ⟨fun _ htasks => absurd rfl htasks, fun _ _ _ => List.not_mem_nil⟩

/-- No wake-up is lost in a run exactly when each of its steps is heard. -/
theorem wakeups_kept_iff (requested hardwareConcurrency : Nat) (acts : List Act) :
    (∀ before t, before <+: acts → run step (new requested hardwareConcurrency) before = some t →
      NoLostWakeUp t) ↔ Guarded step Heard (new requested hardwareConcurrency) acts :=
  forall_prefix_iff_guarded (fun _ _ _ counted ht => counted.moves (moves_of_step ht))
    (fun _ act counted lossless => step_lossless_iff counted lossless act) new_counted new_lossless

end Run

section Lost

/-- A thread waits while the only worker runs a task, and the worker comes to rest. -/
def waitActs : List Act :=
  [.submit, .enqueue 0, .notifyOne 0 none, .worker 0, .waitForAllTasks, .waiter 0, .worker 0,
    .worker 0, .worker 0]

/-- The notification of the next task goes to the thread that waits. -/
def stolenActs : List Act :=
  [.submit, .enqueue 1, .notifyOne 1 (some (.waiter 0)), .waiter 0]

/-- First the thread sleeps on for a pool at rest, then everybody sleeps before a task. -/
theorem everybody_sleeps : ∃ s t, run step (new 1 4) waitActs = some s ∧
    s.tasks = [] ∧ s.activeThreads = 0 ∧ s.workers = [.asleep] ∧ s.waiters = [.asleep] ∧
    run step s stolenActs = some t ∧ t.submitters = [.returned, .returned] ∧ t.tasks = [1] ∧
    t.workers = [.asleep] ∧ t.waiters = [.asleep] ∧ ¬NoLostWakeUp s ∧ ¬NoLostWakeUp t := by
  refine ⟨_, _, rfl, rfl, rfl, rfl, rfl, rfl, rfl, rfl, rfl, rfl, ?_, ?_⟩
  · intro lossless
    exact lossless.waiters rfl rfl (fun _ hmem => .inl (List.mem_singleton.mp hmem))
      List.mem_cons_self
  · intro lossless
    have hnotified : ∀ i : Nat, [Submitter.returned, .returned][i]? ≠ some .enqueued := by
      intro i hi
      simpa using List.mem_of_getElem? hi
    obtain ⟨worker, hmem, hnot⟩ :=
      lossless.workers hnotified (List.cons_ne_nil _ _) List.mem_cons_self
    exact hnot (.inl (List.mem_singleton.mp hmem))

end Lost

end Mprpc.WakeUps
