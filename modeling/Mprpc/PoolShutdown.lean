import Mprpc.Library.Traces
import Mprpc.TaskExecution
import Mprpc.WakeUps

namespace Mprpc.PoolShutdown

open ThreadPool Library.Transition

variable {s t : ThreadPool} {act : Act}

/-- How many steps a worker has in front of it, as long as it finds no more tasks. -/
def effort : Worker → Nat
  | .awake => 1
  | .asleep => 1
  | .running _ => 3
  | .finishing => 2
  | .returned => 0

def efforts : List Worker → Nat
  | [] => 0
  | worker :: workers => effort worker + efforts workers

def joinsLeft (s : ThreadPool) : Nat :=
  match s.stopper with
  | .joining k => s.workers.length - k + 1
  | _ => 0

/-- A bound on the steps that the workers and the joins can still take. A call of `submit` that
has seen the pool running can still put its task into the queue. -/
def stepsLeft (s : ThreadPool) : Nat :=
  3 * s.tasks.length + 3 * s.submitters.count .tested + efforts s.workers + joinsLeft s

/-- The steps by which the pool ends. -/
def ends : Act → Bool
  | .worker _ => true
  | .join => true
  | _ => false

/-- `stop` waits for the workers, or has returned. -/
structure Stopping (s : ThreadPool) : Prop where
  stop : s.stop = true
  awake : .asleep ∉ s.workers
  stopper : s.stopper = .returned ∨ ∃ k, s.stopper = .joining k

/-- From `notify_all` on the pool is stopping. -/
structure Staged (s : ThreadPool) : Prop where
  early : s.stopper = .idle ∨ s.stopper = .tested → s.stop = false
  flagged : s.stopper = .flagged → s.stop = true
  later : (∃ k, s.stopper = .joining k) ∨ s.stopper = .returned → Stopping s

section Stopping

theorem awake_set {l : List Worker} (h : .asleep ∉ l) (w : Nat) {new : Worker}
    (hnew : new ≠ .asleep) : .asleep ∉ l.set w new := by
  intro hmem
  obtain hmem | heq := List.mem_or_eq_of_mem_set hmem
  · exact h hmem
  · exact hnew heq.symm

theorem Stopping.not_running (stopping : Stopping s) (h : s.stop = false) : False := by
  rw [stopping.stop] at h
  cases h

theorem Stopping.not_early (stopping : Stopping s) {stopper : Stopper} (h : s.stopper = stopper)
    (hreturned : stopper ≠ .returned) (hjoining : ∀ k, stopper ≠ .joining k) : False := by
  obtain hlast | ⟨k, hk⟩ := stopping.stopper
  · exact hreturned (h.symm.trans hlast)
  · exact hjoining k (h.symm.trans hk)

theorem Stopping.moves (stopping : Stopping s) (h : Moves s act t) : Stopping t := by
  obtain ⟨hstop, hawake, hstopper⟩ := id stopping
  cases h with
  | tested hfalse => exact (stopping.not_running hfalse).elim
  | notifiesWorker _ hold => exact (hawake (List.mem_of_getElem? hold)).elim
  | sleeps _ _ hfalse => exact (stopping.not_running hfalse).elim
  | leaves => exact ⟨hstop, awake_set hawake _ (by simp), hstopper⟩
  | takes => exact ⟨hstop, awake_set hawake _ (by simp), hstopper⟩
  | runs => exact ⟨hstop, awake_set hawake _ (by simp), hstopper⟩
  | finishes => exact ⟨hstop, awake_set hawake _ (by simp), hstopper⟩
  | stopReturns hidle => exact (stopping.not_early hidle (by simp) (by simp)).elim
  | stops hidle => exact (stopping.not_early hidle (by simp) (by simp)).elim
  | flags htested => exact (stopping.not_early htested (by simp) (by simp)).elim
  | notifiesAll hflagged => exact (stopping.not_early hflagged (by simp) (by simp)).elim
  | joins => exact ⟨hstop, hawake, .inr ⟨_, rfl⟩⟩
  | joined => exact ⟨hstop, hawake, .inl rfl⟩
  | _ => exact ⟨hstop, hawake, hstopper⟩

theorem Staged.moves (staged : Staged s) (h : Moves s act t) : Staged t := by
  obtain ⟨hearly, hflagged, hlater⟩ := staged
  by_cases hstopping : (∃ k, s.stopper = .joining k) ∨ s.stopper = .returned
  · have stopping := (hlater hstopping).moves h
    obtain ⟨-, -, hstopper⟩ := id stopping
    refine ⟨?_, ?_, fun _ => stopping⟩
    · intro hidle
      obtain h | ⟨k, h⟩ := hstopper <;> simp [h] at hidle
    · intro hflag
      obtain h | ⟨k, h⟩ := hstopper <;> simp [h] at hflag
  · have hkeep : t.stopper = s.stopper → t.stop = s.stop → Staged t := by
      intro hstopper hstop
      exact ⟨by rwa [hstopper, hstop], by rwa [hstopper, hstop],
        fun h => absurd (hstopper ▸ h) hstopping⟩
    cases h with
    | stopReturns hidle hstop =>
      rw [hearly (.inl hidle)] at hstop
      cases hstop
    | stops _ hstop =>
      refine ⟨fun _ => hstop, (fun h => by cases h), ?_⟩
      rintro (⟨k, h⟩ | h) <;> cases h
    | flags =>
      refine ⟨?_, fun _ => rfl, ?_⟩
      · rintro (h | h) <;> cases h
      · rintro (⟨k, h⟩ | h) <;> cases h
    | notifiesAll hflag =>
      refine ⟨?_, (fun h => by cases h), ?_⟩
      · rintro (h | h) <;> cases h
      · exact fun _ => ⟨hflagged hflag, (WakeUps.notMem_map_awake s).1, .inr ⟨0, rfl⟩⟩
    | joins hjoining => exact absurd (.inl ⟨_, hjoining⟩) hstopping
    | joined hjoining => exact absurd (.inl ⟨_, hjoining⟩) hstopping
    | _ => exact hkeep rfl rfl

theorem new_staged (requested hardwareConcurrency : Nat) :
    Staged (new requested hardwareConcurrency) := by
  refine ⟨fun _ => rfl, (fun h => by cases h), ?_⟩
  rintro (⟨k, h⟩ | h) <;> cases h

end Stopping

section Rank

theorem efforts_set {l : List Worker} {w : Nat} {old : Worker} (new : Worker)
    (h : l[w]? = some old) : efforts (l.set w new) + effort old = efforts l + effort new := by
  induction l generalizing w with
  | nil => cases h
  | cons worker l ih =>
    cases w with
    | zero =>
      cases h
      rw [List.set_cons_zero, efforts, efforts]
      omega
    | succ w =>
      have hrest := ih h
      rw [List.set_cons_succ, efforts, efforts]
      omega

theorem tested_set {l : List Submitter} {i : Nat} {old : Submitter} (new : Submitter)
    (h : l[i]? = some old) :
    (l.set i new).count .tested + (if old = .tested then 1 else 0) =
      l.count .tested + (if new = .tested then 1 else 0) := by
  have hcount := countP_set_add (· == Submitter.tested) new h
  rw [List.count_eq_countP, List.count_eq_countP]
  simpa only [beq_iff_eq] using hcount

/-- No step of another thread gives the pool more to do, and each of its own is one less. -/
theorem stepsLeft_moves (stopping : Stopping s) (h : Moves s act t) :
    stepsLeft t + (if ends act then 1 else 0) ≤ stepsLeft s := by
  have hlength := length_workers h
  have hjoins : t.stopper = s.stopper → joinsLeft t = joinsLeft s := by
    intro hstopper
    rw [joinsLeft, joinsLeft, hstopper, hlength]
  have hkeep : ends act = false → t.tasks = s.tasks → t.workers = s.workers →
      t.stopper = s.stopper → t.submitters.count .tested = s.submitters.count .tested →
      stepsLeft t + (if ends act then 1 else 0) ≤ stepsLeft s := by
    intro hends htasks hworkers hstopper htested
    rw [stepsLeft, stepsLeft, hjoins hstopper, htasks, hworkers, htested, hends]
    simp
  -- a worker that moves on has less in front of it, and a task that it takes is off the queue
  have hworker : ∀ {w : Nat} {old new : Worker}, act = .worker w → s.workers[w]? = some old →
      t.workers = s.workers.set w new → t.stopper = s.stopper → t.submitters = s.submitters →
      3 * t.tasks.length + effort new + 1 ≤ 3 * s.tasks.length + effort old →
      stepsLeft t + (if ends act then 1 else 0) ≤ stepsLeft s := by
    rintro w old new rfl hold hworkers hstopper hsubmitters hless
    have hsum := efforts_set new hold
    rw [stepsLeft, stepsLeft, hjoins hstopper, hworkers, hsubmitters, ends, if_pos rfl]
    omega
  cases h with
  | refused => exact hkeep rfl rfl rfl rfl (by simp)
  | tested hfalse => exact (stopping.not_running hfalse).elim
  | enqueues hold =>
    have htested := tested_set .enqueued hold
    rw [stepsLeft, stepsLeft, hjoins rfl]
    simp only [ends, List.length_append, List.length_singleton, if_true, if_false, reduceCtorEq,
      Bool.false_eq_true] at htested ⊢
    omega
  | notifiesWorker _ hold => exact (stopping.awake (List.mem_of_getElem? hold)).elim
  | notifiesWaiter hold =>
    exact hkeep rfl rfl rfl rfl (by simpa using tested_set .returned hold)
  | notifiesNobody hold =>
    exact hkeep rfl rfl rfl rfl (by simpa using tested_set .returned hold)
  | leaves hold => exact hworker rfl hold rfl rfl rfl (Nat.le_refl _)
  | sleeps _ _ hfalse => exact (stopping.not_running hfalse).elim
  | takes hold htasks =>
    refine hworker rfl hold rfl rfl rfl ?_
    rw [htasks, List.length_cons]
    simp only [effort]
    omega
  | runs hold => exact hworker rfl hold rfl rfl rfl (Nat.le_refl _)
  | finishes hold => exact hworker rfl hold rfl rfl rfl (Nat.le_refl _)
  | stopReturns hidle => exact (stopping.not_early hidle (by simp) (by simp)).elim
  | stops hidle => exact (stopping.not_early hidle (by simp) (by simp)).elim
  | flags htested => exact (stopping.not_early htested (by simp) (by simp)).elim
  | notifiesAll hflagged => exact (stopping.not_early hflagged (by simp) (by simp)).elim
  | joins hjoining hreturned =>
    have hk := (List.getElem?_eq_some_iff.mp hreturned).1
    simp only [stepsLeft, joinsLeft, hjoining, ends, if_true]
    omega
  | joined hjoining =>
    simp only [stepsLeft, joinsLeft, hjoining, ends, if_true]
    omega
  | _ => exact hkeep rfl rfl rfl rfl rfl

/-- As long as `stop` has not returned, the worker it waits for or the join can go on. -/
theorem Stopping.goes_on (stopping : Stopping s) (h : s.stopper ≠ .returned) :
    ∃ act, ends act = true ∧ (step s act).isSome = true := by
  obtain hreturned | ⟨k, hk⟩ := stopping.stopper
  · exact absurd hreturned h
  cases hworker : s.workers[k]? with
  | none => exact ⟨.join, rfl, by simp [step, joinStep, hk, hworker]⟩
  | some worker =>
    cases worker with
    | awake =>
      refine ⟨.worker k, rfl, ?_⟩
      simp only [step, workerStep, hworker]
      cases s.tasks <;> rfl
    | asleep => exact absurd (List.mem_of_getElem? hworker) stopping.awake
    | running task => exact ⟨.worker k, rfl, by simp [step, workerStep, hworker]⟩
    | finishing => exact ⟨.worker k, rfl, by simp [step, workerStep, hworker]⟩
    | returned => exact ⟨.join, rfl, by simp [step, joinStep, hk, hworker]⟩

end Rank

/-- Once it has notified all, `stop` comes to its end whatever the other threads do: the workers
and the joins take a bounded number of steps, and until it has returned one of them can. -/
theorem stop_returns {requested hardwareConcurrency : Nat} {acts later : List Act} {k : Nat}
    (h : run step (new requested hardwareConcurrency) acts = some s)
    (hstopper : s.stopper = .joining k) (hlater : run step s later = some t) :
    stepsLeft t + later.countP ends ≤ stepsLeft s ∧
    (t.stopper ≠ .returned → ∃ act, ends act = true ∧ (step t act).isSome = true) := by
  have staged : Staged s := run_invariant_of_forall (fun _ _ _ staged ht =>
    staged.moves (moves_of_step ht)) (new_staged requested hardwareConcurrency) h
  have stopping := staged.later (.inl ⟨k, hstopper⟩)
  have hkeeps : ∀ (s : ThreadPool) (act : Act) (t : ThreadPool), Stopping s →
      step s act = some t → Stopping t := fun _ _ _ stopping ht => stopping.moves (moves_of_step ht)
  refine ⟨countP_le_rank hkeeps ?_ stopping hlater, ?_⟩
  · exact fun _ _ _ stopping ht => stepsLeft_moves stopping (moves_of_step ht)
  · exact (run_invariant_of_forall hkeeps stopping hlater).goes_on

/-- The pool is stopped with a task in hand and one more in the queue. -/
def busyActs : List Act :=
  [.submit, .submit, .enqueue 0, .worker 0, .enqueue 1, .stop, .setStop, .notifyAll]

def endingActs : List Act :=
  [.worker 0, .worker 0, .notifyOne 0 none, .worker 0, .worker 0, .worker 0, .worker 0, .join,
    .join]

theorem stop_returns_busy : ∃ s t, run step (new 1 4) busyActs = some s ∧
    run step s endingActs = some t ∧ t.stopper = .returned ∧ t.executed = [0, 1] ∧
    stepsLeft t + endingActs.countP ends ≤ stepsLeft s := by
  have hbusy : run step (new 1 4) busyActs = some ⟨[.running 0], [1], true, 1,
      [.enqueued, .enqueued], [], .joining 0, []⟩ := by decide
  have hending : run step ⟨[.running 0], [1], true, 1, [.enqueued, .enqueued], [], .joining 0, []⟩
      endingActs = some ⟨[.returned], [], true, 0, [.returned, .enqueued], [], .returned,
        [0, 1]⟩ := by decide
  exact ⟨_, _, hbusy, hending, rfl, rfl, (stop_returns hbusy rfl hending).1⟩

end Mprpc.PoolShutdown
