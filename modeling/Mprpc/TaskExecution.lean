import Mprpc.ThreadPool

namespace Mprpc.TaskExecution

open ThreadPool Library.Transition

/-- No worker is left. -/
def AllReturned (s : ThreadPool) : Prop :=
  ∀ (w : Nat) (worker : Worker), s.workers[w]? = some worker → worker = .returned

/-- A task gets into the queue while a worker is left to take it. -/
def Timely (s : ThreadPool) : Act → Prop
  | .enqueue _ => ¬AllReturned s
  | _ => True

/-- The task is in the queue, or was. -/
def Submitted (s : ThreadPool) (i : Nat) : Prop :=
  s.submitters[i]? = some .enqueued ∨ s.submitters[i]? = some .returned

/-- How often a task is in the queue, in the hands of a worker, or done. -/
def held (s : ThreadPool) (i : Nat) : Nat :=
  s.tasks.count i + s.workers.count (.running i) + s.executed.count i

/-- No task has run twice, and when `stop` has returned none is lost that was accepted. -/
structure OnceEach (s : ThreadPool) : Prop where
  twice : ∀ i, s.executed.count i ≤ 1
  lost : s.stopper = .returned → ∀ i, s.submitters[i]? = some .returned → s.executed.count i = 1

/-- `stop` and every call of `submit` have returned or thrown. -/
def Finished (s : ThreadPool) : Prop :=
  s.stopper = .returned ∧
    ∀ (i : Nat) (submitter : Submitter), s.submitters[i]? = some submitter →
      submitter = .returned ∨ submitter = .refused

/-- Every task is in one place. -/
structure Accounted (s : ThreadPool) : Prop where
  submitted : ∀ i, Submitted s i → held s i = 1
  other : ∀ i, ¬Submitted s i → held s i = 0

/-- What the progress of `stop` says of the workers. -/
structure Joined (s : ThreadPool) : Prop where
  idle : s.stopper = .idle ∨ s.stopper = .tested → s.stop = false
  joining : ∀ k, s.stopper = .joining k → ∀ w < k, s.workers[w]? = some .returned
  returned : s.stopper = .returned → AllReturned s

section Accounting

variable {s t : ThreadPool} {act : Act}

theorem count_set_of_ne {l : List Worker} {w : Nat} {old new other : Worker} (h : l[w]? = some old)
    (hold : old ≠ other) (hnew : new ≠ other) : (l.set w new).count other = l.count other := by
  have hcount := countP_set_add (· == other) new h
  rw [List.count_eq_countP, List.count_eq_countP]
  simpa [hold, hnew] using hcount

theorem count_set_new {l : List Worker} {w : Nat} {old new : Worker} (h : l[w]? = some old)
    (hne : old ≠ new) : (l.set w new).count new = l.count new + 1 := by
  have hcount := countP_set_add (· == new) new h
  rw [List.count_eq_countP, List.count_eq_countP]
  simpa [hne] using hcount

theorem count_set_old {l : List Worker} {w : Nat} {old : Worker} (new : Worker)
    (h : l[w]? = some old) (hne : new ≠ old) : (l.set w new).count old + 1 = l.count old := by
  have hcount := countP_set_add (· == old) new h
  rw [List.count_eq_countP, List.count_eq_countP]
  simpa [hne] using hcount

theorem submitted_of_eq {i : Nat} (h : t.submitters[i]? = s.submitters[i]?) :
    Submitted t i ↔ Submitted s i := by rw [Submitted, Submitted, h]

theorem submitted_append {x : Submitter} (hx : x = .tested ∨ x = .refused) (i : Nat)
    (h : t.submitters = s.submitters ++ [x]) : Submitted t i ↔ Submitted s i := by
  by_cases hi : i < s.submitters.length
  · exact submitted_of_eq (by rw [h, List.getElem?_append_left hi])
  · have hnone : s.submitters[i]? = none := List.getElem?_eq_none_iff.mpr (Nat.not_lt.mp hi)
    have hlast : t.submitters[i]? = none ∨ t.submitters[i]? = some x := by
      rw [h, List.getElem?_append_right (Nat.not_lt.mp hi)]
      cases i - s.submitters.length with
      | zero => exact .inr rfl
      | succ k => exact .inl rfl
    obtain rfl | rfl := hx <;> obtain hlast | hlast := hlast <;> simp [Submitted, hnone, hlast]

theorem submitted_set {i : Nat} {old new : Submitter} (hold : s.submitters[i]? = some old)
    (h : t.submitters = s.submitters.set i new) (k : Nat) :
    Submitted t k ↔ if k = i then new = .enqueued ∨ new = .returned else Submitted s k := by
  obtain ⟨hi, -⟩ := List.getElem?_eq_some_iff.mp hold
  by_cases hk : k = i
  · subst hk
    rw [Submitted, h, List.getElem?_set_self hi, if_pos rfl]
    simp
  · rw [if_neg hk]
    exact submitted_of_eq (by rw [h, List.getElem?_set_ne (Ne.symm hk)])

theorem submitted_notified {i : Nat} (hold : s.submitters[i]? = some .enqueued)
    (h : t.submitters = s.submitters.set i .returned) (k : Nat) :
    Submitted t k ↔ Submitted s k := by
  rw [submitted_set hold h]
  by_cases hk : k = i
  · subst hk
    simp [Submitted, hold]
  · rw [if_neg hk]

theorem submitted_iff (h : Moves s act t) (k : Nat) :
    Submitted t k ↔ Submitted s k ∨ act = .enqueue k := by
  have hother : ∀ {u : ThreadPool} {act : Act}, act ≠ .enqueue k →
      (Submitted u k ↔ Submitted s k) → (Submitted u k ↔ Submitted s k ∨ act = .enqueue k) :=
    fun hact h => h.trans (or_iff_left hact).symm
  cases h with
  | refused => exact hother (by simp) (submitted_append (.inr rfl) k rfl)
  | tested => exact hother (by simp) (submitted_append (.inl rfl) k rfl)
  | @enqueues i hold =>
    refine (submitted_set hold rfl k).trans ?_
    by_cases hk : k = i
    · simp [hk]
    · simp [hk, Ne.symm hk]
  | notifiesWorker hold => exact hother (by simp) (submitted_notified hold rfl k)
  | notifiesWaiter hold => exact hother (by simp) (submitted_notified hold rfl k)
  | notifiesNobody hold => exact hother (by simp) (submitted_notified hold rfl k)
  | _ => exact hother (by simp) Iff.rfl

theorem count_notifyAll (s : ThreadPool) (i : Nat) :
    s.notifyAll.workers.count (.running i) = s.workers.count (.running i) := by
  rw [notifyAll, List.count_eq_countP, List.count_eq_countP, List.countP_map]
  apply List.countP_congr
  intro worker _
  cases worker <;> simp

theorem held_eq (h : Moves s act t) (i : Nat) :
    held t i = held s i + if act = .enqueue i then 1 else 0 := by
  unfold held
  cases h with
  | @enqueues k hold =>
    by_cases hk : k = i
    · subst hk
      simp [List.count_append]
      omega
    · simp [List.count_append, hk]
  | notifiesWorker _ hold => simp [count_set_of_ne hold]
  | leaves hold => simp [count_set_of_ne hold]
  | sleeps hold => simp [count_set_of_ne hold]
  | finishes hold => simp [count_set_of_ne hold]
  | @takes w task tasks hold htasks =>
    rw [htasks]
    by_cases hi : task = i
    · subst hi
      simp [count_set_new hold]
      omega
    · simp [count_set_of_ne hold, hi]
  | @runs w task hold =>
    by_cases hi : task = i
    · subst hi
      have hcount := count_set_old .finishing hold (by simp)
      simp [List.count_append]
      omega
    · simp [count_set_of_ne hold, List.count_append, hi]
  | notifiesAll =>
    change s.tasks.count i + s.notifyAll.workers.count (.running i) + s.executed.count i = _
    rw [count_notifyAll]
    simp
  | _ => simp

theorem Accounted.moves (accounted : Accounted s) (h : Moves s act t) : Accounted t := by
  have hpresent : ∀ i, act = .enqueue i → ¬Submitted s i := by
    rintro i rfl hsubmitted
    cases h with
    | enqueues hold => simp [Submitted, hold] at hsubmitted
  refine ⟨?_, ?_⟩
  · intro i hsubmitted
    rw [held_eq h]
    obtain hbefore | hact := (submitted_iff h i).mp hsubmitted
    · rw [accounted.submitted i hbefore, if_neg fun hact => hpresent i hact hbefore]
    · rw [accounted.other i (hpresent i hact), if_pos hact]
  · intro i hsubmitted
    obtain ⟨hbefore, hact⟩ := not_or.mp (mt (submitted_iff h i).mpr hsubmitted)
    rw [held_eq h, accounted.other i hbefore, if_neg hact]

end Accounting

section Stopping

variable {s t : ThreadPool} {act : Act}

/-- A step of a worker leaves it somewhere else than at its end, unless it finds the queue
empty and leaves. -/
theorem allReturned_of_moves (h : Moves s act t) (hall : AllReturned t) :
    AllReturned s ∨ s.tasks = [] ∧ t.tasks = [] := by
  have hset : ∀ {w : Nat} {old new : Worker} {u : ThreadPool}, s.workers[w]? = some old →
      u.workers = s.workers.set w new → AllReturned u → new = .returned := by
    intro w old new u hold hworkers hall
    obtain ⟨hw, -⟩ := List.getElem?_eq_some_iff.mp hold
    exact hall w new (by rw [hworkers, List.getElem?_set_self hw])
  cases h with
  | notifiesWorker _ hold => cases hset hold rfl hall
  | leaves hold htasks => exact .inr ⟨htasks, htasks⟩
  | sleeps hold => cases hset hold rfl hall
  | takes hold => cases hset hold rfl hall
  | runs hold => cases hset hold rfl hall
  | finishes hold => cases hset hold rfl hall
  | notifiesAll =>
    refine .inl ?_
    intro w worker hworker
    have hwoken := hall w (if worker = .asleep then .awake else worker)
      (by simp [notifyAll, hworker])
    by_cases hasleep : worker = .asleep
    · rw [if_pos hasleep] at hwoken
      cases hwoken
    · rwa [if_neg hasleep] at hwoken
  | _ => exact .inl hall

/-- The last worker has left an empty queue behind, and nothing has come in since. -/
def Drained (s : ThreadPool) : Prop := AllReturned s → s.tasks = []

theorem Drained.moves (drained : Drained s) (h : Moves s act t) (htimely : Timely s act) :
    Drained t := by
  intro hall
  obtain hbefore | ⟨-, htasks⟩ := allReturned_of_moves h hall
  · have htasks := drained hbefore
    cases h with
    | enqueues => exact absurd hbefore htimely
    | takes _ hcons => cases htasks.symm.trans hcons
    | _ => exact htasks
  · exact htasks

/-- A task that comes in when no worker is left stays in the queue. -/
structure Stuck (i : Nat) (s : ThreadPool) : Prop where
  workers : AllReturned s
  task : i ∈ s.tasks

theorem Stuck.moves {i : Nat} (stuck : Stuck i s) (h : Moves s act t) : Stuck i t := by
  have hno : ∀ {w : Nat} {worker : Worker}, s.workers[w]? = some worker → worker ≠ .returned →
      False := fun hworker hne => hne (stuck.workers _ _ hworker)
  cases h with
  | enqueues => exact ⟨stuck.workers, List.mem_append_left _ stuck.task⟩
  | notifiesWorker _ hold => exact (hno hold (by simp)).elim
  | leaves hold => exact (hno hold (by simp)).elim
  | sleeps hold => exact (hno hold (by simp)).elim
  | takes hold => exact (hno hold (by simp)).elim
  | runs hold => exact (hno hold (by simp)).elim
  | finishes hold => exact (hno hold (by simp)).elim
  | notifiesAll =>
    refine ⟨?_, stuck.task⟩
    intro w worker hworker
    obtain ⟨before, hbefore, rfl⟩ : ∃ before, s.workers[w]? = some before ∧
        (if before = .asleep then .awake else before) = worker := by
      simpa [notifyAll] using hworker
    rw [stuck.workers w before hbefore]
    rfl
  | _ => exact ⟨stuck.workers, stuck.task⟩

theorem Joined.moves (joined : Joined s) (h : Moves s act t) : Joined t := by
  have hkeep : t.stopper = s.stopper → t.stop = s.stop → Joined t := by
    intro hstopper hstop
    refine ⟨?_, ?_, ?_⟩
    · rw [hstopper, hstop]
      exact joined.idle
    · intro k hk w hw
      exact returned_stays h (joined.joining k (hstopper ▸ hk) w hw)
    · intro hreturned w worker hworker
      have hlength := (List.getElem?_eq_some_iff.mp hworker).1
      rw [length_workers h] at hlength
      have hbefore := List.getElem?_eq_getElem hlength
      rw [joined.returned (hstopper ▸ hreturned) w _ hbefore] at hbefore
      rw [returned_stays h hbefore] at hworker
      exact (Option.some.inj hworker).symm
  cases h with
  | stopReturns hidle hstop =>
    rw [joined.idle (.inl hidle)] at hstop
    cases hstop
  | stops hidle hstop => exact ⟨fun _ => hstop, (fun _ hk => by cases hk), (fun hk => by cases hk)⟩
  | flags =>
    refine ⟨?_, (fun _ hk => by cases hk), (fun hk => by cases hk)⟩
    rintro (hk | hk) <;> cases hk
  | notifiesAll =>
    refine ⟨?_, ?_, fun hk => by cases hk⟩
    · rintro (hk | hk) <;> cases hk
    · rintro k ⟨⟩ w hw
      exact absurd hw (Nat.not_lt_zero w)
  | @joins k hk hworker =>
    refine ⟨?_, ?_, fun hk => by cases hk⟩
    · rintro (hk | hk) <;> cases hk
    · rintro k' ⟨⟩ w hw
      obtain hlt | rfl := Nat.lt_succ_iff_lt_or_eq.mp hw
      · exact joined.joining k hk w hlt
      · exact hworker
  | @joined k hk hlength =>
    refine ⟨?_, (fun _ hk => by cases hk), ?_⟩
    · rintro (hk | hk) <;> cases hk
    · intro _ w worker hworker
      have hw := (List.getElem?_eq_some_iff.mp hworker).1
      have hreturned := joined.joining k hk w (Nat.lt_of_lt_of_le hw hlength)
      exact (Option.some.inj (hreturned.symm.trans hworker)).symm
  | _ => exact hkeep rfl rfl

end Stopping

section Run

variable {requested hardwareConcurrency : Nat} {acts : List Act} {s : ThreadPool}

theorem new_accounted : Accounted (new requested hardwareConcurrency) := by
  refine ⟨?_, ?_⟩
  · rintro i (h | h) <;> cases h
  · intro i _
    simp [held, new, List.count_replicate]

theorem new_joined : Joined (new requested hardwareConcurrency) :=
  ⟨fun _ => rfl, (fun _ hk => by cases hk), (fun hk => by cases hk)⟩

theorem run_accounted (h : run step (new requested hardwareConcurrency) acts = some s) :
    Accounted s :=
  run_invariant_of_forall (fun _ _ _ accounted ht => accounted.moves (moves_of_step ht))
    new_accounted h

theorem run_joined (h : run step (new requested hardwareConcurrency) acts = some s) : Joined s :=
  run_invariant_of_forall (fun _ _ _ joined ht => joined.moves (moves_of_step ht)) new_joined h

theorem run_drained (htimely : Guarded step Timely (new requested hardwareConcurrency) acts)
    (h : run step (new requested hardwareConcurrency) acts = some s) : Drained s :=
  run_invariant (fun _ _ _ drained hact ht => drained.moves (moves_of_step ht) hact)
    (fun _ => rfl) htimely h

theorem run_stuck {i : Nat} {t : ThreadPool} (stuck : Stuck i s) (h : run step s acts = some t) :
    Stuck i t :=
  run_invariant_of_forall (fun _ _ _ stuck ht => stuck.moves (moves_of_step ht)) stuck h

theorem Accounted.executed_le (accounted : Accounted s) (i : Nat) : s.executed.count i ≤ 1 := by
  have hheld : held s i ≤ 1 := by
    by_cases h : Submitted s i
    · exact Nat.le_of_eq (accounted.submitted i h)
    · rw [accounted.other i h]
      exact Nat.zero_le 1
  unfold held at hheld
  omega

theorem count_running_of_allReturned (hall : AllReturned s) (i : Nat) :
    s.workers.count (.running i) = 0 := by
  apply List.count_eq_zero.mpr
  intro hmem
  obtain ⟨w, hw⟩ := List.mem_iff_getElem?.mp hmem
  cases hall w _ hw

/-- In a run whose tasks all come in while a worker is left each of them runs once. -/
theorem onceEach_of_timely
    (htimely : Guarded step Timely (new requested hardwareConcurrency) acts)
    (h : run step (new requested hardwareConcurrency) acts = some s) : OnceEach s := by
  have accounted := run_accounted h
  refine ⟨accounted.executed_le, ?_⟩
  intro hstopper i hsubmitter
  have hall := (run_joined h).returned hstopper
  have hheld := accounted.submitted i (.inr hsubmitter)
  rw [held, run_drained htimely h hall, count_running_of_allReturned hall] at hheld
  simpa using hheld

/-- Every accepted task runs once in every run whose tasks all come in while a worker is
left, and of the runs that end only in these. -/
theorem tasks_run_once_iff (h : run step (new requested hardwareConcurrency) acts = some s) :
    (Guarded step Timely (new requested hardwareConcurrency) acts → OnceEach s) ∧
    (Finished s → OnceEach s → Guarded step Timely (new requested hardwareConcurrency) acts) := by
  refine ⟨fun htimely => onceEach_of_timely htimely h, ?_⟩
  intro hfinished honce
  by_contra hlate
  obtain ⟨before, act, after, u, rfl, hu, hact⟩ := exists_of_not_guarded hlate h
  obtain ⟨u', hu', hrest⟩ := run_append_some.mp h
  cases hu.symm.trans hu'
  obtain ⟨v, hv, hlast⟩ := run_cons_some.mp hrest
  -- the step that is not timely puts a task into the queue of a pool without workers
  cases act with
  | enqueue i =>
    have hall : AllReturned u := not_not.mp hact
    have accounted := run_accounted h
    obtain ⟨-, htask⟩ : Stuck i s := by
      apply run_stuck ?_ hlast
      cases moves_of_step hv with
      | enqueues => exact ⟨hall, List.mem_append_right _ (List.mem_singleton_self i)⟩
    have hcount : 0 < s.tasks.count i := List.count_pos_iff.mpr htask
    have hsubmitted : Submitted s i := by
      by_contra hother
      have hnone := accounted.other i hother
      rw [held] at hnone
      omega
    have hreturned : s.submitters[i]? = some .returned := by
      obtain hsubmitted | hsubmitted := hsubmitted
      · obtain h | h := hfinished.2 i _ hsubmitted <;> cases h
      · exact hsubmitted
    have hheld := accounted.submitted i hsubmitted
    rw [held, honce.lost hfinished.1 i hreturned] at hheld
    omega
  | _ => exact hact trivial

end Run

section Late

/-- `submit` sees the pool running, `stop` runs to its end, and the task comes in. -/
def lateActs : List Act :=
  [.worker 0, .submit, .stop, .setStop, .notifyAll, .worker 0, .join, .join, .enqueue 0,
    .notifyOne 0 none]

def lateState : ThreadPool :=
  ⟨[.returned], [0], true, 0, [.returned], [], .returned, []⟩

theorem lateActs_run : run step (new 1 4) lateActs = some lateState := by decide

theorem tasks_run_once_iff_late :
    (Guarded step Timely (new 1 4) lateActs → OnceEach lateState) ∧
    (Finished lateState → OnceEach lateState → Guarded step Timely (new 1 4) lateActs) :=
  tasks_run_once_iff lateActs_run

/-- Both calls have returned, and the task has not run. -/
theorem late_task_lost : ∃ s, run step (new 1 4) lateActs = some s ∧ s.stopper = .returned ∧
    s.submitters[0]? = some .returned ∧ s.executed.count 0 = 0 ∧ ¬OnceEach s := by
  refine ⟨lateState, lateActs_run, rfl, rfl, rfl, ?_⟩
  intro honce
  cases honce.lost rfl 0 rfl

end Late

end Mprpc.TaskExecution
