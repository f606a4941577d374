import Mathlib.Data.List.Induction
import Mathlib.Data.List.Nodup
import Mprpc.Library.Traces
import Mprpc.TaskExecution
import Mprpc.WakeUps

namespace Mprpc.TaskOrder

open ThreadPool TaskExecution Library.Transition

variable {s t : ThreadPool} {act : Act}

def entering : Act → Option Nat
  | .enqueue i => some i
  | _ => none

/-- The tasks in the order in which they came into the queue. -/
def enqueued (acts : List Act) : List Nat := acts.filterMap entering

def inHand : Worker → Option Nat
  | .running task => some task
  | _ => none

/-- The tasks in the hands of the workers. -/
def running (s : ThreadPool) : List Nat := s.workers.filterMap inHand

/-- The queue holds the tasks that came in last. What has been taken out of it has run or is
in hand, and with `n` workers what ran as number `p` was among the first `p + n`. -/
structure Ordered (order : List Nat) (s : ThreadPool) : Prop where
  taken : ∃ taken, order = taken ++ s.tasks ∧ taken.Perm (s.executed ++ running s)
  near : ∀ (p i : Nat), s.executed[p]? = some i → i ∈ order.take (p + s.workers.length)

section Running

/-- What a step of one worker does to a list that is collected from all of them. -/
theorem filterMap_set {α β : Type} (f : α → Option β) {l : List α} {k : Nat} {old : α} (new : α)
    (h : l[k]? = some old) : ∃ before after,
      l.filterMap f = before ++ (f old).toList ++ after ∧
      (l.set k new).filterMap f = before ++ (f new).toList ++ after := by
  obtain ⟨hk, rfl⟩ := List.getElem?_eq_some_iff.mp h
  have hsingle : ∀ x, [x].filterMap f = (f x).toList := by
    intro x
    cases hx : f x <;> simp [hx]
  have hsplit : l = l.take k ++ [l[k]] ++ l.drop (k + 1) := by
    rw [List.append_assoc, List.singleton_append, ← List.drop_eq_getElem_cons hk,
      List.take_append_drop]
  refine ⟨(l.take k).filterMap f, (l.drop (k + 1)).filterMap f, ?_, ?_⟩
  · rw [← hsingle, ← List.filterMap_append, ← List.filterMap_append, ← hsplit]
  · rw [List.set_eq_take_append_cons_drop, if_pos hk, ← hsingle, ← List.filterMap_append,
      ← List.filterMap_append, List.append_assoc, List.singleton_append]

theorem running_set {w : Nat} {old new : Worker} (hold : s.workers[w]? = some old)
    (ht : t.workers = s.workers.set w new) (h : inHand new = inHand old) :
    running t = running s := by
  obtain ⟨before, after, hbefore, hafter⟩ := filterMap_set inHand new hold
  rw [running, ht, hafter, h, ← hbefore, running]

theorem running_notifyAll (s : ThreadPool) : running s.notifyAll = running s := by
  rw [running, notifyAll, List.filterMap_map]
  apply List.filterMap_congr
  intro worker _
  cases worker <;> rfl

theorem running_length (s : ThreadPool) : (running s).length ≤ s.workers.length :=
  List.length_filterMap_le inHand s.workers

end Running

section Order

variable {order : List Nat}

theorem Ordered.moves (h : Ordered order s) (hmoves : Moves s act t) :
    Ordered (order ++ (entering act).toList) t := by
  obtain ⟨⟨taken, horder, hperm⟩, hnear⟩ := h
  have hlength := length_workers hmoves
  have hkeep : entering act = none → t.tasks = s.tasks → t.executed = s.executed →
      running t = running s → Ordered (order ++ (entering act).toList) t := by
    intro hentering htasks hexecuted hrunning
    rw [hentering, Option.toList_none, List.append_nil]
    exact ⟨⟨taken, htasks ▸ horder, by rwa [hexecuted, hrunning]⟩, by rwa [hexecuted, hlength]⟩
  cases hmoves with
  | @enqueues i =>
    refine ⟨⟨taken, ?_, hperm⟩, ?_⟩
    · change order ++ [i] = taken ++ (s.tasks ++ [i])
      rw [horder, List.append_assoc]
    · intro p k hp
      change k ∈ (order ++ [i]).take (p + s.workers.length)
      rw [List.take_append]
      exact List.mem_append_left _ (hnear p k hp)
  | notifiesWorker _ hold => exact hkeep rfl rfl rfl (running_set hold rfl rfl)
  | leaves hold => exact hkeep rfl rfl rfl (running_set hold rfl rfl)
  | sleeps hold => exact hkeep rfl rfl rfl (running_set hold rfl rfl)
  | finishes hold => exact hkeep rfl rfl rfl (running_set hold rfl rfl)
  | @takes w task tasks hold htasks =>
    obtain ⟨before, after, hbefore, hafter⟩ := filterMap_set inHand (.running task) hold
    refine ⟨⟨taken ++ [task], ?_, ?_⟩, ?_⟩
    · change order ++ [] = _
      rw [List.append_nil, horder, htasks, List.append_assoc, List.singleton_append]
    · change (taken ++ [task]).Perm
        (s.executed ++ (s.workers.set w (.running task)).filterMap inHand)
      have hrunning : running s = before ++ after := by
        rw [running, hbefore]
        exact congrArg (· ++ after) (List.append_nil before)
      rw [hafter, List.append_assoc]
      refine (List.perm_append_singleton _ _).trans ((hperm.cons task).trans ?_)
      rw [hrunning, ← List.append_assoc, ← List.append_assoc]
      exact List.perm_middle.symm
    · intro p i hp
      change i ∈ (order ++ []).take (p + (s.workers.set w (.running task)).length)
      rw [List.append_nil, List.length_set]
      exact hnear p i hp
  | @runs w task hold =>
    obtain ⟨before, after, hbefore, hafter⟩ := filterMap_set inHand .finishing hold
    have hrunning : running s = before ++ [task] ++ after := hbefore
    have hperm' : taken.Perm (s.executed ++ [task] ++ (before ++ after)) := by
      refine hperm.trans ?_
      rw [hrunning, List.append_assoc s.executed, List.append_assoc before]
      exact List.perm_middle.append_left s.executed
    refine ⟨⟨taken, ?_, ?_⟩, ?_⟩
    · change order ++ [] = _
      rw [List.append_nil, horder]
    · change taken.Perm (s.executed ++ [task] ++ (s.workers.set w .finishing).filterMap inHand)
      rw [hafter]
      change taken.Perm (s.executed ++ [task] ++ (before ++ [] ++ after))
      rwa [List.append_nil]
    · intro p i hp
      change i ∈ (order ++ []).take (p + (s.workers.set w .finishing).length)
      rw [List.append_nil, List.length_set]
      by_cases hlt : p < s.executed.length
      · rw [List.getElem?_append_left hlt] at hp
        exact hnear p i hp
      · -- the task was in hand, so it is among the tasks that have been taken
        have hi : i = task := by
          rw [List.getElem?_append_right (Nat.not_lt.mp hlt)] at hp
          exact List.mem_singleton.mp (List.mem_of_getElem? hp)
        have hmem : i ∈ taken := by
          rw [hi, hperm'.mem_iff]
          simp
        have hcount := hperm.length_eq
        have hshort := running_length s
        rw [List.length_append] at hcount
        have hle : taken.length ≤ p + s.workers.length := by omega
        rw [horder, List.take_append, List.take_of_length_le hle]
        exact List.mem_append_left _ hmem
  | notifiesAll => exact hkeep rfl rfl rfl (running_notifyAll s)
  | _ => exact hkeep rfl rfl rfl rfl

theorem new_ordered (requested hardwareConcurrency : Nat) :
    Ordered [] (new requested hardwareConcurrency) := by
  refine ⟨⟨[], rfl, ?_⟩, ?_⟩
  · have hnone : running (new requested hardwareConcurrency) = [] := by
      simp [running, new, inHand]
    rw [hnone]
    rfl
  · intro p i hp
    cases hp

theorem run_ordered {requested hardwareConcurrency : Nat} {acts : List Act}
    (h : run step (new requested hardwareConcurrency) acts = some s) :
    Ordered (enqueued acts) s := by
  refine run_history (P := fun acts s => Ordered (enqueued acts) s) ?_
    (new_ordered requested hardwareConcurrency) h
  intro before u act v hordered hv
  have hlast : enqueued (before ++ [act]) = enqueued before ++ (entering act).toList := by
    rw [enqueued, List.filterMap_append]
    cases hact : entering act <;> simp [enqueued, hact]
  rw [hlast]
  exact hordered.moves (moves_of_step hv)

theorem run_length {requested hardwareConcurrency : Nat} {acts : List Act}
    (h : run step (new requested hardwareConcurrency) acts = some s) :
    s.workers.length = threadCount requested hardwareConcurrency :=
  run_invariant_of_forall
    (P := fun s => s.workers.length = threadCount requested hardwareConcurrency)
    (fun _ _ _ hlength ht => (length_workers (moves_of_step ht)).trans hlength)
    List.length_replicate h

/-- A list without repetitions whose every element is early enough in another one starts it. -/
theorem prefix_of_near {α : Type} {l m : List α} (hnodup : l.Nodup)
    (hnear : ∀ (p : Nat) (a : α), l[p]? = some a → a ∈ m.take (p + 1)) : l <+: m := by
  induction l using List.reverseRecOn with
  | nil => exact List.nil_prefix
  | append_singleton l a ih =>
    obtain ⟨hl, -, hdisjoint⟩ := List.nodup_append.mp hnodup
    obtain ⟨rest, rfl⟩ := ih hl fun p b hp => by
      have hlt := (List.getElem?_eq_some_iff.mp hp).1
      exact hnear p b (by rw [List.getElem?_append_left hlt, hp])
    have ha : a ∉ l := fun hmem => hdisjoint a hmem a (List.mem_singleton_self a) rfl
    have hmem := hnear l.length a (by simp)
    rw [List.take_append, List.take_of_length_le (Nat.le_succ _), Nat.add_sub_cancel_left,
      List.mem_append] at hmem
    obtain hbefore | hnext := hmem
    · exact absurd hbefore ha
    · cases rest with
      | nil => cases hnext
      | cons b rest =>
        obtain rfl := List.mem_singleton.mp hnext
        exact ⟨rest, by rw [List.append_assoc, List.singleton_append]⟩

theorem run_near {requested hardwareConcurrency : Nat} {acts : List Act}
    (h : run step (new requested hardwareConcurrency) acts = some s) (p i : Nat)
    (hp : s.executed[p]? = some i) :
    i ∈ (enqueued acts).take (p + threadCount requested hardwareConcurrency) := by
  rw [← run_length h]
  exact (run_ordered h).near p i hp

/-- A single thread keeps to the order. -/
theorem executed_in_order {requested hardwareConcurrency : Nat} {acts : List Act}
    (h : run step (new requested hardwareConcurrency) acts = some s)
    (hone : threadCount requested hardwareConcurrency = 1) : s.executed <+: enqueued acts := by
  have hnear := run_near h
  rw [hone] at hnear
  exact prefix_of_near (List.nodup_iff_count.mpr (run_accounted h).executed_le) hnear

/-- The tasks run in nearly the order in which they came in: with `n` threads the one that runs
as number `p` was among the first `p + n`, so that one thread keeps to the order. -/
theorem executed_near {requested hardwareConcurrency : Nat} {acts : List Act}
    (h : run step (new requested hardwareConcurrency) acts = some s) :
    (∀ (p i : Nat), s.executed[p]? = some i →
      i ∈ (enqueued acts).take (p + threadCount requested hardwareConcurrency)) ∧
    (threadCount requested hardwareConcurrency = 1 → s.executed <+: enqueued acts) :=
  ⟨run_near h, executed_in_order h⟩

/-- Two threads: the second task is done before the first one. -/
def swapActs : List Act :=
  [.submit, .submit, .enqueue 0, .enqueue 1, .worker 0, .worker 1, .worker 1]

theorem executed_near_swap : ∃ s, run step (new 2 4) swapActs = some s ∧ s.executed = [1] ∧
    enqueued swapActs = [0, 1] ∧ 1 ∈ (enqueued swapActs).take (0 + threadCount 2 4) := by
  have hrun : run step (new 2 4) swapActs =
      some ⟨[.running 0, .finishing], [], false, 2, [.enqueued, .enqueued], [], .idle, [1]⟩ := by
    decide
  exact ⟨_, hrun, rfl, by decide, (executed_near hrun).1 0 1 rfl⟩

end Order

section Barrier

theorem running_nil (counted : WakeUps.Counted s) (h : s.activeThreads = 0) : running s = [] := by
  rw [counted, List.countP_eq_zero] at h
  rw [running, List.filterMap_eq_nil_iff]
  intro worker hworker
  have hidle := h worker hworker
  cases worker with
  | running task => exact absurd rfl hidle
  | _ => rfl

/-- When `waitForAllTasks` returns, whatever has come into the queue until then has run. -/
theorem waited_executed {requested hardwareConcurrency : Nat} {acts : List Act} {j : Nat}
    (h : run step (new requested hardwareConcurrency) acts = some s)
    (hstep : step s (.waiter j) = some t) (hreturned : t.waiters[j]? = some .returned) :
    s.executed.Perm (enqueued acts) := by
  have counted : WakeUps.Counted s :=
    run_invariant_of_forall (fun _ _ _ counted ht => counted.moves (moves_of_step ht))
      WakeUps.new_counted h
  cases moves_of_step hstep with
  | passes _ htasks hactive =>
    obtain ⟨taken, horder, hperm⟩ := (run_ordered h).taken
    rw [htasks, List.append_nil] at horder
    rw [running_nil counted hactive, List.append_nil] at hperm
    rw [horder]
    exact hperm.symm
  | dozes hwaiter =>
    have hj := (List.getElem?_eq_some_iff.mp hwaiter).1
    rw [List.getElem?_set_self hj] at hreturned
    cases hreturned

/-- A thread waits for a task that is in hand, and returns once it has run. -/
def waitedActs : List Act :=
  [.submit, .enqueue 0, .notifyOne 0 none, .worker 0, .waitForAllTasks, .worker 0, .worker 0]

theorem waited_executed_one : [0].Perm (enqueued waitedActs) := by
  have hrun : run step (new 1 4) waitedActs =
      some ⟨[.awake], [], false, 0, [.returned], [.awake], .idle, [0]⟩ := by decide
  have hstep : step ⟨[.awake], [], false, 0, [.returned], [.awake], .idle, [0]⟩ (.waiter 0) =
      some ⟨[.awake], [], false, 0, [.returned], [.returned], .idle, [0]⟩ := by decide
  exact waited_executed hrun hstep rfl

end Barrier

end Mprpc.TaskOrder
