import Mathlib.Algebra.BigOperators.Group.Finset.Piecewise
import Mathlib.Algebra.Order.Group.Multiset
import Mathlib.Data.Fintype.Basic
import ApiGateway.ByteText
import ApiGateway.StepRuns

/-! `ThreadPool`, with any tasks and any number of workers. A step is a critical section,
or the end of a task outside of one; a waiting worker may wake up at any time. -/

namespace ApiGateway.ThreadPooling
open ByteText StepRuns

variable {Task : Type*}

/-- A `ready` worker waits, or is about to take the mutex. -/
inductive Worker (Task : Type*) where
  | ready
  | running (task : Task)
  | returned
  deriving DecidableEq

/-- `joining` has joined that many workers, from the first one on. -/
inductive Destructor where
  | notCalled
  | joining (joined : Nat)
  deriving DecidableEq

/-- `dequeued` and `executed` are what the workers have taken and run, in that order. -/
structure ThreadPool (Task : Type*) (count : Nat) where
  workers : Fin count → Worker Task
  tasks : List Task
  stopping : Bool
  destructor : Destructor
  dequeued : List Task
  executed : List Task

def workerCount (threadCount : Nat) : Nat := if threadCount = 0 then 1 else threadCount

instance (threadCount : Nat) : NeZero (workerCount threadCount) where
  out := by
    unfold workerCount
    split <;> omega

def ThreadPool.new (threadCount : Nat) : ThreadPool Task (workerCount threadCount) :=
  ⟨fun _ => .ready, [], false, .notCalled, [], []⟩

section Steps

variable {count : Nat}

/-- The error is the text of the exception. -/
def ThreadPool.enqueue (s : ThreadPool Task count) (task : Task) :
    Except Bytes (ThreadPool Task count) :=
  if s.stopping then .error (ascii "ThreadPool::enqueue called after shutdown")
  else .ok { s with tasks := s.tasks ++ [task] }

def ThreadPool.setWorker (s : ThreadPool Task count) (worker : Fin count)
    (state : Worker Task) : ThreadPool Task count :=
  { s with workers := Function.update s.workers worker state }

/-- The worker has the mutex. With no task it returns or waits on. -/
def ThreadPool.wake (s : ThreadPool Task count) (worker : Fin count) : ThreadPool Task count :=
  match s.tasks with
  | [] => if s.stopping then s.setWorker worker .returned else s
  | task :: rest =>
      { s.setWorker worker (.running task) with
        tasks := rest
        dequeued := s.dequeued ++ [task] }

inductive Event (Task : Type*) (count : Nat) where
  | enqueued (task : Task)
  | enqueueThrew (task : Task)
  | wake (worker : Fin count)
  /-- the task of this worker has returned, or its exception is in the future -/
  | finish (worker : Fin count)
  | stop
  | join
  deriving DecidableEq

def step (s : ThreadPool Task count) : Event Task count → Option (ThreadPool Task count)
  | .enqueued task => (s.enqueue task).toOption
  | .enqueueThrew task =>
      match s.enqueue task with
      | .error _ => some s
      | .ok _ => none
  | .wake worker =>
      match s.workers worker with
      | .ready => some (s.wake worker)
      | _ => none
  | .finish worker =>
      match s.workers worker with
      | .running task =>
          some { s.setWorker worker .ready with executed := s.executed ++ [task] }
      | _ => none
  | .stop =>
      if s.destructor = .notCalled then some { s with stopping := true, destructor := .joining 0 }
      else none
  | .join =>
      match s.destructor with
      | .joining joined =>
          if h : joined < count then
            match s.workers ⟨joined, h⟩ with
            | .returned => some { s with destructor := .joining (joined + 1) }
            | _ => none
          else none
      | .notCalled => none

inductive Stepped (s : ThreadPool Task count) : Event Task count → ThreadPool Task count → Prop
  | enqueued {task : Task} (accepts : s.stopping = false) :
      Stepped s (.enqueued task) { s with tasks := s.tasks ++ [task] }
  | enqueueThrew {task : Task} (stopping : s.stopping = true) : Stepped s (.enqueueThrew task) s
  | wake {worker : Fin count} (ready : s.workers worker = .ready) :
      Stepped s (.wake worker) (s.wake worker)
  | finish {worker : Fin count} {task : Task} (running : s.workers worker = .running task) :
      Stepped s (.finish worker)
        { s.setWorker worker .ready with executed := s.executed ++ [task] }
  | stop (first : s.destructor = .notCalled) :
      Stepped s .stop { s with stopping := true, destructor := .joining 0 }
  | join {joined : Nat} (joining : s.destructor = .joining joined) (more : joined < count)
      (returned : s.workers ⟨joined, more⟩ = .returned) :
      Stepped s .join { s with destructor := .joining (joined + 1) }

theorem stepped_of_step {s s' : ThreadPool Task count} {event : Event Task count}
    (next : step s event = some s') : Stepped s event s' := by
  cases event with
  | enqueued task =>
      simp only [step, ThreadPool.enqueue] at next
      split_ifs at next with hstopping
      · cases next
      · cases next
        exact .enqueued (Bool.not_eq_true _ ▸ hstopping)
  | enqueueThrew task =>
      simp only [step, ThreadPool.enqueue] at next
      by_cases hstopping : s.stopping = true
      · rw [if_pos hstopping] at next
        cases next
        exact .enqueueThrew hstopping
      · rw [if_neg hstopping] at next
        cases next
  | wake worker =>
      simp only [step] at next
      split at next
      next hready =>
        cases next
        exact .wake hready
      · cases next
  | finish worker =>
      simp only [step] at next
      split at next
      next task hrunning =>
        cases next
        exact .finish hrunning
      · cases next
  | stop =>
      simp only [step] at next
      split_ifs at next with hfirst
      cases next
      exact .stop hfirst
  | join =>
      simp only [step] at next
      split at next
      next joined hjoining =>
        split_ifs at next with hmore
        split at next
        next hreturned =>
          cases next
          exact .join hjoining hmore hreturned
        · cases next
      · cases next

def acceptedTask : Event Task count → Option Task
  | .enqueued task => some task
  | _ => none

/-- The accepted tasks in the order their calls of `enqueue` held the mutex. -/
def accepted (trace : List (Event Task count)) : List Task := trace.filterMap acceptedTask

def Worker.held : Worker Task → Multiset Task
  | .running task => {task}
  | _ => 0

def ThreadPool.running (s : ThreadPool Task count) : Multiset Task :=
  ∑ worker, (s.workers worker).held

structure Inv (trace : List (Event Task count)) (s : ThreadPool Task count) : Prop where
  order : s.dequeued ++ s.tasks = accepted trace
  taken : (s.executed : Multiset Task) + s.running = s.dequeued
  stopped : s.destructor ≠ .notCalled → s.stopping = true
  returned : ∀ worker, s.workers worker = .returned → s.stopping = true ∧ s.tasks = []
  joined : ∀ joined, s.destructor = .joining joined →
    ∀ worker : Fin count, worker.val < joined → s.workers worker = .returned

theorem accepted_snoc (trace : List (Event Task count)) (event : Event Task count) :
    accepted (trace ++ [event]) = accepted trace ++ (acceptedTask event).toList := by
  cases h : acceptedTask event <;> simp [accepted, h]

theorem running_setWorker (s : ThreadPool Task count) (worker : Fin count)
    (state : Worker Task) :
    (s.setWorker worker state).running + (s.workers worker).held = s.running + state.held := by
  have hupdate : ∀ w, (Function.update s.workers worker state w).held =
      Function.update (fun w => (s.workers w).held) worker state.held w := by
    intro w
    by_cases h : w = worker
    · subst h
      simp
    · simp [h]
  have hsum := Finset.sum_update_of_mem (Finset.mem_univ worker)
    (fun w => (s.workers w).held) state.held
  have hsplit := Finset.sum_sdiff (Finset.subset_univ {worker})
    (f := fun w => (s.workers w).held)
  rw [Finset.sum_singleton] at hsplit
  change ∑ w, (Function.update s.workers worker state w).held + _ = s.running + _
  rw [Finset.sum_congr rfl fun w _ => hupdate w, hsum, ThreadPool.running, ← hsplit]
  abel

variable {trace : List (Event Task count)} {s s' : ThreadPool Task count}

theorem Inv.running_of_returned (h : Inv trace s)
    (all : ∀ worker, s.workers worker = .returned) : (s.executed : Multiset Task) = s.dequeued := by
  have hnone : s.running = 0 := by
    refine Finset.sum_eq_zero fun worker _ => ?_
    rw [all worker]
    rfl
  have htaken := h.taken
  rw [hnone, add_zero] at htaken
  exact htaken

theorem Inv.accepted_other (h : Inv trace s) {event : Event Task count}
    (none : acceptedTask event = none) : s.dequeued ++ s.tasks = accepted (trace ++ [event]) := by
  rw [accepted_snoc, none, h.order]
  exact (List.append_nil _).symm

theorem returned_before {worker other : Fin count} {state : Worker Task}
    (active : state ≠ .returned) (returned : (s.setWorker worker state).workers other = .returned) :
    s.workers other = .returned := by
  change Function.update s.workers worker state other = .returned at returned
  by_cases hother : other = worker
  · rw [hother, Function.update_self] at returned
    exact absurd returned active
  · rwa [Function.update_of_ne hother] at returned

theorem Inv.enqueued (h : Inv trace s) (task : Task) (accepts : s.stopping = false) :
    Inv (trace ++ [.enqueued task]) { s with tasks := s.tasks ++ [task] } := by
  refine ⟨?_, h.taken, h.stopped, fun worker hreturned => ?_, h.joined⟩
  · change s.dequeued ++ (s.tasks ++ [task]) = _
    rw [← List.append_assoc, h.order, accepted_snoc]
    rfl
  · cases accepts.symm.trans (h.returned worker hreturned).1

theorem setWorker_joined (h : Inv trace s) {worker : Fin count} {state : Worker Task}
    (active : s.workers worker ≠ .returned) (joined : Nat)
    (hjoined : s.destructor = .joining joined) (other : Fin count) (hbefore : other.val < joined) :
    (s.setWorker worker state).workers other = .returned := by
  have hother : other ≠ worker := by
    intro hsame
    rw [hsame] at hbefore
    exact active (h.joined joined hjoined worker hbefore)
  change Function.update s.workers worker state other = .returned
  rw [Function.update_of_ne hother]
  exact h.joined joined hjoined other hbefore

theorem Inv.wake (h : Inv trace s) (worker : Fin count) (ready : s.workers worker = .ready) :
    Inv (trace ++ [.wake worker]) (s.wake worker) := by
  have hactive : s.workers worker ≠ .returned := by simp [ready]
  have horder : s.dequeued ++ s.tasks = accepted (trace ++ [.wake worker]) := h.accepted_other rfl
  have hrunning : ∀ state, (s.setWorker worker state).running = s.running + state.held := by
    intro state
    have hsum := running_setWorker s worker state
    rw [ready] at hsum
    simpa [Worker.held] using hsum
  unfold ThreadPool.wake
  split
  next hempty =>
    split_ifs with hstopping
    · refine ⟨horder, ?_, h.stopped, fun _ _ => ⟨hstopping, hempty⟩, setWorker_joined h hactive⟩
      rw [hrunning]
      change (s.executed : Multiset Task) + (s.running + 0) = s.dequeued
      rw [add_zero]
      exact h.taken
    · exact ⟨horder, h.taken, h.stopped, h.returned, h.joined⟩
  next task rest htasks =>
    refine ⟨?_, ?_, h.stopped, fun other hreturned => ?_, setWorker_joined h hactive⟩
    · rw [← horder, htasks]
      exact List.append_cons _ _ _ |>.symm
    · change (s.executed : Multiset Task) + (s.setWorker worker (.running task)).running =
        (s.dequeued ++ [task] : List Task)
      rw [hrunning, ← add_assoc, h.taken]
      rfl
    · -- a worker that has returned saw the queue empty, and nothing was accepted since
      have hnone := (h.returned other (returned_before (by nofun) hreturned)).2
      rw [htasks] at hnone
      cases hnone

theorem Inv.finish (h : Inv trace s) (worker : Fin count) {task : Task}
    (running : s.workers worker = .running task) :
    Inv (trace ++ [.finish worker])
      { s.setWorker worker .ready with executed := s.executed ++ [task] } := by
  have hactive : s.workers worker ≠ .returned := by simp [running]
  refine ⟨h.accepted_other rfl, ?_, h.stopped, fun other hreturned => ?_,
    setWorker_joined h hactive⟩
  · have hsum := running_setWorker s worker .ready
    rw [running] at hsum
    change ((s.executed ++ [task] : List Task) : Multiset Task) +
      (s.setWorker worker .ready).running = s.dequeued
    rw [← h.taken, ← Multiset.coe_add, add_assoc]
    congr 1
    rw [add_comm]
    simpa [Worker.held] using hsum
  · exact h.returned other (returned_before (by nofun) hreturned)

theorem Inv.step {event : Event Task count} (h : Inv trace s)
    (next : step s event = some s') : Inv (trace ++ [event]) s' := by
  cases stepped_of_step next with
  | enqueued accepts => exact h.enqueued _ accepts
  | enqueueThrew => exact ⟨h.accepted_other rfl, h.taken, h.stopped, h.returned, h.joined⟩
  | wake ready => exact h.wake _ ready
  | finish running => exact h.finish _ running
  | stop first =>
      refine ⟨h.accepted_other rfl, h.taken, fun _ => rfl, fun worker hreturned =>
        ⟨rfl, (h.returned worker hreturned).2⟩, fun joined hjoined worker hbefore => ?_⟩
      cases hjoined
      exact absurd hbefore (Nat.not_lt_zero _)
  | @join joined joining more returned =>
      refine ⟨h.accepted_other rfl, h.taken, fun _ => h.stopped (by simp [joining]), h.returned,
        fun joined' hjoined' worker hbefore => ?_⟩
      cases hjoined'
      by_cases hlast : worker.val = joined
      · have hworker : worker = ⟨joined, more⟩ := Fin.ext hlast
        rw [hworker]
        exact returned
      · exact h.joined joined joining worker (by omega)

end Steps

theorem Inv.new (threadCount : Nat) : Inv [] (.new threadCount : ThreadPool Task _) := by
  refine ⟨rfl, ?_, fun h => absurd rfl h, fun _ => by nofun, by nofun⟩
  change 0 + ∑ _, (0 : Multiset Task) = 0
  rw [Finset.sum_const_zero, add_zero]

theorem inv_of_run {threadCount : Nat} {trace : List (Event Task (workerCount threadCount))}
    {s : ThreadPool Task (workerCount threadCount)}
    (run : Run (fun s event s' => step s event = some s') (.new threadCount) trace s) :
    Inv trace s :=
  @Run.invariant _ _ _ _ (fun trace s => Inv trace s) (.new threadCount)
    (fun _ _ _ _ h next => h.step next) _ _ run

theorem returned_of_step {count : Nat} {s s' : ThreadPool Task count} {event : Event Task count}
    (next : step s event = some s') {worker : Fin count} (active : s.workers worker ≠ .returned)
    (returns : s'.workers worker = .returned) : s.stopping = true ∧ s.tasks = [] := by
  cases stepped_of_step next with
  | enqueued | enqueueThrew | stop | join => exact absurd returns active
  | finish => exact absurd (returned_before (by nofun) returns) active
  | wake ready =>
      unfold ThreadPool.wake at returns
      split at returns
      next hempty =>
        split_ifs at returns with hstopping
        · exact ⟨hstopping, hempty⟩
        · exact absurd returns active
      next task rest htasks =>
        exact absurd (returned_before (by nofun) returns) active

theorem enqueueThrew_unchanged {count : Nat} {s s' : ThreadPool Task count} {task : Task}
    (next : step s (.enqueueThrew task) = some s') : s' = s ∧ s.stopping = true := by
  cases stepped_of_step next with
  | enqueueThrew stopping => exact ⟨rfl, stopping⟩

/-- What the workers have taken, then the queue, are the accepted tasks in their order. A
task that was taken has been run once or is being run by one worker, and when all workers
are joined each accepted task has been run once. -/
theorem accepted_once_in_order {threadCount : Nat}
    {trace : List (Event Task (workerCount threadCount))}
    {s : ThreadPool Task (workerCount threadCount)}
    (run : Run (fun s event s' => step s event = some s') (.new threadCount) trace s) :
    s.dequeued ++ s.tasks = accepted trace ∧
      (s.executed : Multiset Task) + ∑ worker, (s.workers worker).held = s.dequeued ∧
      (∀ task s', step s (.enqueueThrew task) = some s' → s' = s ∧ s.stopping = true) ∧
      (∀ event s' worker, step s event = some s' → s.workers worker ≠ .returned →
        s'.workers worker = .returned → s.tasks = []) ∧
      (s.destructor = .joining (workerCount threadCount) →
        s.tasks = [] ∧ s.dequeued = accepted trace ∧ s.executed.Perm (accepted trace)) := by
  have h := inv_of_run run
  refine ⟨h.order, h.taken, fun _ _ next => enqueueThrew_unchanged next,
    fun _ _ _ next active returns => (returned_of_step next active returns).2, fun hjoined => ?_⟩
  have hreturned : ∀ worker, s.workers worker = .returned :=
    fun worker => h.joined _ hjoined worker worker.isLt
  have hempty : s.tasks = [] := (h.returned 0 (hreturned 0)).2
  have horder := h.order
  rw [hempty, List.append_nil] at horder
  refine ⟨hempty, horder, ?_⟩
  rw [← horder]
  exact Multiset.coe_eq_coe.mp (h.running_of_returned hreturned)

theorem accepted_once_in_order_shutdown :
    let trace : List (Event Nat (workerCount 2)) := [.wake 0, .enqueued 7, .wake 1, .enqueued 8,
      .enqueued 9, .wake 0, .stop, .enqueueThrew 10, .finish 0, .wake 0, .finish 1, .wake 1,
      .finish 0, .wake 0, .join, .join]
    ∃ s : ThreadPool Nat (workerCount 2), (s.dequeued ++ s.tasks = accepted trace ∧
      (s.executed : Multiset Nat) + ∑ worker, (s.workers worker).held = s.dequeued ∧
      (∀ task s', step s (.enqueueThrew task) = some s' → s' = s ∧ s.stopping = true) ∧
      (∀ event s' worker, step s event = some s' → s.workers worker ≠ .returned →
        s'.workers worker = .returned → s.tasks = []) ∧
      (s.destructor = .joining (workerCount 2) →
        s.tasks = [] ∧ s.dequeued = accepted trace ∧ s.executed.Perm (accepted trace))) ∧
      s.destructor = .joining 2 ∧ s.executed = [8, 7, 9] :=
  ⟨_, accepted_once_in_order (run_of_exec rfl), rfl, rfl⟩

end ApiGateway.ThreadPooling
