import ApiGateway.StepMeasures
import ApiGateway.ThreadPooling

/-! `ThreadPool` with its condition variable. A waiting worker sleeps until `notify_one` or
`notify_all` wakes it; `enqueue` notifies behind its critical section, the destructor behind
its own. What the pool does between them is what it does without the sleepers. -/

namespace ApiGateway.PoolWakeups
open StepRuns StepMeasures
open ThreadPooling (ThreadPool Worker Destructor workerCount accepted)

variable {Task : Type*} {count : Nat}

/-- An `awake` worker is about to take the mutex, for the first time or out of `wait`. -/
inductive Sleeper (Task : Type*) where
  | awake
  | asleep
  | running (task : Task)
  | returned
  deriving DecidableEq

/-- `signals` calls of `enqueue` have not come to their `notify_one` yet, and with
`broadcast` the destructor has not come to its `notify_all`. -/
structure Monitor (Task : Type*) (count : Nat) where
  workers : Fin count → Sleeper Task
  tasks : List Task
  stopping : Bool
  signals : Nat
  broadcast : Bool
  destructor : Destructor
  dequeued : List Task
  executed : List Task

def Monitor.new (threadCount : Nat) : Monitor Task (workerCount threadCount) :=
  ⟨fun _ => .awake, [], false, 0, false, .notCalled, [], []⟩

def Monitor.setWorker (s : Monitor Task count) (worker : Fin count) (state : Sleeper Task) :
    Monitor Task count :=
  { s with workers := Function.update s.workers worker state }

def Monitor.check (s : Monitor Task count) (worker : Fin count) : Monitor Task count :=
  match s.tasks with
  | [] => s.setWorker worker (if s.stopping then .returned else .asleep)
  | task :: rest =>
      { s.setWorker worker (.running task) with
        tasks := rest
        dequeued := s.dequeued ++ [task] }

inductive Event (Task : Type*) (count : Nat) where
  | enqueued (task : Task)
  | enqueueThrew (task : Task)
  /-- a sleeping worker is woken, if there is one -/
  | notifyOne (woken : Option (Fin count))
  | check (worker : Fin count)
  | finish (worker : Fin count)
  /-- a wait ends by itself -/
  | spurious (worker : Fin count)
  | stop
  | notifyAll
  | join
  deriving DecidableEq

def Sleeper.isAsleep : Sleeper Task → Bool
  | .asleep => true
  | _ => false

def Monitor.notify (s : Monitor Task count) : Option (Fin count) → Option (Monitor Task count)
  | none => if ∀ worker, (s.workers worker).isAsleep = false then some s else none
  | some worker =>
      if (s.workers worker).isAsleep then some (s.setWorker worker .awake) else none

def Sleeper.roused : Sleeper Task → Sleeper Task
  | .asleep => .awake
  | state => state

def step (s : Monitor Task count) : Event Task count → Option (Monitor Task count)
  | .enqueued task =>
      if s.stopping then none
      else some { s with tasks := s.tasks ++ [task], signals := s.signals + 1 }
  | .enqueueThrew _ => if s.stopping then some s else none
  | .notifyOne woken =>
      match s.signals with
      | 0 => none
      | rest + 1 => ({ s with signals := rest } : Monitor Task count).notify woken
  | .check worker =>
      match s.workers worker with
      | .awake => some (s.check worker)
      | _ => none
  | .finish worker =>
      match s.workers worker with
      | .running task =>
          some { s.setWorker worker .awake with executed := s.executed ++ [task] }
      | _ => none
  | .spurious worker =>
      if (s.workers worker).isAsleep then some (s.setWorker worker .awake) else none
  | .stop =>
      if s.destructor = .notCalled then
        some { s with stopping := true, broadcast := true, destructor := .joining 0 }
      else none
  | .notifyAll =>
      if s.broadcast then
        some { s with broadcast := false, workers := fun worker => (s.workers worker).roused }
      else none
  | .join =>
      match s.destructor with
      | .joining joined =>
          if h : s.broadcast = false ∧ joined < count then
            match s.workers ⟨joined, h.2⟩ with
            | .returned => some { s with destructor := .joining (joined + 1) }
            | _ => none
          else none
      | .notCalled => none

inductive Stepped (s : Monitor Task count) : Event Task count → Monitor Task count → Prop
  | enqueued {task : Task} (accepts : s.stopping = false) :
      Stepped s (.enqueued task)
        { s with tasks := s.tasks ++ [task], signals := s.signals + 1 }
  | enqueueThrew {task : Task} (stopping : s.stopping = true) : Stepped s (.enqueueThrew task) s
  | notifyNone {rest : Nat} (signals : s.signals = rest + 1)
      (nobody : ∀ worker, (s.workers worker).isAsleep = false) :
      Stepped s (.notifyOne none) { s with signals := rest }
  | notifyWorker {rest : Nat} {worker : Fin count} (signals : s.signals = rest + 1)
      (asleep : s.workers worker = .asleep) :
      Stepped s (.notifyOne (some worker))
        { s.setWorker worker .awake with signals := rest }
  | check {worker : Fin count} (awake : s.workers worker = .awake) :
      Stepped s (.check worker) (s.check worker)
  | finish {worker : Fin count} {task : Task} (running : s.workers worker = .running task) :
      Stepped s (.finish worker)
        { s.setWorker worker .awake with executed := s.executed ++ [task] }
  | spurious {worker : Fin count} (asleep : s.workers worker = .asleep) :
      Stepped s (.spurious worker) (s.setWorker worker .awake)
  | stop (first : s.destructor = .notCalled) :
      Stepped s .stop { s with stopping := true, broadcast := true, destructor := .joining 0 }
  | notifyAll (broadcast : s.broadcast = true) :
      Stepped s .notifyAll
        { s with broadcast := false, workers := fun worker => (s.workers worker).roused }
  | join {joined : Nat} (joining : s.destructor = .joining joined) (told : s.broadcast = false)
      (more : joined < count) (returned : s.workers ⟨joined, more⟩ = .returned) :
      Stepped s .join { s with destructor := .joining (joined + 1) }

theorem isAsleep_iff (state : Sleeper Task) : state.isAsleep = true ↔ state = .asleep := by
  cases state <;> simp [Sleeper.isAsleep]

theorem stepped_of_step {s s' : Monitor Task count} {event : Event Task count}
    (next : step s event = some s') : Stepped s event s' := by
  cases event with
  | enqueued task =>
      simp only [step] at next
      split_ifs at next with hstopping
      cases next
      exact .enqueued (Bool.not_eq_true _ ▸ hstopping)
  | enqueueThrew task =>
      simp only [step] at next
      split_ifs at next with hstopping
      cases next
      exact .enqueueThrew hstopping
  | notifyOne woken =>
      simp only [step] at next
      split at next
      · cases next
      next rest hsignals =>
        cases woken with
        | none =>
            simp only [Monitor.notify] at next
            split_ifs at next with hnobody
            cases next
            exact .notifyNone hsignals hnobody
        | some worker =>
            simp only [Monitor.notify] at next
            split_ifs at next with hasleep
            cases next
            exact .notifyWorker hsignals ((isAsleep_iff _).mp hasleep)
  | check worker =>
      simp only [step] at next
      split at next
      next hawake =>
        cases next
        exact .check hawake
      · cases next
  | finish worker =>
      simp only [step] at next
      split at next
      next task hrunning =>
        cases next
        exact .finish hrunning
      · cases next
  | spurious worker =>
      simp only [step] at next
      split_ifs at next with hasleep
      cases next
      exact .spurious ((isAsleep_iff _).mp hasleep)
  | stop =>
      simp only [step] at next
      split_ifs at next with hfirst
      cases next
      exact .stop hfirst
  | notifyAll =>
      simp only [step] at next
      split_ifs at next with hbroadcast
      cases next
      exact .notifyAll hbroadcast
  | join =>
      simp only [step] at next
      split at next
      next joined hjoining =>
        split_ifs at next with hready
        split at next
        next hreturned =>
          cases next
          exact .join hjoining hready.1 hready.2 hreturned
        · cases next
      · cases next

def Sleeper.worker : Sleeper Task → Worker Task
  | .awake => .ready
  | .asleep => .ready
  | .running task => .running task
  | .returned => .returned

def Monitor.pool (s : Monitor Task count) : ThreadPool Task count :=
  ⟨fun worker => (s.workers worker).worker, s.tasks, s.stopping, s.destructor, s.dequeued,
    s.executed⟩

/-- The critical sections, and the ends of tasks. -/
def poolEvent : Event Task count → Option (ThreadPooling.Event Task count)
  | .enqueued task => some (.enqueued task)
  | .enqueueThrew task => some (.enqueueThrew task)
  | .check worker => some (.wake worker)
  | .finish worker => some (.finish worker)
  | .stop => some .stop
  | .join => some .join
  | _ => none

theorem pool_setWorker (s : Monitor Task count) (worker : Fin count) (state : Sleeper Task) :
    (s.setWorker worker state).pool = s.pool.setWorker worker state.worker := by
  have hworkers : (fun other => (Function.update s.workers worker state other).worker) =
      Function.update (fun other => (s.workers other).worker) worker state.worker := by
    funext other
    by_cases hother : other = worker
    · rw [hother, Function.update_self, Function.update_self]
    · rw [Function.update_of_ne hother, Function.update_of_ne hother]
  simp only [Monitor.pool, Monitor.setWorker, ThreadPool.setWorker, hworkers]

theorem pool_setWorker_same {s : Monitor Task count} {worker : Fin count} {state : Sleeper Task}
    (same : state.worker = (s.workers worker).worker) :
    (s.setWorker worker state).pool = s.pool := by
  rw [pool_setWorker, same]
  simp only [ThreadPool.setWorker, Monitor.pool]
  rw [Function.update_eq_self]

theorem pool_check {s : Monitor Task count} {worker : Fin count}
    (awake : s.workers worker = .awake) : (s.check worker).pool = s.pool.wake worker := by
  unfold Monitor.check ThreadPool.wake
  rw [show s.pool.tasks = s.tasks from rfl]
  cases s.tasks with
  | nil =>
      simp only
      rw [show s.pool.stopping = s.stopping from rfl]
      split_ifs
      · exact pool_setWorker s worker .returned
      · exact pool_setWorker_same (by rw [awake]; rfl)
  | cons task rest =>
      change { (s.setWorker worker (.running task)).pool with
        tasks := rest, dequeued := s.dequeued ++ [task] } = _
      rw [pool_setWorker]
      rfl

theorem pool_step {s s' : Monitor Task count} {event : Event Task count}
    (next : step s event = some s') :
    match poolEvent event with
    | some coarse => ThreadPooling.step s.pool coarse = some s'.pool
    | none => s'.pool = s.pool := by
  cases stepped_of_step next with
  | @enqueued task accepts =>
      have henqueue : s.pool.enqueue task = .ok { s.pool with tasks := s.tasks ++ [task] } :=
        if_neg (by rw [show s.pool.stopping = false from accepts]; nofun)
      simp only [poolEvent, ThreadPooling.step, henqueue]
      rfl
  | @enqueueThrew task stopping =>
      have henqueue : s.pool.enqueue task =
          .error (ByteText.ascii "ThreadPool::enqueue called after shutdown") :=
        if_pos stopping
      simp only [poolEvent, ThreadPooling.step, henqueue]
  | notifyNone signals nobody => rfl
  | notifyWorker signals asleep => exact pool_setWorker_same (by rw [asleep]; rfl)
  | @check worker awake =>
      have hready : s.pool.workers worker = .ready := by
        change (s.workers worker).worker = _
        rw [awake]
        rfl
      simp only [poolEvent, ThreadPooling.step, hready]
      rw [pool_check awake]
  | @finish worker task running =>
      have hrunning : s.pool.workers worker = .running task := by
        change (s.workers worker).worker = _
        rw [running]
        rfl
      simp only [poolEvent, ThreadPooling.step, hrunning]
      change _ = some { (s.setWorker worker .awake).pool with executed := s.executed ++ [task] }
      rw [pool_setWorker]
      rfl
  | spurious asleep => exact pool_setWorker_same (by rw [asleep]; rfl)
  | stop first =>
      have hfirst : s.pool.destructor = .notCalled := first
      simp only [poolEvent, ThreadPooling.step, hfirst]
      rfl
  | notifyAll broadcast =>
      simp only [poolEvent, Monitor.pool]
      congr 1
      funext worker
      cases s.workers worker <;> rfl
  | @join joined joining told more returned =>
      have hjoining : s.pool.destructor = .joining joined := joining
      have hreturned : s.pool.workers ⟨joined, more⟩ = .returned := by
        change (s.workers _).worker = _
        rw [returned]
        rfl
      simp only [poolEvent, ThreadPooling.step, hjoining, dif_pos more, hreturned]
      rfl

theorem pool_run {start s : Monitor Task count} {trace : List (Event Task count)}
    (run : Run (fun s event s' => step s event = some s') start trace s) :
    Run (fun s event s' => ThreadPooling.step s event = some s') start.pool
      (trace.filterMap poolEvent) s.pool := by
  refine run.project Monitor.pool fun s event s' next => ?_
  have hstep := pool_step next
  cases hevent : poolEvent event with
  | none =>
      rw [hevent] at hstep
      exact hstep
  | some coarse =>
      rw [hevent] at hstep
      exact hstep

def Sleeper.awakes : Sleeper Task → Nat
  | .awake => 1
  | _ => 0

def Monitor.awake (s : Monitor Task count) : Nat := ∑ worker, (s.workers worker).awakes

/-- While a worker sleeps, each task in the queue has another worker or a `notify_one` on its
way, and after `stop` the `notify_all` is on its way. -/
structure Watched (s : Monitor Task count) : Prop where
  tasks : ∀ worker, s.workers worker = .asleep → s.tasks.length ≤ s.signals + s.awake
  stopping : ∀ worker, s.workers worker = .asleep → s.stopping = true → s.broadcast = true
  called : s.stopping = true → s.destructor ≠ .notCalled
  joining : ∀ joined, s.destructor = .joining joined → joined ≤ count

theorem watched_new (threadCount : Nat) :
    Watched (.new threadCount : Monitor Task (workerCount threadCount)) where
  tasks _ _ := Nat.zero_le _
  stopping _ h := by cases h
  called h := by cases h
  joining _ h := by cases h

theorem awake_setWorker (s : Monitor Task count) (worker : Fin count) (state : Sleeper Task) :
    (s.setWorker worker state).awake + (s.workers worker).awakes = s.awake + state.awakes :=
  sum_update s.workers worker state Sleeper.awakes

theorem asleep_setWorker {s : Monitor Task count} {worker other : Fin count}
    {state : Sleeper Task} (active : state ≠ .asleep)
    (asleep : (s.setWorker worker state).workers other = .asleep) :
    s.workers other = .asleep := by
  change Function.update s.workers worker state other = .asleep at asleep
  by_cases hother : other = worker
  · rw [hother, Function.update_self] at asleep
    exact absurd asleep active
  · rwa [Function.update_of_ne hother] at asleep

theorem Watched.check {s : Monitor Task count} (watched : Watched s) {worker : Fin count}
    (awake : s.workers worker = .awake) : Watched (s.check worker) := by
  unfold Monitor.check
  cases htasks : s.tasks with
  | nil =>
      simp only
      split_ifs with hstopping
      · refine ⟨fun _ _ => ?_, fun other hasleep => watched.stopping other ?_,
          watched.called, watched.joining⟩
        · change s.tasks.length ≤ _
          rw [htasks]
          exact Nat.zero_le _
        · exact asleep_setWorker (by nofun) hasleep
      · refine ⟨fun _ _ => ?_, fun _ _ hstop => absurd hstop hstopping, watched.called,
          watched.joining⟩
        change s.tasks.length ≤ _
        rw [htasks]
        exact Nat.zero_le _
  | cons task rest =>
      simp only
      refine ⟨fun other hasleep => ?_, fun other hasleep => watched.stopping other ?_,
        watched.called, watched.joining⟩
      · have hsum := awake_setWorker s worker (.running task)
        have hbefore := watched.tasks other (asleep_setWorker (by nofun) hasleep)
        rw [awake] at hsum
        rw [htasks, List.length_cons] at hbefore
        change rest.length ≤ s.signals + (s.setWorker worker (.running task)).awake
        simp only [Sleeper.awakes] at hsum
        omega
      · exact asleep_setWorker (by nofun) hasleep

theorem Watched.rouse {s s' : Monitor Task count} (watched : Watched s) {worker : Fin count}
    (up : s.workers worker ≠ .awake) (workers : s'.workers = (s.setWorker worker .awake).workers)
    (tasks : s'.tasks = s.tasks) (signals : s.signals ≤ s'.signals + 1)
    (flags : s'.stopping = s.stopping ∧ s'.broadcast = s.broadcast ∧
      s'.destructor = s.destructor) : Watched s' := by
  obtain ⟨hstopping, hbroadcast, hdestructor⟩ := flags
  have hawake : s'.awake = s.awake + 1 := by
    have hsum := awake_setWorker s worker .awake
    have hnone : (s.workers worker).awakes = 0 := by
      cases hstate : s.workers worker with
      | awake => exact absurd hstate up
      | _ => rfl
    rw [hnone, Nat.add_zero] at hsum
    rw [Monitor.awake, workers]
    exact hsum
  have hbefore : ∀ other, s'.workers other = .asleep → s.workers other = .asleep := by
    intro other hasleep
    rw [workers] at hasleep
    exact asleep_setWorker (by nofun) hasleep
  refine ⟨fun other hasleep => ?_, fun other hasleep => ?_, ?_, hdestructor ▸ watched.joining⟩
  · have htasks := watched.tasks other (hbefore other hasleep)
    rw [tasks, hawake]
    omega
  · rw [hstopping, hbroadcast]
    exact watched.stopping other (hbefore other hasleep)
  · rw [hstopping, hdestructor]
    exact watched.called

theorem Watched.step {s s' : Monitor Task count} (watched : Watched s)
    {event : Event Task count} (next : step s event = some s') : Watched s' := by
  cases stepped_of_step next with
  | @enqueued task accepts =>
      refine ⟨fun worker hasleep => ?_, watched.stopping, watched.called, watched.joining⟩
      have htasks := watched.tasks worker hasleep
      change (s.tasks ++ [task]).length ≤ s.signals + 1 + s.awake
      rw [List.length_append, List.length_singleton]
      omega
  | enqueueThrew stopping => exact watched
  | notifyNone signals nobody =>
      refine ⟨fun worker hasleep => ?_, watched.stopping, watched.called, watched.joining⟩
      have hup := nobody worker
      rw [(isAsleep_iff _).mpr hasleep] at hup
      cases hup
  | notifyWorker signals asleep =>
      exact watched.rouse (by rw [asleep]; nofun) rfl rfl signals.le ⟨rfl, rfl, rfl⟩
  | check awake => exact watched.check awake
  | finish running =>
      exact watched.rouse (by rw [running]; nofun) rfl rfl (Nat.le_succ _) ⟨rfl, rfl, rfl⟩
  | spurious asleep =>
      exact watched.rouse (by rw [asleep]; nofun) rfl rfl (Nat.le_succ _) ⟨rfl, rfl, rfl⟩
  | stop first =>
      refine ⟨watched.tasks, fun _ _ _ => rfl, fun _ => by nofun, fun joined hjoined => ?_⟩
      cases hjoined
      exact Nat.zero_le _
  | notifyAll broadcast =>
      have hnobody : ∀ worker, (s.workers worker).roused ≠ .asleep := by
        intro worker
        cases s.workers worker <;> nofun
      exact ⟨fun worker hasleep => absurd hasleep (hnobody worker),
        fun worker hasleep => absurd hasleep (hnobody worker), watched.called, watched.joining⟩
  | join joining told more returned =>
      refine ⟨watched.tasks, watched.stopping, fun _ => by nofun, fun joined hjoined => ?_⟩
      cases hjoined
      exact more

theorem watched_of_run {threadCount : Nat} {s : Monitor Task (workerCount threadCount)}
    {trace : List (Event Task (workerCount threadCount))}
    (run : Run (fun s event s' => step s event = some s') (.new threadCount) trace s) :
    Watched s :=
  @Run.invariant _ _ _ _ (fun _ s => Watched s) (watched_new threadCount)
    (fun _ _ _ _ watched next => watched.step next) _ _ run

def Event.own : Event Task count → Bool
  | .notifyOne _ => true
  | .check _ => true
  | .finish _ => true
  | .notifyAll => true
  | .join => true
  | _ => false

def Sleeper.work : Sleeper Task → Nat
  | .awake => 1
  | .running _ => 2
  | _ => 0

def Monitor.joinsLeft (s : Monitor Task count) : Nat :=
  match s.destructor with
  | .notCalled => 0
  | .joining joined => count - joined

def Monitor.work (s : Monitor Task count) : Nat :=
  2 * s.tasks.length + 2 * s.signals + ∑ worker, (s.workers worker).work +
    (if s.broadcast then count + 1 else 0) + s.joinsLeft

def brings : Event Task count → Nat
  | .enqueued _ => 4
  | .spurious _ => 1
  | .stop => 2 * count + 1
  | _ => 0

theorem work_setWorker (s : Monitor Task count) (worker : Fin count) (state : Sleeper Task) :
    (s.setWorker worker state).work + (s.workers worker).work = s.work + state.work := by
  have hsum := sum_update s.workers worker state Sleeper.work
  change 2 * s.tasks.length + 2 * s.signals +
    ∑ other, (Function.update s.workers worker state other).work +
      (if s.broadcast then count + 1 else 0) + s.joinsLeft + (s.workers worker).work = _
  rw [Monitor.work]
  omega

theorem work_roused (s : Monitor Task count) :
    ∑ worker, (s.workers worker).roused.work ≤ ∑ worker, (s.workers worker).work + count := by
  have hone : ∀ state : Sleeper Task, state.roused.work ≤ state.work + 1 := by
    intro state
    cases state <;> simp [Sleeper.roused, Sleeper.work]
  calc ∑ worker, (s.workers worker).roused.work
      ≤ ∑ worker, ((s.workers worker).work + 1) := Finset.sum_le_sum fun worker _ => hone _
    _ = ∑ worker, (s.workers worker).work + count := by
        rw [Finset.sum_add_distrib, Finset.sum_const, Finset.card_univ, Fintype.card_fin,
          smul_eq_mul, mul_one]

theorem work_check {s : Monitor Task count} {worker : Fin count}
    (awake : s.workers worker = .awake) : (s.check worker).work + 1 ≤ s.work := by
  have hone : (s.workers worker).work = 1 := by
    rw [awake]
    rfl
  unfold Monitor.check
  cases htasks : s.tasks with
  | nil =>
      have hset := work_setWorker s worker (if s.stopping then .returned else .asleep)
      have hnone : (if s.stopping then Sleeper.returned else .asleep : Sleeper Task).work = 0 := by
        split_ifs <;> rfl
      simp only
      omega
  | cons task rest =>
      have hset := work_setWorker s worker (.running task)
      have htwo : (Sleeper.running task).work = 2 := rfl
      simp only [Monitor.work, htasks, List.length_cons, Monitor.setWorker] at hset ⊢
      simp only [Monitor.joinsLeft] at hset ⊢
      omega

theorem work_paid : Paid (fun (s : Monitor Task count) event s' => step s event = some s')
    (fun _ => True) Monitor.work (fun event => event.own.toNat) brings where
  kept _ _ _ _ _ := trivial
  pays s event s' _ next := by
    cases stepped_of_step next with
    | @enqueued task accepts =>
        simp only [Monitor.work, Monitor.joinsLeft, List.length_append, List.length_singleton,
          brings, Event.own, Bool.toNat_false]
        omega
    | enqueueThrew stopping => exact le_of_eq rfl
    | @notifyNone rest signals nobody =>
        simp only [Monitor.work, Monitor.joinsLeft, signals, brings, Event.own, Bool.toNat_true]
        omega
    | @notifyWorker rest worker signals asleep =>
        have hset := work_setWorker s worker .awake
        rw [asleep, show (Sleeper.asleep : Sleeper Task).work = 0 from rfl,
          show (Sleeper.awake : Sleeper Task).work = 1 from rfl] at hset
        simp only [Monitor.work, Monitor.joinsLeft, Monitor.setWorker, signals] at hset
        simp only [Monitor.work, Monitor.joinsLeft, Monitor.setWorker, signals, brings, Event.own,
          Bool.toNat_true]
        omega
    | check awake => exact work_check awake
    | @finish worker task running =>
        have hset := work_setWorker s worker .awake
        rw [running] at hset
        simp only [Sleeper.work] at hset
        change (s.setWorker worker .awake).work + 1 ≤ s.work
        omega
    | @spurious worker asleep =>
        have hset := work_setWorker s worker .awake
        rw [asleep] at hset
        simp only [Sleeper.work] at hset
        change (s.setWorker worker .awake).work ≤ s.work + 1
        omega
    | stop first =>
        simp only [Monitor.work, Monitor.joinsLeft, first, brings, Event.own, Bool.toNat_false]
        split_ifs <;> omega
    | notifyAll broadcast =>
        have hroused := work_roused s
        simp only [Monitor.work, Monitor.joinsLeft, broadcast, brings, Event.own, Bool.toNat_true,
          if_true]
        simp only [Bool.false_eq_true, if_false]
        omega
    | join joining told more returned =>
        simp only [Monitor.work, Monitor.joinsLeft, joining, brings, Event.own, Bool.toNat_true]
        omega

def Still (s : Monitor Task count) : Prop :=
  ∀ event : Event Task count, event.own = true → step s event = none

/-- Each accepted task has been run, and the workers sleep or are joined. -/
structure Settled (trace : List (Event Task count)) (s : Monitor Task count) : Prop where
  tasks : s.tasks = []
  executed : s.executed.Perm (accepted (trace.filterMap poolEvent))
  asleep : s.destructor = .notCalled → ∀ worker, s.workers worker = .asleep
  joined : s.destructor ≠ .notCalled → s.destructor = .joining count

theorem Still.workers {s : Monitor Task count} (still : Still s) :
    s.broadcast = false ∧
      (∀ worker, s.workers worker = .asleep ∨ s.workers worker = .returned) ∧
      ((∃ worker, s.workers worker = .asleep) → s.signals = 0) := by
  refine ⟨?_, fun worker => ?_, fun ⟨worker, hasleep⟩ => ?_⟩
  · by_contra hbroadcast
    have hnext := still .notifyAll rfl
    simp only [step, Bool.eq_true_of_not_eq_false hbroadcast, if_true] at hnext
    cases hnext
  · cases hstate : s.workers worker with
    | asleep => exact .inl rfl
    | returned => exact .inr rfl
    | awake =>
        have hnext := still (.check worker) rfl
        simp only [step, hstate] at hnext
        cases hnext
    | running task =>
        have hnext := still (.finish worker) rfl
        simp only [step, hstate] at hnext
        cases hnext
  · have hnext := still (.notifyOne (some worker)) rfl
    cases hsignals : s.signals with
    | zero => rfl
    | succ rest =>
        simp only [step, hsignals, Monitor.notify, hasleep, Sleeper.isAsleep, if_true] at hnext
        cases hnext

theorem Still.awake {s : Monitor Task count} (still : Still s) : s.awake = 0 := by
  refine Finset.sum_eq_zero fun worker _ => ?_
  rcases still.workers.2.1 worker with hstate | hstate
  · rw [hstate]
    rfl
  · rw [hstate]
    rfl

theorem settled_of_still {threadCount : Nat} {s : Monitor Task (workerCount threadCount)}
    {trace : List (Event Task (workerCount threadCount))}
    (run : Run (fun s event s' => step s event = some s') (.new threadCount) trace s)
    (still : Still s) : Settled trace s := by
  have hwatched := watched_of_run run
  have hpool : ThreadPooling.Inv (trace.filterMap poolEvent) s.pool :=
    ThreadPooling.inv_of_run (pool_run run)
  obtain ⟨hbroadcast, hworkers, hsignals⟩ := still.workers
  have htasks : s.tasks = [] := by
    rcases hworkers 0 with hasleep | hreturned
    · have hle := hwatched.tasks 0 hasleep
      rw [hsignals ⟨0, hasleep⟩, still.awake] at hle
      exact List.eq_nil_of_length_eq_zero (Nat.le_zero.mp hle)
    · refine (hpool.returned 0 ?_).2
      change (s.workers 0).worker = _
      rw [hreturned]
      rfl
  have hnone : s.pool.running = 0 := by
    refine Finset.sum_eq_zero fun worker _ => ?_
    change (s.workers worker).worker.held = 0
    rcases hworkers worker with hstate | hstate
    · rw [hstate]
      rfl
    · rw [hstate]
      rfl
  refine ⟨htasks, ?_, fun hcalled worker => ?_, fun hcalled => ?_⟩
  · have htaken := hpool.taken
    have horder : s.dequeued ++ s.tasks = accepted (trace.filterMap poolEvent) := hpool.order
    rw [hnone, add_zero] at htaken
    rw [htasks, List.append_nil] at horder
    rw [← horder]
    exact Multiset.coe_eq_coe.mp htaken
  · rcases hworkers worker with hasleep | hreturned
    · exact hasleep
    · have hstopping := (hpool.returned worker (by
        change (s.workers worker).worker = _
        rw [hreturned]
        rfl)).1
      exact absurd hcalled (hwatched.called hstopping)
  · cases hdestructor : s.destructor with
    | notCalled => exact absurd hdestructor hcalled
    | joining joined =>
        have hstopping : s.stopping = true := hpool.stopped hcalled
        by_contra hmore
        have hless : joined < workerCount threadCount :=
          lt_of_le_of_ne (hwatched.joining joined hdestructor) fun heq => hmore (by rw [heq])
        have hreturned : s.workers ⟨joined, hless⟩ = .returned := by
          refine (hworkers _).resolve_left fun hasleep => ?_
          have htold := hwatched.stopping _ hasleep hstopping
          rw [hbroadcast] at htold
          cases htold
        have hnext := still .join rfl
        simp only [step, hdestructor, hbroadcast, hless, hreturned] at hnext
        cases hnext

/-- Wherever a run comes to, the pool's own steps are at most `work` in number and, when no
more of them is possible, have run every accepted task: none is left behind by a worker that
sleeps on, and the destructor joins them all. -/
theorem pool_never_stalls {threadCount : Nat} {s : Monitor Task (workerCount threadCount)}
    {trace : List (Event Task (workerCount threadCount))}
    (run : Run (fun s event s' => step s event = some s') (.new threadCount) trace s) :
    Run (fun s event s' => ThreadPooling.step s event = some s') (.new threadCount)
        (trace.filterMap poolEvent) s.pool ∧
      (∀ rest s', Run (fun s event s' => step s event = some s') s rest s' →
        (∀ event ∈ rest, event.own = true) → rest.length ≤ s.work ∧
          (Still s' → Settled (trace ++ rest) s')) ∧
      ∃ rest s', Run (fun s event s' => step s event = some s') s rest s' ∧
        (∀ event ∈ rest, event.own = true) ∧ Settled (trace ++ rest) s' := by
  have hspends : ∀ event : Event Task (workerCount threadCount), event.own = true →
      1 ≤ event.own.toNat ∧ brings event = 0 := by
    intro event hown
    cases event <;> first | exact ⟨le_rfl, rfl⟩ | cases hown
  obtain ⟨hbound, rest, s', hrest, hown, hnone⟩ :=
    work_paid.rests (fun event => event.own = true) hspends trivial
  refine ⟨pool_run run, fun rest s' hrest hown => ⟨hbound rest s' hrest hown, fun hstill => ?_⟩,
    rest, s', hrest, hown, ?_⟩
  · exact settled_of_still (run_append run hrest) hstill
  · refine settled_of_still (run_append run hrest) fun event hown => ?_
    exact Option.eq_none_iff_forall_ne_some.mpr fun s'' => hnone event s'' hown

theorem pool_never_stalls_two :
    let trace : List (Event Nat (workerCount 2)) := [.check 0, .check 1, .enqueued 7,
      .enqueued 8, .notifyOne (some 1)]
    ∃ s : Monitor Nat (workerCount 2), s.workers 0 = .asleep ∧ s.tasks = [7, 8] ∧
      Run (fun s event s' => ThreadPooling.step s event = some s') (.new 2)
        (trace.filterMap poolEvent) s.pool ∧
      (∀ rest s', Run (fun s event s' => step s event = some s') s rest s' →
        (∀ event ∈ rest, event.own = true) → rest.length ≤ s.work ∧
          (Still s' → Settled (trace ++ rest) s')) ∧
      ∃ rest s', Run (fun s event s' => step s event = some s') s rest s' ∧
        (∀ event ∈ rest, event.own = true) ∧ Settled (trace ++ rest) s' :=
  ⟨_, rfl, rfl, pool_never_stalls (run_of_exec rfl)⟩

end ApiGateway.PoolWakeups
