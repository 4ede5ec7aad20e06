import ApiGateway.AsyncLogging
import ApiGateway.StepMeasures

/-! `AsyncLogger` with its condition variable. The background thread and the callers of
`flush` wait on the same one, and `log` and `flush` notify one waiter, whichever it is. The
wakeup is never taken by a thread that has no use for it, so that the background thread could
do without the timeout of its wait. -/

namespace ApiGateway.LoggerWakeups
open ByteText StepRuns StepMeasures
open AsyncLogging (Logger LogRecord Worker Destructor logged)

variable {count : Nat}

/-- A thread that may call `flush`; a `woken` one is about to take the mutex out of `wait`. -/
inductive Caller where
  | idle
  | asleep
  | woken
  deriving DecidableEq

/-- With `asleep` the background thread is in `wait_for`. `signals` calls of `log` have not
come to their `notify_one` yet, and with `broadcast` the destructor has not come to its
`notify_all`. -/
structure Monitor (count : Nat) where
  logger : Logger
  asleep : Bool
  callers : Fin count → Caller
  signals : Nat
  broadcast : Bool

def Monitor.new : Monitor count := ⟨.new, false, fun _ => .idle, 0, false⟩

inductive Waiter (count : Nat) where
  | background
  | caller (i : Fin count)
  deriving DecidableEq

inductive Event (count : Nat) where
  /-- `log` holds the mutex -/
  | log (record : LogRecord)
  /-- `log` has left the mutex; one of those who wait is woken, if there is one -/
  | notifyOne (woken : Option (Waiter count))
  /-- the background thread finds nothing to do -/
  | sleep
  | swap
  /-- the background thread has waited for its 200 ms and takes the mutex -/
  | timeout
  /-- the wait of the background thread ends by itself -/
  | spurious
  | write
  | flushCheck
  /-- `flush` takes the mutex, notifies and waits -/
  | flush (i : Fin count) (woken : Option (Waiter count))
  /-- a caller that was woken waits again -/
  | wait (i : Fin count)
  | flushReturn (i : Fin count)
  | spuriousFlush (i : Fin count)
  | stop
  | notifyAll
  | join
  | drain
  | write0
  | write1
  deriving DecidableEq

/-- The predicate of the background thread's wait. -/
def ready (s : Logger) : Bool :=
  s.stopping || s.flushRequested || ! (s.buffers s.activeIndex = [])

def Monitor.does (s : Monitor count) (event : AsyncLogging.Event) : Option (Monitor count) :=
  (AsyncLogging.step s.logger event).map fun logger => { s with logger := logger }

def Monitor.setCaller (s : Monitor count) (i : Fin count) (state : Caller) : Monitor count :=
  { s with callers := Function.update s.callers i state }

def Monitor.notify (s : Monitor count) : Option (Waiter count) → Option (Monitor count)
  | none => if s.asleep = false ∧ ∀ i, s.callers i ≠ .asleep then some s else none
  | some .background => if s.asleep then some { s with asleep := false } else none
  | some (.caller i) => if s.callers i = .asleep then some (s.setCaller i .woken) else none

def Caller.roused : Caller → Caller
  | .asleep => .woken
  | state => state

def Monitor.rouse (s : Monitor count) : Monitor count :=
  { s with asleep := false, callers := fun i => (s.callers i).roused }

def step (s : Monitor count) : Event count → Option (Monitor count)
  | .log record => (s.does (.log record)).map fun s' => { s' with signals := s.signals + 1 }
  | .notifyOne woken =>
      match s.signals with
      | 0 => none
      | rest + 1 => ({ s with signals := rest } : Monitor count).notify woken
  | .sleep =>
      if s.logger.worker = .waiting ∧ s.asleep = false ∧ ready s.logger = false then
        some { s with asleep := true }
      else none
  | .swap => if s.asleep = false ∧ ready s.logger = true then s.does .swap else none
  -- when the time is over it may be up, before it has the mutex
  | .timeout => (s.does .swap).map fun s' => { s' with asleep := false }
  | .spurious => if s.asleep then some { s with asleep := false } else none
  | .write => s.does .write
  | .flushCheck =>
      (s.does .flushCheck).map fun s' =>
        if s.logger.flushRequested ∧ s'.logger.flushRequested = false then s'.rouse else s'
  | .flush i woken =>
      if s.callers i = .idle then
        ((s.does (.flush i)).bind fun s' => s'.notify woken).map fun s' => s'.setCaller i .asleep
      else none
  | .wait i =>
      if s.callers i = .woken ∧ s.logger.flushRequested = true then some (s.setCaller i .asleep)
      else none
  | .flushReturn i =>
      if s.callers i = .woken then (s.does (.flushReturn i)).map fun s' => s'.setCaller i .idle
      else none
  | .spuriousFlush i =>
      if s.callers i = .asleep then some (s.setCaller i .woken) else none
  | .stop => (s.does .stop).map fun s' => { s' with broadcast := true }
  | .notifyAll =>
      if s.broadcast then some { s.rouse with broadcast := false } else none
  | .join => if s.broadcast then none else s.does .join
  | .drain => s.does .drain
  | .write0 => s.does .write0
  | .write1 => s.does .write1

inductive Notified (s : Monitor count) : Monitor count → Prop
  | nobody (background : s.asleep = false) (callers : ∀ i, s.callers i ≠ .asleep) : Notified s s
  | background (asleep : s.asleep = true) : Notified s { s with asleep := false }
  | caller {i : Fin count} (asleep : s.callers i = .asleep) : Notified s (s.setCaller i .woken)

theorem notified_of_notify {s s' : Monitor count} {woken : Option (Waiter count)}
    (next : s.notify woken = some s') : Notified s s' := by
  cases woken with
  | none =>
      simp only [Monitor.notify] at next
      split_ifs at next with hnobody
      cases next
      exact .nobody hnobody.1 hnobody.2
  | some waiter =>
      cases waiter with
      | background =>
          simp only [Monitor.notify] at next
          split_ifs at next with hasleep
          cases next
          exact .background hasleep
      | caller i =>
          simp only [Monitor.notify] at next
          split_ifs at next with hasleep
          cases next
          exact .caller hasleep

theorem exists_notify (s : Monitor count) : ∃ woken s', s.notify woken = some s' := by
  by_cases hasleep : s.asleep = true
  · exact ⟨some .background, _, if_pos hasleep⟩
  · by_cases hcaller : ∃ i, s.callers i = .asleep
    · obtain ⟨i, hi⟩ := hcaller
      exact ⟨some (.caller i), _, if_pos hi⟩
    · exact ⟨none, _, if_pos ⟨Bool.not_eq_true _ ▸ hasleep, fun i hi => hcaller ⟨i, hi⟩⟩⟩

theorem does_eq_some_iff {s s' : Monitor count} {event : AsyncLogging.Event} :
    s.does event = some s' ↔
      ∃ logger, AsyncLogging.step s.logger event = some logger ∧
        s' = { s with logger := logger } := by
  rw [Monitor.does, Option.map_eq_some_iff]
  simp only [eq_comm]

def Monitor.request (s : Monitor count) (i : Fin count) : Monitor count :=
  { s with logger := { s.logger with
      flushRequested := true
      flushing := Function.update s.logger.flushing i true } }

inductive Stepped (s : Monitor count) : Event count → Monitor count → Prop
  | log {record : LogRecord} :
      Stepped s (.log record) { s with logger := s.logger.log record, signals := s.signals + 1 }
  | notifyOne {rest : Nat} {woken : Option (Waiter count)} {s' : Monitor count}
      (signals : s.signals = rest + 1) (notified : Notified { s with signals := rest } s') :
      Stepped s (.notifyOne woken) s'
  | sleep (waiting : s.logger.worker = .waiting) (awake : s.asleep = false)
      (nothing : ready s.logger = false) : Stepped s .sleep { s with asleep := true }
  | swap (waiting : s.logger.worker = .waiting) (awake : s.asleep = false)
      (something : ready s.logger = true) : Stepped s .swap { s with logger := s.logger.swap }
  | timeout (waiting : s.logger.worker = .waiting) :
      Stepped s .timeout { s with logger := s.logger.swap, asleep := false }
  | spurious (asleep : s.asleep = true) : Stepped s .spurious { s with asleep := false }
  | write {toWrite : List LogRecord} {stopNow : Bool}
      (writing : s.logger.worker = .writing toWrite stopNow) :
      Stepped s .write { s with logger :=
        { s.logger with written := s.logger.written ++ toWrite, worker := .checking stopNow } }
  | flushed {stopNow : Bool} (checking : s.logger.worker = .checking stopNow)
      (requested : s.logger.flushRequested = true)
      (cleared : (s.logger.flushCheck stopNow).flushRequested = false) :
      Stepped s .flushCheck ({ s with logger := s.logger.flushCheck stopNow } : Monitor count).rouse
  | unflushed {stopNow : Bool} (checking : s.logger.worker = .checking stopNow)
      (same : (s.logger.flushCheck stopNow).flushRequested = s.logger.flushRequested) :
      Stepped s .flushCheck { s with logger := s.logger.flushCheck stopNow }
  | flush {i : Fin count} {woken : Option (Waiter count)} {s' : Monitor count}
      (idle : s.callers i = .idle) (notified : Notified (s.request i) s') :
      Stepped s (.flush i woken) (s'.setCaller i .asleep)
  | wait {i : Fin count} (woken : s.callers i = .woken)
      (requested : s.logger.flushRequested = true) :
      Stepped s (.wait i) (s.setCaller i .asleep)
  | flushReturn {i : Fin count} (woken : s.callers i = .woken)
      (off : s.logger.flushRequested = false) :
      Stepped s (.flushReturn i)
        (({ s with logger := { s.logger with
          flushing := Function.update s.logger.flushing i false } } : Monitor count).setCaller i
            .idle)
  | spuriousFlush {i : Fin count} (asleep : s.callers i = .asleep) :
      Stepped s (.spuriousFlush i) (s.setCaller i .woken)
  | stop (first : s.logger.destructor = .notCalled) :
      Stepped s .stop { s with
        logger := { s.logger with stopping := true, destructor := .stopping }
        broadcast := true }
  | notifyAll (broadcast : s.broadcast = true) :
      Stepped s .notifyAll { s.rouse with broadcast := false }
  | join (told : s.broadcast = false) (stopping : s.logger.destructor = .stopping)
      (returned : s.logger.worker = .returned) :
      Stepped s .join { s with logger := { s.logger with destructor := .joined } }
  | drain (joined : s.logger.destructor = .joined) :
      Stepped s .drain { s with logger := s.logger.drain }
  | write0 {remaining0 remaining1 : List LogRecord}
      (drained : s.logger.destructor = .drained remaining0 remaining1) :
      Stepped s .write0 { s with logger := { s.logger with
        written := s.logger.written ++ remaining0, destructor := .wrote0 remaining1 } }
  | write1 {remaining1 : List LogRecord} (wrote0 : s.logger.destructor = .wrote0 remaining1) :
      Stepped s .write1 { s with logger := { s.logger with
        written := s.logger.written ++ remaining1, destructor := .finished } }

theorem flushRequested_flushCheck (s : Logger) (stopNow : Bool) :
    (s.flushCheck stopNow).flushRequested = s.flushRequested ∨
      (s.flushCheck stopNow).flushRequested = false := by
  unfold Logger.flushCheck
  cases (decide (s.buffers 0 = []) && decide (s.buffers 1 = [])) with
  | false => exact .inl (by simp)
  | true => exact .inr (by simp)

theorem stepped_of_step {s s' : Monitor count} {event : Event count}
    (next : step s event = some s') : Stepped s event s' := by
  cases event with
  | log record =>
      simp only [step] at next
      obtain ⟨s'', hdoes, rfl⟩ := Option.map_eq_some_iff.mp next
      obtain ⟨logger, hlogger, rfl⟩ := does_eq_some_iff.mp hdoes
      cases AsyncLogging.stepped_of_step hlogger with
      | log => exact .log
  | notifyOne woken =>
      simp only [step] at next
      cases hsignals : s.signals with
      | zero =>
          rw [hsignals] at next
          cases next
      | succ rest =>
          rw [hsignals] at next
          exact .notifyOne hsignals (notified_of_notify next)
  | sleep =>
      simp only [step] at next
      split_ifs at next with hsleeps
      cases next
      exact .sleep hsleeps.1 hsleeps.2.1 hsleeps.2.2
  | swap =>
      simp only [step] at next
      split_ifs at next with hready
      obtain ⟨logger, hlogger, rfl⟩ := does_eq_some_iff.mp next
      cases AsyncLogging.stepped_of_step hlogger with
      | swap hwaiting => exact .swap hwaiting hready.1 hready.2
  | timeout =>
      obtain ⟨s'', hdoes, rfl⟩ := Option.map_eq_some_iff.mp next
      obtain ⟨logger, hlogger, rfl⟩ := does_eq_some_iff.mp hdoes
      cases AsyncLogging.stepped_of_step hlogger with
      | swap hwaiting => exact .timeout hwaiting
  | spurious =>
      simp only [step] at next
      split_ifs at next with hasleep
      cases next
      exact .spurious hasleep
  | write =>
      obtain ⟨logger, hlogger, rfl⟩ := does_eq_some_iff.mp next
      cases AsyncLogging.stepped_of_step hlogger with
      | write hwriting => exact .write hwriting
  | flushCheck =>
      obtain ⟨s'', hdoes, rfl⟩ := Option.map_eq_some_iff.mp next
      obtain ⟨logger, hlogger, rfl⟩ := does_eq_some_iff.mp hdoes
      cases AsyncLogging.stepped_of_step hlogger with
      | @flushCheck stopNow hchecking =>
          by_cases hcleared : s.logger.flushRequested = true ∧
              (s.logger.flushCheck stopNow).flushRequested = false
          · rw [if_pos hcleared]
            exact .flushed hchecking hcleared.1 hcleared.2
          · rw [if_neg hcleared]
            refine .unflushed hchecking ?_
            rcases flushRequested_flushCheck s.logger stopNow with hsame | hoff
            · exact hsame
            · rw [hoff]
              by_contra hon
              exact hcleared ⟨Bool.eq_true_of_not_eq_false fun h => hon h.symm, hoff⟩
  | flush i woken =>
      simp only [step] at next
      split_ifs at next with hidle
      obtain ⟨s₂, hnotify, rfl⟩ := Option.map_eq_some_iff.mp next
      obtain ⟨s₁, hdoes, hnotified⟩ := Option.bind_eq_some_iff.mp hnotify
      obtain ⟨logger, hlogger, rfl⟩ := does_eq_some_iff.mp hdoes
      cases AsyncLogging.stepped_of_step hlogger with
      | flush => exact .flush hidle (notified_of_notify hnotified)
  | wait i =>
      simp only [step] at next
      split_ifs at next with hwaits
      cases next
      exact .wait hwaits.1 hwaits.2
  | flushReturn i =>
      simp only [step] at next
      split_ifs at next with hwoken
      obtain ⟨s'', hdoes, rfl⟩ := Option.map_eq_some_iff.mp next
      obtain ⟨logger, hlogger, rfl⟩ := does_eq_some_iff.mp hdoes
      cases AsyncLogging.stepped_of_step hlogger with
      | flushReturn _ hoff => exact .flushReturn hwoken hoff
  | spuriousFlush i =>
      simp only [step] at next
      split_ifs at next with hasleep
      cases next
      exact .spuriousFlush hasleep
  | stop =>
      obtain ⟨s'', hdoes, rfl⟩ := Option.map_eq_some_iff.mp next
      obtain ⟨logger, hlogger, rfl⟩ := does_eq_some_iff.mp hdoes
      cases AsyncLogging.stepped_of_step hlogger with
      | stop hfirst => exact .stop hfirst
  | notifyAll =>
      simp only [step] at next
      split_ifs at next with hbroadcast
      cases next
      exact .notifyAll hbroadcast
  | join =>
      simp only [step] at next
      split_ifs at next with hbroadcast
      obtain ⟨logger, hlogger, rfl⟩ := does_eq_some_iff.mp next
      cases AsyncLogging.stepped_of_step hlogger with
      | join hstopping hreturned =>
          exact .join (Bool.not_eq_true _ ▸ hbroadcast) hstopping hreturned
  | drain =>
      obtain ⟨logger, hlogger, rfl⟩ := does_eq_some_iff.mp next
      cases AsyncLogging.stepped_of_step hlogger with
      | drain hjoined => exact .drain hjoined
  | write0 =>
      obtain ⟨logger, hlogger, rfl⟩ := does_eq_some_iff.mp next
      cases AsyncLogging.stepped_of_step hlogger with
      | write0 hdrained => exact .write0 hdrained
  | write1 =>
      obtain ⟨logger, hlogger, rfl⟩ := does_eq_some_iff.mp next
      cases AsyncLogging.stepped_of_step hlogger with
      | write1 hwrote0 => exact .write1 hwrote0

/-- The critical sections, and the writes outside of them. -/
def loggerEvent : Event count → Option AsyncLogging.Event
  | .log record => some (.log record)
  | .swap => some .swap
  | .timeout => some .swap
  | .write => some .write
  | .flushCheck => some .flushCheck
  | .flush i _ => some (.flush i)
  | .flushReturn i => some (.flushReturn i)
  | .stop => some .stop
  | .join => some .join
  | .drain => some .drain
  | .write0 => some .write0
  | .write1 => some .write1
  | _ => none

theorem Notified.logger {s s' : Monitor count} (h : Notified s s') : s'.logger = s.logger := by
  cases h with
  | nobody | background | caller => rfl

theorem logger_does {s s' : Monitor count} {event : AsyncLogging.Event}
    (h : s.does event = some s') : AsyncLogging.step s.logger event = some s'.logger := by
  obtain ⟨logger, hlogger, rfl⟩ := does_eq_some_iff.mp h
  exact hlogger

theorem logger_does_map {s s' : Monitor count} {event : AsyncLogging.Event}
    {after : Monitor count → Monitor count} (h : (s.does event).map after = some s')
    (same : ∀ s, (after s).logger = s.logger) :
    AsyncLogging.step s.logger event = some s'.logger := by
  obtain ⟨s'', hdoes, rfl⟩ := Option.map_eq_some_iff.mp h
  rw [logger_does hdoes, same]

theorem logger_step {s s' : Monitor count} {event : Event count} (next : step s event = some s') :
    match loggerEvent event with
    | some coarse => AsyncLogging.step s.logger coarse = some s'.logger
    | none => s'.logger = s.logger := by
  cases event with
  | log | timeout | stop =>
      simp only [step] at next
      exact logger_does_map next fun _ => rfl
  | write | drain | write0 | write1 => exact logger_does next
  | flushCheck =>
      refine logger_does_map next fun s' => ?_
      split_ifs
      · rfl
      · rfl
  | swap | join =>
      simp only [step] at next
      split_ifs at next
      exact logger_does next
  | flushReturn i =>
      simp only [step] at next
      split_ifs at next
      exact logger_does_map next fun _ => rfl
  | flush i woken =>
      simp only [step] at next
      split_ifs at next
      obtain ⟨s₂, hnotify, rfl⟩ := Option.map_eq_some_iff.mp next
      obtain ⟨s₁, hdoes, hnotified⟩ := Option.bind_eq_some_iff.mp hnotify
      have hlogger := logger_does hdoes
      rwa [← (notified_of_notify hnotified).logger] at hlogger
  | sleep | spurious | wait i | spuriousFlush i | notifyAll =>
      simp only [step] at next
      split_ifs at next
      cases next
      rfl
  | notifyOne woken =>
      cases stepped_of_step next with
      | notifyOne _ hnotified => exact hnotified.logger

theorem logger_run {start s : Monitor count} {trace : List (Event count)}
    (run : Run (fun s event s' => step s event = some s') start trace s) :
    Run (fun s event s' => AsyncLogging.step s event = some s') start.logger
      (trace.filterMap loggerEvent) s.logger := by
  refine run.project Monitor.logger fun s event s' next => ?_
  have hstep := logger_step next
  cases hevent : loggerEvent event with
  | none =>
      rw [hevent] at hstep
      exact hstep
  | some coarse =>
      rw [hevent] at hstep
      exact hstep

/-- While the background thread sleeps no `flush` is waiting, so that a `notify_one` can only
wake the background thread; each record has one on its way, and after `stop` the `notify_all` is
on its way. -/
structure Watched (s : Monitor count) : Prop where
  waiting : s.asleep = true → s.logger.worker = .waiting
  flushing : s.asleep = true → s.logger.flushRequested = false
  records : s.asleep = true → s.logger.buffers s.logger.activeIndex = [] ∨ 0 < s.signals
  stopping : s.asleep = true → s.logger.stopping = true → s.broadcast = true
  callers : ∀ i, s.callers i = .asleep → s.logger.flushRequested = true

theorem watched_new : Watched (.new : Monitor count) :=
  ⟨fun h => (by cases h), fun h => (by cases h), fun h => (by cases h), fun h => (by cases h),
    fun _ h => (by cases h)⟩

theorem watched_of_awake {s : Monitor count} (awake : s.asleep = false)
    (callers : ∀ i, s.callers i = .asleep → s.logger.flushRequested = true) : Watched s := by
  refine ⟨fun h => ?_, fun h => ?_, fun h => ?_, fun h => ?_, callers⟩
  all_goals exact absurd h (by simp [awake])

theorem Notified.awake {s s' : Monitor count} (h : Notified s s')
    (alone : s.asleep = true → ∀ i, s.callers i ≠ .asleep) : s'.asleep = false := by
  cases h with
  | nobody background => exact background
  | background => rfl
  | caller asleep =>
      refine Bool.eq_false_of_not_eq_true fun h => ?_
      exact alone h _ asleep

theorem callers_setCaller {s : Monitor count} {i j : Fin count} {state : Caller}
    (asleep : (s.setCaller i state).callers j = .asleep) :
    state = .asleep ∨ s.callers j = .asleep := by
  change Function.update s.callers i state j = .asleep at asleep
  by_cases hsame : j = i
  · rw [hsame, Function.update_self] at asleep
    exact .inl asleep
  · rw [Function.update_of_ne hsame] at asleep
    exact .inr asleep

theorem Notified.callers {s s' : Monitor count} (h : Notified s s') {i : Fin count}
    (asleep : s'.callers i = .asleep) : s.callers i = .asleep := by
  cases h with
  | nobody | background => exact asleep
  | caller =>
      rcases callers_setCaller asleep with hnone | hbefore
      · cases hnone
      · exact hbefore

theorem Watched.alone {s : Monitor count} (watched : Watched s) (asleep : s.asleep = true)
    (i : Fin count) : s.callers i ≠ .asleep := by
  intro hcaller
  have hon := watched.callers i hcaller
  rw [watched.flushing asleep] at hon
  cases hon

theorem Watched.setCaller {s : Monitor count} (watched : Watched s) {i : Fin count}
    {state : Caller} (waits : state = .asleep → s.logger.flushRequested = true) :
    Watched (s.setCaller i state) := by
  refine ⟨watched.waiting, watched.flushing, watched.records, watched.stopping, fun j hj => ?_⟩
  rcases callers_setCaller hj with hnew | hbefore
  · exact waits hnew
  · exact watched.callers j hbefore

theorem roused_ne (state : Caller) : state.roused ≠ .asleep := by
  cases state <;> simp [Caller.roused]

theorem Watched.step {s s' : Monitor count} (watched : Watched s) {event : Event count}
    (next : step s event = some s') : Watched s' := by
  cases stepped_of_step next with
  | log => exact ⟨watched.waiting, watched.flushing, fun _ => .inr (Nat.succ_pos _),
      watched.stopping, watched.callers⟩
  | @notifyOne rest woken _ signals notified =>
      refine watched_of_awake (notified.awake watched.alone) fun i hi => ?_
      rw [notified.logger]
      exact watched.callers i (notified.callers hi)
  | sleep waiting awake nothing =>
      simp only [ready, Bool.or_eq_false_iff, Bool.not_eq_false', decide_eq_true_eq] at nothing
      obtain ⟨⟨hstopping, hflush⟩, hempty⟩ := nothing
      refine ⟨fun _ => waiting, fun _ => hflush, fun _ => .inl hempty, fun _ hstop => ?_,
        watched.callers⟩
      rw [hstopping] at hstop
      cases hstop
  | swap waiting awake something => exact watched_of_awake awake watched.callers
  | timeout waiting => exact watched_of_awake rfl watched.callers
  | spurious asleep => exact watched_of_awake rfl watched.callers
  | write writing =>
      refine ⟨fun hasleep => ?_, watched.flushing, watched.records, watched.stopping,
        watched.callers⟩
      have hwaiting := watched.waiting hasleep
      rw [writing] at hwaiting
      cases hwaiting
  | flushed checking requested cleared =>
      exact watched_of_awake rfl fun i hi => absurd hi (roused_ne _)
  | unflushed checking same =>
      refine watched_of_awake ?_ fun i hi => ?_
      · refine Bool.eq_false_of_not_eq_true fun hasleep => ?_
        have hwaiting := watched.waiting hasleep
        rw [checking] at hwaiting
        cases hwaiting
      · rw [same]
        exact watched.callers i hi
  | @flush i woken s₂ idle notified =>
      have hawake := notified.awake watched.alone
      have hlogger := notified.logger
      refine watched_of_awake hawake fun j _ => ?_
      change s₂.logger.flushRequested = true
      rw [hlogger]
      rfl
  | wait woken requested => exact watched.setCaller fun _ => requested
  | flushReturn woken off =>
      exact ⟨watched.waiting, watched.flushing, watched.records, watched.stopping, fun j hj => by
        rcases callers_setCaller hj with hnew | hbefore
        · cases hnew
        · exact watched.callers j hbefore⟩
  | spuriousFlush asleep => exact watched.setCaller fun h => by cases h
  | stop first =>
      exact ⟨watched.waiting, watched.flushing, watched.records, fun _ _ => rfl, watched.callers⟩
  | notifyAll broadcast => exact watched_of_awake rfl fun i hi => absurd hi (roused_ne _)
  | join told stopping returned =>
      exact ⟨watched.waiting, watched.flushing, watched.records, watched.stopping,
        watched.callers⟩
  | drain joined =>
      exact ⟨watched.waiting, watched.flushing, fun _ => .inl rfl, watched.stopping,
        watched.callers⟩
  | write0 drained | write1 wrote0 =>
      exact ⟨watched.waiting, watched.flushing, watched.records, watched.stopping,
        watched.callers⟩

theorem watched_of_run {s : Monitor count} {trace : List (Event count)}
    (run : Run (fun s event s' => step s event = some s') .new trace s) : Watched s :=
  @Run.invariant _ _ _ _ (fun _ s => Watched s) watched_new
    (fun _ _ _ _ watched next => watched.step next) _ _ run

def stopNow : Worker → Bool
  | .waiting => false
  | .writing _ stopNow => stopNow
  | .checking stopNow => stopNow
  | .returned => true

structure Told (s : Logger) : Prop where
  called : s.stopping = true ↔ s.destructor ≠ .notCalled
  worker : stopNow s.worker = true → s.stopping = true

theorem Told.step {s s' : Logger} (told : Told s) {event : AsyncLogging.Event}
    (next : AsyncLogging.step s event = some s') : Told s' := by
  cases AsyncLogging.stepped_of_step next with
  | log | flush | flushReturn => exact ⟨told.called, told.worker⟩
  | swap waiting => exact ⟨told.called, id⟩
  | write writing => exact ⟨told.called, fun h => told.worker (by rw [writing]; exact h)⟩
  | @flushCheck stop checking =>
      refine ⟨told.called, fun h => told.worker ?_⟩
      rw [checking]
      change stopNow (if stop then .returned else .waiting) = true at h
      split_ifs at h with hstop
      · exact hstop
      · cases h
  | stop => exact ⟨by simp, fun _ => rfl⟩
  | join stopping =>
      exact ⟨told.called.trans (by simp [stopping]), told.worker⟩
  | drain joined => exact ⟨told.called.trans (by simp [joined, Logger.drain]), told.worker⟩
  | write0 drained => exact ⟨told.called.trans (by simp [drained]), told.worker⟩
  | write1 wrote0 => exact ⟨told.called.trans (by simp [wrote0]), told.worker⟩

theorem told_of_run {s : Logger} {trace : List AsyncLogging.Event}
    (run : Run (fun s event s' => AsyncLogging.step s event = some s') .new trace s) : Told s :=
  @Run.invariant _ _ _ _ (fun _ s => Told s) ⟨by simp [Logger.new], fun h => by cases h⟩
    (fun _ _ _ _ told next => told.step next) _ _ run

def Flushing (s : Monitor count) : Prop :=
  ∀ i, s.callers i ≠ .idle → s.logger.flushing i = true

theorem Notified.busy {s s' : Monitor count} (h : Notified s s') {i : Fin count}
    (busy : s'.callers i ≠ .idle) : s.callers i ≠ .idle := by
  cases h with
  | nobody | background => exact busy
  | @caller j asleep =>
      intro hidle
      have hother : i ≠ j := fun heq => by
        rw [heq, asleep] at hidle
        cases hidle
      exact busy ((Function.update_of_ne hother _ _).trans hidle)

theorem Flushing.of_same {s s' : Monitor count} (flushing : Flushing s)
    (callers : ∀ i, s'.callers i ≠ .idle → s.callers i ≠ .idle)
    (logger : s'.logger.flushing = s.logger.flushing) : Flushing s' := by
  intro i hbusy
  rw [logger]
  exact flushing i (callers i hbusy)

theorem busy_setCaller {s : Monitor count} {i : Fin count} {state : Caller}
    (busy : s.callers i ≠ .idle) (j : Fin count) (h : (s.setCaller i state).callers j ≠ .idle) :
    s.callers j ≠ .idle := by
  by_cases hsame : j = i
  · rw [hsame]
    exact busy
  · intro hidle
    exact h ((Function.update_of_ne hsame _ _).trans hidle)

theorem busy_roused {state : Caller} (busy : state.roused ≠ .idle) : state ≠ .idle := by
  cases state <;> simp_all [Caller.roused]

theorem Flushing.step {s s' : Monitor count} (flushing : Flushing s) {event : Event count}
    (next : step s event = some s') : Flushing s' := by
  cases stepped_of_step next with
  | log | sleep | swap | timeout | spurious | write | unflushed | stop | join | drain | write0
  | write1 => exact flushing.of_same (fun i h => h) rfl
  | notifyOne signals notified =>
      exact flushing.of_same (fun i h => notified.busy h) (by rw [notified.logger])
  | flushed | notifyAll => exact flushing.of_same (fun i h => busy_roused h) rfl
  | @flush i woken s₂ idle notified =>
      intro j hbusy
      change s₂.logger.flushing j = true
      rw [notified.logger]
      by_cases hsame : (j : Nat) = i
      · exact (congrArg _ hsame).trans (Function.update_self _ _ _)
      · refine (Function.update_of_ne hsame _ _).trans (flushing j (notified.busy ?_))
        have hother : j ≠ i := fun heq => hsame (congrArg _ heq)
        exact fun hidle => hbusy ((Function.update_of_ne hother _ _).trans hidle)
  | @wait i woken requested =>
      exact flushing.of_same (busy_setCaller (by simp [woken])) rfl
  | @spuriousFlush i asleep => exact flushing.of_same (busy_setCaller (by simp [asleep])) rfl
  | @flushReturn i woken off =>
      intro j hbusy
      have hother : j ≠ i := fun heq => by
        rw [heq] at hbusy
        exact hbusy (Function.update_self _ _ _)
      have hnumber : (j : Nat) ≠ i := fun heq => hother (Fin.ext heq)
      refine (Function.update_of_ne hnumber _ _).trans (flushing j fun hidle => hbusy ?_)
      exact (Function.update_of_ne hother _ _).trans hidle

theorem flushing_of_run {s : Monitor count} {trace : List (Event count)}
    (run : Run (fun s event s' => step s event = some s') .new trace s) : Flushing s :=
  @Run.invariant _ _ _ _ (fun _ s => Flushing s) (fun _ h => absurd rfl h)
    (fun _ _ _ _ flushing next => flushing.step next) _ _ run

/-- What the logger and the callers in `flush` do by themselves, when no call comes and no wait
ends by itself or by its time. -/
def Event.own : Event count → Bool
  | .log _ => false
  | .timeout => false
  | .spurious => false
  | .flush _ _ => false
  | .spuriousFlush _ => false
  | .stop => false
  | _ => true

def again (s : Logger) (stopNow : Bool) : Nat :=
  if stopNow then 0 else if s.stopping = true ∨ s.buffers s.activeIndex ≠ [] then 3 else 0

def Monitor.workerWork (s : Monitor count) : Nat :=
  match s.logger.worker with
  | .waiting => if s.asleep then 0 else if ready s.logger then 4 else 1
  | .writing _ stopNow => 3 + again s.logger stopNow
  | .checking stopNow => 2 + again s.logger stopNow
  | .returned => 0

def Caller.work (flushRequested : Bool) : Caller → Nat
  | .idle => 0
  | .asleep => 2
  | .woken => if flushRequested then 3 else 1

def destructorWork : Destructor → Nat
  | .notCalled => 0
  | .stopping => 4
  | .joined => 3
  | .drained _ _ => 2
  | .wrote0 _ => 1
  | .finished => 0

def Monitor.callersWork (s : Monitor count) : Nat :=
  ∑ i, (s.callers i).work s.logger.flushRequested

def Monitor.work (s : Monitor count) : Nat :=
  s.workerWork + s.callersWork + 5 * s.signals + (if s.broadcast then count + 5 else 0) +
    destructorWork s.logger.destructor

def brings : Event count → Nat
  | .log _ => 8
  | .timeout => 3
  | .spurious => 4
  | .flush _ _ => 2 * count + 9
  | .spuriousFlush _ => 1
  | .stop => count + 12
  | _ => 0

theorem callersWork_setCaller (s : Monitor count) (i : Fin count) (state : Caller) :
    (s.setCaller i state).callersWork + (s.callers i).work s.logger.flushRequested =
      s.callersWork + state.work s.logger.flushRequested :=
  sum_update s.callers i state (Caller.work s.logger.flushRequested)

theorem callersWork_le {s s' : Monitor count} (extra : Nat)
    (each : ∀ i, (s'.callers i).work s'.logger.flushRequested ≤
      (s.callers i).work s.logger.flushRequested + extra) :
    s'.callersWork ≤ s.callersWork + extra * count := by
  calc s'.callersWork
      ≤ ∑ i, ((s.callers i).work s.logger.flushRequested + extra) :=
        Finset.sum_le_sum fun i _ => each i
    _ = s.callersWork + extra * count := by
        rw [Finset.sum_add_distrib, Finset.sum_const, Finset.card_univ, Fintype.card_fin,
          smul_eq_mul, Nat.mul_comm]
        rfl

theorem work_roused (state : Caller) (flushRequested : Bool) :
    state.roused.work flushRequested ≤ state.work flushRequested + 1 := by
  cases state with
  | idle => exact Nat.le_succ _
  | asleep => cases flushRequested <;> simp [Caller.roused, Caller.work]
  | woken => exact Nat.le_succ _

theorem work_released (state : Caller) : state.roused.work false ≤ state.work true := by
  cases state <;> simp [Caller.roused, Caller.work]

theorem work_requested (state : Caller) (flushRequested : Bool) :
    state.work true ≤ state.work flushRequested + 2 := by
  cases state <;> cases flushRequested <;> simp [Caller.work]

theorem again_le (s : Logger) (stopNow : Bool) : again s stopNow ≤ 3 := by
  unfold again
  split_ifs <;> omega

theorem workerWork_le_more {s s' : Monitor count} (asleep : s'.asleep = s.asleep)
    (worker : s'.logger.worker = s.logger.worker) : s'.workerWork ≤ s.workerWork + 3 := by
  unfold Monitor.workerWork
  rw [worker, asleep]
  cases s.logger.worker with
  | waiting =>
      simp only
      split_ifs <;> omega
  | writing toWrite stopNow =>
      have hle := again_le s'.logger stopNow
      simp only
      omega
  | checking stopNow =>
      have hle := again_le s'.logger stopNow
      simp only
      omega
  | returned => exact Nat.zero_le _

theorem workerWork_woken {s s' : Monitor count} (awake : s'.asleep = false)
    (logger : s'.logger = s.logger) : s'.workerWork ≤ s.workerWork + 4 := by
  unfold Monitor.workerWork
  rw [logger, awake]
  cases s.logger.worker with
  | waiting =>
      simp only [Bool.false_eq_true, if_false]
      split_ifs <;> omega
  | writing | checking | returned => exact Nat.le_add_right _ _

theorem again_swap {s : Logger} (standby : s.buffers (1 - s.activeIndex) = []) :
    again s.swap s.stopping = 0 := by
  have hempty : s.swap.buffers s.swap.activeIndex = [] := by
    change Function.update s.buffers s.activeIndex [] (1 - s.activeIndex) = []
    rw [Function.update_of_ne (AsyncLogging.other_ne _), standby]
  have hstopping : s.swap.stopping = s.stopping := rfl
  unfold again
  rw [hempty, hstopping]
  cases s.stopping with
  | false => simp
  | true => rfl

theorem ready_flushCheck {s : Logger} (standby : s.buffers (1 - s.activeIndex) = [])
    {stopNow : Bool} (up : ready (s.flushCheck stopNow) = true) :
    s.stopping = true ∨ s.buffers s.activeIndex ≠ [] := by
  by_contra hnothing
  push Not at hnothing
  obtain ⟨hstopping, hactive⟩ := hnothing
  have hboth : ∀ index, s.buffers index = [] := by
    intro index
    by_cases hindex : index = s.activeIndex
    · rw [hindex, hactive]
    · have hother : index = 1 - s.activeIndex := by
        revert hindex
        generalize s.activeIndex = active
        revert index active
        decide
      rw [hother, standby]
  simp [ready, Logger.flushCheck, hboth, hstopping] at up

theorem workerWork_flushCheck {s s' : Monitor count} {stopNow : Bool}
    (standby : s.logger.buffers (1 - s.logger.activeIndex) = [])
    (checking : s.logger.worker = .checking stopNow) (awake : s'.asleep = false)
    (logger : s'.logger = s.logger.flushCheck stopNow) : s'.workerWork + 1 ≤ s.workerWork := by
  have hbefore : s.workerWork = 2 + again s.logger stopNow := by
    unfold Monitor.workerWork
    rw [checking]
  rw [hbefore]
  unfold Monitor.workerWork
  rw [logger, awake]
  cases stopNow with
  | true => exact Nat.le_add_left _ _
  | false =>
      change (if ready (s.logger.flushCheck false) then 4 else 1) + 1 ≤ 2 + again s.logger false
      split_ifs with hready
      · have hagain : again s.logger false = 3 := if_pos (ready_flushCheck standby hready)
        omega
      · omega

def Reachable (s : Monitor count) : Prop :=
  ∃ trace, Run (fun s event s' => step s event = some s') .new trace s

theorem Reachable.standby {s : Monitor count} (h : Reachable s) :
    s.logger.buffers (1 - s.logger.activeIndex) = [] := by
  obtain ⟨trace, run⟩ := h
  exact (AsyncLogging.inv_of_run (logger_run run)).standby

theorem Reachable.awake {s : Monitor count} (h : Reachable s)
    (running : s.logger.worker ≠ .waiting) : s.asleep = false := by
  obtain ⟨trace, run⟩ := h
  exact Bool.eq_false_of_not_eq_true fun hasleep =>
    running ((watched_of_run run).waiting hasleep)

theorem Notified.work {s s' : Monitor count} (h : Notified s s') :
    s'.workerWork + s'.callersWork ≤ s.workerWork + s.callersWork + 4 ∧
      s'.signals = s.signals ∧ s'.broadcast = s.broadcast := by
  cases h with
  | nobody => exact ⟨Nat.le_add_right _ _, rfl, rfl⟩
  | background asleep =>
      have hworker : ({ s with asleep := false } : Monitor count).workerWork ≤
          s.workerWork + 4 := workerWork_woken rfl rfl
      refine ⟨?_, rfl, rfl⟩
      change _ + s.callersWork ≤ _
      omega
  | @caller i asleep =>
      have hcallers := callersWork_setCaller s i .woken
      have hthree : Caller.woken.work s.logger.flushRequested ≤ 3 := by
        cases s.logger.flushRequested <;> simp [Caller.work]
      refine ⟨?_, rfl, rfl⟩
      change s.workerWork + _ ≤ _
      omega

theorem work_le {s s' : Monitor count} (cost gain : Nat)
    (parts : s'.workerWork + s'.callersWork + 5 * s'.signals + cost ≤
      s.workerWork + s.callersWork + 5 * s.signals + gain)
    (broadcast : s'.broadcast = s.broadcast)
    (destructor : s'.logger.destructor = s.logger.destructor) :
    s'.work + cost ≤ s.work + gain := by
  unfold Monitor.work
  rw [broadcast, destructor]
  omega

theorem work_le_worker {s s' : Monitor count} (cost gain : Nat)
    (parts : s'.workerWork + cost ≤ s.workerWork + gain)
    (rest : s'.callersWork = s.callersWork ∧ s'.signals = s.signals ∧
      s'.broadcast = s.broadcast ∧ s'.logger.destructor = s.logger.destructor) :
    s'.work + cost ≤ s.work + gain := by
  refine work_le cost gain ?_ rest.2.2.1 rest.2.2.2
  rw [rest.1, rest.2.1]
  omega

theorem work_setCaller (s : Monitor count) (i : Fin count) (state : Caller) :
    (s.setCaller i state).work + (s.callers i).work s.logger.flushRequested =
      s.work + state.work s.logger.flushRequested := by
  have hset := callersWork_setCaller s i state
  change s.workerWork + (s.setCaller i state).callersWork + 5 * s.signals +
    (if s.broadcast then count + 5 else 0) + destructorWork s.logger.destructor + _ = _
  unfold Monitor.work
  omega

theorem work_swap {s s' : Monitor count} (reachable : Reachable s)
    (logger : s'.logger = s.logger.swap) : s'.workerWork = 3 := by
  unfold Monitor.workerWork
  rw [logger]
  change 3 + again s.logger.swap s.logger.stopping = 3
  rw [again_swap reachable.standby]

theorem work_flush {s s' : Monitor count} {i : Fin count} (notified : Notified (s.request i) s') :
    (s'.setCaller i .asleep).work ≤ s.work + (2 * count + 9) := by
  have hset := callersWork_setCaller s' i .asleep
  obtain ⟨hnotified, hsignals, hbroadcast⟩ := notified.work
  have hworker : (s.request i).workerWork ≤ s.workerWork + 3 := workerWork_le_more rfl rfl
  have hcallers : (s.request i).callersWork ≤ s.callersWork + 2 * count :=
    callersWork_le 2 fun j => work_requested (s.callers j) s.logger.flushRequested
  have htwo : Caller.asleep.work s'.logger.flushRequested = 2 := rfl
  have hdestructor : s'.logger.destructor = s.logger.destructor := by
    rw [notified.logger]
    rfl
  refine work_le 0 (2 * count + 9) ?_ hbroadcast hdestructor
  change s'.workerWork + _ + 5 * s'.signals + 0 ≤ _
  rw [hsignals, show (s.request i).signals = s.signals from rfl]
  omega

theorem work_notifyAll {s : Monitor count} (broadcast : s.broadcast = true) :
    ({ s.rouse with broadcast := false } : Monitor count).work + 1 ≤ s.work := by
  have hworker : s.rouse.workerWork ≤ s.workerWork + 4 := workerWork_woken rfl rfl
  have hcallers : s.rouse.callersWork ≤ s.callersWork + 1 * count :=
    callersWork_le 1 fun i => work_roused (s.callers i) s.logger.flushRequested
  have hbefore : s.work = s.workerWork + s.callersWork + 5 * s.signals + (count + 5) +
      destructorWork s.logger.destructor := by
    rw [Monitor.work, if_pos broadcast]
  change s.rouse.workerWork + s.rouse.callersWork + 5 * s.signals + 0 +
    destructorWork s.logger.destructor + 1 ≤ _
  omega

theorem work_flushed {s : Monitor count} (reachable : Reachable s) {stopNow : Bool}
    (checking : s.logger.worker = .checking stopNow) (requested : s.logger.flushRequested = true)
    (cleared : (s.logger.flushCheck stopNow).flushRequested = false) :
    (({ s with logger := s.logger.flushCheck stopNow } : Monitor count).rouse).work + 1 ≤
      s.work := by
  have hworker : (({ s with logger := s.logger.flushCheck stopNow } : Monitor count).rouse
      ).workerWork + 1 ≤ s.workerWork :=
    workerWork_flushCheck reachable.standby checking rfl rfl
  have hcallers : (({ s with logger := s.logger.flushCheck stopNow } : Monitor count).rouse
      ).callersWork ≤ s.callersWork + 0 * count := by
    refine callersWork_le 0 fun i => ?_
    change (s.callers i).roused.work (s.logger.flushCheck stopNow).flushRequested ≤ _
    rw [cleared, requested]
    exact work_released (s.callers i)
  refine work_le 1 0 ?_ rfl rfl
  change _ + _ + 5 * s.signals + 1 ≤ _
  omega

theorem work_le_destructor {s s' : Monitor count}
    (parts : s'.workerWork ≤ s.workerWork ∧ s'.callersWork = s.callersWork ∧
      s'.signals = s.signals ∧ s'.broadcast = s.broadcast)
    (destructor : destructorWork s'.logger.destructor + 1 ≤ destructorWork s.logger.destructor) :
    s'.work + 1 ≤ s.work := by
  obtain ⟨hworker, hcallers, hsignals, hbroadcast⟩ := parts
  unfold Monitor.work
  rw [hcallers, hsignals, hbroadcast]
  omega

theorem Reachable.step {s s' : Monitor count} (h : Reachable s) {event : Event count}
    (next : step s event = some s') : Reachable s' := by
  obtain ⟨trace, run⟩ := h
  exact ⟨trace ++ [event], .snoc run next⟩

theorem Reachable.returned {s : Monitor count} (h : Reachable s)
    (joined : s.logger.destructor = .joined) : s.logger.worker = .returned := by
  obtain ⟨trace, run⟩ := h
  exact (AsyncLogging.inv_of_run (logger_run run)).joined (by rw [joined]; rfl)

theorem work_paid : Paid (fun (s : Monitor count) event s' => step s event = some s') Reachable
    Monitor.work (fun event => event.own.toNat) brings where
  kept _ _ _ reachable next := reachable.step next
  pays s event s' reachable next := by
    cases stepped_of_step next with
    | @log record =>
        have hworker : ({ s with logger := s.logger.log record } : Monitor count).workerWork ≤
            s.workerWork + 3 := workerWork_le_more rfl rfl
        refine work_le 0 8 ?_ rfl rfl
        change ({ s with logger := s.logger.log record } : Monitor count).workerWork +
          s.callersWork + 5 * (s.signals + 1) + 0 ≤ _
        omega
    | @notifyOne rest woken _ signals notified =>
        obtain ⟨hwork, hsignals, hbroadcast⟩ := notified.work
        refine work_le 1 0 ?_ hbroadcast (by rw [notified.logger])
        rw [hsignals]
        change _ ≤ s.workerWork + s.callersWork + 4 at hwork
        change _ + 5 * rest + 1 ≤ _
        omega
    | sleep waiting awake nothing =>
        refine work_le_worker 1 0 ?_ ⟨rfl, rfl, rfl, rfl⟩
        have hbefore : s.workerWork = 1 := by
          simp only [Monitor.workerWork, waiting, awake, nothing, Bool.false_eq_true, if_false]
        rw [hbefore, Monitor.workerWork, waiting]
        rfl
    | swap waiting awake something =>
        refine work_le_worker 1 0 ?_ ⟨rfl, rfl, rfl, rfl⟩
        have hbefore : s.workerWork = 4 := by
          simp only [Monitor.workerWork, waiting, awake, something, Bool.false_eq_true, if_false,
            if_true]
        rw [hbefore, work_swap reachable rfl]
    | timeout waiting =>
        refine work_le_worker 0 3 ?_ ⟨rfl, rfl, rfl, rfl⟩
        rw [work_swap reachable rfl]
        omega
    | spurious asleep =>
        exact work_le_worker 0 4 (workerWork_woken rfl rfl) ⟨rfl, rfl, rfl, rfl⟩
    | @write toWrite stopNow writing =>
        refine work_le_worker 1 0 ?_ ⟨rfl, rfl, rfl, rfl⟩
        have hbefore : s.workerWork = 3 + again s.logger stopNow := by
          rw [Monitor.workerWork, writing]
        rw [hbefore]
        change 2 + again s.logger stopNow + 1 ≤ _
        omega
    | flushed checking requested cleared => exact work_flushed reachable checking requested cleared
    | @unflushed stopNow checking same =>
        have hawake := reachable.awake (by rw [checking]; simp)
        refine work_le_worker 1 0 ?_ ⟨?_, rfl, rfl, rfl⟩
        · exact workerWork_flushCheck reachable.standby checking hawake rfl
        · change ∑ i, (s.callers i).work (s.logger.flushCheck stopNow).flushRequested = _
          rw [same]
          rfl
    | flush idle notified => exact work_flush notified
    | @wait i woken requested =>
        have hset := work_setCaller s i .asleep
        rw [woken, requested] at hset
        change _ + 3 = _ + 2 at hset
        change _ + 1 ≤ s.work + 0
        omega
    | @flushReturn i woken off =>
        have hset := work_setCaller s i .idle
        rw [woken, off] at hset
        change _ + 1 = _ + 0 at hset
        exact hset.le
    | @spuriousFlush i asleep =>
        have hset := work_setCaller s i .woken
        rw [asleep] at hset
        have hthree : Caller.woken.work s.logger.flushRequested ≤ 3 := by
          cases s.logger.flushRequested <;> simp [Caller.work]
        change _ + 2 = _ at hset
        change _ + 0 ≤ s.work + 1
        omega
    | stop first =>
        have hworker : ({ s with logger :=
            { s.logger with stopping := true, destructor := .stopping } } : Monitor count
              ).workerWork ≤ s.workerWork + 3 := workerWork_le_more rfl rfl
        change ({ s with logger :=
            { s.logger with stopping := true, destructor := .stopping } } : Monitor count
              ).workerWork + s.callersWork + 5 * s.signals + (count + 5) + 4 + 0 ≤
                s.work + (count + 12)
        unfold Monitor.work
        omega
    | notifyAll broadcast => exact work_notifyAll broadcast
    | join told stopping returned =>
        exact work_le_destructor ⟨le_rfl, rfl, rfl, rfl⟩ (by rw [stopping]; rfl)
    | drain joined =>
        have hreturned := reachable.returned joined
        refine work_le_destructor ⟨?_, rfl, rfl, rfl⟩ (by rw [joined]; rfl)
        rw [Monitor.workerWork, show s.logger.drain.worker = s.logger.worker from rfl, hreturned]
        exact Nat.zero_le _
    | write0 drained =>
        exact work_le_destructor ⟨le_rfl, rfl, rfl, rfl⟩ (by rw [drained]; rfl)
    | write1 wrote0 =>
        exact work_le_destructor ⟨le_rfl, rfl, rfl, rfl⟩ (by rw [wrote0]; rfl)

def Still (s : Monitor count) : Prop :=
  ∀ event : Event count, event.own = true → step s event = none

/-- The background thread sleeps, no `flush` waits and all is written; or the destructor is
done, with the records accepted before it emptied the buffers. -/
structure Settled (trace : List (Event count)) (s : Monitor count) : Prop where
  running : s.logger.destructor = .notCalled → s.asleep = true ∧ (∀ i, s.callers i = .idle) ∧
    s.logger.written = logged (trace.filterMap loggerEvent)
  stopped : s.logger.destructor ≠ .notCalled → s.logger.destructor = .finished ∧
    ∃ before after, trace.filterMap loggerEvent = before ++ .drain :: after ∧
      s.logger.written = logged before

theorem Still.notified {s : Monitor count} (still : Still s) :
    s.signals = 0 ∧ s.broadcast = false := by
  constructor
  · cases hsignals : s.signals with
    | zero => rfl
    | succ rest =>
        obtain ⟨woken, s', hnotify⟩ := exists_notify ({ s with signals := rest } : Monitor count)
        have hnext := still (.notifyOne woken) rfl
        simp only [step, hsignals, hnotify] at hnext
        cases hnext
  · by_contra hbroadcast
    have hnext := still .notifyAll rfl
    simp only [step, Bool.eq_true_of_not_eq_false hbroadcast, if_true] at hnext
    cases hnext

theorem Still.worker {s : Monitor count} (still : Still s) :
    (s.asleep = true ∧ s.logger.worker = .waiting) ∨ s.logger.worker = .returned := by
  cases hworker : s.logger.worker with
  | returned => exact .inr rfl
  | waiting =>
      refine .inl ⟨?_, rfl⟩
      by_contra hasleep
      have hawake := Bool.eq_false_of_not_eq_true hasleep
      cases hready : ready s.logger with
      | false =>
          have hnext := still .sleep rfl
          simp [step, hworker, hawake, hready] at hnext
      | true =>
          have hnext := still .swap rfl
          simp [step, Monitor.does, AsyncLogging.step, hworker, hawake, hready] at hnext
  | writing toWrite stopNow =>
      have hnext := still .write rfl
      simp [step, Monitor.does, AsyncLogging.step, hworker] at hnext
  | checking stopNow =>
      have hnext := still .flushCheck rfl
      simp [step, Monitor.does, AsyncLogging.step, hworker] at hnext

theorem Still.callers {s : Monitor count} (still : Still s) (flushing : Flushing s)
    (i : Fin count) : s.callers i ≠ .woken := by
  intro hwoken
  cases hflag : s.logger.flushRequested with
  | true =>
      have hnext := still (.wait i) rfl
      simp [step, hwoken, hflag] at hnext
  | false =>
      have hcall := flushing i (by rw [hwoken]; simp)
      have hnext := still (.flushReturn i) rfl
      simp [step, Monitor.does, AsyncLogging.step, hwoken, hflag, hcall] at hnext

theorem Still.destructor {s : Monitor count} (still : Still s)
    (returned : s.logger.worker = .returned) (called : s.logger.destructor ≠ .notCalled) :
    s.logger.destructor = .finished := by
  have htold := still.notified.2
  cases hdestructor : s.logger.destructor with
  | notCalled => exact absurd hdestructor called
  | finished => rfl
  | stopping =>
      have hnext := still .join rfl
      simp [step, Monitor.does, AsyncLogging.step, hdestructor, htold, returned] at hnext
  | joined =>
      have hnext := still .drain rfl
      simp [step, Monitor.does, AsyncLogging.step, hdestructor] at hnext
  | drained remaining0 remaining1 =>
      have hnext := still .write0 rfl
      simp [step, Monitor.does, AsyncLogging.step, hdestructor] at hnext
  | wrote0 remaining1 =>
      have hnext := still .write1 rfl
      simp [step, Monitor.does, AsyncLogging.step, hdestructor] at hnext

theorem settled_of_still {s : Monitor count} {trace : List (Event count)}
    (run : Run (fun s event s' => step s event = some s') .new trace s) (still : Still s) :
    Settled trace s := by
  have hwatched := watched_of_run run
  have hflushing := flushing_of_run run
  have htold := told_of_run (logger_run run)
  have hlogger := AsyncLogging.inv_of_run (logger_run run)
  obtain ⟨hsignals, hbroadcast⟩ := still.notified
  refine ⟨fun hcalled => ?_, fun hcalled => ?_⟩
  · have hrunning : s.logger.stopping ≠ true := fun h => htold.called.mp h hcalled
    obtain ⟨hasleep, hwaiting⟩ | hreturned := still.worker
    · refine ⟨hasleep, fun i => ?_, ?_⟩
      · cases hcaller : s.callers i with
        | idle => rfl
        | asleep => exact absurd hcaller (hwatched.alone hasleep i)
        | woken => exact absurd hcaller (still.callers hflushing i)
      · have hempty := (hwatched.records hasleep).resolve_right (by omega)
        have horder := hlogger.order
        rw [hempty, Logger.inFlight, hwaiting, hcalled] at horder
        simpa [Worker.batch, Destructor.remaining] using horder
    · exact absurd (htold.worker (by rw [hreturned]; rfl)) hrunning
  · have hstopping := htold.called.mpr hcalled
    obtain ⟨hasleep, hwaiting⟩ | hreturned := still.worker
    · have hon := hwatched.stopping hasleep hstopping
      rw [hbroadcast] at hon
      cases hon
    · have hfinished := still.destructor hreturned hcalled
      obtain ⟨before, after, htrace, hwritten⟩ := hlogger.drained (by rw [hfinished]; rfl)
      rw [hfinished] at hwritten
      exact ⟨hfinished, before, after, htrace, by simpa [Destructor.remaining] using hwritten⟩

/-- The wait of the background thread could do without its 200 ms, although the callers of
`flush` wait on the same condition variable. While the background thread sleeps there is no
one else for `notify_one` to wake, and if there is something to do then a notification is on its
way. Wherever a run comes to, the steps that need no timeout are at most `work` in number; when
no more of them is possible all that was logged is written and each `flush` has returned, or
the destructor is done. -/
theorem logger_never_stalls {s : Monitor count} {trace : List (Event count)}
    (run : Run (fun s event s' => step s event = some s') .new trace s) :
    Run (fun s event s' => AsyncLogging.step s event = some s') .new
        (trace.filterMap loggerEvent) s.logger ∧
      (s.asleep = true → (∀ i, s.callers i ≠ .asleep) ∧
        (ready s.logger = true → 0 < s.signals ∨ s.broadcast = true)) ∧
      (∀ rest s', Run (fun s event s' => step s event = some s') s rest s' →
        (∀ event ∈ rest, event.own = true) → rest.length ≤ s.work ∧
          (Still s' → Settled (trace ++ rest) s')) ∧
      ∃ rest s', Run (fun s event s' => step s event = some s') s rest s' ∧
        (∀ event ∈ rest, event.own = true) ∧ Settled (trace ++ rest) s' := by
  have hwatched := watched_of_run run
  have hspends : ∀ event : Event count, event.own = true →
      1 ≤ event.own.toNat ∧ brings event = 0 := by
    intro event hown
    cases event <;> first | exact ⟨le_rfl, rfl⟩ | cases hown
  obtain ⟨hbound, rest, s', hrest, hown, hnone⟩ :=
    work_paid.rests (fun event => event.own = true) hspends ⟨trace, run⟩
  refine ⟨logger_run run, fun hasleep => ⟨hwatched.alone hasleep, fun hready => ?_⟩,
    fun rest s' hrest hown => ⟨hbound rest s' hrest hown, fun hstill => ?_⟩,
    rest, s', hrest, hown, ?_⟩
  · simp only [ready, Bool.or_eq_true, hwatched.flushing hasleep, Bool.false_eq_true, or_false,
      Bool.not_eq_true', decide_eq_false_iff_not] at hready
    obtain hstopping | hrecords := hready
    · exact .inr (hwatched.stopping hasleep hstopping)
    · exact .inl ((hwatched.records hasleep).resolve_left hrecords)
  · exact settled_of_still (run_append run hrest) hstill
  · refine settled_of_still (run_append run hrest) fun event hown => ?_
    exact Option.eq_none_iff_forall_ne_some.mpr fun s'' => hnone event s'' hown

theorem logger_never_stalls_shared :
    let trace : List (Event 2) := [.sleep, .log (AsyncLogging.record "a"),
      .notifyOne (some .background), .flush 0 none, .flush 1 (some (.caller 0))]
    ∃ s : Monitor 2, (s.callers 0 = .woken ∧ s.callers 1 = .asleep) ∧
      Run (fun s event s' => AsyncLogging.step s event = some s') .new
        (trace.filterMap loggerEvent) s.logger ∧
      (s.asleep = true → (∀ i, s.callers i ≠ .asleep) ∧
        (ready s.logger = true → 0 < s.signals ∨ s.broadcast = true)) ∧
      (∀ rest s', Run (fun s event s' => step s event = some s') s rest s' →
        (∀ event ∈ rest, event.own = true) → rest.length ≤ s.work ∧
          (Still s' → Settled (trace ++ rest) s')) ∧
      ∃ rest s', Run (fun s event s' => step s event = some s') s rest s' ∧
        (∀ event ∈ rest, event.own = true) ∧ Settled (trace ++ rest) s' :=
  ⟨_, ⟨rfl, rfl⟩, logger_never_stalls (run_of_exec rfl)⟩

end ApiGateway.LoggerWakeups
