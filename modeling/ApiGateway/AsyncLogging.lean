import ApiGateway.ByteText
import ApiGateway.StepRuns

/-! `AsyncLogger`, any number of threads at a time. A step is a critical section,
or a write outside of one; the wait of the background loop may end at any time. -/

namespace ApiGateway.AsyncLogging
open ByteText StepRuns

inductive LogLevel where
  | INFO | WARN | ERROR
  deriving DecidableEq

/-- The time is in microseconds since the epoch. -/
structure LogRecord where
  timestamp : Nat
  level : LogLevel
  requestId : Bytes
  message : Bytes
  deriving DecidableEq

inductive Worker where
  | waiting
  | writing (toWrite : List LogRecord) (stopNow : Bool)
  | checking (stopNow : Bool)
  | returned
  deriving DecidableEq

inductive Destructor where
  | notCalled
  | stopping
  | joined
  | drained (remaining0 remaining1 : List LogRecord)
  | wrote0 (remaining1 : List LogRecord)
  | finished
  deriving DecidableEq

/-- `flushing` are the calls of `flush` that wait; `written` is what `writeRecords` was
given. -/
structure Logger where
  buffers : Fin 2 → List LogRecord
  activeIndex : Fin 2
  stopping : Bool
  flushRequested : Bool
  worker : Worker
  destructor : Destructor
  flushing : Nat → Bool
  written : List LogRecord

def Logger.new : Logger :=
  ⟨fun _ => [], 0, false, false, .waiting, .notCalled, fun _ => false, []⟩

inductive Event where
  /-- `log` holds the mutex -/
  | log (record : LogRecord)
  | swap
  | write
  | flushCheck
  /-- the call of `flush` with this number takes the mutex -/
  | flush (call : Nat)
  | flushReturn (call : Nat)
  | stop
  | join
  | drain
  | write0
  | write1
  deriving DecidableEq

def Logger.log (s : Logger) (record : LogRecord) : Logger :=
  { s with buffers :=
      Function.update s.buffers s.activeIndex (s.buffers s.activeIndex ++ [record]) }

def Logger.swap (s : Logger) : Logger :=
  { s with
    activeIndex := 1 - s.activeIndex
    buffers := Function.update s.buffers s.activeIndex []
    worker := .writing (s.buffers s.activeIndex) s.stopping }

def Logger.flushCheck (s : Logger) (stopNow : Bool) : Logger :=
  { s with
    flushRequested := s.flushRequested && ! (s.buffers 0 = [] && s.buffers 1 = [])
    worker := if stopNow then .returned else .waiting }

def Logger.drain (s : Logger) : Logger :=
  { s with
    buffers := fun _ => []
    destructor := .drained (s.buffers 0) (s.buffers 1) }

def step (s : Logger) : Event → Option Logger
  | .log record => some (s.log record)
  | .swap => if s.worker = .waiting then some s.swap else none
  | .write =>
      match s.worker with
      | .writing toWrite stopNow =>
          some { s with written := s.written ++ toWrite, worker := .checking stopNow }
      | _ => none
  | .flushCheck =>
      match s.worker with
      | .checking stopNow => some (s.flushCheck stopNow)
      | _ => none
  | .flush call =>
      if s.flushing call then none
      else some { s with
        flushRequested := true
        flushing := Function.update s.flushing call true }
  | .flushReturn call =>
      if s.flushing call ∧ s.flushRequested = false then
        some { s with flushing := Function.update s.flushing call false }
      else none
  | .stop =>
      if s.destructor = .notCalled then some { s with stopping := true, destructor := .stopping }
      else none
  | .join =>
      if s.destructor = .stopping ∧ s.worker = .returned then some { s with destructor := .joined }
      else none
  | .drain => if s.destructor = .joined then some s.drain else none
  | .write0 =>
      match s.destructor with
      | .drained remaining0 remaining1 =>
          some { s with written := s.written ++ remaining0, destructor := .wrote0 remaining1 }
      | _ => none
  | .write1 =>
      match s.destructor with
      | .wrote0 remaining1 =>
          some { s with written := s.written ++ remaining1, destructor := .finished }
      | _ => none

inductive Stepped (s : Logger) : Event → Logger → Prop
  | log {record : LogRecord} : Stepped s (.log record) (s.log record)
  | swap (waiting : s.worker = .waiting) : Stepped s .swap s.swap
  | write {toWrite : List LogRecord} {stopNow : Bool}
      (worker : s.worker = .writing toWrite stopNow) :
      Stepped s .write { s with written := s.written ++ toWrite, worker := .checking stopNow }
  | flushCheck {stopNow : Bool} (worker : s.worker = .checking stopNow) :
      Stepped s .flushCheck (s.flushCheck stopNow)
  | flush {call : Nat} (fresh : s.flushing call = false) :
      Stepped s (.flush call) { s with
        flushRequested := true
        flushing := Function.update s.flushing call true }
  | flushReturn {call : Nat} (waits : s.flushing call = true) (off : s.flushRequested = false) :
      Stepped s (.flushReturn call) { s with flushing := Function.update s.flushing call false }
  | stop (first : s.destructor = .notCalled) :
      Stepped s .stop { s with stopping := true, destructor := .stopping }
  | join (stopping : s.destructor = .stopping) (returned : s.worker = .returned) :
      Stepped s .join { s with destructor := .joined }
  | drain (joined : s.destructor = .joined) : Stepped s .drain s.drain
  | write0 {remaining0 remaining1 : List LogRecord}
      (drained : s.destructor = .drained remaining0 remaining1) :
      Stepped s .write0
        { s with written := s.written ++ remaining0, destructor := .wrote0 remaining1 }
  | write1 {remaining1 : List LogRecord} (wrote0 : s.destructor = .wrote0 remaining1) :
      Stepped s .write1 { s with written := s.written ++ remaining1, destructor := .finished }

theorem stepped_of_step {s s' : Logger} {event : Event} (next : step s event = some s') :
    Stepped s event s' := by
  cases event with
  | log record =>
      cases next
      exact .log
  | swap =>
      simp only [step] at next
      split_ifs at next with hwaiting
      cases next
      exact .swap hwaiting
  | write =>
      simp only [step] at next
      split at next
      next toWrite stopNow hworker =>
        cases next
        exact .write hworker
      · cases next
  | flushCheck =>
      simp only [step] at next
      split at next
      next stopNow hworker =>
        cases next
        exact .flushCheck hworker
      · cases next
  | flush call =>
      simp only [step] at next
      split_ifs at next with hflushing
      cases next
      exact .flush (Bool.not_eq_true _ ▸ hflushing)
  | flushReturn call =>
      simp only [step] at next
      split_ifs at next with hreturns
      cases next
      exact .flushReturn hreturns.1 hreturns.2
  | stop =>
      simp only [step] at next
      split_ifs at next with hfirst
      cases next
      exact .stop hfirst
  | join =>
      simp only [step] at next
      split_ifs at next with hready
      cases next
      exact .join hready.1 hready.2
  | drain =>
      simp only [step] at next
      split_ifs at next with hjoined
      cases next
      exact .drain hjoined
  | write0 =>
      simp only [step] at next
      split at next
      next remaining0 remaining1 hdrained =>
        cases next
        exact .write0 hdrained
      · cases next
  | write1 =>
      simp only [step] at next
      split at next
      next remaining1 hwrote0 =>
        cases next
        exact .write1 hwrote0
      · cases next

def loggedRecord : Event → Option LogRecord
  | .log record => some record
  | _ => none

/-- The accepted records in the order their calls of `log` held the mutex. -/
def logged (trace : List Event) : List LogRecord := trace.filterMap loggedRecord

def Worker.batch : Worker → List LogRecord
  | .writing toWrite _ => toWrite
  | _ => []

def Destructor.remaining : Destructor → List LogRecord
  | .drained remaining0 remaining1 => remaining0 ++ remaining1
  | .wrote0 remaining1 => remaining1
  | _ => []

def Logger.inFlight (s : Logger) : List LogRecord := s.worker.batch ++ s.destructor.remaining

def Destructor.hasJoined : Destructor → Bool
  | .notCalled | .stopping => false
  | _ => true

def Destructor.hasDrained : Destructor → Bool
  | .drained _ _ | .wrote0 _ | .finished => true
  | _ => false

structure Inv (trace : List Event) (s : Logger) : Prop where
  standby : s.buffers (1 - s.activeIndex) = []
  order : s.written ++ s.inFlight ++ s.buffers s.activeIndex = logged trace
  joined : s.destructor.hasJoined = true → s.worker = .returned
  /-- the destructor has the records accepted before it emptied the buffers -/
  drained : s.destructor.hasDrained = true → ∃ before after,
    trace = before ++ .drain :: after ∧ s.written ++ s.destructor.remaining = logged before

theorem logged_snoc (trace : List Event) (event : Event) :
    logged (trace ++ [event]) = logged trace ++ (loggedRecord event).toList := by
  cases h : loggedRecord event <;> simp [logged, h]

theorem Inv.unmoved {trace : List Event} {s s' : Logger} {event : Event} (h : Inv trace s)
    (silent : loggedRecord event = none) (buffers : s'.buffers = s.buffers)
    (activeIndex : s'.activeIndex = s.activeIndex)
    (taken : s'.written ++ s'.inFlight = s.written ++ s.inFlight)
    (joined : s'.destructor.hasJoined = true → s'.worker = .returned)
    (drained : s'.destructor.hasDrained = true → s.destructor.hasDrained = true ∧
      s'.written ++ s'.destructor.remaining = s.written ++ s.destructor.remaining) :
    Inv (trace ++ [event]) s' := by
  refine ⟨?_, ?_, joined, fun hdrained => ?_⟩
  · rw [buffers, activeIndex]
    exact h.standby
  · rw [taken, buffers, activeIndex, h.order, logged_snoc, silent]
    simp
  · have ⟨hbefore, hsame⟩ := drained hdrained
    obtain ⟨before, after, htrace, hlogged⟩ := h.drained hbefore
    exact ⟨before, after ++ [event], by simp [htrace], by rw [hsame, hlogged]⟩

theorem hasJoined_of_hasDrained {destructor : Destructor}
    (h : destructor.hasDrained = true) : destructor.hasJoined = true := by
  cases destructor with
  | notCalled | stopping | joined => cases h
  | drained _ _ | wrote0 _ | finished => rfl

theorem Inv.not_joined {trace : List Event} {s : Logger} (h : Inv trace s)
    (running : s.worker ≠ .returned) : s.destructor.hasJoined ≠ true :=
  fun hjoined => running (h.joined hjoined)

theorem Inv.remaining_of_running {trace : List Event} {s : Logger} (h : Inv trace s)
    (running : s.worker ≠ .returned) : s.destructor.remaining = [] := by
  have hnot := h.not_joined running
  cases hdestructor : s.destructor with
  | notCalled | stopping | joined => rfl
  | drained _ _ | wrote0 _ | finished => exact absurd (by rw [hdestructor]; rfl) hnot

theorem Inv.worked {trace : List Event} {s s' : Logger} {event : Event} (h : Inv trace s)
    (running : s.worker ≠ .returned) (silent : loggedRecord event = none)
    (buffers : s'.buffers = s.buffers) (activeIndex : s'.activeIndex = s.activeIndex)
    (destructor : s'.destructor = s.destructor)
    (taken : s'.written ++ s'.worker.batch = s.written ++ s.worker.batch) :
    Inv (trace ++ [event]) s' := by
  have hnot := h.not_joined running
  refine h.unmoved silent buffers activeIndex ?_ (fun hjoined => ?_) fun hdrained => ?_
  · rw [Logger.inFlight, ← List.append_assoc, taken, destructor, Logger.inFlight,
      List.append_assoc]
  · rw [destructor] at hjoined
    exact absurd hjoined hnot
  · rw [destructor] at hdrained
    exact absurd (hasJoined_of_hasDrained hdrained) hnot

theorem Inv.drainedOn {trace : List Event} {s s' : Logger} {event : Event} (h : Inv trace s)
    (drained : s.destructor.hasDrained = true) (silent : loggedRecord event = none)
    (buffers : s'.buffers = s.buffers) (activeIndex : s'.activeIndex = s.activeIndex)
    (worker : s'.worker = s.worker)
    (taken : s'.written ++ s'.destructor.remaining = s.written ++ s.destructor.remaining) :
    Inv (trace ++ [event]) s' := by
  have hworker : s.worker = .returned := h.joined (hasJoined_of_hasDrained drained)
  refine h.unmoved silent buffers activeIndex ?_ (fun _ => worker.trans hworker)
    fun _ => ⟨drained, taken⟩
  rw [Logger.inFlight, Logger.inFlight, worker, hworker]
  exact taken

theorem other_ne (index : Fin 2) : 1 - index ≠ index := by
  revert index
  decide

theorem other_other (index : Fin 2) : 1 - (1 - index) = index := by
  revert index
  decide

theorem Inv.log {trace : List Event} {s : Logger} (h : Inv trace s) (record : LogRecord) :
    Inv (trace ++ [.log record]) (s.log record) := by
  refine ⟨?_, ?_, h.joined, fun hdrained => ?_⟩
  · change Function.update s.buffers s.activeIndex _ (1 - s.activeIndex) = []
    rw [Function.update_of_ne (other_ne _)]
    exact h.standby
  · change s.written ++ s.inFlight ++
      Function.update s.buffers s.activeIndex (s.buffers s.activeIndex ++ [record])
        s.activeIndex = _
    rw [Function.update_self, ← List.append_assoc, h.order, logged_snoc]
    rfl
  · obtain ⟨before, after, htrace, hlogged⟩ := h.drained hdrained
    exact ⟨before, after ++ [.log record], by simp [htrace], hlogged⟩

theorem Inv.swap {trace : List Event} {s : Logger} (h : Inv trace s)
    (waiting : s.worker = .waiting) : Inv (trace ++ [.swap]) s.swap := by
  have hnot := h.not_joined (by simp [waiting])
  have hremaining := h.remaining_of_running (by simp [waiting])
  have horder := h.order
  rw [Logger.inFlight, waiting, hremaining] at horder
  refine ⟨?_, ?_, fun hjoined => absurd hjoined hnot, fun hdrained =>
    absurd (hasJoined_of_hasDrained hdrained) hnot⟩
  · change Function.update s.buffers s.activeIndex [] (1 - (1 - s.activeIndex)) = []
    rw [other_other, Function.update_self]
  · change s.written ++ (s.buffers s.activeIndex ++ s.destructor.remaining) ++
      Function.update s.buffers s.activeIndex [] (1 - s.activeIndex) = _
    rw [Function.update_of_ne (other_ne _), h.standby, hremaining, logged_snoc, ← horder]
    simp [loggedRecord, Worker.batch]

theorem Inv.drain {trace : List Event} {s : Logger} (h : Inv trace s)
    (joined : s.destructor = .joined) : Inv (trace ++ [.drain]) s.drain := by
  have hworker : s.worker = .returned := h.joined (by rw [joined]; rfl)
  have hboth : s.buffers 0 ++ s.buffers 1 = s.buffers s.activeIndex := by
    have hstandby := h.standby
    cases Fin.eq_zero_or_eq_succ s.activeIndex with
    | inl hzero =>
        rw [hzero] at hstandby ⊢
        change s.buffers 1 = [] at hstandby
        rw [hstandby, List.append_nil]
    | inr hone =>
        obtain ⟨j, hj⟩ := hone
        have hactive : s.activeIndex = 1 := by
          rw [hj, Fin.eq_zero j]
          rfl
        rw [hactive] at hstandby ⊢
        change s.buffers 0 = [] at hstandby
        rw [hstandby, List.nil_append]
  have hwritten : s.written ++ (s.buffers 0 ++ s.buffers 1) = logged trace := by
    rw [hboth, ← h.order, Logger.inFlight, hworker, joined]
    simp [Worker.batch, Destructor.remaining]
  refine ⟨rfl, ?_, fun _ => hworker, fun _ => ⟨trace, [], rfl, hwritten⟩⟩
  change s.written ++ (s.worker.batch ++ (s.buffers 0 ++ s.buffers 1)) ++ [] = _
  rw [hworker, logged_snoc, ← hwritten]
  simp [loggedRecord, Worker.batch]

theorem Inv.step {trace : List Event} {s s' : Logger} {event : Event} (h : Inv trace s)
    (next : step s event = some s') : Inv (trace ++ [event]) s' := by
  cases stepped_of_step next with
  | log => exact h.log _
  | swap waiting => exact h.swap waiting
  | write worker =>
      refine h.worked (by simp [worker]) rfl rfl rfl rfl ?_
      simp [worker, Worker.batch]
  | @flushCheck stopNow worker =>
      refine h.worked (by simp [worker]) rfl rfl rfl rfl ?_
      cases stopNow <;> simp [Logger.flushCheck, worker, Worker.batch]
  | flush | flushReturn =>
      exact h.unmoved rfl rfl rfl rfl h.joined fun hdrained => ⟨hdrained, rfl⟩
  | stop first =>
      refine h.unmoved rfl rfl rfl ?_ (fun hjoined => by cases hjoined)
        fun hdrained => by cases hdrained
      simp [Logger.inFlight, first, Destructor.remaining]
  | join stopping returned =>
      refine h.unmoved rfl rfl rfl ?_ (fun _ => returned) fun hdrained => by cases hdrained
      simp [Logger.inFlight, stopping, Destructor.remaining]
  | drain joined => exact h.drain joined
  | write0 drained =>
      refine h.drainedOn (by rw [drained]; rfl) rfl rfl rfl rfl ?_
      simp [drained, Destructor.remaining]
  | write1 wrote0 =>
      refine h.drainedOn (by rw [wrote0]; rfl) rfl rfl rfl rfl ?_
      simp [wrote0, Destructor.remaining]

theorem Inv.new : Inv [] .new :=
  ⟨rfl, rfl, fun _ => by contradiction, fun _ => by contradiction⟩

theorem inv_of_run {trace : List Event} {s : Logger}
    (run : Run (fun s event s' => step s event = some s') .new trace s) : Inv trace s :=
  @Run.invariant _ _ _ _ (fun trace s => Inv trace s) .new
    (fun _ _ _ _ h next => h.step next) _ _ run

/-- What is written, then what is being written, then the active buffer are the accepted
records in their order; and when the destructor has finished, all that was accepted before
it emptied the buffers is written, and nothing else. -/
theorem logged_once_in_order {trace : List Event} {s : Logger}
    (run : Run (fun s event s' => step s event = some s') .new trace s) :
    s.written ++ s.inFlight ++ s.buffers s.activeIndex = logged trace ∧
      s.buffers (1 - s.activeIndex) = [] ∧
      (s.destructor = .finished → ∃ before after, trace = before ++ .drain :: after ∧
        s.written = logged before ∧ s.buffers s.activeIndex = logged after) := by
  have h := inv_of_run run
  refine ⟨h.order, h.standby, fun hfinished => ?_⟩
  have ⟨before, after, htrace, hlogged⟩ := h.drained (by rw [hfinished]; rfl)
  have hworker : s.worker = .returned := h.joined (by rw [hfinished]; rfl)
  have horder := h.order
  rw [Logger.inFlight, hworker, hfinished, htrace] at horder
  have hnone : Destructor.finished.remaining = [] := rfl
  rw [hfinished, hnone, List.append_nil] at hlogged
  refine ⟨before, after, htrace, hlogged, ?_⟩
  have hsplit : logged (before ++ .drain :: after) = logged before ++ logged after := by
    rw [logged, List.filterMap_append]
    rfl
  rw [hsplit, ← hlogged] at horder
  simpa [Worker.batch, Destructor.remaining] using horder

def record (message : String) : LogRecord := ⟨0, .INFO, [], ascii message⟩

theorem logged_once_in_order_shutdown :
    let trace : List Event := [.log (record "a"), .swap, .log (record "b"), .write, .flush 0, .stop,
      .flushCheck, .swap, .log (record "c"), .write, .flushCheck, .join, .drain, .write0, .write1]
    ∃ s : Logger, (s.written ++ s.inFlight ++ s.buffers s.activeIndex = logged trace ∧
      s.buffers (1 - s.activeIndex) = [] ∧
      (s.destructor = .finished → ∃ before after, trace = before ++ .drain :: after ∧
        s.written = logged before ∧ s.buffers s.activeIndex = logged after)) ∧
      s.destructor = .finished :=
  ⟨_, logged_once_in_order (run_of_exec rfl), rfl⟩

theorem written_grows {s s' : Logger} {event : Event} (next : step s event = some s') :
    s.written <+: s'.written := by
  cases stepped_of_step next with
  | write | write0 | write1 => exact List.prefix_append _ _
  | log | swap | flushCheck | flush | flushReturn | stop | join | drain => exact List.prefix_rfl

theorem flushRequested_of_step {s s' : Logger} {event : Event} (next : step s event = some s')
    (cleared : s'.flushRequested = false) :
    (s.flushRequested = false ∧ ∀ call, event ≠ .flush call) ∨
      event = .flushCheck ∧ s.buffers 0 = [] ∧ s.buffers 1 = [] ∧
        ∃ stopNow, s.worker = .checking stopNow := by
  cases stepped_of_step next with
  | log | swap | write | flushReturn | stop | join | drain | write0 | write1 =>
      exact .inl ⟨cleared, fun call => by simp⟩
  | flush => cases cleared
  | @flushCheck stopNow worker =>
      simp only [Logger.flushCheck, Bool.and_eq_false_iff, Bool.not_eq_false',
        Bool.and_eq_true, decide_eq_true_eq] at cleared
      cases cleared with
      | inl hbefore => exact .inl ⟨hbefore, fun call => by simp⟩
      | inr hempty => exact .inr ⟨rfl, hempty.1, hempty.2, stopNow, worker⟩

theorem Inv.inFlight_of_checking {trace : List Event} {s : Logger} (h : Inv trace s)
    {stopNow : Bool} (checking : s.worker = .checking stopNow) : s.inFlight = [] := by
  rw [Logger.inFlight, h.remaining_of_running (by simp [checking]), checking]
  rfl

theorem Inv.all_written {trace : List Event} {s : Logger} (h : Inv trace s)
    (empty0 : s.buffers 0 = []) (empty1 : s.buffers 1 = []) {stopNow : Bool}
    (checking : s.worker = .checking stopNow) : s.written = logged trace := by
  have hactive : s.buffers s.activeIndex = [] := by
    generalize s.activeIndex = index
    revert index
    exact Fin.forall_fin_two.mpr ⟨empty0, empty1⟩
  have horder := h.order
  rw [h.inFlight_of_checking checking, hactive] at horder
  simpa using horder

/-- While `flushRequested` is off, the records accepted before any `flush` are written. -/
def Flushed (trace : List Event) (s : Logger) : Prop :=
  s.flushRequested = false → ∀ before call after, trace = before ++ .flush call :: after →
    logged before <+: s.written

theorem logged_prefix {before trace : List Event} (h : before <+: trace) :
    logged before <+: logged trace := by
  obtain ⟨after, rfl⟩ := h
  rw [logged, logged, List.filterMap_append]
  exact List.prefix_append _ _

theorem Flushed.step {trace : List Event} {s s' : Logger} {event : Event} (inv : Inv trace s)
    (h : Flushed trace s) (next : step s event = some s') : Flushed (trace ++ [event]) s' := by
  intro cleared before call after htrace
  have hgrows := written_grows next
  cases flushRequested_of_step next cleared with
  | inl hbefore =>
      obtain ⟨hoff, hother⟩ := hbefore
      cases snoc_split htrace with
      | inl hlast => exact absurd hlast.2 (hother call)
      | inr hmore =>
          obtain ⟨earlier, hsplit⟩ := hmore
          exact (h hoff before call earlier hsplit).trans hgrows
  | inr hcheck =>
      obtain ⟨rfl, hempty0, hempty1, stopNow, hchecking⟩ := hcheck
      have hall := inv.all_written hempty0 hempty1 hchecking
      have hprefix : before <+: trace := by
        cases snoc_split htrace with
        | inl hlast => cases hlast.2
        | inr hmore =>
            obtain ⟨earlier, hsplit⟩ := hmore
            exact ⟨_, hsplit.symm⟩
      refine List.IsPrefix.trans ?_ hgrows
      rw [hall]
      exact logged_prefix hprefix

theorem flushed_of_run {trace : List Event} {s : Logger}
    (run : Run (fun s event s' => step s event = some s') .new trace s) : Flushed trace s := by
  have h : Inv trace s ∧ Flushed trace s :=
    @Run.invariant _ _ _ _ (fun trace s => Inv trace s ∧ Flushed trace s)
      ⟨.new, fun _ before call after htrace => by simp at htrace⟩
      (fun _ _ _ _ h next => ⟨h.1.step next, h.2.step h.1 next⟩) _ _ run
  exact h.2

/-- When a `flush` returns, what was accepted before it took the mutex is written; and
`flushRequested` goes off only when all that was accepted is. -/
theorem flush_is_barrier {trace : List Event} {s : Logger}
    (run : Run (fun s event s' => step s event = some s') .new trace s) :
    (∀ before call between s', step s (.flushReturn call) = some s' →
        trace = before ++ .flush call :: between → logged before <+: s.written) ∧
      (∀ event s', step s event = some s' → s.flushRequested = true →
        s'.flushRequested = false → s.buffers 0 = [] ∧ s.buffers 1 = [] ∧ s.inFlight = [] ∧
          s.written = logged trace) := by
  refine ⟨?_, ?_⟩
  · intro before call between s' next htrace
    simp only [step] at next
    split_ifs at next with hreturns
    exact flushed_of_run run hreturns.2 before call between htrace
  · intro event s' next hon hoff
    have inv := inv_of_run run
    cases flushRequested_of_step next hoff with
    | inl hbefore => exact absurd (hon.symm.trans hbefore.1) (by simp)
    | inr hcheck =>
        obtain ⟨-, hempty0, hempty1, stopNow, hchecking⟩ := hcheck
        exact ⟨hempty0, hempty1, inv.inFlight_of_checking hchecking,
          inv.all_written hempty0 hempty1 hchecking⟩

theorem flush_is_barrier_concurrent :
    let trace : List Event := [.log (record "a"), .flush 0, .swap, .write, .flushCheck,
      .log (record "b"), .flush 1, .swap, .write, .flushCheck]
    ∃ s : Logger, ((∀ before call between s', step s (.flushReturn call) = some s' →
        trace = before ++ .flush call :: between → logged before <+: s.written) ∧
      (∀ event s', step s event = some s' → s.flushRequested = true →
        s'.flushRequested = false → s.buffers 0 = [] ∧ s.buffers 1 = [] ∧ s.inFlight = [] ∧
          s.written = logged trace)) ∧
      (step s (.flushReturn 0)).isSome ∧ s.written = [record "a", record "b"] :=
  ⟨_, flush_is_barrier (run_of_exec rfl), rfl, rfl⟩

end ApiGateway.AsyncLogging
