import ApiGateway.GatewayLifetime
import ApiGateway.StepMeasures

/-! The destructor of `ApiGateway`: whatever it is called in the middle of, it comes to its
end, each task was worked on to its end or not at all, and no descriptor is left. -/

namespace ApiGateway.GatewayTeardown
open ByteText StepRuns StepMeasures ResourceLogs ReactorPhases ReactorRuns GatewayLifetime
open Reactor (Gateway Tables Task Outcome Stepped stepped_of_step)
open ThreadPooling (workerCount)

def taskSerials (s : Lifetime) : List Nat :=
  s.gateway.tables.tasks.map Task.serial ++ s.gateway.tables.working.map Task.serial

/-- Each dispatched task waits, is with a worker, or was worked on to its end or dropped. -/
structure Tasks (s : Lifetime) : Prop where
  once : s.gateway.tables.history.dispatched.Nodup
  yielded : s.gateway.tables.history.dispatched.Perm
    (taskSerials s ++ s.gateway.tables.history.completed ++ s.dropped)
  worked : ∀ serial ∈ s.gateway.tables.history.completed, serial ∈ s.checked
  unworked : ∀ serial ∈ s.dropped, serial ∉ s.checked
  kept : s.abandoningWork = false → s.dropped = []
  joined : s.stage.joined = true → s.gateway.tables.tasks = [] ∧ s.gateway.tables.working = []

section Tasks

variable {s : Lifetime} {order : IterationOrder Bytes Bytes}

theorem Tasks.take (inv : Tasks s) (stage : s.stage.joined = false) {t : Tables}
    (next : s.gateway.tables.take = some t) :
    Tasks { s with gateway := { s.gateway with tables := t } } := by
  obtain ⟨task, rest, htasks, rfl⟩ := take_cases next
  refine ⟨inv.once, List.perm_iff_count.mpr fun a => ?_, inv.worked, inv.unworked, inv.kept,
    fun h => by cases stage.symm.trans h⟩
  have hcount := List.perm_iff_count.mp inv.yielded a
  simp only [taskSerials, htasks, List.map_append, List.map_cons, List.map_nil,
    List.count_append, List.count_cons, List.count_nil] at hcount ⊢
  omega

theorem Tasks.finish (inv : Tasks s) (stage : s.stage.joined = false) {k : Nat}
    {outcome : Outcome} {t : Tables} (next : s.gateway.tables.finish k outcome = some t)
    (checked : ∀ task, s.gateway.tables.working[k]? = some task → task.serial ∈ s.checked) :
    Tasks { s with gateway := { s.gateway with tables := t } } := by
  obtain ⟨task, htask, rfl⟩ := finish_cases next
  refine ⟨inv.once, List.perm_iff_count.mpr fun a => ?_, fun serial hserial => ?_, inv.unworked,
    inv.kept, fun h => by cases stage.symm.trans h⟩
  · have hcount := List.perm_iff_count.mp inv.yielded a
    have hperm := List.perm_iff_count.mp ((perm_eraseIdx htask).map Task.serial) a
    simp only [taskSerials, List.map_cons, List.count_append, List.count_cons,
      List.count_nil] at hcount hperm ⊢
    omega
  · rcases List.mem_append.mp hserial with hold | hnew
    · exact inv.worked serial hold
    · rw [List.mem_singleton.mp hnew]
      exact checked task htask

theorem Tasks.check (inv : Tasks s) (stage : s.stage.joined = false) {k : Nat} {task : Task}
    (taken : s.gateway.tables.working[k]? = some task) (unchecked : task.serial ∉ s.checked) :
    Tasks (s.check k task) := by
  unfold Lifetime.check
  split_ifs with habandon
  · refine ⟨inv.once, List.perm_iff_count.mpr fun a => ?_, inv.worked, fun serial hserial => ?_,
      fun h => absurd (habandon.symm.trans h) (by decide),
      fun h => absurd (stage.symm.trans h) (by decide)⟩
    · have hcount := List.perm_iff_count.mp inv.yielded a
      have hperm := List.perm_iff_count.mp ((perm_eraseIdx taken).map Task.serial) a
      simp only [taskSerials, List.map_cons, List.count_append, List.count_cons,
        List.count_nil] at hcount hperm ⊢
      omega
    · rcases List.mem_append.mp hserial with hold | hnew
      · exact inv.unworked serial hold
      · rw [List.mem_singleton.mp hnew]
        exact unchecked
  · have hnone := inv.kept (Bool.eq_false_iff.mpr habandon)
    refine ⟨inv.once, inv.yielded, fun serial hserial => ?_, fun serial hserial => ?_, inv.kept,
      inv.joined⟩
    · exact List.mem_append_left _ (inv.worked serial hserial)
    · rw [show ({ s with checked := s.checked ++ [task.serial] } : Lifetime).dropped = s.dropped
        from rfl, hnone] at hserial
      cases hserial

theorem workers_step {g g' : Gateway} {e : Reactor.Event}
    (next : Reactor.step order g e = some g') (other : ∀ k outcome, e ≠ .finish k outcome) :
    g'.tables.history.completed = g.tables.history.completed ∧
      (e ≠ .take → g'.tables.working = g.tables.working) := by
  cases stepped_of_step next with
  | kevent control returns => exact ⟨rfl, fun _ => rfl⟩
  | keventError control => exact ⟨rfl, fun _ => rfl⟩
  | advance advanced =>
      cases advanced with
      | event control events =>
          rw [onEvent_tables]
          exact ⟨rfl, fun _ => rfl⟩
      | @delivered last result rest control queue =>
          unfold Tables.deliver
          cases g.tables.connections result.fd <;> exact ⟨rfl, fun _ => rfl⟩
      | _ => exact ⟨rfl, fun _ => rfl⟩
  | @accept result _ control haccept =>
      cases result with
      | failed =>
          cases haccept
          exact ⟨rfl, fun _ => rfl⟩
      | client fd requestId nonBlocking =>
          unfold Gateway.onAccept at haccept
          simp only at haccept
          split_ifs at haccept <;> (cases haccept; exact ⟨rfl, fun _ => rfl⟩)
  | @recv result _ fd conn control held hrecv =>
      cases result with
      | bytes chunk =>
          unfold Gateway.onRecv at hrecv
          simp only at hrecv
          split_ifs at hrecv
          cases hrecv
          rcases onReceived_cases order g.tables fd conn chunk with
            ⟨dispatch, h⟩ | ⟨reading, rejection, t, hreject, h⟩ | ⟨reading, control, h, -⟩
          · rw [h]
            exact ⟨rfl, fun _ => rfl⟩
          · obtain ⟨bytes, ht⟩ := rejectRequest_ok hreject
            rw [h, ht]
            exact ⟨rfl, fun _ => rfl⟩
          · rw [h]
            exact ⟨rfl, fun _ => rfl⟩
      | _ =>
          cases hrecv
          exact ⟨rfl, fun _ => rfl⟩
  | @send result _ fd conn control held more hsend =>
      cases result with
      | bytes count =>
          unfold Gateway.onSend at hsend
          simp only at hsend
          split_ifs at hsend
          cases hsend
          exact ⟨rfl, fun _ => rfl⟩
      | _ =>
          cases hsend
          exact ⟨rfl, fun _ => rfl⟩
  | take htake =>
      obtain ⟨task, rest, -, rfl⟩ := take_cases htake
      exact ⟨rfl, fun h => absurd rfl h⟩
  | finish hfinish => exact absurd rfl (other _ _)
  | stop => exact ⟨rfl, fun _ => rfl⟩

theorem Tasks.keep (inv : Tasks s) {s' : Lifetime}
    (tasks : s'.gateway.tables.tasks = s.gateway.tables.tasks)
    (working : s'.gateway.tables.working = s.gateway.tables.working)
    (history : s'.gateway.tables.history = s.gateway.tables.history)
    (checked : s'.checked = s.checked) (dropped : s'.dropped = s.dropped)
    (kept : s'.abandoningWork = false → s.abandoningWork = false)
    (joined : s'.stage.joined = true → s.gateway.tables.tasks = [] ∧ s.gateway.tables.working = []) :
    Tasks s' := by
  refine ⟨?_, ?_, ?_, ?_, fun h => ?_, ?_⟩
  · rw [history]
    exact inv.once
  · unfold taskSerials
    rw [history, tasks, working, dropped]
    exact inv.yielded
  · rw [history, checked]
    exact inv.worked
  · rw [dropped, checked]
    exact inv.unworked
  · rw [dropped]
    exact inv.kept (kept h)
  · rw [tasks, working]
    exact joined

theorem Tasks.reactor (inv : Tasks s) (running : s.stage = .running)
    (kept : s.abandoningWork = false) {g : Gateway} {e : Reactor.Event} {p : Process}
    (steady : Steady g) (runs : s.runs e = true)
    (next : Reactor.step order s.gateway e = some g) :
    Tasks { s.accepted e with gateway := g, process := p } := by
  have haccepted : (s.accepted e).checked = s.checked ∧ (s.accepted e).dropped = s.dropped ∧
      (s.accepted e).abandoningWork = s.abandoningWork ∧ (s.accepted e).stage = s.stage := by
    unfold Lifetime.accepted
    split <;> exact ⟨rfl, rfl, rfl, rfl⟩
  obtain ⟨hchecked, hdropped, habandoning, hstage⟩ := haccepted
  have hnone := inv.kept kept
  have hworked : ∀ serial ∈ g.tables.history.completed, serial ∈ s.checked := by
    by_cases hfinish : ∃ k outcome, e = .finish k outcome
    · obtain ⟨k, outcome, rfl⟩ := hfinish
      cases stepped_of_step next with
      | finish hnext =>
          obtain ⟨task, htask, rfl⟩ := finish_cases hnext
          obtain ⟨-, task', htaken, hmem⟩ : _ ∧ ∃ task ∈ s.gateway.tables.working[k]?,
              task.serial ∈ s.checked := by
            simpa [Lifetime.runs] using runs
          rw [htask, Option.mem_some_iff] at htaken
          subst htaken
          intro serial hserial
          rcases List.mem_append.mp hserial with hold | hnew
          · exact inv.worked serial hold
          · rwa [List.mem_singleton.mp hnew]
    · rw [(workers_step next fun k outcome h => hfinish ⟨k, outcome, h⟩).1]
      exact inv.worked
  have hacc := steady.inv.accounts
  refine ⟨hacc.once, ?_, ?_, ?_, fun _ => ?_, fun h => ?_⟩
  · change g.tables.history.dispatched.Perm (_ ++ (s.accepted e).dropped)
    rw [hdropped, hnone, List.append_nil]
    exact hacc.yielded
  · change ∀ serial ∈ g.tables.history.completed, serial ∈ (s.accepted e).checked
    rw [hchecked]
    exact hworked
  · change ∀ serial ∈ (s.accepted e).dropped, _
    rw [hdropped, hnone]
    exact fun _ h => absurd h List.not_mem_nil
  · exact hdropped.trans hnone
  · change (s.accepted e).stage.joined = true at h
    rw [hstage, running] at h
    cases h

end Tasks

def leakedBy : Reactor.Event → List Nat
  | .accept (.client fd _ false) => [fd]
  | _ => []

/-- The sockets on which `fcntl` fails, and the kqueue of a gateway without a pool. -/
def lostBy : GatewayLifetime.Event → List Nat
  | .construct setup => setup.lost.toList
  | .reactor e => leakedBy e
  | _ => []

structure Living (trace : List GatewayLifetime.Event) (s : Lifetime) : Prop where
  descriptors : Descriptors s
  tasks : Tasks s
  threads : 0 < s.threads
  unbuilt : s.stage = .unbuilt → ∃ threadPoolSize, s = .new threadPoolSize
  running : s.stage = .running → Steady s.gateway ∧ s.abandoningWork = false ∧
    ∀ sig, s.process.disposition sig = .ignored
  joining : s.stage = .joining → s.abandoningWork = true
  restored : s.stage ≠ .unbuilt → s.stage ≠ .running → ∀ sig, s.process.disposition sig ≠ .ignored
  lost : s.lost = trace.flatMap lostBy
  alone : s.lost.length ≤ 1
  thrown : s.lost ≠ [] → s.stage = .running → s.gateway.control = .thrown

section Living

variable {s s' : Lifetime} {trace : List GatewayLifetime.Event}
  {order : IterationOrder Bytes Bytes}

theorem living_new (threadPoolSize : Nat) : Living [] (.new threadPoolSize) := by
  refine ⟨⟨?_, by nofun, by nofun, by nofun, fun _ _ => rfl⟩,
    ⟨.nil, .refl _, by nofun, by nofun, fun _ => rfl, by nofun⟩, ?_, fun _ => ⟨_, rfl⟩, by nofun,
    by nofun, fun h => absurd rfl h, rfl, Nat.zero_le _, fun h => absurd rfl h⟩
  · exact Account.start.move fun fd => iff_of_true rfl rfl
  · exact Nat.pos_of_ne_zero (NeZero.ne (workerCount threadPoolSize))

theorem lost_snoc (inv : Living trace s) {event : GatewayLifetime.Event} {fds : List Nat}
    (lost : lostBy event = fds) : s.lost ++ fds = (trace ++ [event]).flatMap lostBy := by
  rw [inv.lost, List.flatMap_append, List.flatMap_singleton, lost]

theorem Living.construct (inv : Living trace s) {setup : Setup} (unbuilt : s.stage = .unbuilt)
    (fresh : setup.Fresh) : Living (trace ++ [.construct setup]) (s.construct setup) := by
  obtain ⟨threadPoolSize, rfl⟩ := inv.unbuilt unbuilt
  have hlost : [] ++ setup.lost.toList = (trace ++ [Event.construct setup]).flatMap lostBy :=
    lost_snoc inv rfl
  rw [List.nil_append] at hlost
  have hdescriptors := Descriptors.construct threadPoolSize fresh
  rcases construct_cases threadPoolSize fresh with
    ⟨p, kq, listenFd, hconstruct, hnone, -, -, hignored⟩ | ⟨p, what, hconstruct, -, hrestored⟩
  · rw [hconstruct] at hdescriptors ⊢
    rw [hnone] at hlost
    exact ⟨hdescriptors, ⟨.nil, .refl _, by nofun, by nofun, fun _ => rfl, by nofun⟩, inv.threads,
      by nofun, fun _ => ⟨steady_init listenFd, rfl, hignored⟩, by nofun,
      fun _ h => absurd rfl h, hlost, Nat.zero_le _, fun h => absurd rfl h⟩
  · rw [hconstruct] at hdescriptors ⊢
    refine ⟨hdescriptors, ⟨.nil, .refl _, by nofun, by nofun, fun _ => rfl, by nofun⟩, inv.threads,
      by nofun, by nofun, by nofun, fun _ _ => hrestored, hlost, ?_, by nofun⟩
    cases setup.lost <;> simp

theorem thrown_step {g g' : Gateway} {e : Reactor.Event} (thrown : g.control = .thrown)
    (next : Reactor.step order g e = some g') :
    g'.control = .thrown ∧ ∀ fd requestId nonBlocking,
      e ≠ .accept (.client fd requestId nonBlocking) := by
  cases stepped_of_step next with
  | take => exact ⟨thrown, by nofun⟩
  | finish => exact ⟨thrown, by nofun⟩
  | stop => exact ⟨thrown, by nofun⟩
  | advance advanced =>
      cases advanced with
      | poll control => cases thrown.symm.trans control
      | lastDrain control => cases thrown.symm.trans control
      | event control => cases thrown.symm.trans control
      | written control => cases thrown.symm.trans control
      | drained control => cases thrown.symm.trans control
      | delivered control => cases thrown.symm.trans control
  | kevent control => cases thrown.symm.trans control
  | keventError control => cases thrown.symm.trans control
  | accept control => cases thrown.symm.trans control
  | recv control => cases thrown.symm.trans control
  | send control => cases thrown.symm.trans control

theorem accepted_cases (s : Lifetime) (e : Reactor.Event) :
    (s.accepted e).lost = s.lost ++ leakedBy e ∧ (s.accepted e).stage = s.stage ∧
      (s.accepted e).threads = s.threads ∧ (s.accepted e).abandoningWork = s.abandoningWork := by
  unfold Lifetime.accepted leakedBy
  split
  · exact ⟨(List.append_nil _).symm, rfl, rfl, rfl⟩
  · exact ⟨rfl, rfl, rfl, rfl⟩
  next hother hleak =>
    split
    next fd requestId => exact absurd rfl (hleak fd requestId)
    · exact ⟨(List.append_nil _).symm, rfl, rfl, rfl⟩

theorem leaked_step {g g' : Gateway} {e : Reactor.Event} (next : Reactor.step order g e = some g')
    (leaks : leakedBy e ≠ []) : (leakedBy e).length = 1 ∧ g'.control = .thrown := by
  unfold leakedBy at leaks ⊢
  split at leaks
  next fd requestId =>
    cases stepped_of_step next with
    | accept control haccept =>
        unfold Gateway.onAccept at haccept
        simp only [Bool.false_eq_true, if_false] at haccept
        split_ifs at haccept
        cases haccept
        exact ⟨rfl, rfl⟩
  · exact absurd rfl leaks

theorem Living.reactor (inv : Living trace s) (stage : s.stage = .running) {e : Reactor.Event}
    (runs : s.runs e = true) {g : Gateway} (next : Reactor.step order s.gateway e = some g) :
    Living (trace ++ [.reactor e]) { s.accepted e with
      gateway := g
      process := s.process.logged (stepCalls order s.kq s.gateway e) } := by
  obtain ⟨hsteady, hkept, hignored⟩ := inv.running stage
  have hsteady' := hsteady.step next
  obtain ⟨hlost, hstage, hthreads, habandoning⟩ := accepted_cases s e
  have hrunning := hstage.trans stage
  have hleaks : (s.accepted e).lost ≠ [] → (s.accepted e).lost.length ≤ 1 ∧ g.control = .thrown := by
    intro hsome
    rw [hlost] at hsome ⊢
    by_cases hold : s.lost = []
    · rw [hold, List.nil_append] at hsome ⊢
      obtain ⟨hlength, hthrown⟩ := leaked_step next hsome
      exact ⟨hlength.le, hthrown⟩
    · obtain ⟨hthrown, hquiet⟩ := thrown_step (inv.thrown hold stage) next
      have hnone : leakedBy e = [] := by
        unfold leakedBy
        split
        next fd requestId => exact absurd rfl (hquiet fd requestId false)
        · rfl
      rw [hnone, List.append_nil]
      exact ⟨inv.alone, hthrown⟩
  refine ⟨inv.descriptors.reactor stage hsteady runs next,
    inv.tasks.reactor stage hkept hsteady' runs next, ?_, fun h => ?_, fun _ => ?_, fun h => ?_,
    fun _ h => absurd hrunning h, ?_, ?_, fun h _ => (hleaks h).2⟩
  · exact hthreads ▸ inv.threads
  · cases hrunning.symm.trans h
  · exact ⟨hsteady', habandoning.trans hkept, hignored⟩
  · cases hrunning.symm.trans h
  · exact hlost.trans (lost_snoc inv rfl)
  · by_cases hsome : (s.accepted e).lost = []
    · change (s.accepted e).lost.length ≤ 1
      rw [hsome]
      exact Nat.zero_le _
    · exact (hleaks hsome).1

theorem Living.down (inv : Living trace s) {event : GatewayLifetime.Event}
    (descriptors : Descriptors s') (tasks : Tasks s') (threads : s'.threads = s.threads)
    (begun : s'.stage ≠ .unbuilt ∧ s'.stage ≠ .running)
    (joining : s'.stage = .joining → s'.abandoningWork = true)
    (restored : ∀ sig, s'.process.disposition sig ≠ .ignored) (lost : s'.lost = s.lost)
    (quiet : lostBy event = []) : Living (trace ++ [event]) s' := by
  refine ⟨descriptors, tasks, threads ▸ inv.threads, fun h => absurd h begun.1,
    fun h => absurd h begun.2, joining, fun _ _ => restored, ?_, lost ▸ inv.alone,
    fun _ h => absurd h begun.2⟩
  rw [← lost_snoc inv quiet, List.append_nil]
  exact lost

theorem Living.worker (inv : Living trace s) (stage : s.stage = .joining) {e : Reactor.Event}
    (runs : s.runs e = true) {g : Gateway} (next : Reactor.step order s.gateway e = some g) :
    Living (trace ++ [.reactor e]) { s.accepted e with
      gateway := g
      process := s.process.logged (stepCalls order s.kq s.gateway e) } := by
  have hunjoined : s.stage.joined = false := by rw [stage]; rfl
  have habandoning := inv.joining stage
  have hrestored := inv.restored (by rw [stage]; nofun) (by rw [stage]; nofun)
  have hbegun : s.stage ≠ .unbuilt ∧ s.stage ≠ .running := by
    rw [stage]
    exact ⟨by nofun, by nofun⟩
  have hkq : ∀ fd ∈ [s.kq], s.place fd ≠ none := by
    refine List.forall_mem_singleton.mpr ((place_ne_none_iff s s.kq).mpr (.inl ⟨?_, rfl⟩))
    rw [stage]
    rfl
  cases stepped_of_step next with
  | take htake =>
      have htasks := inv.tasks.take hunjoined htake
      obtain ⟨task, rest, -, rfl⟩ := take_cases htake
      refine inv.down (inv.descriptors.keep ⟨rfl, rfl, rfl, rfl, rfl, rfl, rfl⟩ [] rfl (by nofun))
        ?_ rfl hbegun (fun _ => habandoning) hrestored rfl rfl
      exact htasks.keep rfl rfl rfl rfl rfl id htasks.joined
  | @finish k outcome t hfinish =>
      obtain ⟨-, task, htaken, hmem⟩ : _ ∧ ∃ task ∈ s.gateway.tables.working[k]?,
          task.serial ∈ s.checked := by
        simpa [Lifetime.runs] using runs
      have htasks := inv.tasks.finish hunjoined hfinish fun task' htask' => by
        rw [Option.mem_def.mp htaken, Option.some_inj] at htask'
        exact htask' ▸ hmem
      obtain ⟨task', -, rfl⟩ := finish_cases hfinish
      refine inv.down (inv.descriptors.keep ⟨rfl, rfl, rfl, rfl, rfl, rfl, rfl⟩ [s.kq] rfl hkq)
        ?_ rfl hbegun (fun _ => habandoning) hrestored rfl rfl
      exact htasks.keep rfl rfl rfl rfl rfl id htasks.joined
  | @accept result => cases result <;> simp [Lifetime.runs, stage] at runs
  | _ => simp [Lifetime.runs, stage] at runs

theorem Living.check (inv : Living trace s) (stage : s.stage = .running ∨ s.stage = .joining)
    {k : Nat} {task : Task} (taken : s.gateway.tables.working[k]? = some task)
    (unchecked : task.serial ∉ s.checked) : Living (trace ++ [.check k]) (s.check k task) := by
  have hunjoined : s.stage.joined = false := by
    rcases stage with h | h <;> (rw [h]; rfl)
  have htasks := inv.tasks.check hunjoined taken unchecked
  rcases stage with hrunning | hjoining
  · obtain ⟨hsteady, hkept, hignored⟩ := inv.running hrunning
    unfold Lifetime.check at htasks ⊢
    rw [if_neg (by rw [hkept]; nofun)] at htasks ⊢
    have hdescriptors : Descriptors { s with checked := s.checked ++ [task.serial] } :=
      inv.descriptors.keep ⟨rfl, rfl, rfl, rfl, rfl, rfl, rfl⟩ [] (by simp) (by nofun)
    refine ⟨hdescriptors, htasks, inv.threads, fun h => ?_, fun _ => ⟨hsteady, hkept, hignored⟩,
      inv.joining, inv.restored, ?_, inv.alone, inv.thrown⟩
    · cases hrunning.symm.trans h
    · exact (List.append_nil _).symm.trans (lost_snoc inv rfl)
  · have hbegun : s.stage ≠ .unbuilt ∧ s.stage ≠ .running := by
      rw [hjoining]
      exact ⟨by nofun, by nofun⟩
    have hrestored := inv.restored hbegun.1 hbegun.2
    have habandoning := inv.joining hjoining
    unfold Lifetime.check at htasks ⊢
    rw [if_pos habandoning] at htasks ⊢
    exact inv.down (inv.descriptors.keep ⟨rfl, rfl, rfl, rfl, rfl, rfl, rfl⟩ [] (by simp) (by nofun))
      htasks rfl hbegun (fun _ => habandoning) hrestored rfl rfl

theorem Living.teardown (inv : Living trace s) (stage : s.stage = .running) :
    Living (trace ++ [.teardown]) s.teardown := by
  have hdescriptors : Descriptors s.teardown := by
    refine inv.descriptors.keep ⟨rfl, ?_, ?_, rfl, rfl, rfl, rfl⟩ [] (by simp [Lifetime.teardown,
      Process.restoreSignalDispositions]) (by nofun)
    · rw [stage]
      rfl
    · rw [stage]
      rfl
  exact inv.down hdescriptors (inv.tasks.keep rfl rfl rfl rfl rfl (by nofun) (by nofun)) rfl
    ⟨by nofun, by nofun⟩ (fun _ => rfl) (fun _ => by nofun) rfl rfl

theorem Living.join (inv : Living trace s) (stage : s.stage = .joining)
    (idle : s.gateway.tables.tasks = [] ∧ s.gateway.tables.working = []) :
    Living (trace ++ [.join]) { s with stage := .closing } := by
  have hdescriptors : Descriptors { s with stage := .closing } := by
    refine inv.descriptors.keep ⟨rfl, ?_, ?_, rfl, rfl, rfl, rfl⟩ [] (by simp) (by nofun)
    · rw [stage]
      rfl
    · rw [stage]
      rfl
  exact inv.down hdescriptors (inv.tasks.keep rfl rfl rfl rfl rfl id fun _ => idle) rfl
    ⟨by nofun, by nofun⟩ (by nofun) (inv.restored (by rw [stage]; nofun) (by rw [stage]; nofun)) rfl
    rfl

theorem Living.close (inv : Living trace s) (closing : s.stage.joined = true)
    {event : GatewayLifetime.Event} (quiet : lostBy event = []) (descriptors : Descriptors s')
    (tasks : s'.gateway.tables.tasks = s.gateway.tables.tasks)
    (working : s'.gateway.tables.working = s.gateway.tables.working)
    (history : s'.gateway.tables.history = s.gateway.tables.history)
    (rest : s'.process.disposition = s.process.disposition ∧ s'.threads = s.threads ∧
      s'.lost = s.lost ∧ s'.abandoningWork = s.abandoningWork ∧ s'.checked = s.checked ∧
      s'.dropped = s.dropped)
    (stage : s'.stage.joined = true) : Living (trace ++ [event]) s' := by
  obtain ⟨hdisposition, hthreads, hlost, habandoning, hchecked, hdropped⟩ := rest
  have hbegun : ∀ {stage : Stage}, stage.joined = true → stage ≠ .unbuilt ∧ stage ≠ .running ∧
      stage ≠ .joining := by
    intro stage h
    refine ⟨?_, ?_, ?_⟩ <;> (rintro rfl; cases h)
  have htasks := inv.tasks.keep tasks working history hchecked hdropped (habandoning ▸ id)
    fun _ => inv.tasks.joined closing
  refine inv.down descriptors htasks hthreads ⟨(hbegun stage).1, (hbegun stage).2.1⟩
    (fun h => absurd h (hbegun stage).2.2) ?_ hlost quiet
  rw [hdisposition]
  exact inv.restored (hbegun closing).1 (hbegun closing).2.1

theorem Living.step (inv : Living trace s) {event : GatewayLifetime.Event}
    (next : GatewayLifetime.step order s event = some s') : Living (trace ++ [event]) s' := by
  unfold GatewayLifetime.step at next
  cases event with
  | construct setup =>
      simp only at next
      split_ifs at next with hready
      cases next
      exact inv.construct hready.1 hready.2
  | reactor e =>
      simp only at next
      split_ifs at next with hruns
      obtain ⟨g, hnext, rfl⟩ := Option.map_eq_some_iff.mp next
      by_cases hrunning : s.stage = .running
      · exact inv.reactor hrunning hruns hnext
      · refine inv.worker ?_ hruns hnext
        unfold Lifetime.runs at hruns
        split at hruns <;> simp_all
  | check k =>
      simp only at next
      split_ifs at next with hstage
      obtain ⟨task, htaken, hnext⟩ := Option.bind_eq_some_iff.mp next
      split_ifs at hnext with hchecked
      cases hnext
      exact inv.check hstage htaken hchecked
  | teardown =>
      simp only at next
      split_ifs at next with hready
      cases next
      exact inv.teardown hready.1
  | join =>
      simp only at next
      split_ifs at next with hready
      cases next
      exact inv.join hready.1 hready.2
  | closeConnection fd =>
      simp only at next
      split_ifs at next with hready
      cases next
      have hjoined : s.stage.joined = true := by rw [hready.1]; rfl
      exact inv.close hjoined rfl (inv.descriptors.closeConnection hready.1 hready.2) rfl rfl rfl
        ⟨rfl, rfl, rfl, rfl, rfl, rfl⟩ hjoined
  | closeListener =>
      simp only at next
      split_ifs at next with hready
      cases next
      exact inv.close (by rw [hready.1]; rfl) rfl
        (inv.descriptors.closeListener hready.1 hready.2) rfl rfl rfl
        ⟨rfl, rfl, rfl, rfl, rfl, rfl⟩ rfl
  | closeKqueue =>
      simp only at next
      split_ifs at next with hready
      cases next
      exact inv.close (by rw [hready]; rfl) rfl (inv.descriptors.closeKqueue hready) rfl rfl rfl
        ⟨rfl, rfl, rfl, rfl, rfl, rfl⟩ rfl

theorem living_of_run {threadPoolSize : Nat}
    (run : Run (fun s event s' => GatewayLifetime.step order s event = some s')
      (.new threadPoolSize) trace s) : Living trace s :=
  run.invariant (living_new threadPoolSize) fun _ _ _ _ inv next => inv.step next

end Living

structure Accounted (trace : List GatewayLifetime.Event) (s : Lifetime) : Prop where
  proper : Proper s.process.log
  out : ∀ fd, held s.process.log fd ≠ none ↔
    (s.stage.kqueueOpen = true ∧ fd = s.kq) ∨
      (s.stage.listening = true ∧ fd = s.gateway.tables.listenFd) ∨
      (s.gateway.tables.connections fd).isSome = true ∨ fd ∈ trace.flatMap lostBy
  alone : (trace.flatMap lostBy).length ≤ 1
  ended : s.stage = .destroyed ∨ (∃ what, s.stage = .failed what) →
    (∀ fd, held s.process.log fd ≠ none ↔ fd ∈ trace.flatMap lostBy) ∧
      ∀ sig, s.process.disposition sig ≠ .ignored
  ignored : s.stage = .running → ∀ sig, s.process.disposition sig = .ignored
  once : s.gateway.tables.history.dispatched.Nodup
  yielded : s.gateway.tables.history.dispatched.Perm
    (taskSerials s ++ s.gateway.tables.history.completed ++ s.dropped)
  worked : ∀ serial ∈ s.gateway.tables.history.completed, serial ∈ s.checked
  unworked : ∀ serial ∈ s.dropped, serial ∉ s.checked
  kept : s.abandoningWork = false → s.dropped = []
  joined : s.stage.joined = true → taskSerials s = []

/-- In every interleaving of the constructor, the reactor, the workers and the destructor, the
system calls are only made on descriptors that are open, and each is closed once; after a failed
constructor or the destructor, the only one left is a socket on which `fcntl` failed, or the
kqueue, if the thread pool was not built. Each dispatched task waits, is being worked on, was
worked on to its end, or was dropped unworked after the destructor had begun, and the
descriptors are closed behind the last of them. -/
theorem lifetime_accounted {order : IterationOrder Bytes Bytes} {threadPoolSize : Nat}
    {trace : List GatewayLifetime.Event} {s : Lifetime}
    (run : Run (fun s event s' => GatewayLifetime.step order s event = some s')
      (.new threadPoolSize) trace s) : Accounted trace s := by
  have hliving := living_of_run run
  have hout : ∀ fd, held s.process.log fd ≠ none ↔
      (s.stage.kqueueOpen = true ∧ fd = s.kq) ∨
        (s.stage.listening = true ∧ fd = s.gateway.tables.listenFd) ∨
        (s.gateway.tables.connections fd).isSome = true ∨ fd ∈ trace.flatMap lostBy := by
    intro fd
    rw [← hliving.lost, ← place_ne_none_iff]
    exact (hliving.descriptors.account.out fd).not
  refine ⟨hliving.descriptors.account.proper, hout, hliving.lost ▸ hliving.alone, fun hended => ?_,
    fun h => (hliving.running h).2.2, hliving.tasks.once, hliving.tasks.yielded,
    hliving.tasks.worked, hliving.tasks.unworked, hliving.tasks.kept, fun h => ?_⟩
  · have hstage : s.stage.kqueueOpen = false ∧ s.stage.listening = false ∧
        s.stage ≠ .unbuilt ∧ s.stage ≠ .running := by
      rcases hended with h | ⟨what, h⟩ <;> (rw [h]; exact ⟨rfl, rfl, by nofun, by nofun⟩)
    obtain ⟨hkqueue, hlisten, hbuilt, hrunning⟩ := hstage
    refine ⟨fun fd => ?_, hliving.restored hbuilt hrunning⟩
    rw [hout, hkqueue, hlisten, hliving.descriptors.closed hlisten fd]
    simp
  · obtain ⟨htasks, hworking⟩ := hliving.tasks.joined h
    simp [taskSerials, htasks, hworking]

def built34 : Setup where
  kqueue := some 3
  threadPool := none
  socket := some 4
  reuseAddr := true
  bind := true
  listen := true
  nonBlocking := true
  wakeChannel := true
  ignore := fun _ => true
  observe := fun _ => true

def droppedTask : List GatewayLifetime.Event :=
  let request := ascii "GET / HTTP/1.1\r\n\r\n"
  let accepted : List Reactor.Event := [.advance, .kevent [.ready 4 .read], .advance,
    .accept (.client 5 [] true), .accept .failed, .advance, .advance]
  let dispatched : List Reactor.Event := [.advance, .kevent [.ready 5 .read, .signal 15], .advance,
    .recv (.bytes request), .advance, .advance, .advance, .advance]
  .construct built34 :: (accepted ++ dispatched).map .reactor ++
    [.teardown, .reactor .take, .check 0, .join, .closeConnection 5, .closeListener, .closeKqueue]

theorem lifetime_accounted_dropped : ∃ s, s.stage = .destroyed ∧ s.dropped = [0] ∧
    Run (fun s event s' => GatewayLifetime.step default s event = some s') (.new 2) droppedTask s ∧
      Accounted droppedTask s := by
  have hends : ((exec (GatewayLifetime.step default) (.new 2) droppedTask).map fun s =>
      (s.stage, s.dropped)) = some (.destroyed, [0]) := by
    decide
  obtain ⟨s, hexec, hs⟩ := Option.map_eq_some_iff.mp hends
  rw [Prod.mk.injEq] at hs
  exact ⟨s, hs.1, hs.2, run_of_exec hexec, lifetime_accounted (run_of_exec hexec)⟩

def Stage.left : Stage → Nat
  | .joining => 3
  | .closing => 2
  | .closingKqueue => 1
  | _ => 0

def workLeft (checked : List Nat) (task : Task) : Nat := if task.serial ∈ checked then 1 else 2

def openKeys (s : Lifetime) : Finset Nat :=
  s.keys.toFinset.filter fun fd => (s.gateway.tables.connections fd).isSome = true

def left (s : Lifetime) : Nat :=
  3 * s.gateway.tables.tasks.length + (s.gateway.tables.working.map (workLeft s.checked)).sum +
    (openKeys s).card + Stage.left s.stage

section Ends

variable {s s' : Lifetime} {trace : List GatewayLifetime.Event}
  {order : IterationOrder Bytes Bytes}

theorem workLeft_bounds (checked : List Nat) (task : Task) :
    1 ≤ workLeft checked task ∧ workLeft checked task ≤ 2 := by
  unfold workLeft
  split_ifs <;> simp

theorem workLeft_eraseIdx {checked : List Nat} {working : List Task} {k : Nat} {task : Task}
    (taken : working[k]? = some task) :
    (working.map (workLeft checked)).sum =
      workLeft checked task + ((working.eraseIdx k).map (workLeft checked)).sum := by
  rw [((perm_eraseIdx taken).map (workLeft checked)).sum_eq, List.map_cons, List.sum_cons]

theorem mem_openKeys {fd : Nat} : fd ∈ openKeys s ↔
    fd ∈ s.keys ∧ (s.gateway.tables.connections fd).isSome = true := by
  unfold openKeys
  rw [Finset.mem_filter, List.mem_toFinset]

theorem openKeys_close (inv : Descriptors s) {fd : Nat}
    (held : (s.gateway.tables.connections fd).isSome = true) :
    (openKeys (s.closeConnection fd)).card + 1 = (openKeys s).card := by
  have hmem : fd ∈ openKeys s := mem_openKeys.mpr ⟨(inv.clients fd held).1, held⟩
  have herase : openKeys (s.closeConnection fd) = (openKeys s).erase fd := by
    ext h
    rw [Finset.mem_erase, mem_openKeys, mem_openKeys]
    by_cases hh : h = fd
    · simp [Lifetime.closeConnection, hh]
    · simp [Lifetime.closeConnection, hh]
  rw [herase, Finset.card_erase_add_one hmem]

def Begun (s : Lifetime) : Prop := s.stage = .joining ∨ s.stage.joined = true

theorem begun_step (inv : Living trace s) (begun : Begun s) {event : GatewayLifetime.Event}
    (next : GatewayLifetime.step order s event = some s') :
    Begun s' ∧ s'.checked = s.checked ∧ left s' + 1 ≤ left s := by
  have hnot : s.stage ≠ .unbuilt ∧ s.stage ≠ .running := by
    rcases begun with h | h
    · rw [h]
      exact ⟨by nofun, by nofun⟩
    · refine ⟨?_, ?_⟩ <;> (intro hstage; rw [hstage] at h; cases h)
  unfold GatewayLifetime.step at next
  cases event with
  | construct setup =>
      simp only at next
      split_ifs at next with hready
      exact absurd hready.1 hnot.1
  | reactor e =>
      simp only at next
      split_ifs at next with hruns
      obtain ⟨g, hnext, rfl⟩ := Option.map_eq_some_iff.mp next
      cases stepped_of_step hnext with
      | take htake =>
          obtain ⟨task, rest, htasks, rfl⟩ := take_cases htake
          refine ⟨begun, rfl, ?_⟩
          have hbound := (workLeft_bounds s.checked task).2
          change 3 * rest.length + ((s.gateway.tables.working ++ [task]).map
            (workLeft s.checked)).sum + (openKeys s).card + Stage.left s.stage + 1 ≤ left s
          unfold left
          rw [htasks, List.map_append, List.sum_append, List.length_cons, List.map_singleton,
            List.sum_singleton]
          omega
      | @finish k outcome t hfinish =>
          obtain ⟨task, htask, rfl⟩ := finish_cases hfinish
          refine ⟨begun, rfl, ?_⟩
          have hbound := (workLeft_bounds s.checked task).1
          change 3 * s.gateway.tables.tasks.length + ((s.gateway.tables.working.eraseIdx k).map
            (workLeft s.checked)).sum + (openKeys s).card + Stage.left s.stage + 1 ≤ left s
          unfold left
          rw [workLeft_eraseIdx htask]
          omega
      | @accept result => cases result <;> simp [Lifetime.runs, hnot.2] at hruns
      | _ => simp [Lifetime.runs, hnot.2] at hruns
  | check k =>
      simp only at next
      split_ifs at next with hstage
      obtain ⟨task, htaken, hnext⟩ := Option.bind_eq_some_iff.mp next
      split_ifs at hnext with hchecked
      cases hnext
      have habandoning := inv.joining (hstage.resolve_left hnot.2)
      unfold Lifetime.check
      rw [if_pos habandoning]
      refine ⟨begun, rfl, ?_⟩
      have hbound := (workLeft_bounds s.checked task).1
      change 3 * s.gateway.tables.tasks.length + ((s.gateway.tables.working.eraseIdx k).map
        (workLeft s.checked)).sum + (openKeys s).card + Stage.left s.stage + 1 ≤ left s
      unfold left
      rw [workLeft_eraseIdx htaken]
      omega
  | teardown =>
      simp only at next
      split_ifs at next with hready
      exact absurd hready.1 hnot.2
  | join =>
      simp only at next
      split_ifs at next with hready
      cases next
      refine ⟨.inr rfl, rfl, ?_⟩
      unfold left
      rw [hready.1]
      exact le_rfl
  | closeConnection fd =>
      simp only at next
      split_ifs at next with hready
      cases next
      have hcard := openKeys_close inv.descriptors hready.2
      refine ⟨begun, rfl, ?_⟩
      change 3 * s.gateway.tables.tasks.length + (s.gateway.tables.working.map
        (workLeft s.checked)).sum + (openKeys (s.closeConnection fd)).card + Stage.left s.stage + 1 ≤
          left s
      unfold left
      omega
  | closeListener =>
      simp only at next
      split_ifs at next with hready
      cases next
      refine ⟨.inr rfl, rfl, ?_⟩
      unfold left
      rw [hready.1]
      exact le_rfl
  | closeKqueue =>
      simp only at next
      split_ifs at next with hready
      cases next
      refine ⟨.inr rfl, rfl, ?_⟩
      unfold left
      rw [hready]
      exact le_rfl

theorem moves_of_reactor {e : Reactor.Event} (runs : s.runs e = true)
    (moves : ∃ g, Reactor.step order s.gateway e = some g) :
    ∃ event s', GatewayLifetime.step order s event = some s' := by
  obtain ⟨g, hnext⟩ := moves
  refine ⟨.reactor e, ?_⟩
  simp only [GatewayLifetime.step, if_pos runs, hnext]
  exact ⟨_, rfl⟩

theorem begun_moves (order : IterationOrder Bytes Bytes) (inv : Living trace s) (begun : Begun s)
    (open_ : s.stage ≠ .destroyed) :
    ∃ event s', GatewayLifetime.step order s event = some s' := by
  cases hstage : s.stage with
  | joining =>
      cases hworking : s.gateway.tables.working with
      | nil =>
          cases htasks : s.gateway.tables.tasks with
          | nil => exact ⟨.join, _, if_pos ⟨hstage, htasks, hworking⟩⟩
          | cons task rest =>
              have hruns : s.runs .take = true := by
                simp [Lifetime.runs, hstage, hworking, inv.threads]
              refine moves_of_reactor hruns ?_
              simp only [Reactor.step, Tables.take, htasks]
              exact ⟨_, rfl⟩
      | cons task rest =>
          by_cases hchecked : task.serial ∈ s.checked
          · have hruns : s.runs (.finish 0 (.responded [])) = true := by
              simp [Lifetime.runs, hstage, hworking, hchecked]
            refine moves_of_reactor hruns ?_
            simp only [Reactor.step, Tables.finish, hworking]
            exact ⟨_, rfl⟩
          · refine ⟨.check 0, s.check 0 task, (if_pos (.inr hstage)).trans ?_⟩
            rw [hworking]
            exact if_neg hchecked
  | closing =>
      by_cases hany : ∃ fd ∈ s.keys, (s.gateway.tables.connections fd).isSome = true
      · obtain ⟨fd, -, hheld⟩ := hany
        exact ⟨.closeConnection fd, _, if_pos ⟨hstage, hheld⟩⟩
      · refine ⟨.closeListener, _, if_pos ⟨hstage, fun fd hfd => ?_⟩⟩
        rw [← Option.not_isSome_iff_eq_none]
        exact fun hheld => hany ⟨fd, hfd, hheld⟩
  | closingKqueue => exact ⟨.closeKqueue, _, if_pos hstage⟩
  | destroyed => exact absurd hstage open_
  | _ =>
      unfold Begun at begun
      rw [hstage] at begun
      simp [Stage.joined] at begun

theorem left_paid : Paid (fun s event s' => GatewayLifetime.step order s event = some s')
    (fun s => (∃ trace, Living trace s) ∧ Begun s) left (fun _ => 1) (fun _ => 0) where
  kept := by
    rintro s event s' ⟨⟨trace, inv⟩, begun⟩ next
    exact ⟨⟨_, inv.step next⟩, (begun_step inv begun next).1⟩
  pays := by
    rintro s event s' ⟨⟨trace, inv⟩, begun⟩ next
    exact (begun_step inv begun next).2.2

/-- Once the destructor has begun, no task is worked on that was not before, and no
interleaving of the destructor and the workers can go on for more than `left` steps or be stuck
before everything is closed. -/
theorem teardown_ends {threadPoolSize : Nat}
    (run : Run (fun s event s' => GatewayLifetime.step order s event = some s')
      (.new threadPoolSize) trace s) (begun : Begun s) :
    (∀ rest s', Run (fun s event s' => GatewayLifetime.step order s event = some s') s rest s' →
      s'.checked = s.checked ∧ rest.length + left s' ≤ left s ∧
        ((∀ event, GatewayLifetime.step order s' event = none) → s'.stage = .destroyed)) ∧
      ∃ rest s', Run (fun s event s' => GatewayLifetime.step order s event = some s') s rest s' ∧
        s'.stage = .destroyed := by
  have hliving := living_of_run run
  refine ⟨fun rest s' hrest => ⟨?_, ?_, fun hstuck => ?_⟩, ?_⟩
  · have hkept : (∃ trace, Living trace s') ∧ Begun s' ∧ s'.checked = s.checked := by
      induction hrest with
      | nil => exact ⟨⟨_, hliving⟩, begun, rfl⟩
      | snoc _ next ih =>
          obtain ⟨⟨trace, inv⟩, hbegun, hchecked⟩ := ih
          obtain ⟨hbegun', hchecked', -⟩ := begun_step inv hbegun next
          exact ⟨⟨_, inv.step next⟩, hbegun', hchecked'.trans hchecked⟩
    exact hkept.2.2
  · exact left_paid.length_le ⟨⟨_, hliving⟩, begun⟩ hrest fun _ _ => ⟨le_rfl, rfl⟩
  · obtain ⟨⟨trace', inv⟩, hbegun⟩ := left_paid.inv ⟨⟨_, hliving⟩, begun⟩ hrest
    by_contra hopen
    obtain ⟨event, s'', hnext⟩ := begun_moves order inv hbegun hopen
    cases (hstuck event).symm.trans hnext
  · obtain ⟨rest, s', hrest, -, hdone⟩ := left_paid.completes (fun s => s.stage = .destroyed)
      (fun _ => True) (fun _ _ => Nat.zero_lt_one)
      (fun s inv hopen => by
        obtain ⟨⟨trace', hinv⟩, hbegun⟩ := inv
        obtain ⟨event, s', hnext⟩ := begun_moves order hinv hbegun hopen
        exact ⟨event, s', trivial, hnext⟩)
      s ⟨⟨_, hliving⟩, begun⟩
    exact ⟨rest, s', hrest, hdone⟩

theorem teardown_ends_dropped : ∃ s, left s = 7 ∧
    (∀ rest s', Run (fun s event s' => GatewayLifetime.step default s event = some s') s rest s' →
      s'.checked = s.checked ∧ rest.length + left s' ≤ left s ∧
        ((∀ event, GatewayLifetime.step default s' event = none) → s'.stage = .destroyed)) ∧
      ∃ rest s', Run (fun s event s' => GatewayLifetime.step default s event = some s') s rest s' ∧
        s'.stage = .destroyed := by
  have hbegins : ((exec (GatewayLifetime.step default) (.new 2) (droppedTask.take 17)).map fun s =>
      (s.stage, left s)) = some (.joining, 7) := by
    decide
  obtain ⟨s, hexec, hs⟩ := Option.map_eq_some_iff.mp hbegins
  rw [Prod.mk.injEq] at hs
  exact ⟨s, hs.2, teardown_ends (run_of_exec hexec) (.inl hs.1)⟩

end Ends

end ApiGateway.GatewayTeardown
