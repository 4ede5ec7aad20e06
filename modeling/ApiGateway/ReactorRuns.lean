import ApiGateway.ReactorPhases

/-! The reactor over whole runs. While an event of the batch is still to come,
its filter stays armed, so a descriptor that has been closed and given out again
is never taken for the old connection. -/

namespace ApiGateway.ReactorRuns
open ByteText Reactor ReactorPhases StepRuns

structure Busy (t : Tables) (events : List KEvent) (fd : Nat) (filter : Reactor.Filter) : Prop where
  held : ∃ conn, t.connections fd = some conn
  armed : t.armed fd filter = true
  last : ∀ filter', .ready fd filter' ∉ events

def AtWork (t : Tables) (events : List KEvent) : Control → Prop
  | .reading fd => Busy t events fd .read
  | .writing fd => Busy t events fd .write
  | _ => True

/-- Whatever the reactor is doing, the events to come are of filters still armed. -/
structure Steady (g : Gateway) : Prop where
  inv : Inv g.tables
  once : g.events.Nodup
  armed : ∀ fd filter, .ready fd filter ∈ g.events → g.tables.armed fd filter = true
  atWork : AtWork g.tables g.events g.control

variable {order : IterationOrder Bytes Bytes} {g g' : Gateway}

theorem Steady.goto (steady : Steady g) {control : Control}
    (atWork : AtWork g.tables g.events control) : Steady (g.goto control) :=
  ⟨steady.inv, steady.once, steady.armed, atWork⟩

theorem Steady.handled (steady : Steady g) {fd : Nat} {filter : Reactor.Filter}
    (busy : Busy g.tables g.events fd filter) {t : Tables} {serial : Nat} {control : Control}
    (inv : Inv t ∧ Only g.tables t fd serial) (atWork : AtWork t g.events control) :
    Steady { g with tables := t, control := control } := by
  refine ⟨inv.1, steady.once, fun fd' filter' hevent => ?_, atWork⟩
  have hne : fd' ≠ fd := by
    intro h
    rw [h] at hevent
    exact busy.last filter' hevent
  change t.armed fd' filter' = true
  rw [inv.2.armed fd' hne]
  exact steady.armed fd' filter' hevent

theorem Steady.workMoved (steady : Steady g) {t : Tables} (inv : Inv t ∧ WorkMoved g.tables t) :
    Steady { g with tables := t } := by
  have ⟨hinv, hmoved⟩ := inv
  have hbusy : ∀ fd filter, Busy g.tables g.events fd filter → Busy t g.events fd filter :=
    fun fd filter h => ⟨hmoved.connections ▸ h.held, hmoved.armed ▸ h.armed, h.last⟩
  refine ⟨hinv, steady.once, fun fd filter hevent => ?_, ?_⟩
  · change t.armed fd filter = true
    rw [hmoved.armed]
    exact steady.armed fd filter hevent
  · have hwork := steady.atWork
    change AtWork t g.events g.control
    cases hcontrol : g.control with
    | reading fd =>
        rw [hcontrol] at hwork
        exact hbusy fd .read hwork
    | writing fd =>
        rw [hcontrol] at hwork
        exact hbusy fd .write hwork
    | _ => trivial

theorem Steady.busy (steady : Steady g) {fd : Nat} {filter : Reactor.Filter} {rest : List KEvent}
    (events : g.events = .ready fd filter :: rest) {conn : Connection}
    (held : g.tables.connections fd = some conn) : Busy g.tables rest fd filter := by
  have harmed := steady.armed fd filter (by simp [events])
  refine ⟨⟨conn, held⟩, harmed, fun filter' hevent => ?_⟩
  have honce := steady.once
  rw [events, List.nodup_cons] at honce
  have harmed' := steady.armed fd filter' (by simp [events, hevent])
  cases filter with
  | read =>
      cases filter' with
      | read => exact honce.1 hevent
      | write =>
          rw [(steady.inv.reading held harmed).1] at harmed'
          cases harmed'
  | write =>
      cases filter' with
      | read =>
          rw [(steady.inv.writing held harmed).1] at harmed'
          cases harmed'
      | write => exact honce.1 hevent

theorem onEvent_tables (g : Gateway) (event : KEvent) : (g.onEvent event).tables = g.tables := by
  unfold Gateway.onEvent
  cases event with
  | user => rfl
  | signal signalNumber => rfl
  | ready fd filter =>
      simp only
      split_ifs
      · rfl
      · cases filter with
        | read =>
            cases g.tables.connections fd with
            | none => rfl
            | some conn =>
                simp only
                split_ifs <;> rfl
        | write => cases g.tables.connections fd <;> rfl

theorem deliver_armed (t : Tables) (result : CompletionResult) (fd : Nat) :
    (t.deliver result).armed fd .read = t.armed fd .read := by
  unfold Tables.deliver
  cases t.connections result.fd with
  | none => rfl
  | some conn =>
      simp only [armed_registerEvent]
      simp [Tables.setConnection]

theorem Steady.onEvent (steady : Steady g) {event : KEvent} {rest : List KEvent}
    (events : g.events = event :: rest) (batch : g.control = .batch) :
    Steady ({ g with events := rest }.onEvent event) := by
  have honce := steady.once
  rw [events, List.nodup_cons] at honce
  have hrest : Steady { g with events := rest } := by
    refine ⟨steady.inv, honce.2, fun fd filter hevent => steady.armed fd filter ?_, ?_⟩
    · rw [events]
      exact List.mem_cons_of_mem _ hevent
    · change AtWork g.tables rest g.control
      rw [batch]
      trivial
  cases event with
  | user => exact hrest.goto trivial
  | signal signalNumber => exact ⟨hrest.inv, hrest.once, hrest.armed, hrest.atWork⟩
  | ready fd filter =>
      unfold Gateway.onEvent
      simp only
      split_ifs with hlisten
      · exact hrest.goto trivial
      cases hheld : g.tables.connections fd with
      | none => cases filter <;> exact hrest
      | some conn =>
          have hbusy := steady.busy events hheld
          cases filter with
          | read =>
              simp only
              split_ifs
              · exact hrest
              · exact hrest.goto hbusy
          | write => exact hrest.goto hbusy

theorem Steady.close (steady : Steady g) {fd : Nat} {filter : Reactor.Filter} {conn : Connection}
    (busy : Busy g.tables g.events fd filter) (held : g.tables.connections fd = some conn) :
    Steady (g.close fd) := by
  have hawaiting : conn.awaitingCompletion = false := by
    cases filter with
    | read => exact (steady.inv.reading held busy.armed).2.1
    | write => exact (steady.inv.writing held busy.armed).2.1
  exact steady.handled busy (steady.inv.closeConnection held hawaiting) trivial

theorem onReceived_cases (order : IterationOrder Bytes Bytes) (t : Tables) (fd : Nat)
    (conn : Connection) (chunk : Bytes) :
    (∃ dispatch, t.onReceived order fd conn chunk =
      (((t.setConnection fd { conn with readBuffer := [], awaitingCompletion := true }).registerEvent
        fd .read false).dispatchToThreadPool fd conn.serial dispatch, .batch)) ∨
    (∃ reading rejection t', t.rejectRequest fd { conn with toConnection := reading } rejection =
      .ok t' ∧ t.onReceived order fd conn chunk = (t', .batch)) ∨
    ∃ reading control, t.onReceived order fd conn chunk =
      (t.setConnection fd { conn with toConnection := reading }, control) ∧
      (control = .thrown ∨ control = .batch ∨ control = .reading fd) := by
  unfold Tables.onReceived
  split
  · next dispatch _ => exact .inl ⟨dispatch, rfl⟩
  · next rejection _ =>
    simp only
    split
    · exact .inr (.inr ⟨_, _, rfl, .inl rfl⟩)
    · next t' hreject => exact .inr (.inl ⟨_, rejection, t', hreject, rfl⟩)
  · next reading _ =>
    refine .inr (.inr ⟨reading, _, rfl, ?_⟩)
    split_ifs
    · exact .inr (.inl rfl)
    · exact .inr (.inr rfl)

theorem Steady.onRecv (steady : Steady g) {fd : Nat} {conn : Connection}
    (busy : Busy g.tables g.events fd .read) (held : g.tables.connections fd = some conn)
    {result : Recv} (next : g.onRecv order fd conn result = some g') : Steady g' := by
  cases result with
  | bytes chunk =>
      unfold Gateway.onRecv at next
      simp only at next
      split_ifs at next
      cases next
      rcases onReceived_cases order g.tables fd conn chunk with ⟨dispatch, h⟩ |
        ⟨reading, rejection, t, hreject, h⟩ | ⟨reading, control, h, hcontrol⟩
      · rw [h]
        exact steady.handled busy (steady.inv.dispatch held busy.armed dispatch rfl) trivial
      · rw [h]
        exact steady.handled busy (steady.inv.rejectRequest held busy.armed reading hreject) trivial
      · rw [h]
        refine steady.handled busy (steady.inv.readMore held busy.armed reading) ?_
        rcases hcontrol with hthrown | hbatch | hreading
        · rw [hthrown]
          trivial
        · rw [hbatch]
          trivial
        · rw [hreading]
          exact ⟨⟨_, Function.update_self _ _ _⟩, busy.armed, busy.last⟩
  | endOfStream =>
      cases next
      exact steady.close busy held
  | wouldBlock =>
      cases next
      exact steady.goto trivial
  | interrupted =>
      cases next
      exact steady
  | failed =>
      cases next
      exact steady.close busy held

theorem Steady.onSend (steady : Steady g) {fd : Nat} {conn : Connection}
    (busy : Busy g.tables g.events fd .write) (held : g.tables.connections fd = some conn)
    (control : g.control = .writing fd) {result : Send}
    (next : g.onSend fd conn result = some g') : Steady g' := by
  cases result with
  | bytes count =>
      unfold Gateway.onSend at next
      simp only at next
      split_ifs at next with hbad
      cases next
      rw [not_or, Nat.not_lt] at hbad
      have hsent := steady.inv.onSent held busy.armed hbad.2
      have hwork : AtWork (g.tables.onSent fd conn count) g.events g.control := by
        rw [control]
        exact ⟨⟨_, Function.update_self _ _ _⟩, busy.armed, busy.last⟩
      exact steady.handled busy hsent hwork
  | wouldBlock =>
      cases next
      exact steady.goto trivial
  | interrupted =>
      cases next
      exact steady
  | failed =>
      cases next
      exact steady.close busy held

theorem Steady.onAccept (steady : Steady g) {result : Accept} (control : g.control = .accepting)
    (next : g.onAccept result = some g') : Steady g' := by
  cases result with
  | failed =>
      cases next
      exact steady.goto trivial
  | client clientFd requestId nonBlocking =>
      unfold Gateway.onAccept at next
      simp only at next
      split_ifs at next with hused hfcntl
      · cases next
        rw [not_or, Option.not_isSome_iff_eq_none] at hused
        have ⟨hinv, harmed⟩ := steady.inv.onAccepted hused.2 hused.1 requestId
        refine ⟨hinv, steady.once, fun fd filter hevent => harmed fd filter ?_, ?_⟩
        · exact steady.armed fd filter hevent
        · change AtWork _ g.events g.control
          rw [control]
          trivial
      · cases next
        exact steady.goto trivial

theorem Steady.advance (steady : Steady g) (advanced : Advanced g g') : Steady g' := by
  cases advanced with
  | poll control =>
      refine steady.goto ?_
      split_ifs <;> trivial
  | lastDrain control events => exact steady.goto trivial
  | event control events => exact steady.onEvent events control
  | @written fd conn control held all =>
      have hbusy := steady.atWork
      rw [control] at hbusy
      exact steady.close hbusy held
  | drained control queue =>
      refine steady.goto ?_
      split_ifs <;> trivial
  | @delivered last result rest control queue =>
      have ⟨hinv, serial, honly, hunarmed⟩ := steady.inv.deliver queue
      refine ⟨hinv, steady.once, fun fd filter hevent => ?_, ?_⟩
      · have harmed := steady.armed fd filter hevent
        have hne : fd ≠ result.fd := by
          intro h
          rw [h, hunarmed filter] at harmed
          cases harmed
        change Tables.armed _ fd filter = true
        rw [honly.armed fd hne]
        exact harmed
      · change AtWork _ g.events g.control
        rw [control]
        trivial

theorem Steady.step (steady : Steady g) {e : Event} (next : Reactor.step order g e = some g') :
    Steady g' := by
  cases stepped_of_step next with
  | kevent control returns =>
      have ⟨_, honce, hreport⟩ := returns
      exact ⟨steady.inv, honce, fun fd filter hevent => hreport _ hevent, trivial⟩
  | keventError control =>
      refine steady.goto ?_
      split_ifs <;> trivial
  | advance advanced => exact steady.advance advanced
  | accept control haccept => exact steady.onAccept control haccept
  | recv control held hrecv =>
      have hbusy := steady.atWork
      rw [control] at hbusy
      exact steady.onRecv hbusy held hrecv
  | send control held more hsend =>
      have hbusy := steady.atWork
      rw [control] at hbusy
      exact steady.onSend hbusy held control hsend
  | take htake => exact steady.workMoved (steady.inv.take htake)
  | finish hfinish => exact steady.workMoved (steady.inv.finish hfinish)
  | stop => exact ⟨steady.inv, steady.once, steady.armed, steady.atWork⟩

theorem steady_init (listenFd : Nat) : Steady (Gateway.init listenFd) := by
  refine ⟨⟨⟨?_, ?_, ?_⟩, ⟨.nil, .refl _, .refl _, ?_, fun _ => .inl ⟨rfl, rfl⟩, ?_⟩, ?_⟩, .nil, ?_,
    trivial⟩
  · intro fd conn hconn
    cases hconn
  · intro fd fd' conn conn' hconn
    cases hconn
  · intro fd _ hlisten filter
    have hne : fd ≠ listenFd := hlisten
    simp [Gateway.init, hne]
  · intro d hd
    cases hd
  · intro serial _
    exact ⟨List.not_mem_nil, rfl, rfl⟩
  · intro item hitem
    cases hitem
  · intro fd filter hevent
    cases hevent

theorem steady_of_run {listenFd : Nat} {trace : List Event}
    (run : Run (fun g e g' => step order g e = some g') (Gateway.init listenFd) trace g) :
    Steady g :=
  @Run.invariant _ _ _ _ (fun _ g => Steady g) (steady_init listenFd)
    (fun _ _ _ _ steady next => steady.step next) _ _ run

/-- Each entry is in one phase, each connection has at most one task and one response,
each task has or will have one result, and no result goes to another connection. -/
structure Orderly (order : IterationOrder Bytes Bytes) (g : Gateway) : Prop where
  phase : ∀ fd conn, g.tables.connections fd = some conn → ∃! phase, g.tables.InPhase fd conn phase
  once : g.tables.history.dispatched.Nodup
  yielded : g.tables.history.dispatched.Perm (g.tables.tasks.map Task.serial ++
    g.tables.working.map Task.serial ++ g.tables.history.completed)
  taken : g.tables.tasks ≠ [] → ∃ g', step order g .take = some g'
  finished : ∀ k task outcome, g.tables.working[k]? = some task →
    ∃ g', step order g (.finish k outcome) = some g' ∧
      g'.tables.history.completed = g.tables.history.completed ++ [task.serial]
  handed : g.tables.history.completed.Perm
    (g.tables.completionQueue.map CompletionResult.serial ++
      g.tables.history.delivered.map Prod.fst)
  own : ∀ d ∈ g.tables.history.delivered, d.2 = some d.1
  answered : ∀ serial, Answered (g.tables.history.responses serial) (g.tables.history.sent serial)

theorem orderly_of_inv (order : IterationOrder Bytes Bytes) (inv : Inv g.tables) :
    Orderly order g := by
  have hacc := inv.accounts
  refine ⟨fun fd conn => inv.phase, hacc.once, hacc.yielded, fun htasks => ?_,
    fun k task outcome htask => ?_, hacc.handed, hacc.own, hacc.answered⟩
  · have ⟨task, rest, hcons⟩ := List.exists_cons_of_ne_nil htasks
    have htake : g.tables.take = some { g.tables with
        tasks := rest, working := g.tables.working ++ [task] } := by
      simp only [Tables.take, hcons]
    exact ⟨_, congrArg (Option.map _) htake⟩
  · have hfinish : g.tables.finish k outcome = some { g.tables with
        working := g.tables.working.eraseIdx k
        completionQueue := g.tables.completionQueue ++
          [⟨task.fd, outcome.responseBytes, task.serial⟩]
        history := { g.tables.history with
          completed := g.tables.history.completed ++ [task.serial] } } := by
      simp only [Tables.finish, htask]
    exact ⟨_, congrArg (Option.map _) hfinish, rfl⟩

theorem reactor_orderly (order : IterationOrder Bytes Bytes) (listenFd : Nat) (trace : List Event)
    (g : Gateway)
    (run : Run (fun g e g' => step order g e = some g') (Gateway.init listenFd) trace g) :
    Orderly order g :=
  orderly_of_inv order (steady_of_run run).inv

def twoConnections : List Event :=
  let request := ascii "GET / HTTP/1.1\r\n\r\n"
  let accepted : List Event := [.advance, .kevent [.ready 3 .read], .advance,
    .accept (.client 5 [] true), .accept .failed, .advance, .advance]
  let answered : List Event := [.advance, .kevent [.ready 5 .read], .advance,
    .recv (.bytes request), .take, .finish 0 (.responded (ascii "ok")), .advance, .advance, .advance]
  let written : List Event := [.advance, .kevent [.ready 5 .write], .advance, .send (.bytes 1),
    .send .interrupted, .send (.bytes 1), .advance, .advance, .advance]
  accepted ++ answered ++ written ++ accepted

theorem orderly_two_connections : ∃ g,
    Run (fun g e g' => step default g e = some g') (Gateway.init 3) twoConnections g ∧
      (g.tables.connections 5).map Connection.serial = some 1 ∧ Orderly default g := by
  have hserial : ((exec (step default) (Gateway.init 3) twoConnections).bind fun g =>
      (g.tables.connections 5).map Connection.serial) = some 1 := by
    decide
  have ⟨g, hexec, hg⟩ := Option.bind_eq_some_iff.mp hserial
  exact ⟨g, run_of_exec hexec, hg, reactor_orderly default 3 _ g (run_of_exec hexec)⟩

end ApiGateway.ReactorRuns
