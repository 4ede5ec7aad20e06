import Mathlib.Data.Finset.Card
import ApiGateway.ErrorContainment
import ApiGateway.ReadReadiness

/-! The way of a response through the kernel. A worker triggers the wake channel behind its push,
and the WRITE event of a connection is cleared when it is reported, so the reactor has to find
out by itself what it was not told. -/

namespace ApiGateway.ResponseReadiness
open ByteText Reactor ReactorPhases ReactorRuns StepRuns
open ErrorContainment (served)
open ReadReadiness (BetweenBatches onEvent_spec)

/-- `rooms` is what the send buffer of a socket still takes, `pending` are the sockets whose WRITE
event is pending, and `user` tells whether that of the wake channel is. `waking` counts the
threads that have pushed a result, or cleared `running_`, and did not call `triggerWake` yet. -/
structure Kernel where
  rooms : Nat → Nat
  pending : Finset Nat
  user : Bool
  waking : Nat

structure World where
  gateway : Gateway
  kernel : Kernel

inductive Event where
  /-- a client takes bytes out of the send buffer -/
  | drained (fd count : Nat)
  /-- `triggerWake` -/
  | wake
  | reactor (event : Reactor.Event)

section Steps

-- a socket is reported from `lowWater` bytes of room on; a new one has room for `sendBuffer`
variable (lowWater sendBuffer : Nat) (order : IterationOrder Bytes Bytes)

def World.drained (w : World) (fd count : Nat) : Option World :=
  if (w.gateway.tables.connections fd).isNone ∨ count = 0 then none
  else
    let room := w.kernel.rooms fd + count
    some { w with kernel := { w.kernel with
      rooms := Function.update w.kernel.rooms fd room
      pending :=
        if w.gateway.tables.armed fd .write ∧ lowWater ≤ room then insert fd w.kernel.pending
        else w.kernel.pending } }

def World.wake (w : World) : Option World :=
  if w.kernel.waking = 0 then none
  else some { w with kernel := { w.kernel with user := true, waking := w.kernel.waking - 1 } }

def Kernel.reports (k : Kernel) : KEvent → Bool
  | .user => k.user
  | .ready fd .write => fd ∈ k.pending
  | _ => true

def Kernel.answers (k : Kernel) (fd : Nat) (conn : Connection) : Send → Bool
  | .bytes count => count = min (conn.writeBuffer.length - conn.writeOffset) (k.rooms fd)
  | .wouldBlock => k.rooms fd < lowWater
  | _ => true

def World.answers (w : World) : Reactor.Event → Bool
  | .kevent events => events.all w.kernel.reports
  | .send result =>
      match w.gateway.control with
      | .writing fd =>
          match w.gateway.tables.connections fd with
          | some conn => w.kernel.answers lowWater fd conn result
          | none => true
      | _ => true
  | _ => true

/-- What the system calls of a step do, but for those that register filters. A worker and `stop`
have `triggerWake` still to call. -/
def Kernel.onCall (k : Kernel) (control : Control) : Reactor.Event → Kernel
  | .kevent events =>
      { k with
        user := k.user && decide (.user ∉ events)
        pending := k.pending.filter fun fd => .ready fd .write ∉ events }
  | .accept (.client clientFd _ _) =>
      { k with rooms := Function.update k.rooms clientFd sendBuffer }
  | .send (.bytes count) =>
      match control with
      | .writing fd => { k with rooms := Function.update k.rooms fd (k.rooms fd - count) }
      | _ => k
  | .finish _ _ => { k with waking := k.waking + 1 }
  | .stop => { k with waking := k.waking + 1 }
  | _ => k

/-- `EV_ADD` finds the room that there is, and `EV_DELETE` takes back a pending event. -/
def Kernel.registered (k : Kernel) (t t' : Tables) (fd : Nat) : Kernel :=
  { k with pending :=
      if t'.armed fd .write then
        if t.armed fd .write = false ∧ lowWater ≤ k.rooms fd then insert fd k.pending
        else k.pending
      else k.pending.erase fd }

def Kernel.afterwards (k : Kernel) (g g' : Gateway) (event : Reactor.Event) : Kernel :=
  match served g event with
  | none => k
  | some fd => k.registered lowWater g.tables g'.tables fd

def step (w : World) : Event → Option World
  | .drained fd count => w.drained lowWater fd count
  | .wake => w.wake
  | .reactor event =>
      if w.answers lowWater event then
        (Reactor.step order w.gateway event).map fun g =>
          ⟨g, (w.kernel.onCall sendBuffer w.gateway.control event).afterwards lowWater w.gateway g
            event⟩
      else none

end Steps

/-- `run` has stored `running_`. The calls of `stop` that came before are lost, but what they
trigger is not: its event may be pending, and some may have it still to trigger. -/
def World.begun (listenFd : Nat) (triggered : Bool) (stopping : Nat) : World :=
  ⟨.init listenFd, ⟨fun _ => 0, ∅, triggered, stopping⟩⟩

def Kernel.Woken (k : Kernel) : Prop := k.user = true ∨ 0 < k.waking

def Covered (g : Gateway) (k : Kernel) (fd : Nat) : Prop :=
  fd ∈ k.pending ∨ .ready fd .write ∈ g.events ∨ g.control = .writing fd

structure Inv (lowWater : Nat) (g : Gateway) (k : Kernel) : Prop where
  steady : Steady g
  listening : g.tables.armed g.tables.listenFd .write = false
  covered : ∀ fd, g.tables.armed fd .write = true → lowWater ≤ k.rooms fd → Covered g k fd
  registered : ∀ fd ∈ k.pending, g.tables.armed fd .write = true
  woken : g.control = .poll ∨ g.control = .waiting → g.tables.completionQueue ≠ [] → k.Woken
  stopping : g.control = .waiting → g.running = false → k.Woken
  idle : BetweenBatches g.control → g.events = []

section Preserved

variable {lowWater sendBuffer : Nat} {order : IterationOrder Bytes Bytes} {g g' : Gateway}
  {k k' : Kernel}

theorem inv_begun (listenFd : Nat) (triggered : Bool) (stopping : Nat) :
    Inv lowWater (World.begun listenFd triggered stopping).gateway
      (World.begun listenFd triggered stopping).kernel := by
  have hunarmed : ∀ fd, (Gateway.init listenFd).tables.armed fd .write = false := by
    intro fd
    simp [Gateway.init]
  refine ⟨steady_init listenFd, hunarmed _, fun fd harmed => ?_, by simp [World.begun],
    fun _ hqueue => absurd rfl hqueue, fun _ h => (by cases h), fun _ => rfl⟩
  exact absurd ((hunarmed fd).symm.trans harmed) (by decide)

theorem busy_of_not_between {control : Control} (h : ¬ BetweenBatches control) :
    control ≠ .poll ∧ control ≠ .waiting := by
  constructor
  · rintro rfl
    exact h trivial
  · rintro rfl
    exact h trivial

theorem registered_same (inv : Inv lowWater g k) (pending : k'.pending = k.pending) {t : Tables}
    {fd : Nat} (armed : t.armed fd .write = g.tables.armed fd .write) :
    k'.registered lowWater g.tables t fd = k' := by
  unfold Kernel.registered
  split_ifs with harmed hnew
  · rw [armed, hnew.1] at harmed
    cases harmed
  · rfl
  · have hunpending : fd ∉ k'.pending := by
      rw [pending]
      intro hpending
      exact harmed (armed.trans (inv.registered fd hpending))
    rw [Finset.erase_eq_of_notMem hunpending]

theorem afterwards_same (inv : Inv lowWater g k) (g' : Gateway) (pending : k'.pending = k.pending)
    (armed : ∀ fd, g'.tables.armed fd .write = g.tables.armed fd .write) (event : Reactor.Event) :
    k'.afterwards lowWater g g' event = k' := by
  unfold Kernel.afterwards
  split
  · rfl
  next fd hserved => exact registered_same inv pending (armed fd)

theorem Inv.goOn (inv : Inv lowWater g k) (steady : Steady g')
    (listenFd : g'.tables.listenFd = g.tables.listenFd)
    (armed : ∀ fd, g'.tables.armed fd .write = g.tables.armed fd .write)
    (rooms : ∀ fd, g.tables.armed fd .write = true → k'.rooms fd = k.rooms fd)
    (registered : ∀ fd ∈ k'.pending, fd ∈ k.pending)
    (cover : ∀ fd, g.tables.armed fd .write = true → lowWater ≤ k.rooms fd → Covered g k fd →
      Covered g' k' fd)
    (woken : g'.control = .poll ∨ g'.control = .waiting → g'.tables.completionQueue ≠ [] →
      k'.Woken)
    (stopping : g'.control = .waiting → g'.running = false → k'.Woken)
    (idle : BetweenBatches g'.control → g'.events = []) : Inv lowWater g' k' := by
  refine ⟨steady, ?_, fun fd harmed hroom => ?_, fun fd hpending => ?_, woken, stopping, idle⟩
  · rw [listenFd, armed]
    exact inv.listening
  · rw [armed] at harmed
    rw [rooms fd harmed] at hroom
    exact cover fd harmed hroom (inv.covered fd harmed hroom)
  · rw [armed]
    exact inv.registered fd (registered fd hpending)

theorem Inv.handled (inv : Inv lowWater g k) (steady : Steady g') {fd serial : Nat}
    (only : Only g.tables g'.tables fd serial) (client : fd ≠ g.tables.listenFd)
    (events : g'.events = g.events) (control : ∀ fd', g.control = .writing fd' → fd' = fd)
    (rooms : ∀ fd', fd' ≠ fd → k'.rooms fd' = k.rooms fd') (pending : k'.pending = k.pending)
    (own : g.tables.armed fd .write = true → g'.tables.armed fd .write = true →
      g'.control = .writing fd)
    (busy : g'.control ≠ .poll ∧ g'.control ≠ .waiting)
    (idle : BetweenBatches g'.control → g'.events = []) :
    Inv lowWater g' (k'.registered lowWater g.tables g'.tables fd) := by
  have hmem : ∀ fd', fd' ≠ fd →
      (fd' ∈ (k'.registered lowWater g.tables g'.tables fd).pending ↔ fd' ∈ k.pending) := by
    intro fd' hfd
    rw [← pending]
    unfold Kernel.registered
    split_ifs
    · simp [hfd]
    · rfl
    · simp [hfd]
  refine ⟨steady, ?_, fun fd' harmed hroom => ?_, fun fd' hpending => ?_,
    fun h => absurd h (not_or.mpr busy), fun h => absurd h busy.2, idle⟩
  · rw [only.listenFd, only.armed _ client.symm]
    exact inv.listening
  · by_cases hfd : fd' = fd
    · rw [hfd] at harmed hroom ⊢
      cases hold : g.tables.armed fd .write with
      | true => exact .inr (.inr (own hold harmed))
      | false =>
          refine .inl ?_
          have hroom' : lowWater ≤ k'.rooms fd := hroom
          simp [Kernel.registered, harmed, hold, hroom']
    · rw [only.armed fd' hfd] at harmed
      have hroom' : lowWater ≤ k.rooms fd' := by
        rw [← rooms fd' hfd]
        exact hroom
      rcases inv.covered fd' harmed hroom' with h | h | h
      · exact .inl ((hmem fd' hfd).mpr h)
      · exact .inr (.inl (by rw [events]; exact h))
      · exact absurd (control fd' h) hfd
  · by_cases hfd : fd' = fd
    · rw [hfd] at hpending ⊢
      by_contra hunarmed
      simp [Kernel.registered, hunarmed] at hpending
    · rw [only.armed fd' hfd]
      exact inv.registered fd' ((hmem fd' hfd).mp hpending)

theorem served_reading (g : Gateway) {fd : Nat} (control : g.control = .reading fd)
    (result : Recv) :
    served g (.recv result) = some fd := by
  simp [served, control]

theorem served_writing (g : Gateway) {fd : Nat} (control : g.control = .writing fd) :
    served g .advance = some fd ∧ ∀ result, served g (.send result) = some fd := by
  simp [served, control]

theorem Inv.goto (inv : Inv lowWater g k) {control : Control} (steady : Steady (g.goto control))
    (cover : ∀ fd, lowWater ≤ k.rooms fd → g.control ≠ .writing fd)
    (woken : control = .poll ∨ control = .waiting → g.tables.completionQueue ≠ [] → k.Woken)
    (stopping : control = .waiting → g.running = false → k.Woken)
    (idle : BetweenBatches control → g.events = []) : Inv lowWater (g.goto control) k := by
  refine inv.goOn steady rfl (fun _ => rfl) (fun _ _ => rfl) (fun _ => id)
    (fun fd _ hroom hcovered => ?_) woken stopping idle
  rcases hcovered with h | h | h
  · exact .inl h
  · exact .inr (.inl h)
  · exact absurd h (cover fd hroom)

theorem Inv.leave (inv : Inv lowWater g k) (steady : Steady (g.goto .batch))
    (cover : ∀ fd, lowWater ≤ k.rooms fd → g.control ≠ .writing fd) (event : Reactor.Event) :
    Inv lowWater (g.goto .batch) (k.afterwards lowWater g (g.goto .batch) event) := by
  rw [afterwards_same inv (g.goto .batch) rfl fun _ => rfl]
  exact inv.goto steady cover (by simp) nofun nofun

theorem Inv.close (inv : Inv lowWater g k) {fd : Nat} {filter : Reactor.Filter} {conn : Connection}
    (busy : Busy g.tables g.events fd filter) (held : g.tables.connections fd = some conn)
    (control : g.control = .reading fd ∨ g.control = .writing fd) :
    Inv lowWater (g.close fd) (k.registered lowWater g.tables (g.close fd).tables fd) := by
  have hawaiting : conn.awaitingCompletion = false := by
    cases filter with
    | read => exact (inv.steady.inv.reading held busy.armed).2.1
    | write => exact (inv.steady.inv.writing held busy.armed).2.1
  refine inv.handled (inv.steady.close busy held) (inv.steady.inv.closeConnection held hawaiting).2
    (inv.steady.inv.entries.entry fd conn held).client rfl (fun fd' hwriting => ?_) (fun _ _ => rfl)
    rfl (fun _ harmed => ?_) (by simp [Gateway.close]) nofun
  · rcases control with h | h
    · rw [h] at hwriting
      cases hwriting
    · rw [h] at hwriting
      exact (Control.writing.inj hwriting).symm
  · have hclosed : (g.tables.closeConnection fd).armed fd .write = false := by
      unfold Tables.closeConnection
      simp
    exact absurd (hclosed.symm.trans harmed) (by decide)

theorem Inv.kevent (inv : Inv lowWater g k) {events : List KEvent} (control : g.control = .waiting)
    (steady : Steady { g with events := events, control := .batch }) :
    Inv lowWater { g with events := events, control := .batch }
      { k with
        user := k.user && decide (.user ∉ events)
        pending := k.pending.filter fun fd => .ready fd .write ∉ events } := by
  refine inv.goOn steady rfl (fun _ => rfl) (fun _ _ => rfl)
    (fun fd hpending => (Finset.mem_filter.mp hpending).1) (fun fd _ _ hcovered => ?_) (by simp)
    nofun nofun
  rcases hcovered with h | h | h
  · by_cases hreported : .ready fd .write ∈ events
    · exact .inr (.inl hreported)
    · exact .inl (Finset.mem_filter.mpr ⟨h, hreported⟩)
  · rw [inv.idle (by rw [control]; trivial)] at h
    cases h
  · rw [control] at h
    cases h

theorem onEvent_writing (steady : Steady g)
    (listening : g.tables.armed g.tables.listenFd .write = false)
    (rest : List KEvent) {fd : Nat} (armed : g.tables.armed fd .write = true) :
    ({ g with events := rest }.onEvent (.ready fd .write)).control = .writing fd := by
  have hclient : fd ≠ g.tables.listenFd := by
    rintro rfl
    rw [listening] at armed
    cases armed
  unfold Gateway.onEvent
  cases hheld : g.tables.connections fd with
  | none =>
      rw [steady.inv.entries.closed fd hheld hclient] at armed
      cases armed
  | some conn => simp [Gateway.goto, hheld]

theorem Inv.onEvent (inv : Inv lowWater g k) {event : KEvent} {rest : List KEvent}
    (events : g.events = event :: rest) (batch : g.control = .batch) :
    Inv lowWater ({ g with events := rest }.onEvent event) k := by
  have htables : ({ g with events := rest }.onEvent event).tables = g.tables := onEvent_tables _ _
  obtain ⟨hrest, -, hbetween, -⟩ := onEvent_spec rest inv.steady batch event
  have hbusy := busy_of_not_between hbetween
  refine inv.goOn (inv.steady.onEvent events batch) (by rw [htables]) (fun _ => by rw [htables])
    (fun _ _ => rfl) (fun _ => id) (fun fd harmed _ hcovered => ?_)
    (fun h => absurd h (not_or.mpr hbusy)) (fun h => absurd h hbusy.2) fun h => absurd h hbetween
  rcases hcovered with h | h | h
  · exact .inl h
  · rw [events] at h
    rcases List.mem_cons.mp h with hfirst | hlater
    · rw [← hfirst]
      exact .inr (.inr (onEvent_writing inv.steady inv.listening rest harmed))
    · exact .inr (.inl (by rw [hrest]; exact hlater))
  · rw [batch] at h
    cases h

theorem Inv.advance (inv : Inv lowWater g k) (advanced : Advanced g g') :
    Inv lowWater g' (k.afterwards lowWater g g' .advance) := by
  have hsteady := inv.steady.advance advanced
  have hsame : g'.tables = g.tables → k.afterwards lowWater g g' .advance = k :=
    fun htables => afterwards_same inv g' rfl (fun fd => by rw [htables]) _
  cases advanced with
  | poll control =>
      rw [hsame rfl]
      refine inv.goto hsteady (fun _ _ => by simp [control]) (fun _ => inv.woken (.inl control))
        (fun hwaiting hstopped => ?_) fun _ => inv.idle (by rw [control]; trivial)
      rw [hstopped] at hwaiting
      cases hwaiting
  | lastDrain control events =>
      rw [hsame rfl]
      exact inv.goto hsteady (fun _ _ => by simp [control]) (by simp) nofun fun _ => events
  | event control events =>
      rw [hsame (onEvent_tables _ _)]
      exact inv.onEvent events control
  | written control held all =>
      have hbusy := inv.steady.atWork
      rw [control] at hbusy
      rw [Kernel.afterwards, (served_writing g control).1]
      exact inv.close hbusy held (.inr control)
  | @drained last control queue =>
      rw [hsame rfl]
      refine inv.goto hsteady (fun _ _ => by simp [control]) (fun _ h => absurd queue h)
        (fun h => by cases last <;> cases h) fun h => ?_
      cases last with
      | true => exact inv.idle (by rw [control]; rfl)
      | false => exact absurd h not_false
  | @delivered last result rest control queue =>
      have hserved : served g .advance = some result.fd := by simp [served, control, queue]
      obtain ⟨-, serial, honly, hunarmed⟩ := inv.steady.inv.deliver queue
      obtain ⟨conn, hheld, -⟩ := inv.steady.inv.front queue
      rw [Kernel.afterwards, hserved]
      refine inv.handled hsteady honly (inv.steady.inv.entries.entry _ conn hheld).client rfl
        (fun fd' hwriting => ?_) (fun _ _ => rfl) rfl (fun harmed => ?_) (by simp [control])
        inv.idle
      · rw [control] at hwriting
        cases hwriting
      · exact absurd ((hunarmed .write).symm.trans harmed) (by decide)

theorem Inv.accept (inv : Inv lowWater g k) (control : g.control = .accepting) {result : Accept}
    (next : g.onAccept result = some g') :
    Inv lowWater g' ((k.onCall sendBuffer g.control (.accept result)).afterwards lowWater g g'
      (.accept result)) := by
  have hsteady := inv.steady.onAccept control next
  cases result with
  | failed =>
      cases next
      exact inv.leave hsteady (fun _ _ => by simp [control]) _
  | client clientFd requestId nonBlocking =>
      unfold Gateway.onAccept at next
      simp only at next
      split_ifs at next with hused hfcntl
      · cases next
        rw [not_or, Option.not_isSome_iff_eq_none] at hused
        have hclosed := inv.steady.inv.entries.closed clientFd hused.2 hused.1 .write
        have honly : Only g.tables (g.tables.onAccepted clientFd requestId) clientFd
            g.tables.history.accepted :=
          ⟨rfl, Nat.le_succ _, fun fd h => Function.update_of_ne h _ _,
            fun fd h => armed_other _ h _ _, fun _ _ _ => Iff.rfl, fun _ _ => Iff.rfl,
            fun _ _ => rfl, fun _ _ => rfl⟩
        refine inv.handled hsteady honly hused.1 rfl (fun fd' hwriting => ?_)
          (fun fd' hfd => Function.update_of_ne hfd _ _) rfl (fun harmed => ?_) (by simp [control])
          fun h => ?_
        · rw [control] at hwriting
          cases hwriting
        · exact absurd (hclosed.symm.trans harmed) (by decide)
        · change BetweenBatches g.control at h
          rw [control] at h
          exact absurd h not_false
      · cases next
        rw [not_or, Option.not_isSome_iff_eq_none] at hused
        have hclosed := inv.steady.inv.entries.closed clientFd hused.2 hused.1 .write
        let accepted :=
          k.onCall sendBuffer g.control (.accept (.client clientFd requestId nonBlocking))
        have hpending : accepted.pending = k.pending := rfl
        rw [afterwards_same inv (g.goto .thrown) hpending fun _ => rfl]
        refine inv.goOn hsteady rfl (fun _ => rfl) (fun fd harmed => ?_) (fun _ => id)
          (fun fd _ _ hcovered => ?_) (by simp [Gateway.goto]) nofun nofun
        · have hfd : fd ≠ clientFd := by
            rintro rfl
            rw [hclosed] at harmed
            cases harmed
          exact Function.update_of_ne hfd _ _
        · rcases hcovered with h | h | h
          · exact .inl h
          · exact .inr (.inl h)
          · rw [control] at h
            cases h

theorem Inv.recv (inv : Inv lowWater g k) {fd : Nat} {conn : Connection}
    (control : g.control = .reading fd) (held : g.tables.connections fd = some conn) {result : Recv}
    (next : g.onRecv order fd conn result = some g') :
    Inv lowWater g' (k.afterwards lowWater g g' (.recv result)) := by
  have hbusy := inv.steady.atWork
  rw [control] at hbusy
  have hsteady := inv.steady.onRecv hbusy held next
  have hunarmed := (inv.steady.inv.reading held hbusy.armed).1
  cases result with
  | bytes chunk =>
      unfold Gateway.onRecv at next
      simp only at next
      split_ifs at next
      cases next
      obtain ⟨serial, honly, hbetween, -⟩ :=
        ReadReadiness.onReceived_spec order g chunk inv.steady.inv held hbusy.armed
      rw [Kernel.afterwards, served_reading g control]
      refine inv.handled hsteady honly (inv.steady.inv.entries.entry fd conn held).client rfl
        (fun fd' hwriting => ?_) (fun _ _ => rfl) rfl (fun harmed => ?_)
        (busy_of_not_between hbetween) fun h => absurd h hbetween
      · rw [control] at hwriting
        cases hwriting
      · exact absurd (hunarmed.symm.trans harmed) (by decide)
  | endOfStream =>
      cases next
      rw [Kernel.afterwards, served_reading g control]
      exact inv.close hbusy held (.inl control)
  | wouldBlock =>
      cases next
      exact inv.leave hsteady (fun _ _ => by simp [control]) _
  | interrupted =>
      cases next
      rw [afterwards_same inv g rfl fun _ => rfl]
      exact inv
  | failed =>
      cases next
      rw [Kernel.afterwards, served_reading g control]
      exact inv.close hbusy held (.inl control)

theorem Inv.send (inv : Inv lowWater g k) {fd : Nat} {conn : Connection}
    (control : g.control = .writing fd) (held : g.tables.connections fd = some conn) {result : Send}
    (answers : k.answers lowWater fd conn result = true)
    (next : g.onSend fd conn result = some g') :
    Inv lowWater g' ((k.onCall sendBuffer g.control (.send result)).afterwards lowWater g g'
      (.send result)) := by
  have hbusy := inv.steady.atWork
  rw [control] at hbusy
  have hsteady := inv.steady.onSend hbusy held control next
  cases result with
  | bytes count =>
      unfold Gateway.onSend at next
      simp only at next
      split_ifs at next with hbad
      cases next
      rw [not_or, Nat.not_lt] at hbad
      rw [Kernel.afterwards, (served_writing g control).2]
      refine inv.handled hsteady (inv.steady.inv.onSent held hbusy.armed hbad.2).2
        (inv.steady.inv.entries.entry fd conn held).client rfl (fun fd' hwriting => ?_)
        (fun fd' hfd => ?_) ?_ (fun _ _ => control) (by simp [control]) fun h => ?_
      · rw [control] at hwriting
        exact (Control.writing.inj hwriting).symm
      · simp [Kernel.onCall, control, hfd]
      · simp [Kernel.onCall, control]
      · change BetweenBatches g.control at h
        rw [control] at h
        exact absurd h not_false
  | wouldBlock =>
      cases next
      have hfull : k.rooms fd < lowWater := by simpa [Kernel.answers] using answers
      refine inv.leave hsteady (fun fd' hroom hwriting => ?_) _
      rw [control] at hwriting
      rw [← Control.writing.inj hwriting] at hroom
      omega
  | interrupted =>
      cases next
      have hsame : k.afterwards lowWater g g (.send .interrupted) = k :=
        afterwards_same inv g rfl (fun _ => rfl) _
      rw [← hsame] at inv
      exact inv
  | failed =>
      cases next
      rw [Kernel.afterwards, (served_writing g control).2]
      exact inv.close hbusy held (.inr control)

theorem Inv.workMoved (inv : Inv lowWater g k) {t : Tables} (steady : Steady { g with tables := t })
    (moved : WorkMoved g.tables t) (rooms : k'.rooms = k.rooms) (pending : k'.pending = k.pending)
    (woken : t.completionQueue ≠ [] → g.tables.completionQueue ≠ [] ∨ k'.Woken)
    (kept : k.Woken → k'.Woken) : Inv lowWater { g with tables := t } k' := by
  refine inv.goOn steady moved.listenFd (fun _ => by rw [moved.armed]) (fun _ _ => by rw [rooms])
    (fun _ => by rw [pending]; exact id) (fun fd _ _ hcovered => ?_) (fun hcontrol hqueue => ?_)
    (fun hwaiting hstopped => kept (inv.stopping hwaiting hstopped)) inv.idle
  · rcases hcovered with h | h | h
    · exact .inl (by rw [pending]; exact h)
    · exact .inr (.inl h)
    · exact .inr (.inr h)
  · rcases woken hqueue with h | h
    · exact kept (inv.woken hcontrol h)
    · exact h

theorem Inv.reactor {w : World} {gateway : Gateway} (inv : Inv lowWater w.gateway w.kernel)
    {event : Reactor.Event} (answers : w.answers lowWater event = true)
    (next : Reactor.step order w.gateway event = some gateway) :
    Inv lowWater gateway ((w.kernel.onCall sendBuffer w.gateway.control event).afterwards lowWater
      w.gateway gateway event) := by
  have hsteady := inv.steady.step next
  cases stepped_of_step next with
  | kevent control returns => exact inv.kevent control hsteady
  | @keventError interrupted control =>
      refine inv.goto hsteady (fun _ _ => by simp [control]) (fun _ => inv.woken (.inr control))
        (fun h => by cases interrupted <;> cases h) fun h => ?_
      cases interrupted with
      | true => exact inv.idle (by rw [control]; trivial)
      | false => exact absurd h not_false
  | advance advanced => exact inv.advance advanced
  | accept control haccept => exact inv.accept control haccept
  | @recv result g fd conn control held hrecv =>
      have hcall : w.kernel.onCall sendBuffer w.gateway.control (.recv result) = w.kernel := rfl
      rw [hcall]
      exact inv.recv control held hrecv
  | send control held more hsend =>
      simp only [World.answers, control, held] at answers
      exact inv.send control held answers hsend
  | @take t htake =>
      have hmoved := (inv.steady.inv.take htake).2
      refine inv.workMoved hsteady hmoved rfl rfl (fun hqueue => .inl ?_) id
      unfold Tables.take at htake
      split at htake
      · cases htake
      · cases htake
        exact hqueue
  | finish hfinish =>
      exact inv.workMoved hsteady (inv.steady.inv.finish hfinish).2 rfl rfl
        (fun _ => .inr (.inr (Nat.succ_pos _))) fun _ => .inr (Nat.succ_pos _)
  | stop =>
      exact inv.goOn hsteady rfl (fun _ => rfl) (fun _ _ => rfl) (fun _ => id) (fun _ _ _ => id)
        (fun _ _ => .inr (Nat.succ_pos _)) (fun _ _ => .inr (Nat.succ_pos _)) inv.idle

theorem Inv.step {w w' : World} (inv : Inv lowWater w.gateway w.kernel) {event : Event}
    (next : ResponseReadiness.step lowWater sendBuffer order w event = some w') :
    Inv lowWater w'.gateway w'.kernel := by
  cases event with
  | drained fd count =>
      rw [ResponseReadiness.step, World.drained] at next
      by_cases hbad : (w.gateway.tables.connections fd).isNone ∨ count = 0
      · rw [if_pos hbad] at next
        cases next
      rw [if_neg hbad] at next
      cases next
      have hmem : ∀ fd', fd' ∈ w.kernel.pending → fd' ∈
          (if w.gateway.tables.armed fd .write ∧ lowWater ≤ w.kernel.rooms fd + count then
            insert fd w.kernel.pending else w.kernel.pending) := by
        intro fd' hpending
        split_ifs
        · exact Finset.mem_insert_of_mem hpending
        · exact hpending
      refine ⟨inv.steady, inv.listening, fun fd' harmed hroom => ?_, fun fd' hpending => ?_,
        inv.woken, inv.stopping, inv.idle⟩
      · by_cases hfd : fd' = fd
        · subst hfd
          have hready : lowWater ≤ w.kernel.rooms fd' + count := by simpa using hroom
          refine .inl ?_
          change fd' ∈ if _ then _ else _
          rw [if_pos ⟨harmed, hready⟩]
          exact Finset.mem_insert_self _ _
        · have hroom' : lowWater ≤ w.kernel.rooms fd' := by
            simpa [Function.update_of_ne hfd] using hroom
          rcases inv.covered fd' harmed hroom' with h | h
          · exact .inl (hmem fd' h)
          · exact .inr h
      · change fd' ∈ if _ then _ else _ at hpending
        split_ifs at hpending with hready
        · rcases Finset.mem_insert.mp hpending with rfl | hold
          · exact hready.1
          · exact inv.registered fd' hold
        · exact inv.registered fd' hpending
  | wake =>
      simp only [ResponseReadiness.step, World.wake] at next
      split_ifs at next with hnone
      cases next
      exact ⟨inv.steady, inv.listening, inv.covered, inv.registered, fun _ _ => .inl rfl,
        fun _ _ => .inl rfl, inv.idle⟩
  | reactor event =>
      simp only [ResponseReadiness.step] at next
      split_ifs at next with hanswers
      obtain ⟨gateway, hgateway, rfl⟩ := Option.map_eq_some_iff.mp next
      exact inv.reactor hanswers hgateway

end Preserved

end ApiGateway.ResponseReadiness
