import ApiGateway.ResponseReadiness
import ApiGateway.StepMeasures

/-! The reactor and its workers come to rest. What the clients and the signals do not bring about
is a number of steps known beforehand, and when none of them is left every request that was
dispatched has its response, of which the client was sent as much as it takes. -/

namespace ApiGateway.ReactorProgress
open ByteText Reactor ReactorPhases ReactorRuns ResponseReadiness StepRuns StepMeasures
open ErrorContainment (served)

def sendable (g : Gateway) (k : Kernel) (fd : Nat) : Nat :=
  match g.tables.connections fd with
  | none => 0
  | some conn => if conn.writeOffset < conn.writeBuffer.length ∧ 0 < k.rooms fd then 1 else 0

def rank (g : Gateway) (k : Kernel) : Nat :=
  match g.control with
  | .poll => 1
  | .waiting => 0
  | .batch => 3
  | .accepting => 4
  | .reading _ => 4
  | .writing fd => 4 + sendable g k fd
  | .draining last => if last then 2 else 4
  | .returned => 0
  | .thrown => 0

/-- An event in the kernel pays for being reported and handled, a result for its WRITE event, a
thread that has still to wake the reactor for the event of the wake channel, and a task for its
result and for this. -/
def load (t : Tables) (k : Kernel) : Nat :=
  18 * t.tasks.length + 17 * t.working.length + 8 * t.completionQueue.length + 8 * k.waking +
    7 * k.user.toNat + 7 * k.pending.card

def work (g : Gateway) (k : Kernel) : Nat := load g.tables k + 3 * g.events.length + rank g k

def isExternal : KEvent → Bool
  | .user => false
  | .ready _ .write => false
  | _ => true

/-- What comes from outside, or has to be done again. -/
def gain : ResponseReadiness.Event → Nat
  | .drained _ _ => 9
  | .wake => 0
  | .reactor (.kevent events) =>
      7 * (events.filter isExternal).length + if events.isEmpty then 4 else 0
  | .reactor (.keventError _) => 2
  | .reactor (.accept (.client _ _ _)) => 1
  | .reactor (.recv (.bytes _)) => 18
  | .reactor (.recv .interrupted) => 1
  | .reactor (.send .interrupted) => 1
  | .reactor .stop => 9
  | .reactor _ => 0

section Pays

variable {lowWater sendBuffer : Nat} {order : IterationOrder Bytes Bytes} {g g' : Gateway}
  {k k' : Kernel}

theorem sendable_le (g : Gateway) (k : Kernel) (fd : Nat) : sendable g k fd ≤ 1 := by
  unfold sendable
  split
  · exact Nat.zero_le _
  · split_ifs
    · exact le_rfl
    · exact Nat.zero_le _

theorem rank_le (g : Gateway) (k : Kernel) : rank g k ≤ 5 := by
  have hsendable := sendable_le g k
  unfold rank
  cases g.control with
  | writing fd => exact Nat.add_le_add_left (hsendable fd) 4
  | draining last => cases last <;> simp
  | _ => simp

theorem rank_congr (rooms : k'.rooms = k.rooms) : rank g k' = rank g k := by
  simp only [rank, sendable, rooms]

theorem work_afterwards_le (lowWater : Nat) (g g' : Gateway) (k : Kernel) (event : Reactor.Event) :
    work g' (k.afterwards lowWater g g' event) ≤ work g' k + 7 := by
  have hcard : ∀ fd, (k.registered lowWater g.tables g'.tables fd).pending.card ≤
      k.pending.card + 1 := by
    intro fd
    unfold Kernel.registered
    split_ifs
    · exact Finset.card_insert_le _ _
    · exact Nat.le_succ _
    · exact Finset.card_erase_le.trans (Nat.le_succ _)
  unfold Kernel.afterwards
  split
  · exact Nat.le_add_right _ _
  next fd _ =>
    have hrank : rank g' (k.registered lowWater g.tables g'.tables fd) = rank g' k := rank_congr rfl
    have hle := hcard fd
    rw [work, work, hrank, load, load]
    change _ + 8 * k.waking + 7 * k.user.toNat + _ + _ + _ ≤ _
    omega

theorem work_afterwards_unarmed (lowWater : Nat) (g g' : Gateway) (k : Kernel)
    (event : Reactor.Event)
    (unarmed : ∀ fd, g'.tables.armed fd .write = true → g.tables.armed fd .write = true) :
    work g' (k.afterwards lowWater g g' event) ≤ work g' k := by
  have hcard : ∀ fd, (k.registered lowWater g.tables g'.tables fd).pending.card ≤
      k.pending.card := by
    intro fd
    unfold Kernel.registered
    split_ifs with harmed hnew
    · rw [unarmed fd harmed] at hnew
      cases hnew.1
    · exact le_rfl
    · exact Finset.card_erase_le
  unfold Kernel.afterwards
  split
  · exact le_rfl
  next fd _ =>
    have hrank : rank g' (k.registered lowWater g.tables g'.tables fd) = rank g' k := rank_congr rfl
    have hle := hcard fd
    rw [work, work, hrank, load, load]
    change _ + 8 * k.waking + 7 * k.user.toNat + _ + _ + _ ≤ _
    omega

theorem reported (k : Kernel) {events : List KEvent} (once : events.Nodup)
    (reports : ∀ event ∈ events, k.reports event = true) :
    events.length + (k.user && decide (.user ∉ events)).toNat +
        (k.pending.filter fun fd => .ready fd .write ∉ events).card ≤
      k.user.toNat + k.pending.card + (events.filter isExternal).length := by
  induction events with
  | nil => simp
  | cons event rest ih =>
      rw [List.nodup_cons] at once
      have hrest := ih once.2 fun event hevent => reports event (List.mem_cons_of_mem _ hevent)
      have hreports := reports event List.mem_cons_self
      cases event with
      | user =>
          have huser : k.user = true := hreports
          simp only [List.mem_cons, reduceCtorEq, false_or, true_or, not_true, decide_false,
            Bool.and_false, Bool.toNat_false, List.length_cons, isExternal, List.filter_cons,
            Bool.false_eq_true, if_false]
          simp only [once.1, huser, not_false_iff, decide_true, Bool.and_self, Bool.toNat_true]
            at hrest
          rw [huser, Bool.toNat_true]
          omega
      | signal signalNumber =>
          simp only [List.mem_cons, reduceCtorEq, false_or, List.length_cons, isExternal,
            List.filter_cons, if_true]
          omega
      | ready fd filter =>
          cases filter with
          | read =>
              simp only [List.mem_cons, reduceCtorEq, false_or, KEvent.ready.injEq, and_false,
                List.length_cons, isExternal, List.filter_cons, if_true]
              omega
          | write =>
              have hpending : fd ∈ k.pending := by simpa [Kernel.reports] using hreports
              have herase : (k.pending.filter fun fd' =>
                  .ready fd' .write ∉ KEvent.ready fd .write :: rest) =
                  (k.pending.filter fun fd' => .ready fd' .write ∉ rest).erase fd := by
                ext fd'
                simp only [List.mem_cons, KEvent.ready.injEq, and_true, Finset.mem_filter,
                  Finset.mem_erase]
                tauto
              have hcard := Finset.card_erase_add_one
                (Finset.mem_filter.mpr ⟨hpending, once.1⟩ :
                  fd ∈ k.pending.filter fun fd' => .ready fd' .write ∉ rest)
              rw [herase]
              simp only [List.mem_cons, reduceCtorEq, false_or, List.length_cons, isExternal,
                List.filter_cons, Bool.false_eq_true, if_false]
              omega

theorem work_kevent {events : List KEvent} (control : g.control = .waiting)
    (idle : g.events = []) (once : events.Nodup) (reports : events.all k.reports = true) :
    work { g with events := events, control := .batch }
        { k with
          user := k.user && decide (.user ∉ events)
          pending := k.pending.filter fun fd => .ready fd .write ∉ events } + 1 ≤
      work g k + gain (.reactor (.kevent events)) := by
  have hreported := reported k once (List.all_eq_true.mp reports)
  have hempty : 3 * events.length + 4 ≤
      7 * events.length + if events.isEmpty then 4 else 0 := by
    cases events with
    | nil => simp
    | cons event rest =>
        simp only [List.length_cons, List.isEmpty_cons, Bool.false_eq_true, if_false]
        omega
  simp only [work, load, rank, control, idle, gain, List.length_nil]
  omega

theorem closed_armed (t : Tables) (fd fd' : Nat)
    (armed : (t.closeConnection fd).armed fd' .write = true) : t.armed fd' .write = true := by
  unfold Tables.closeConnection at armed
  simp only [armed_registerEvent] at armed
  split_ifs at armed
  exact armed

theorem work_close (k : Kernel) {fd : Nat} (event : Reactor.Event)
    (control : g.control = .reading fd ∨ g.control = .writing fd) :
    work (g.close fd) (k.afterwards lowWater g (g.close fd) event) + 1 ≤ work g k := by
  have hle := work_afterwards_unarmed lowWater g (g.close fd) k event
    fun fd' => closed_armed g.tables fd fd'
  have hrank : 4 ≤ rank g k := by
    rcases control with h | h
    · simp [rank, h]
    · simp [rank, h]
  have hload : load (g.close fd).tables k = load g.tables k := rfl
  have hclosed : work (g.close fd) k = load g.tables k + 3 * g.events.length + 3 := by
    rw [work, hload]
    rfl
  rw [work] at hle ⊢
  rw [work]
  omega

theorem work_goto (lowWater : Nat) (g : Gateway) (control : Control) (k : Kernel)
    (event : Reactor.Event) :
    work (g.goto control) (k.afterwards lowWater g (g.goto control) event) ≤
      load g.tables k + 3 * g.events.length + rank (g.goto control) k :=
  work_afterwards_unarmed lowWater g (g.goto control) k event fun _ => id

theorem work_tables (g : Gateway) (t : Tables) (k : Kernel) : work { g with tables := t } k =
    load t k + 3 * g.events.length + rank { g with tables := t } k := by
  rfl

theorem work_advance (inv : Inv lowWater g k) (advanced : Advanced g g') :
    work g' (k.afterwards lowWater g g' .advance) + 1 ≤ work g k := by
  cases advanced with
  | poll control =>
      have hle := work_goto lowWater g (if g.running then .waiting else .returned) k .advance
      have hrank : rank (g.goto (if g.running then .waiting else .returned)) k = 0 := by
        cases hrunning : g.running <;> simp [rank, Gateway.goto]
      have hbefore : rank g k = 1 := by simp [rank, control]
      rw [work.eq_1 g]
      omega
  | lastDrain control events =>
      have hle := work_goto lowWater g (.draining true) k .advance
      have hrank : rank (g.goto (.draining true)) k = 2 := rfl
      have hbefore : rank g k = 3 := by simp [rank, control]
      rw [work.eq_1 g]
      omega
  | @event event rest control events =>
      have htables : ({ g with events := rest }.onEvent event).tables = g.tables :=
        onEvent_tables _ _
      have hle := work_afterwards_unarmed lowWater g ({ g with events := rest }.onEvent event) k
        .advance fun fd => by rw [htables]; exact id
      have hrest : ({ g with events := rest }.onEvent event).events = rest :=
        (ReadReadiness.onEvent_spec rest inv.steady control event).1
      have hrank := rank_le ({ g with events := rest }.onEvent event) k
      have hbefore : rank g k = 3 := by simp [rank, control]
      rw [work.eq_1 _ k, htables, hrest] at hle
      rw [work.eq_1 g, events, List.length_cons]
      omega
  | written control held all => exact work_close k .advance (.inr control)
  | @drained last control queue =>
      have hle := work_goto lowWater g (if last then .poll else .batch) k .advance
      have hrank : rank (g.goto (if last then .poll else .batch)) k + 1 = rank g k := by
        cases last <;> simp [rank, control, Gateway.goto]
      rw [work.eq_1 g]
      omega
  | @delivered last result rest control queue =>
      have hle := work_afterwards_le lowWater g
        { g with tables := { g.tables with completionQueue := rest }.deliver result } k .advance
      have hload : load ({ g.tables with completionQueue := rest }.deliver result) k + 8 =
          load g.tables k := by
        have hparts : ∀ t : Tables, t.completionQueue = rest → (t.deliver result).tasks = t.tasks ∧
            (t.deliver result).working = t.working ∧ (t.deliver result).completionQueue = rest := by
          intro t hqueue
          unfold Tables.deliver
          split
          · exact ⟨rfl, rfl, hqueue⟩
          · exact ⟨rfl, rfl, hqueue⟩
        obtain ⟨htasks, hworking, hqueue⟩ := hparts { g.tables with completionQueue := rest } rfl
        simp only [load, htasks, hworking, hqueue, queue, List.length_cons]
        omega
      have hrank : rank { g with
          tables := { g.tables with completionQueue := rest }.deliver result } k = rank g k := by
        simp only [rank, control]
      rw [work_tables g _ k, hrank] at hle
      rw [work.eq_1 g]
      omega

theorem work_accept (control : g.control = .accepting) {result : Accept}
    (next : g.onAccept result = some g') :
    work g' ((k.onCall sendBuffer g.control (.accept result)).afterwards lowWater g g'
        (.accept result)) + 1 ≤ work g k + gain (.reactor (.accept result)) := by
  have hbefore : rank g k = 4 := by simp [rank, control]
  cases result with
  | failed =>
      cases next
      have hle := work_goto lowWater g .batch k (.accept .failed)
      have hrank : rank (g.goto .batch) k = 3 := rfl
      rw [work.eq_1 g]
      simp only [Kernel.onCall, gain]
      omega
  | client clientFd requestId nonBlocking =>
      unfold Gateway.onAccept at next
      simp only at next
      split_ifs at next with hused hfcntl
      · cases next
        have hle := work_afterwards_unarmed lowWater g
          { g with tables := g.tables.onAccepted clientFd requestId }
          (k.onCall sendBuffer g.control (.accept (.client clientFd requestId nonBlocking)))
          (.accept (.client clientFd requestId nonBlocking)) fun fd harmed => by
            simpa [Tables.onAccepted, Tables.setConnection] using harmed
        have hrank : rank { g with tables := g.tables.onAccepted clientFd requestId }
            (k.onCall sendBuffer g.control (.accept (.client clientFd requestId nonBlocking))) =
              4 := by
          simp [rank, control]
        rw [work.eq_1 _ (k.onCall _ _ _), hrank] at hle
        rw [work.eq_1 g, hbefore]
        simp only [gain]
        exact Nat.add_le_add_right hle 1
      · cases next
        have hle := work_goto lowWater g .thrown
          (k.onCall sendBuffer g.control (.accept (.client clientFd requestId nonBlocking)))
          (.accept (.client clientFd requestId nonBlocking))
        have hload : load g.tables (k.onCall sendBuffer g.control
            (.accept (.client clientFd requestId nonBlocking))) = load g.tables k := rfl
        rw [hload] at hle
        rw [work.eq_1 g]
        simp only [gain]
        exact (Nat.add_le_add_right hle 1).trans (by simp [rank, Gateway.goto])

theorem load_onReceived (order : IterationOrder Bytes Bytes) (t : Tables) (fd : Nat)
    (conn : Connection) (chunk : Bytes) (k : Kernel) :
    load (t.onReceived order fd conn chunk).1 k = load t k + 18 ∧
        (∀ fd', (t.onReceived order fd conn chunk).1.armed fd' .write = true →
          t.armed fd' .write = true) ∧ (t.onReceived order fd conn chunk).2 = .batch ∨
      load (t.onReceived order fd conn chunk).1 k = load t k ∧
        (((t.onReceived order fd conn chunk).2 = .batch ∨
            (t.onReceived order fd conn chunk).2 = .thrown) ∨
          (t.onReceived order fd conn chunk).2 = .reading fd) := by
  rcases onReceived_cases order t fd conn chunk with ⟨dispatch, h⟩ |
    ⟨reading, rejection, t', hreject, h⟩ | ⟨reading, control, h, hcontrol⟩
  · rw [h]
    refine .inl ⟨?_, fun fd' harmed => ?_, rfl⟩
    · simp only [load, Tables.dispatchToThreadPool, Tables.registerEvent, Tables.setConnection,
        List.length_append, List.length_singleton]
      omega
    · simpa [Tables.dispatchToThreadPool, Tables.setConnection] using harmed
  · obtain ⟨bytes, ht⟩ := rejectRequest_ok hreject
    rw [h, ht]
    exact .inr ⟨rfl, .inl (.inl rfl)⟩
  · rw [h]
    refine .inr ⟨rfl, ?_⟩
    rcases hcontrol with hthrown | hbatch | hreading
    · exact .inl (.inr hthrown)
    · exact .inl (.inl hbatch)
    · exact .inr hreading

theorem work_recv {fd : Nat} {conn : Connection} (control : g.control = .reading fd)
    {result : Recv} (next : g.onRecv order fd conn result = some g') :
    work g' (k.afterwards lowWater g g' (.recv result)) + 1 ≤
      work g k + gain (.reactor (.recv result)) := by
  have hbefore : rank g k = 4 := by simp [rank, control]
  cases result with
  | bytes chunk =>
      unfold Gateway.onRecv at next
      simp only at next
      split_ifs at next
      cases next
      have hafter : ∀ k, work { g with
            tables := (g.tables.onReceived order fd conn chunk).1
            control := (g.tables.onReceived order fd conn chunk).2 } k =
          load (g.tables.onReceived order fd conn chunk).1 k + 3 * g.events.length +
            rank { g with
              tables := (g.tables.onReceived order fd conn chunk).1
              control := (g.tables.onReceived order fd conn chunk).2 } k := fun _ => rfl
      rw [work.eq_1 g, hbefore]
      simp only [gain]
      rcases load_onReceived order g.tables fd conn chunk k with
        ⟨hload, hunarmed, hbatch⟩ | ⟨hload, hcontrol⟩
      · have hle := work_afterwards_unarmed lowWater g { g with
            tables := (g.tables.onReceived order fd conn chunk).1
            control := (g.tables.onReceived order fd conn chunk).2 } k (.recv (.bytes chunk))
          hunarmed
        have hrank : rank { g with
            tables := (g.tables.onReceived order fd conn chunk).1
            control := (g.tables.onReceived order fd conn chunk).2 } k = 3 := by
          simp [rank, hbatch]
        rw [hafter k, hload, hrank] at hle
        omega
      · have hle := work_afterwards_le lowWater g { g with
            tables := (g.tables.onReceived order fd conn chunk).1
            control := (g.tables.onReceived order fd conn chunk).2 } k (.recv (.bytes chunk))
        rw [hafter k, hload] at hle
        have hrank : rank { g with
              tables := (g.tables.onReceived order fd conn chunk).1
              control := (g.tables.onReceived order fd conn chunk).2 } k ≤ 4 := by
          rcases hcontrol with (h | h) | h
          · simp [rank, h]
          · simp [rank, h]
          · simp [rank, h]
        omega
  | endOfStream =>
      cases next
      exact work_close k (.recv .endOfStream) (.inl control)
  | wouldBlock =>
      cases next
      have hle := work_goto lowWater g .batch k (.recv .wouldBlock)
      have hrank : rank (g.goto .batch) k = 3 := rfl
      rw [work.eq_1 g]
      simp only [gain]
      omega
  | interrupted =>
      cases next
      have hle := work_goto lowWater g g.control k (.recv .interrupted)
      rw [work.eq_1 g]
      exact Nat.add_le_add_right hle 1
  | failed =>
      cases next
      exact work_close k (.recv .failed) (.inl control)

theorem work_send {fd : Nat} {conn : Connection} (control : g.control = .writing fd)
    (held : g.tables.connections fd = some conn)
    (more : conn.writeOffset < conn.writeBuffer.length) {result : Send}
    (answers : k.answers lowWater fd conn result = true)
    (next : g.onSend fd conn result = some g') :
    work g' ((k.onCall sendBuffer g.control (.send result)).afterwards lowWater g g'
        (.send result)) + 1 ≤ work g k + gain (.reactor (.send result)) := by
  have hbefore : 4 ≤ rank g k := by simp [rank, control]
  cases result with
  | bytes count =>
      unfold Gateway.onSend at next
      simp only at next
      split_ifs at next with hbad
      cases next
      rw [not_or, Nat.not_lt] at hbad
      have hcount : count = min (conn.writeBuffer.length - conn.writeOffset) (k.rooms fd) := by
        simpa [Kernel.answers] using answers
      have hroom : 0 < k.rooms fd := by omega
      have hsendable : sendable g k fd = 1 := by
        simp only [sendable, held]
        rw [if_pos ⟨more, hroom⟩]
      have hrank : rank g k = 5 := by simp [rank, control, hsendable]
      -- either all is sent, or the buffer is full
      have hafter : sendable { g with tables := g.tables.onSent fd conn count }
          (k.onCall sendBuffer g.control (.send (.bytes count))) fd = 0 := by
        have hheld : (g.tables.onSent fd conn count).connections fd =
            some { conn with writeOffset := conn.writeOffset + count } := Function.update_self _ _ _
        have hrooms : (k.onCall sendBuffer g.control (.send (.bytes count))).rooms fd =
            k.rooms fd - count := by
          simp [Kernel.onCall, control]
        simp only [sendable, hheld, hrooms]
        rw [if_neg (by omega)]
      have hle := work_afterwards_unarmed lowWater g
        { g with tables := g.tables.onSent fd conn count }
        (k.onCall sendBuffer g.control (.send (.bytes count))) (.send (.bytes count)) fun _ => id
      have hrank' : rank { g with tables := g.tables.onSent fd conn count }
          (k.onCall sendBuffer g.control (.send (.bytes count))) = 4 := by
        simp only [rank, control] at hafter ⊢
        rw [hafter]
      have hload : load (g.tables.onSent fd conn count)
          (k.onCall sendBuffer g.control (.send (.bytes count))) = load g.tables k := by
        simp only [Kernel.onCall, control]
        rfl
      rw [work_tables g _ (k.onCall _ _ _), hrank', hload] at hle
      rw [work.eq_1 g, hrank]
      simp only [gain]
      omega
  | wouldBlock =>
      cases next
      have hle := work_goto lowWater g .batch k (.send .wouldBlock)
      have hrank : rank (g.goto .batch) k = 3 := rfl
      rw [work.eq_1 g]
      simp only [gain]
      refine (Nat.add_le_add_right hle 1).trans ?_
      omega
  | interrupted =>
      cases next
      have hle := work_goto lowWater g g.control k (.send .interrupted)
      rw [work.eq_1 g]
      exact Nat.add_le_add_right hle 1
  | failed =>
      cases next
      exact work_close k (.send .failed) (.inr control)

theorem load_take {t t' : Tables} (k : Kernel) (next : t.take = some t') :
    load t' k + 1 = load t k := by
  unfold Tables.take at next
  split at next
  · cases next
  next task rest htasks =>
    cases next
    simp only [load, htasks, List.length_append, List.length_cons, List.length_nil]
    omega

theorem load_finish {t t' : Tables} (k : Kernel) {i : Nat} {outcome : Outcome}
    (next : t.finish i outcome = some t') :
    load t' { k with waking := k.waking + 1 } + 1 = load t k := by
  unfold Tables.finish at next
  split at next
  · cases next
  next task htask =>
    cases next
    have hlength := (perm_eraseIdx htask).length_eq
    rw [List.length_cons] at hlength
    simp only [load, hlength, List.length_append, List.length_cons, List.length_nil]
    omega

theorem work_moved {t : Tables} (moved : WorkMoved g.tables t) (rooms : k'.rooms = k.rooms)
    {cost paid : Nat} (pays : load t k' + cost ≤ load g.tables k + paid) :
    work { g with tables := t } k' + cost ≤ work g k + paid := by
  have hrank : rank { g with tables := t } k' = rank g k := by
    simp only [rank, sendable, moved.connections, rooms]
  rw [work_tables, hrank, work]
  omega

theorem work_reactor {w : World} {gateway : Gateway} (inv : Inv lowWater w.gateway w.kernel)
    {event : Reactor.Event} (answers : w.answers lowWater event = true)
    (next : Reactor.step order w.gateway event = some gateway) :
    work gateway ((w.kernel.onCall sendBuffer w.gateway.control event).afterwards lowWater
        w.gateway gateway event) + 1 ≤
      work w.gateway w.kernel + gain (.reactor event) := by
  cases stepped_of_step next with
  | kevent control returns =>
      exact work_kevent control (inv.idle (by rw [control]; trivial)) returns.2.1 answers
  | @keventError interrupted control =>
      have hle := work_goto lowWater w.gateway (if interrupted then .poll else .thrown) w.kernel
        (.keventError interrupted)
      have hrank : rank (w.gateway.goto (if interrupted then .poll else .thrown)) w.kernel ≤ 1 := by
        cases interrupted <;> simp [rank, Gateway.goto]
      rw [work.eq_1 w.gateway]
      simp only [gain]
      refine (Nat.add_le_add_right hle 1).trans ?_
      omega
  | advance advanced => exact work_advance inv advanced
  | accept control haccept => exact work_accept control haccept
  | recv control held hrecv => exact work_recv control hrecv
  | send control held more hsend =>
      simp only [World.answers, control, held] at answers
      exact work_send control held more answers hsend
  | take htake =>
      exact work_moved (inv.steady.inv.take htake).2 rfl (load_take w.kernel htake).le
  | finish hfinish =>
      have hrooms : { w.kernel with waking := w.kernel.waking + 1 }.rooms = w.kernel.rooms := rfl
      exact work_moved (inv.steady.inv.finish hfinish).2 hrooms (load_finish w.kernel hfinish).le
  | stop =>
      have hload : load w.gateway.tables
          { w.kernel with waking := w.kernel.waking + 1 } = load w.gateway.tables w.kernel + 8 := by
        simp only [load]
        omega
      change load w.gateway.tables { w.kernel with waking := w.kernel.waking + 1 } +
        3 * w.gateway.events.length + rank w.gateway w.kernel + 1 ≤ work w.gateway w.kernel + 9
      rw [hload, work]
      omega

theorem rank_room (g : Gateway) (k k' : Kernel) : rank g k' ≤ rank g k + 1 := by
  have hsendable := sendable_le g k'
  unfold rank
  cases g.control with
  | writing fd => exact Nat.add_le_add (Nat.le_add_right 4 _) (hsendable fd)
  | _ => exact Nat.le_succ _

theorem work_room (g : Gateway) {k k' : Kernel} (waking : k'.waking = k.waking)
    (user : k'.user = k.user) (card : k'.pending.card ≤ k.pending.card + 1) :
    work g k' ≤ work g k + 8 := by
  have hrank := rank_room g k k'
  simp only [work, load, waking, user]
  omega

theorem work_step {w w' : World} (inv : Inv lowWater w.gateway w.kernel)
    {event : ResponseReadiness.Event}
    (next : ResponseReadiness.step lowWater sendBuffer order w event = some w') :
    work w'.gateway w'.kernel + 1 ≤ work w.gateway w.kernel + gain event := by
  cases event with
  | drained fd count =>
      rw [ResponseReadiness.step, World.drained] at next
      by_cases hbad : (w.gateway.tables.connections fd).isNone ∨ count = 0
      · rw [if_pos hbad] at next
        cases next
      rw [if_neg hbad] at next
      cases next
      have hcard : (if w.gateway.tables.armed fd .write ∧ lowWater ≤ w.kernel.rooms fd + count then
          insert fd w.kernel.pending else w.kernel.pending).card ≤ w.kernel.pending.card + 1 := by
        split_ifs
        · exact Finset.card_insert_le _ _
        · exact Nat.le_succ _
      have hroom : work w.gateway ⟨Function.update w.kernel.rooms fd (w.kernel.rooms fd + count),
          if w.gateway.tables.armed fd .write ∧ lowWater ≤ w.kernel.rooms fd + count then
            insert fd w.kernel.pending else w.kernel.pending, w.kernel.user, w.kernel.waking⟩ ≤
          work w.gateway w.kernel + 8 := by
        exact work_room w.gateway rfl rfl hcard
      exact Nat.add_le_add_right hroom 1
  | wake =>
      simp only [ResponseReadiness.step, World.wake] at next
      split_ifs at next with hnone
      cases next
      have hrank : rank w.gateway { w.kernel with user := true, waking := w.kernel.waking - 1 } =
          rank w.gateway w.kernel := rank_congr rfl
      simp only [work, load, hrank, gain, Bool.toNat_true]
      omega
  | reactor event =>
      simp only [ResponseReadiness.step] at next
      split_ifs at next with hanswers
      obtain ⟨gateway, hgateway, rfl⟩ := Option.map_eq_some_iff.mp next
      exact work_reactor inv hanswers hgateway

end Pays

def own (event : ResponseReadiness.Event) : Prop := gain event = 0

/-- All that was received is answered, and the clients were sent what they take. -/
structure Answered (lowWater : Nat) (w : World) : Prop where
  waiting : w.gateway.control = .waiting
  running : w.gateway.running = true
  delivered : w.gateway.tables.history.dispatched.Perm
    (w.gateway.tables.history.delivered.map Prod.fst)
  connections : ∀ fd conn, w.gateway.tables.connections fd = some conn →
    w.gateway.tables.InPhase fd conn .reading ∨
      w.gateway.tables.InPhase fd conn .writing ∧ w.kernel.rooms fd < lowWater

structure Settled (lowWater : Nat) (w : World) : Prop where
  worked : w.gateway.tables.tasks = [] ∧ w.gateway.tables.working = []
  quiet : w.kernel.waking = 0
  reactor : w.gateway.control = .returned ∨ w.gateway.control = .thrown ∨ Answered lowWater w

section Rest

variable {lowWater sendBuffer : Nat} {order : IterationOrder Bytes Bytes} {w w' : World}

theorem answered_of_waiting (inv : Inv lowWater w.gateway w.kernel)
    (waiting : w.gateway.control = .waiting)
    (worked : w.gateway.tables.tasks = [] ∧ w.gateway.tables.working = [])
    (quiet : w.kernel.waking = 0) (user : w.kernel.user = false) (pending : w.kernel.pending = ∅) :
    Answered lowWater w := by
  have hunwoken : ¬ w.kernel.Woken := by
    rw [Kernel.Woken, user, quiet]
    simp
  have hqueue : w.gateway.tables.completionQueue = [] := by
    by_contra hqueue
    exact hunwoken (inv.woken (.inr waiting) hqueue)
  have hwork : w.gateway.tables.work = [] := by
    simp only [Tables.work, worked.1, worked.2, hqueue, List.map_nil, List.append_nil]
  refine ⟨waiting, ?_, ?_, fun fd conn hheld => ?_⟩
  · by_contra hstopped
    exact hunwoken (inv.stopping waiting (Bool.eq_false_iff.mpr hstopped))
  · have hyielded := inv.steady.inv.accounts.yielded
    have hhanded := inv.steady.inv.accounts.handed
    rw [worked.1, worked.2, List.map_nil, List.append_nil, List.nil_append] at hyielded
    rw [hqueue, List.map_nil, List.nil_append] at hhanded
    exact hyielded.trans hhanded
  · obtain ⟨phase, hphase, -⟩ := inv.steady.inv.phase hheld
    cases phase with
    | reading => exact .inl hphase
    | inFlight =>
        have hone : w.gateway.tables.workOn fd = 1 := hphase.2.2.2
        rw [Tables.workOn, hwork] at hone
        cases hone
    | writing =>
        refine .inr ⟨hphase, ?_⟩
        by_contra hroom
        rcases inv.covered fd hphase.2.1 (Nat.not_lt.mp hroom) with h | h | h
        · rw [pending] at h
          cases h
        · rw [inv.idle (by rw [waiting]; trivial)] at h
          cases h
        · rw [waiting] at h
          cases h

variable (lowWater sendBuffer order) in
theorem reactor_can (event : Reactor.Event) (owned : own (.reactor event))
    (answers : w.answers lowWater event = true)
    (next : (Reactor.step order w.gateway event).isSome = true) :
    ∃ event w', own event ∧ ResponseReadiness.step lowWater sendBuffer order w event = some w' := by
  have hstep :
      (ResponseReadiness.step lowWater sendBuffer order w (.reactor event)).isSome = true := by
    rw [ResponseReadiness.step, if_pos answers, Option.isSome_map, next]
  obtain ⟨w', hw'⟩ := Option.isSome_iff_exists.mp hstep
  exact ⟨.reactor event, w', owned, hw'⟩

variable (sendBuffer order) in
theorem reactor_goes_on (positive : 1 ≤ lowWater) (inv : Inv lowWater w.gateway w.kernel)
    (waiting : w.gateway.control ≠ .waiting) (returned : w.gateway.control ≠ .returned)
    (thrown : w.gateway.control ≠ .thrown) :
    ∃ event w', own event ∧ ResponseReadiness.step lowWater sendBuffer order w event = some w' := by
  have hwork := inv.steady.atWork
  have hadvance : w.gateway.advance.isSome = true → ∃ event w', own event ∧
      ResponseReadiness.step lowWater sendBuffer order w event = some w' :=
    fun next => reactor_can lowWater sendBuffer order .advance rfl rfl next
  cases hcontrol : w.gateway.control with
  | poll => exact hadvance (by simp [Gateway.advance, hcontrol])
  | waiting => exact absurd hcontrol waiting
  | batch =>
      cases hevents : w.gateway.events with
      | nil => exact hadvance (by simp [Gateway.advance, hcontrol, hevents])
      | cons event rest => exact hadvance (by simp [Gateway.advance, hcontrol, hevents])
  | accepting =>
      have hnext : (Reactor.step order w.gateway (.accept .failed)).isSome = true := by
        simp [Reactor.step, hcontrol, Gateway.onAccept]
      exact reactor_can lowWater sendBuffer order (.accept .failed) rfl rfl hnext
  | reading fd =>
      rw [hcontrol] at hwork
      obtain ⟨conn, hheld⟩ := hwork.held
      have hnext : (Reactor.step order w.gateway (.recv .wouldBlock)).isSome = true := by
        simp [Reactor.step, hcontrol, hheld, Gateway.onRecv]
      exact reactor_can lowWater sendBuffer order (.recv .wouldBlock) rfl rfl hnext
  | writing fd =>
      rw [hcontrol] at hwork
      obtain ⟨conn, hheld⟩ := hwork.held
      by_cases hmore : conn.writeOffset < conn.writeBuffer.length
      · by_cases hroom : w.kernel.rooms fd = 0
        · have hnext : (Reactor.step order w.gateway (.send .wouldBlock)).isSome = true := by
            simp [Reactor.step, hcontrol, hheld, hmore, Gateway.onSend]
          have hanswers : w.answers lowWater (.send .wouldBlock) = true := by
            simp only [World.answers, hcontrol, hheld, Kernel.answers, hroom, decide_eq_true_eq]
            omega
          exact reactor_can lowWater sendBuffer order (.send .wouldBlock) rfl hanswers hnext
        · let count := min (conn.writeBuffer.length - conn.writeOffset) (w.kernel.rooms fd)
          have hfits : ¬ (count = 0 ∨ conn.writeOffset + count > conn.writeBuffer.length) := by
            omega
          have hnext : (Reactor.step order w.gateway (.send (.bytes count))).isSome = true := by
            simp only [Reactor.step, hcontrol, hheld, Option.bind_some, if_pos hmore,
              Gateway.onSend, if_neg hfits, Option.isSome_some]
          have hanswers : w.answers lowWater (.send (.bytes count)) = true := by
            simp only [World.answers, hcontrol, hheld, Kernel.answers, decide_eq_true_eq, count]
          exact reactor_can lowWater sendBuffer order (.send (.bytes count)) rfl hanswers hnext
      · exact hadvance (by simp [Gateway.advance, hcontrol, hheld, hmore])
  | draining last =>
      cases hqueue : w.gateway.tables.completionQueue with
      | nil => exact hadvance (by simp [Gateway.advance, hcontrol, hqueue])
      | cons result rest => exact hadvance (by simp [Gateway.advance, hcontrol, hqueue])
  | returned => exact absurd hcontrol returned
  | thrown => exact absurd hcontrol thrown

variable (sendBuffer order) in
theorem goes_on (positive : 1 ≤ lowWater) (inv : Inv lowWater w.gateway w.kernel)
    (unsettled : ¬ Settled lowWater w) :
    ∃ event w', own event ∧ ResponseReadiness.step lowWater sendBuffer order w event = some w' := by
  by_cases htasks : w.gateway.tables.tasks = []
  swap
  · obtain ⟨task, rest, hcons⟩ := List.exists_cons_of_ne_nil htasks
    have hnext : (Reactor.step order w.gateway .take).isSome = true := by
      simp [Reactor.step, Tables.take, hcons]
    exact reactor_can lowWater sendBuffer order .take rfl rfl hnext
  by_cases hworking : w.gateway.tables.working = []
  swap
  · obtain ⟨task, rest, hcons⟩ := List.exists_cons_of_ne_nil hworking
    have hnext : (Reactor.step order w.gateway (.finish 0 (.threw false))).isSome = true := by
      simp [Reactor.step, Tables.finish, hcons]
    exact reactor_can lowWater sendBuffer order (.finish 0 (.threw false)) rfl rfl hnext
  by_cases hwaking : w.kernel.waking = 0
  swap
  · exact ⟨.wake, ⟨w.gateway, { w.kernel with user := true, waking := w.kernel.waking - 1 }⟩, rfl,
      if_neg hwaking⟩
  by_cases hwaiting : w.gateway.control = .waiting
  · have hreports : ∀ event, w.kernel.reports event = true → isExternal event = false →
        w.gateway.tables.canReport event = true → ∃ event w', own event ∧
          ResponseReadiness.step lowWater sendBuffer order w event = some w' := by
      intro event hreports hinternal hcan
      have hreturns : w.gateway.tables.CanReturn [event] :=
        ⟨by simp [kMaxEventsPerPoll], List.nodup_singleton _, by simpa using hcan⟩
      have hnext : (Reactor.step order w.gateway (.kevent [event])).isSome = true := by
        simp [Reactor.step, hwaiting, hreturns]
      have howned : own (.reactor (.kevent [event])) := by
        simp [own, gain, hinternal]
      have hanswers : w.answers lowWater (.kevent [event]) = true := by
        simp [World.answers, hreports]
      exact reactor_can lowWater sendBuffer order (.kevent [event]) howned hanswers hnext
    by_cases hpending : w.kernel.pending = ∅
    · cases huser : w.kernel.user with
      | true => exact hreports .user huser rfl rfl
      | false =>
          exact absurd ⟨⟨htasks, hworking⟩, hwaking, .inr (.inr (answered_of_waiting inv hwaiting
            ⟨htasks, hworking⟩ hwaking huser hpending))⟩ unsettled
    · obtain ⟨fd, hfd⟩ := Finset.nonempty_iff_ne_empty.mpr hpending
      exact hreports (.ready fd .write) (decide_eq_true hfd) rfl (inv.registered fd hfd)
  · refine reactor_goes_on sendBuffer order positive inv hwaiting (fun h => ?_) fun h => ?_
    · exact unsettled ⟨⟨htasks, hworking⟩, hwaking, .inl h⟩
    · exact unsettled ⟨⟨htasks, hworking⟩, hwaking, .inr (.inl h)⟩

/-- No worker and no handler can go on, and the kernel has nothing to report. -/
def Still (lowWater sendBuffer : Nat) (order : IterationOrder Bytes Bytes) (w : World) : Prop :=
  ∀ event w', own event → ResponseReadiness.step lowWater sendBuffer order w event ≠ some w'

/-- The bytes that a client leaves unread are the only thing that keeps a response. -/
structure Notified (lowWater : Nat) (w : World) : Prop where
  queued : w.gateway.tables.completionQueue ≠ [] → w.kernel.Woken
  stopped : w.gateway.running = false → w.kernel.Woken
  writable : ∀ fd conn, w.gateway.tables.connections fd = some conn →
    w.gateway.tables.InPhase fd conn .writing → lowWater ≤ w.kernel.rooms fd →
      fd ∈ w.kernel.pending

theorem notified_of_inv (inv : Inv lowWater w.gateway w.kernel)
    (waiting : w.gateway.control = .waiting) : Notified lowWater w := by
  refine ⟨inv.woken (.inr waiting), inv.stopping waiting, fun fd conn _ hphase hroom => ?_⟩
  rcases inv.covered fd hphase.2.1 hroom with h | h | h
  · exact h
  · rw [inv.idle (by rw [waiting]; trivial)] at h
    cases h
  · rw [waiting] at h
    cases h

variable (lowWater sendBuffer order) in
theorem work_paid : Paid (fun w event w' =>
      ResponseReadiness.step lowWater sendBuffer order w event = some w')
    (fun w => Inv lowWater w.gateway w.kernel) (fun w => work w.gateway w.kernel) (fun _ => 1)
    gain where
  kept _ _ _ inv next := inv.step next
  pays _ _ _ inv next := work_step inv next

/-- Whatever the clients, the workers and the signals have done since `run` began, and whenever:
while the reactor waits, no result, no stop and no writable connection is left without an event;
from then on there are at most as many steps as the state has work and what comes from outside
brings, and they can only end at rest. -/
theorem reactor_never_stalls (positive : 1 ≤ lowWater) {listenFd stopping : Nat}
    {triggered : Bool} {trace : List ResponseReadiness.Event}
    (run : Run (fun w event w' =>
        ResponseReadiness.step lowWater sendBuffer order w event = some w')
      (World.begun listenFd triggered stopping) trace w) :
    (w.gateway.control = .waiting → Notified lowWater w) ∧
      (∀ rest w', Run (fun w event w' =>
          ResponseReadiness.step lowWater sendBuffer order w event = some w') w rest w' →
        rest.length + work w'.gateway w'.kernel ≤
            work w.gateway w.kernel + (rest.map gain).sum ∧
          (Still lowWater sendBuffer order w' → Settled lowWater w')) ∧
      ∃ rest w', Run (fun w event w' =>
          ResponseReadiness.step lowWater sendBuffer order w event = some w') w rest w' ∧
        (∀ event ∈ rest, own event) ∧ Settled lowWater w' := by
  have hpaid := work_paid lowWater sendBuffer order
  have hinv := hpaid.inv (inv_begun listenFd triggered stopping) run
  refine ⟨notified_of_inv hinv, fun rest w' hrest => ⟨?_, fun still => ?_⟩, ?_⟩
  · have hle := hpaid.run hinv hrest
    rw [List.map_const', List.sum_replicate, smul_eq_mul, Nat.mul_one] at hle
    omega
  · by_contra unsettled
    obtain ⟨event, w'', howned, hnext⟩ :=
      goes_on sendBuffer order positive (hpaid.inv hinv hrest) unsettled
    exact still event w'' howned hnext
  · refine hpaid.completes (Settled lowWater) own (fun event howned => ?_)
      (fun w inv unsettled => goes_on sendBuffer order positive inv unsettled) w hinv
    rw [howned]
    exact Nat.one_pos

def takenInParts : List ResponseReadiness.Event :=
  [.reactor .advance, .reactor (.kevent [.ready 3 .read]), .reactor .advance,
    .reactor (.accept (.client 5 [] true)), .reactor (.accept .failed), .reactor .advance,
    .reactor .advance, .reactor .advance, .reactor (.kevent [.ready 5 .read]), .reactor .advance,
    .reactor (.recv (.bytes (ascii "GET / HTTP/1.1\r\n\r\n"))), .reactor .take,
    .reactor .advance, .reactor .advance, .reactor .advance,
    .reactor (.finish 0 (.responded (ascii "hello"))), .wake, .reactor (.kevent [.user]),
    .reactor .advance, .reactor .advance, .reactor .advance, .reactor .advance,
    .reactor .advance, .reactor .advance, .reactor (.kevent [.ready 5 .write]), .reactor .advance,
    .reactor (.send (.bytes 2)), .reactor (.send .wouldBlock), .reactor .advance,
    .reactor .advance, .reactor .advance]

theorem reactor_never_stalls_taken_in_parts : ∃ w,
    Run (fun w event w' => ResponseReadiness.step 1 2 default w event = some w')
        (World.begun 3 true 0) takenInParts w ∧
      (w.gateway.control = .waiting ∧ w.gateway.tables.history.sent 0 = ascii "he" ∧
        w.kernel.rooms 5 = 0) ∧
      (w.gateway.control = .waiting → Notified 1 w) ∧
      (∀ rest w', Run (fun w event w' => ResponseReadiness.step 1 2 default w event = some w')
          w rest w' →
        rest.length + work w'.gateway w'.kernel ≤
            work w.gateway w.kernel + (rest.map gain).sum ∧
          (Still 1 2 default w' → Settled 1 w')) ∧
      ∃ rest w', Run (fun w event w' => ResponseReadiness.step 1 2 default w event = some w')
          w rest w' ∧
        (∀ event ∈ rest, own event) ∧ Settled 1 w' := by
  have hends : (exec (ResponseReadiness.step 1 2 default) (World.begun 3 true 0) takenInParts).map
      (fun w => (w.gateway.control, w.gateway.tables.history.sent 0, w.kernel.rooms 5)) =
        some (.waiting, ascii "he", 0) := by
    decide +kernel
  obtain ⟨w, hexec, hw⟩ := Option.map_eq_some_iff.mp hends
  simp only [Prod.mk.injEq] at hw
  exact ⟨w, run_of_exec hexec, hw, reactor_never_stalls (by decide) (run_of_exec hexec)⟩

end Rest

end ApiGateway.ReactorProgress
