import ApiGateway.ReactorRuns

/-! What a step of the reactor does when a system call fails for one connection, or
its input is malformed: what becomes of that connection, of the others and of `run`. -/

namespace ApiGateway.ErrorContainment
open ByteText ResponseBuilding Reactor ReactorPhases ReactorRuns StepRuns
open RequestReading (Rejection onChunk)

/-- The connection that a step is made for. -/
def served (g : Gateway) : Event → Option Nat
  | .accept (.client clientFd _ _) => some clientFd
  | .recv _ | .send _ | .advance =>
      match g.control with
      | .reading fd | .writing fd => some fd
      | .draining _ => g.tables.completionQueue.head?.map CompletionResult.fd
      | _ => none
  | _ => none

/-- The answers after which the same call is made again, now or at the next event. -/
def isRetried : Event → Bool
  | .recv .wouldBlock | .recv .interrupted | .send .wouldBlock | .send .interrupted => true
  | _ => false

def AnsweredWith (t : Tables) (fd : Nat) (response : HttpResponse) : Prop :=
  t.armed fd .write = true ∧ ∃ conn, t.connections fd = some conn ∧
    conn.writeBuffer = response.toBytes ∧ conn.writeOffset = 0

structure Contained (order : IterationOrder Bytes Bytes) (g : Gateway) (e : Event)
    (g' : Gateway) : Prop where
  thrown : g'.control = .thrown → g.control = .thrown ∨ e = .keventError false
  returned : g'.control = .returned → g.control = .returned ∨ g.running = false
  others : ∀ fd, served g e ≠ some fd → g'.tables.connections fd = g.tables.connections fd
  /-- an accepted socket has its entry and waits for its request -/
  accepted : ∀ clientFd requestId nonBlocking,
    e = .accept (.client clientFd requestId nonBlocking) →
      (g'.tables.connections clientFd).isSome = true ∧ g'.tables.armed clientFd .read = true
  failed : ∀ fd, (g.control = .reading fd ∧ e = .recv .failed) ∨
    (g.control = .writing fd ∧ e = .send .failed) → g'.tables.connections fd = none
  retried : isRetried e = true → g'.tables = g.tables
  malformed : ∀ fd conn chunk rejection, g.control = .reading fd →
    g.tables.connections fd = some conn → e = .recv (.bytes chunk) →
    onChunk order conn.toConnection chunk = .stop (.reject rejection) →
      ∃ response, textResponse rejection.statusCode rejection.statusText rejection.body =
        .ok response ∧ AnsweredWith g'.tables fd response

variable {order : IterationOrder Bytes Bytes} {g g' : Gateway} {e : Event}

theorem onReceived_rejected {t : Tables} (inv : Inv t) {fd : Nat} {conn : Connection}
    (held : t.connections fd = some conn) {chunk : Bytes} {rejection : Rejection}
    (rejected : onChunk order conn.toConnection chunk = .stop (.reject rejection)) :
    ∃ response, textResponse rejection.statusCode rejection.statusText rejection.body =
        .ok response ∧ AnsweredWith (t.onReceived order fd conn chunk).1 fd response ∧
      (t.onReceived order fd conn chunk).2 = .batch := by
  obtain ⟨response, hresponse⟩ := rejection_answered rejected
  have hkey := (inv.entries.entry fd conn held).key
  refine ⟨response, hresponse, ?_⟩
  simp only [Tables.onReceived, rejected, Tables.rejectRequest, hresponse]
  refine ⟨⟨?_, ?_⟩, rfl⟩
  · change ((Tables.registerEvent _ conn.fd .write true).armed fd .write) = true
    rw [hkey]
    simp
  · exact ⟨_, Function.update_self _ _ _, rfl, rfl⟩

theorem onReceived_contained (order : IterationOrder Bytes Bytes) (t : Tables) (fd : Nat)
    (conn : Connection) (chunk : Bytes) :
    (∀ fd', fd' ≠ fd → (t.onReceived order fd conn chunk).1.connections fd' = t.connections fd') ∧
      ((t.onReceived order fd conn chunk).2 = .batch ∨
        (t.onReceived order fd conn chunk).2 = .reading fd) := by
  cases hchunk : onChunk order conn.toConnection chunk with
  | stop action =>
      cases action with
      | dispatch dispatch =>
          simp only [Tables.onReceived, hchunk]
          exact ⟨fun fd' hne => Function.update_of_ne hne _ _, by simp⟩
      | reject rejection =>
          obtain ⟨response, hresponse⟩ := rejection_answered hchunk
          simp only [Tables.onReceived, hchunk, Tables.rejectRequest, hresponse]
          exact ⟨fun fd' hne => Function.update_of_ne hne _ _, by simp⟩
  | more reading =>
      simp only [Tables.onReceived, hchunk]
      refine ⟨fun fd' hne => Function.update_of_ne hne _ _, ?_⟩
      split_ifs
      · exact .inl rfl
      · exact .inr rfl

theorem contained_of_tables (tables : g'.tables = g.tables)
    (thrown : g'.control = .thrown → g.control = .thrown ∨ e = .keventError false)
    (returned : g'.control = .returned → g.control = .returned ∨ g.running = false)
    (accepted : ∀ clientFd requestId nonBlocking,
      e ≠ .accept (.client clientFd requestId nonBlocking))
    (failed : e ≠ .recv .failed ∧ e ≠ .send .failed)
    (received : ∀ chunk, e ≠ .recv (.bytes chunk)) :
    Contained order g e g' := by
  refine ⟨thrown, returned, fun fd _ => by rw [tables], ?_, ?_, fun _ => tables, ?_⟩
  · intro clientFd requestId nonBlocking h
    exact absurd h (accepted clientFd requestId nonBlocking)
  · intro fd h
    rcases h with ⟨-, h⟩ | ⟨-, h⟩
    · exact absurd h failed.1
    · exact absurd h failed.2
  · intro fd conn chunk rejection _ _ h
    exact absurd h (received chunk)

theorem contained_of_served (control : g'.control ≠ .thrown ∧ g'.control ≠ .returned)
    (others : ∀ fd, served g e ≠ some fd → g'.tables.connections fd = g.tables.connections fd)
    (accepted : ∀ clientFd requestId nonBlocking,
      e ≠ .accept (.client clientFd requestId nonBlocking))
    (failed : ∀ fd, (g.control = .reading fd ∧ e = .recv .failed) ∨
      (g.control = .writing fd ∧ e = .send .failed) → g'.tables.connections fd = none)
    (retried : isRetried e = false) (received : ∀ chunk, e ≠ .recv (.bytes chunk)) :
    Contained order g e g' := by
  refine ⟨fun h => absurd h control.1, fun h => absurd h control.2, others, ?_, failed, ?_, ?_⟩
  · intro clientFd requestId nonBlocking h
    exact absurd h (accepted clientFd requestId nonBlocking)
  · intro h
    rw [retried] at h
    cases h
  · intro fd conn chunk rejection _ _ h
    exact absurd h (received chunk)

theorem close_other (g : Gateway) {fd fd' : Nat} (h : fd' ≠ fd) :
    (g.close fd).tables.connections fd' = g.tables.connections fd' :=
  Function.update_of_ne h _ _

theorem close_self (g : Gateway) (fd : Nat) : (g.close fd).tables.connections fd = none :=
  Function.update_self _ _ _

theorem onEvent_stays (g : Gateway) (event : KEvent) (batch : g.control = .batch) :
    (g.onEvent event).tables = g.tables ∧ (g.onEvent event).control ≠ .thrown ∧
      (g.onEvent event).control ≠ .returned := by
  unfold Gateway.onEvent
  split
  · exact ⟨rfl, by simp [Gateway.goto], by simp [Gateway.goto]⟩
  · exact ⟨rfl, by simp [batch], by simp [batch]⟩
  · split_ifs
    · exact ⟨rfl, by simp [Gateway.goto], by simp [Gateway.goto]⟩
    · split
      · exact ⟨rfl, by simp [batch], by simp [batch]⟩
      · split_ifs
        · exact ⟨rfl, by simp [batch], by simp [batch]⟩
        · exact ⟨rfl, by simp [Gateway.goto], by simp [Gateway.goto]⟩
      · exact ⟨rfl, by simp [Gateway.goto], by simp [Gateway.goto]⟩

theorem contained_advance (advanced : Advanced g g') : Contained order g .advance g' := by
  cases advanced with
  | poll control =>
      refine contained_of_tables rfl ?_ ?_ (by nofun) (by simp) (by nofun)
      · intro h
        change (if g.running then Control.waiting else .returned) = .thrown at h
        split_ifs at h
      · intro h
        change (if g.running then Control.waiting else .returned) = .returned at h
        split_ifs at h with hrunning
        exact .inr (by simpa using hrunning)
  | lastDrain control events =>
      exact contained_of_tables rfl (by nofun) (by nofun) (by nofun) (by simp) (by nofun)
  | @event event rest control events =>
      have ⟨htables, hthrown, hreturned⟩ := onEvent_stays { g with events := rest } event control
      exact contained_of_tables htables (fun h => absurd h hthrown) (fun h => absurd h hreturned)
        (by nofun) (by simp) (by nofun)
  | @written fd conn control held all =>
      refine contained_of_served (by simp [Gateway.close]) (fun fd' hother => ?_) (by nofun)
        (by simp) rfl (by nofun)
      refine close_other g fun hsame => hother ?_
      simp only [served, control, hsame]
  | @drained last control queue =>
      refine contained_of_tables rfl ?_ ?_ (by nofun) (by simp) (by nofun)
      · intro h
        change (if last then Control.poll else .batch) = .thrown at h
        split_ifs at h
      · intro h
        change (if last then Control.poll else .batch) = .returned at h
        split_ifs at h
  | @delivered last result rest control queue =>
      refine contained_of_served (by simp [control]) (fun fd' hother => ?_) (by nofun)
        (by simp) rfl (by nofun)
      have hne : fd' ≠ result.fd := by
        intro hsame
        refine hother ?_
        simp only [served, control, queue, List.head?_cons, Option.map_some, hsame]
      change (Tables.deliver _ result).connections fd' = _
      unfold Tables.deliver
      split
      · rfl
      · exact Function.update_of_ne hne _ _

theorem contained_recv (inv : Inv g.tables) {fd : Nat} {conn : Connection} {result : Recv}
    (control : g.control = .reading fd) (held : g.tables.connections fd = some conn)
    (next : g.onRecv order fd conn result = some g') : Contained order g (.recv result) g' := by
  have hserved : served g (.recv result) = some fd := by simp only [served, control]
  have hclosed : Contained order g (.recv .endOfStream) (g.close fd) ∧
      Contained order g (.recv .failed) (g.close fd) := by
    have hothers : ∀ e, served g e = some fd → ∀ fd', served g e ≠ some fd' →
        (g.close fd).tables.connections fd' = g.tables.connections fd' := by
      intro e he fd' hother
      refine close_other g fun hsame => hother ?_
      rw [he, hsame]
    refine ⟨contained_of_served (by simp [Gateway.close]) (hothers _ hserved) (by nofun)
      (by simp) rfl (by nofun), contained_of_served (by simp [Gateway.close]) (hothers _ hserved)
        (by nofun) (fun fd' h => ?_) rfl (by nofun)⟩
    rcases h with ⟨hreading, -⟩ | ⟨-, h⟩
    · cases control.symm.trans hreading
      exact close_self g fd
    · cases h
  cases result with
  | endOfStream =>
      cases next
      exact hclosed.1
  | failed =>
      cases next
      exact hclosed.2
  | wouldBlock =>
      cases next
      exact contained_of_tables rfl (by nofun) (by nofun) (by nofun) (by simp) (by nofun)
  | interrupted =>
      cases next
      exact contained_of_tables rfl .inl .inl (by nofun) (by simp) (by nofun)
  | bytes chunk =>
      simp only [Gateway.onRecv] at next
      split_ifs at next
      cases next
      have ⟨hothers, hcontrol⟩ := onReceived_contained order g.tables fd conn chunk
      refine ⟨fun h => ?_, fun h => ?_, fun fd' hother => ?_, by nofun, ?_, by nofun, ?_⟩
      · rcases hcontrol with hbatch | hreading
        · cases hbatch.symm.trans h
        · cases hreading.symm.trans h
      · rcases hcontrol with hbatch | hreading
        · cases hbatch.symm.trans h
        · cases hreading.symm.trans h
      · refine hothers fd' fun hsame => hother ?_
        rw [hserved, hsame]
      · intro fd' h
        rcases h with ⟨-, h⟩ | ⟨-, h⟩ <;> cases h
      · intro fd' conn' chunk' rejection hreading hheld hevent hrejected
        cases control.symm.trans hreading
        cases held.symm.trans hheld
        cases hevent
        have ⟨response, hresponse, hanswered, _⟩ := onReceived_rejected inv held hrejected
        exact ⟨response, hresponse, hanswered⟩

theorem contained_send {fd : Nat} {conn : Connection} {result : Send}
    (control : g.control = .writing fd)
    (next : g.onSend fd conn result = some g') : Contained order g (.send result) g' := by
  have hserved : served g (.send result) = some fd := by simp only [served, control]
  have hother : ∀ fd', served g (.send result) ≠ some fd' → fd' ≠ fd := by
    intro fd' hother hsame
    exact hother (by rw [hserved, hsame])
  cases result with
  | bytes count =>
      simp only [Gateway.onSend] at next
      split_ifs at next
      cases next
      refine contained_of_served (by simp [control]) (fun fd' h => ?_) (by nofun) (by simp) rfl
        (by nofun)
      exact Function.update_of_ne (hother fd' h) _ _
  | wouldBlock =>
      cases next
      exact contained_of_tables rfl (by nofun) (by nofun) (by nofun) (by simp) (by nofun)
  | interrupted =>
      cases next
      exact contained_of_tables rfl .inl .inl (by nofun) (by simp) (by nofun)
  | failed =>
      cases next
      refine contained_of_served (by simp [Gateway.close])
        (fun fd' h => close_other g (hother fd' h)) (by nofun) (fun fd' h => ?_) rfl (by nofun)
      rcases h with ⟨-, h⟩ | ⟨hwriting, -⟩
      · cases h
      · cases control.symm.trans hwriting
        exact close_self g fd

/-- `fcntl` succeeds on an accepted socket. -/
def fcntlSucceeds : Event → Bool
  | .accept (.client _ _ nonBlocking) => nonBlocking
  | _ => true

theorem contained_accept {result : Accept} (control : g.control = .accepting)
    (succeeds : fcntlSucceeds (.accept result) = true) (next : g.onAccept result = some g') :
    Contained order g (.accept result) g' := by
  cases result with
  | failed =>
      cases next
      exact contained_of_tables rfl (by nofun) (by nofun) (by nofun) (by simp) (by nofun)
  | client clientFd requestId nonBlocking =>
      simp only [fcntlSucceeds] at succeeds
      rw [succeeds] at next
      simp only [Gateway.onAccept] at next
      split_ifs at next
      cases next
      refine ⟨by simp [control], by simp [control], fun fd hother => ?_, ?_, by simp, by nofun,
        by nofun⟩
      · have hne : fd ≠ clientFd := fun hsame => hother (by rw [hsame]; rfl)
        exact Function.update_of_ne hne _ _
      · intro clientFd' requestId' nonBlocking' hevent
        cases hevent
        refine ⟨?_, ?_⟩
        · change (Function.update g.tables.connections clientFd (some _) clientFd).isSome = true
          rw [Function.update_self]
          rfl
        · simp [Tables.onAccepted]

theorem contained_of_step (inv : Inv g.tables) (succeeds : fcntlSucceeds e = true)
    (next : step order g e = some g') : Contained order g e g' := by
  cases stepped_of_step next with
  | kevent control returns =>
      exact contained_of_tables rfl (by nofun) (by nofun) (by nofun) (by simp) (by nofun)
  | @keventError interrupted control =>
      cases interrupted with
      | true => exact contained_of_tables rfl (by nofun) (by nofun) (by nofun) (by simp) (by nofun)
      | false =>
          exact contained_of_tables rfl (fun _ => .inr rfl) (by nofun) (by nofun) (by simp)
            (by nofun)
  | advance advanced => exact contained_advance advanced
  | accept control haccept => exact contained_accept control succeeds haccept
  | recv control held hrecv => exact contained_recv inv control held hrecv
  | send control held more hsend => exact contained_send control hsend
  | take htake =>
      have hsame := (inv.take htake).2.connections
      exact ⟨.inl, .inl, fun fd _ => congrFun hsame fd, by nofun, by simp, by nofun, by nofun⟩
  | finish hfinish =>
      have hsame := (inv.finish hfinish).2.connections
      exact ⟨.inl, .inl, fun fd _ => congrFun hsame fd, by nofun, by simp, by nofun, by nofun⟩
  | stop => exact contained_of_tables rfl .inl .inl (by nofun) (by simp) (by nofun)

/-- `run` ends only because `running_` became false or because `kevent` itself failed. -/
def EndsRightly (trace : List Event) (g : Gateway) : Prop :=
  (g.control = .returned → g.running = false) ∧
    (g.control = .thrown → .keventError false ∈ trace)

theorem onEvent_stopped (g : Gateway) (event : KEvent) (stopped : g.running = false) :
    (g.onEvent event).running = false := by
  unfold Gateway.onEvent
  split
  · exact stopped
  · rfl
  · split_ifs
    · exact stopped
    · split
      · exact stopped
      · split_ifs <;> exact stopped
      · exact stopped

theorem onAccept_running {result : Accept} (next : g.onAccept result = some g') :
    g'.running = g.running := by
  cases result with
  | client clientFd requestId nonBlocking =>
      simp only [Gateway.onAccept] at next
      split_ifs at next <;> cases next <;> rfl
  | failed =>
      cases next
      rfl

theorem onRecv_running {fd : Nat} {conn : Connection} {result : Recv}
    (next : g.onRecv order fd conn result = some g') : g'.running = g.running := by
  cases result with
  | bytes chunk =>
      simp only [Gateway.onRecv] at next
      split_ifs at next
      cases next
      rfl
  | endOfStream | wouldBlock | interrupted | failed =>
      cases next
      rfl

theorem onSend_running {fd : Nat} {conn : Connection} {result : Send}
    (next : g.onSend fd conn result = some g') : g'.running = g.running := by
  cases result with
  | bytes count =>
      simp only [Gateway.onSend] at next
      split_ifs at next
      cases next
      rfl
  | wouldBlock | interrupted | failed =>
      cases next
      rfl

theorem stopped_of_step (next : step order g e = some g') (stopped : g.running = false) :
    g'.running = false := by
  cases stepped_of_step next with
  | kevent | keventError | take | finish => exact stopped
  | advance advanced =>
      cases advanced with
      | @event event rest control events =>
          exact onEvent_stopped { g with events := rest } event stopped
      | poll | lastDrain | written | drained | delivered => exact stopped
  | accept control haccept => exact (onAccept_running haccept).trans stopped
  | recv control held hrecv => exact (onRecv_running hrecv).trans stopped
  | send control held more hsend => exact (onSend_running hsend).trans stopped
  | stop => rfl

theorem ends_of_run {g₀ : Gateway} (begins : g₀.control = .poll) {trace : List Event}
    (run : Run (fun g e g' => step order g e = some g' ∧ Contained order g e g') g₀ trace g) :
    EndsRightly trace g := by
  refine @Run.invariant _ _ _ _ EndsRightly ?_ (fun trace g e g' h next => ?_) _ _ run
  · exact ⟨fun h => by simp [begins] at h, fun h => by simp [begins] at h⟩
  · obtain ⟨hnext, hcontained⟩ := next
    refine ⟨fun hreturned => ?_, fun hthrown => ?_⟩
    · cases hcontained.returned hreturned with
      | inl hbefore => exact stopped_of_step hnext (h.1 hbefore)
      | inr hstopped => exact stopped_of_step hnext hstopped
    · cases hcontained.thrown hthrown with
      | inl hbefore => exact List.mem_append_left _ (h.2 hbefore)
      | inr hevent => simp [hevent]

theorem fcntlSucceeds_of_contained (next : step order g e = some g')
    (contained : Contained order g e g') : fcntlSucceeds e = true := by
  cases e with
  | accept result =>
      cases result with
      | failed => rfl
      | client clientFd requestId nonBlocking =>
          cases nonBlocking with
          | true => rfl
          | false =>
              cases stepped_of_step next with
              | accept control haccept =>
                  simp only [Gateway.onAccept, Bool.false_eq_true, if_false] at haccept
                  split_ifs at haccept
                  cases haccept
                  cases contained.thrown rfl with
                  | inl hbefore => cases control.symm.trans hbefore
                  | inr hevent => cases hevent
  | _ => rfl

/-- Every step of a run keeps the trouble of a connection with that connection just when
`fcntl` succeeds on every accepted socket; then `run` also ends for no other reason. -/
theorem errors_contained_iff (order : IterationOrder Bytes Bytes) (listenFd : Nat)
    (trace : List Event) (g : Gateway)
    (run : Run (fun g e g' => step order g e = some g') (Gateway.init listenFd) trace g) :
    (Run (fun g e g' => step order g e = some g' ∧ Contained order g e g')
        (Gateway.init listenFd) trace g ∧ EndsRightly trace g) ↔
      ∀ e ∈ trace, fcntlSucceeds e = true := by
  constructor
  · intro h
    exact h.1.forall_label fun _ _ _ next => fcntlSucceeds_of_contained next.1 next.2
  · intro hsucceeds
    have hrun : Run (fun g e g' => step order g e = some g' ∧ Contained order g e g')
        (Gateway.init listenFd) trace g := by
      refine run.refine (steady_init listenFd) (fun _ _ _ steady next => steady.step next) ?_
      intro g e g' steady hmem next
      exact ⟨next, contained_of_step steady.inv (hsucceeds e hmem) next⟩
    exact ⟨hrun, ends_of_run rfl hrun⟩

def oneFails : List Event :=
  [.advance, .kevent [.ready 3 .read], .advance, .accept (.client 5 [] true),
    .accept (.client 6 [] true), .accept .failed, .advance, .advance, .advance,
    .kevent [.ready 5 .read, .ready 6 .read], .advance,
    .recv (.bytes (ascii "nonsense\r\n\r\n")), .advance, .recv .failed]

theorem errors_contained_one_fails : ∃ g,
    Run (fun g e g' => step default g e = some g' ∧ Contained default g e g')
        (Gateway.init 3) oneFails g ∧ EndsRightly oneFails g ∧
      (g.tables.connections 5).isSome = true ∧ (g.tables.connections 6).isSome = false := by
  have hrun : (exec (step default) (Gateway.init 3) oneFails).map (fun g =>
      ((g.tables.connections 5).isSome, (g.tables.connections 6).isSome)) = some (true, false) := by
    decide
  have ⟨g, hexec, hg⟩ := Option.map_eq_some_iff.mp hrun
  have ⟨hanswered, hclosed⟩ := Prod.mk.inj hg
  have ⟨hcontained, hends⟩ :=
    (errors_contained_iff default 3 oneFails g (run_of_exec hexec)).mpr (by decide)
  exact ⟨g, hcontained, hends, hanswered, hclosed⟩

theorem fcntl_failure_ends_run : ¬ ∀ (trace : List Event) (g : Gateway),
    Run (fun g e g' => step default g e = some g') (Gateway.init 3) trace g →
      Run (fun g e g' => step default g e = some g' ∧ Contained default g e g')
        (Gateway.init 3) trace g ∧ EndsRightly trace g := by
  intro h
  have hrun : (exec (step default) (Gateway.init 3) [.advance, .kevent [.ready 3 .read], .advance,
      .accept (.client 5 [] false)]).map Gateway.control = some .thrown := by
    decide
  have ⟨g, hexec, hthrown⟩ := Option.map_eq_some_iff.mp hrun
  have hfailed := (h _ g (run_of_exec hexec)).2.2 hthrown
  simp at hfailed

end ApiGateway.ErrorContainment
