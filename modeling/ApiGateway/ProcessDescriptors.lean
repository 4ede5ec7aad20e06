import ApiGateway.ForwardProgress
import ApiGateway.GatewayTeardown
import ApiGateway.SharedLogs

/-! The descriptors of the whole process: those of the gateway, from its constructor to its
destructor, and those of the calls of `forward` that its workers make and of the pool, which is
destroyed behind the gateway's destructor. The kernel gives all of them the same numbers. -/

namespace ApiGateway.ProcessDescriptors
open ByteText StepRuns ResourceLogs SharedLogs
open Reactor (Gateway Tables Task)
open GatewayLifetime (Lifetime Stage Setup)
open GatewayTeardown (Living living_of_run workers_step)
open UpstreamDescriptors (World Call Peer Point)
open ForwardProgress (CallStep callStep eventCall returned_idle)
open RequestReading (HttpRequest)

/-- What is `lost` no one has any more. -/
inductive Party where
  | gateway | upstream | lost
  deriving DecidableEq

abbrev SystemCall := Operation Nat (Option Peer)

/-- `made` are the calls of `forward` with the tasks that they were made for, and `log` has the
system calls of both parties in their order. -/
structure Program where
  gateway : Lifetime
  upstream : World
  made : List (Nat × Nat)
  poolGone : Bool
  lost : List Nat
  log : List (Party × SystemCall)

def Program.new (threadPoolSize maxIdlePerHost : Nat) (idleTimeout : Int) : Program :=
  ⟨.new threadPoolSize, .init maxIdlePerHost idleTimeout, [], false, [], []⟩

inductive Event where
  | gateway (event : GatewayLifetime.Event)
  /-- the worker with the task at place `k` calls `forward` -/
  | forward (k i : Nat) (target : RouteTrie.ProxyTarget) (request : HttpRequest)
      (isHealthy : Nat → Bool)
  /-- a call of `forward` goes on -/
  | upstream (event : UpstreamDescriptors.Event)
  /-- `createConnectingSocket` gets a socket on which `fcntl` fails -/
  | unset (i fd : Nat)
  /-- `~ConnectionPool` -/
  | destroyPool (hosts : List Bytes)

def opened : Event → List Nat
  | .gateway (.construct setup) => setup.kqueue.toList ++ setup.socket.toList
  | .gateway (.reactor (.accept (.client fd _ _))) => [fd]
  | .upstream (.connect _ fd _) => fd.toList
  | .unset _ fd => [fd]
  | _ => []

def isReturned : Point → Bool
  | .returned _ => true
  | _ => false

def Program.idle (s : Program) (serial : Nat) : Bool :=
  s.made.all fun (task, i) => task ≠ serial || (s.upstream.calls i).all fun call =>
    isReturned call.point

def Program.workDone (s : Program) : GatewayLifetime.Event → Bool
  | .reactor (.finish k _) =>
      s.gateway.gateway.tables.working[k]?.all fun task => s.idle task.serial
  | _ => true

def continues : UpstreamDescriptors.Event → Bool
  | .lease _ _ _ _ => false
  | .reapStale _ _ => false
  | .closeAll _ => false
  | _ => true

def isOver : Stage → Bool
  | .destroyed => true
  | .failed _ => true
  | _ => false

def Program.withGateway (s : Program) (gateway : Lifetime) : Program :=
  { s with
    gateway := gateway
    log := s.log ++ news .gateway (fun _ => none) s.gateway.process.log gateway.process.log }

def Program.withUpstream (s : Program) (upstream : World) : Program :=
  { s with
    upstream := upstream
    log := s.log ++ news .upstream some s.upstream.log upstream.log }

def lostCalls (fd : Nat) : List SystemCall := [.acquire fd, .use fd]

/-- The exception of `setNonBlocking` leaves the function, and nothing has the socket. -/
def Program.withLost (s : Program) (fd : Nat) : Program :=
  { s with lost := s.lost ++ [fd], log := s.log ++ (lostCalls fd).map (Prod.mk .lost) }

section Steps

variable (order requestOrder upstreamOrder responseOrder : IterationOrder Bytes Bytes)

def move (s : Program) : Event → Option Program
  | .gateway event =>
      if s.workDone event then (GatewayLifetime.step order s.gateway event).map s.withGateway
      else none
  | .forward k i target request isHealthy =>
      s.gateway.gateway.tables.working[k]?.bind fun task =>
        if task.serial ∈ s.gateway.checked ∧ s.idle task.serial = true then
          (UpstreamDescriptors.step requestOrder upstreamOrder responseOrder s.upstream
            (.lease i target request isHealthy)).map fun upstream =>
              { s.withUpstream upstream with made := s.made ++ [(task.serial, i)] }
        else none
  | .upstream event =>
      if continues event then
        (UpstreamDescriptors.step requestOrder upstreamOrder responseOrder s.upstream event).map
          s.withUpstream
      else none
  | .unset i fd =>
      -- to the call this is a connection that could not be begun
      (UpstreamDescriptors.step requestOrder upstreamOrder responseOrder s.upstream
        (.connect i none false)).map (s.withLost fd).withUpstream
  | .destroyPool hosts =>
      if isOver s.gateway.stage = true ∧ s.poolGone = false then
        (UpstreamDescriptors.step requestOrder upstreamOrder responseOrder s.upstream
          (.closeAll hosts)).map fun upstream => { s.withUpstream upstream with poolGone := true }
      else none

/-- The kernel gives numbers that are free in the process. -/
def step (s : Program) (event : Event) : Option Program :=
  if ∀ fd ∈ opened event, held (s.log.map Prod.snd) fd = none then
    move order requestOrder upstreamOrder responseOrder s event
  else none

end Steps

def gatewayEvent : Event → Option GatewayLifetime.Event
  | .gateway event => some event
  | _ => none

def upstreamEvent : Event → Option UpstreamDescriptors.Event
  | .gateway _ => none
  | .forward _ i target request isHealthy => some (.lease i target request isHealthy)
  | .upstream event => some event
  | .unset i _ => some (.connect i none false)
  | .destroyPool hosts => some (.closeAll hosts)

/-- The descriptors that no one closes. -/
def lostBy : Event → List Nat
  | .gateway event => GatewayTeardown.lostBy event
  | .unset _ fd => [fd]
  | _ => []

inductive Stepped (order requestOrder upstreamOrder responseOrder : IterationOrder Bytes Bytes)
    (s : Program) : Event → Program → Prop
  | gateway {event : GatewayLifetime.Event} {gateway : Lifetime} (done : s.workDone event = true)
      (next : GatewayLifetime.step order s.gateway event = some gateway) :
      Stepped order requestOrder upstreamOrder responseOrder s (.gateway event)
        (s.withGateway gateway)
  | forward {k i : Nat} {target : RouteTrie.ProxyTarget} {request : HttpRequest}
      {isHealthy : Nat → Bool} {task : Task} {upstream : World}
      (taken : s.gateway.gateway.tables.working[k]? = some task)
      (checked : task.serial ∈ s.gateway.checked)
      (next : UpstreamDescriptors.step requestOrder upstreamOrder responseOrder s.upstream
        (.lease i target request isHealthy) = some upstream) :
      Stepped order requestOrder upstreamOrder responseOrder s
        (.forward k i target request isHealthy)
        { s.withUpstream upstream with made := s.made ++ [(task.serial, i)] }
  | upstream {event : UpstreamDescriptors.Event} {upstream : World}
      (goes : continues event = true)
      (next : UpstreamDescriptors.step requestOrder upstreamOrder responseOrder s.upstream event =
        some upstream) :
      Stepped order requestOrder upstreamOrder responseOrder s (.upstream event)
        (s.withUpstream upstream)
  | unset {i fd : Nat} {upstream : World}
      (next : UpstreamDescriptors.step requestOrder upstreamOrder responseOrder s.upstream
        (.connect i none false) = some upstream) :
      Stepped order requestOrder upstreamOrder responseOrder s (.unset i fd)
        ((s.withLost fd).withUpstream upstream)
  | destroyPool {hosts : List Bytes} {upstream : World} (ended : isOver s.gateway.stage = true)
      (first : s.poolGone = false)
      (next : UpstreamDescriptors.step requestOrder upstreamOrder responseOrder s.upstream
        (.closeAll hosts) = some upstream) :
      Stepped order requestOrder upstreamOrder responseOrder s (.destroyPool hosts)
        { s.withUpstream upstream with poolGone := true }

section Parties

variable {order requestOrder upstreamOrder responseOrder : IterationOrder Bytes Bytes}
  {s s' : Program} {event : Event}

theorem stepped_of_step
    (next : step order requestOrder upstreamOrder responseOrder s event = some s') :
    (∀ fd ∈ opened event, held (s.log.map Prod.snd) fd = none) ∧
      Stepped order requestOrder upstreamOrder responseOrder s event s' := by
  unfold step at next
  split_ifs at next with hfree
  refine ⟨hfree, ?_⟩
  cases event with
  | gateway event =>
      simp only [move] at next
      split_ifs at next with hdone
      obtain ⟨gateway, hgateway, rfl⟩ := Option.map_eq_some_iff.mp next
      exact .gateway hdone hgateway
  | forward k i target request isHealthy =>
      obtain ⟨task, htask, hcalls⟩ := Option.bind_eq_some_iff.mp next
      split_ifs at hcalls with hready
      obtain ⟨upstream, hupstream, rfl⟩ := Option.map_eq_some_iff.mp hcalls
      exact .forward htask hready.1 hupstream
  | upstream event =>
      simp only [move] at next
      split_ifs at next with hgoes
      obtain ⟨upstream, hupstream, rfl⟩ := Option.map_eq_some_iff.mp next
      exact .upstream hgoes hupstream
  | unset i fd =>
      obtain ⟨upstream, hupstream, rfl⟩ := Option.map_eq_some_iff.mp next
      exact .unset hupstream
  | destroyPool hosts =>
      simp only [move] at next
      split_ifs at next with hover
      obtain ⟨upstream, hupstream, rfl⟩ := Option.map_eq_some_iff.mp next
      exact .destroyPool hover.1 hover.2 hupstream

theorem gateway_run {threadPoolSize maxIdlePerHost : Nat} {idleTimeout : Int} {trace : List Event}
    (run : Run (fun s event s' => step order requestOrder upstreamOrder responseOrder s event =
      some s') (.new threadPoolSize maxIdlePerHost idleTimeout) trace s) :
    Run (fun s event s' => GatewayLifetime.step order s event = some s') (.new threadPoolSize)
      (trace.filterMap gatewayEvent) s.gateway := by
  refine run.project Program.gateway fun s event s' next => ?_
  cases (stepped_of_step next).2 with
  | gateway _ hnext => exact hnext
  | forward | upstream | unset | destroyPool => rfl

theorem upstream_run {threadPoolSize maxIdlePerHost : Nat} {idleTimeout : Int} {trace : List Event}
    (run : Run (fun s event s' => step order requestOrder upstreamOrder responseOrder s event =
      some s') (.new threadPoolSize maxIdlePerHost idleTimeout) trace s) :
    Run (fun w event w' => UpstreamDescriptors.step requestOrder upstreamOrder responseOrder w
      event = some w') (.init maxIdlePerHost idleTimeout) (trace.filterMap upstreamEvent)
        s.upstream := by
  refine run.project Program.upstream fun s event s' next => ?_
  cases (stepped_of_step next).2 with
  | gateway => rfl
  | forward _ _ hnext => exact hnext
  | upstream _ hnext => exact hnext
  | unset hnext => exact hnext
  | destroyPool _ _ hnext => exact hnext

end Parties

theorem grown_createListeningSocket (setup : Setup) (p : GatewayLifetime.Process) :
    Grown setup.socket.toList p.log (GatewayLifetime.createListeningSocket setup p).1.log := by
  unfold GatewayLifetime.createListeningSocket
  cases setup.socket with
  | none => exact .refl _ _
  | some fd =>
      simp only [Option.toList_some]
      split_ifs
      · exact ⟨[.acquire fd, .use fd, .release fd], by simp [GatewayLifetime.Process.logged],
          by simp⟩
      · exact ⟨[.acquire fd, .use fd, .use fd, .use fd, .release fd],
          by simp [GatewayLifetime.Process.logged], by simp⟩
      · exact ⟨[.acquire fd, .use fd, .use fd, .use fd, .use fd, .release fd],
          by simp [GatewayLifetime.Process.logged], by simp⟩
      · exact ⟨[.acquire fd, .use fd, .use fd, .use fd, .use fd, .use fd],
          by simp [GatewayLifetime.Process.logged], by simp⟩
      · exact ⟨[.acquire fd, .use fd, .use fd, .use fd, .use fd, .use fd],
          by simp [GatewayLifetime.Process.logged], by simp⟩

theorem grown_logged {p : GatewayLifetime.Process} {calls : List GatewayLifetime.SystemCall}
    (given : List Nat) (quiet : ∀ fd, .acquire fd ∉ calls) :
    Grown given p.log (p.logged calls).log :=
  grown_append (fun fd hmem => absurd hmem (quiet fd)) p.log

theorem grown_setupSignalHandling (setup : Setup) (kq : Nat) (signals : List GatewayLifetime.Signal)
    (p : GatewayLifetime.Process) :
    Grown [] p.log (GatewayLifetime.setupSignalHandling setup kq signals p).1.log := by
  induction signals generalizing p with
  | nil => exact .refl _ _
  | cons sig rest ih =>
      unfold GatewayLifetime.setupSignalHandling
      have hused : Grown [] p.log (p.logged [.use kq]).log := grown_logged [] (by simp)
      simp only
      split_ifs
      · exact .refl _ _
      · exact hused
      · exact hused.trans (ih _)

theorem grown_setupReactor (setup : Setup) (kq : Nat) (p : GatewayLifetime.Process) :
    Grown setup.socket.toList p.log (GatewayLifetime.setupReactor setup kq p).1.log := by
  have hlisten := grown_createListeningSocket setup p
  unfold GatewayLifetime.setupReactor
  generalize GatewayLifetime.createListeningSocket setup p = opened at hlisten ⊢
  obtain ⟨p', result⟩ := opened
  cases result with
  | error what => exact hlisten
  | ok listenFd =>
      have hwake : Grown setup.socket.toList p.log (p'.logged [.use kq]).log :=
        hlisten.trans (grown_logged _ (by simp))
      simp only
      split_ifs
      · exact hwake
      · have hregistered : Grown setup.socket.toList p.log
            (((p'.logged [.use kq]).logged [.use kq]).logged [.use listenFd]).log :=
          (hwake.trans (grown_logged _ (by simp))).trans (grown_logged _ (by simp))
        have hsignals := grown_setupSignalHandling setup kq GatewayLifetime.kShutdownSignals
          (((p'.logged [.use kq]).logged [.use kq]).logged [.use listenFd])
        generalize GatewayLifetime.setupSignalHandling setup kq GatewayLifetime.kShutdownSignals
          (((p'.logged [.use kq]).logged [.use kq]).logged [.use listenFd]) = handled
          at hsignals ⊢
        obtain ⟨p'', result'⟩ := handled
        cases result' with
        | error what => exact hregistered.trans (hsignals.mono (by simp))
        | ok _ => exact hregistered.trans (hsignals.mono (by simp))

theorem grown_construct (setup : Setup) (p : GatewayLifetime.Process) :
    Grown (setup.kqueue.toList ++ setup.socket.toList) p.log
      (GatewayLifetime.construct setup p).1.log := by
  have hkqueue : Grown (setup.kqueue.toList ++ setup.socket.toList) p.log
      (p.logged (setup.kqueue.toList.map .acquire)).log :=
    grown_append (fun fd hmem => List.mem_append_left _ (by simpa using hmem)) p.log
  unfold GatewayLifetime.construct
  simp only
  split
  · exact hkqueue
  · split
    · exact hkqueue
    next kq _ =>
      have hsetup := (grown_setupReactor setup kq
        (p.logged (setup.kqueue.toList.map .acquire))).mono
          fun fd hfd => List.mem_append_right setup.kqueue.toList hfd
      generalize GatewayLifetime.setupReactor setup kq
        (p.logged (setup.kqueue.toList.map .acquire)) = result at hsetup ⊢
      obtain ⟨p', outcome⟩ := result
      cases outcome with
      | ok listenFd => exact hkqueue.trans hsetup
      | error failure =>
          refine (hkqueue.trans hsetup).trans ?_
          have hlisten : Grown (setup.kqueue.toList ++ setup.socket.toList) p'.log
              (p'.log ++ failure.1.toList.map .release) := grown_append (by simp) _
          exact hlisten.trans (grown_append (by simp) _)

theorem acquire_stepCalls {order : IterationOrder Bytes Bytes} {kq fd : Nat} {g : Gateway}
    {e : Reactor.Event} (given : .acquire fd ∈ GatewayLifetime.stepCalls order kq g e) :
    fd ∈ opened (.gateway (.reactor e)) := by
  have hclose : ∀ kq fd', .acquire fd ∉ GatewayLifetime.closeCalls kq fd' := by
    simp [GatewayLifetime.closeCalls, GatewayLifetime.registerCalls]
  have hregister : ∀ kq fd', .acquire fd ∉ GatewayLifetime.registerCalls kq fd' := by
    simp [GatewayLifetime.registerCalls]
  cases e with
  | accept result =>
      cases result with
      | failed => simp [GatewayLifetime.stepCalls] at given
      | client fd' requestId nonBlocking =>
          cases nonBlocking <;>
            simpa [GatewayLifetime.stepCalls, hregister, opened] using given
  | advance =>
      simp only [GatewayLifetime.stepCalls] at given
      split at given
      · exact absurd given (hclose _ _)
      · split_ifs at given
        · exact absurd given (hregister _ _)
        · cases given
      · cases given
  | recv result =>
      simp only [GatewayLifetime.stepCalls] at given
      split at given
      · rcases List.mem_cons.mp given with huse | hrest
        · cases huse
        · split at hrest
          next chunk conn _ =>
            unfold GatewayLifetime.chunkCalls at hrest
            split at hrest
            · exact absurd hrest (hregister _ _)
            · rcases List.mem_append.mp hrest with h | h
              · exact absurd h (hregister _ _)
              · exact absurd h (hregister _ _)
            · cases hrest
          · exact absurd hrest (hclose _ _)
          · exact absurd hrest (hclose _ _)
          · cases hrest
      · cases given
  | send result =>
      simp only [GatewayLifetime.stepCalls] at given
      split at given
      · rcases List.mem_cons.mp given with huse | hrest
        · cases huse
        · split at hrest
          · exact absurd hrest (hclose _ _)
          · cases hrest
      · cases given
  | kevent | keventError | take | finish | stop => simp [GatewayLifetime.stepCalls] at given

theorem grown_gateway {order : IterationOrder Bytes Bytes} {s s' : Lifetime}
    {event : GatewayLifetime.Event} (next : GatewayLifetime.step order s event = some s') :
    Grown (opened (.gateway event)) s.process.log s'.process.log := by
  cases event with
  | construct setup =>
      simp only [GatewayLifetime.step] at next
      split_ifs at next
      cases next
      have hconstruct := grown_construct setup s.process
      unfold Lifetime.construct
      generalize GatewayLifetime.construct setup s.process = result at hconstruct ⊢
      obtain ⟨p, outcome⟩ := result
      cases outcome with
      | ok fds => exact hconstruct
      | error what => exact hconstruct
  | reactor e =>
      simp only [GatewayLifetime.step] at next
      split_ifs at next
      obtain ⟨g, hg, rfl⟩ := Option.map_eq_some_iff.mp next
      exact grown_append (fun fd => acquire_stepCalls) _
  | check k =>
      simp only [GatewayLifetime.step] at next
      split_ifs at next
      obtain ⟨task, htask, hcheck⟩ := Option.bind_eq_some_iff.mp next
      split_ifs at hcheck
      cases hcheck
      unfold Lifetime.check
      split_ifs <;> exact .refl _ _
  | teardown | join =>
      simp only [GatewayLifetime.step] at next
      split_ifs at next
      cases next
      exact .refl _ _
  | closeConnection | closeListener | closeKqueue =>
      simp only [GatewayLifetime.step] at next
      split_ifs at next
      cases next
      exact grown_logged _ (by simp)

section Upstream

variable {requestOrder upstreamOrder responseOrder : IterationOrder Bytes Bytes} {w w' : World}
  {i : Nat} {call : Call}

theorem acquire_closeCalls {fd : Nat} (fds : List Nat) :
    .acquire fd ∉ UpstreamDescriptors.closeCalls fds := by
  simp [UpstreamDescriptors.closeCalls]

/-- A step that leaves the pool alone. -/
structure Kept (given : List Nat) (w w' : World) : Prop where
  log : Grown given w.log w'.log
  pool : w'.pool = w.pool
  hosts : w'.hosts = w.hosts

theorem Kept.refl (given : List Nat) (w : World) : Kept given w w := ⟨.refl _ _, rfl, rfl⟩

theorem Kept.trans {given : List Nat} {w'' : World} (first : Kept given w w')
    (second : Kept given w' w'') : Kept given w w'' :=
  ⟨first.log.trans second.log, second.pool.trans first.pool, second.hosts.trans first.hosts⟩

theorem kept_logged {calls : List UpstreamDescriptors.SystemCall} (given : List Nat)
    (quiet : ∀ fd, .acquire fd ∉ calls) : Kept given w (w.logged calls) :=
  ⟨grown_append (fun fd hmem => absurd hmem (quiet fd)) w.log, rfl, rfl⟩

theorem kept_setCall (given : List Nat) : Kept given w (w.setCall i call) :=
  ⟨.refl _ _, rfl, rfl⟩

theorem kept_used (given : List Nat) : Kept given w (w.used call) :=
  kept_logged given (by simp)

theorem kept_return (given : List Nat) (response : Bytes) :
    Kept given w (w.return i call response) :=
  (kept_logged given fun _ => acquire_closeCalls _).trans (kept_setCall given)

theorem kept_prepare (given : List Nat) :
    Kept given w (w.prepare requestOrder upstreamOrder i call) := by
  unfold World.prepare
  split
  · exact kept_return given _
  · exact kept_setCall given

theorem kept_connect {fd : Option Nat} {connected : Bool}
    (next : w.connect i call fd connected = some w') : Kept fd.toList w w' := by
  have hopened : ∀ fd connected, Kept [fd] w (w.logged
      (UpstreamDescriptors.connectCalls call.target fd connected)) := by
    intro fd connected
    refine ⟨grown_append (fun fd' hmem => ?_) _, rfl, rfl⟩
    unfold UpstreamDescriptors.connectCalls at hmem
    split_ifs at hmem <;> simpa using hmem
  unfold World.connect at next
  by_cases hstate : call.client.state ≠ .NotConnected
  · simp only [if_pos hstate, Option.some.injEq] at next
    rw [← next]
    exact kept_return _ _
  · simp only [if_neg hstate] at next
    cases fd with
    | none =>
        cases next
        exact kept_return _ _
    | some fd =>
        simp only at next
        split at next
        · cases next
        · split at next
          · cases next
            exact (hopened fd connected).trans (kept_return _ _)
          · cases next
            exact (hopened fd connected).trans (kept_setCall _)

theorem kept_polled (next : Point) (body : Bytes) (result : UpstreamDescriptors.PollResult) :
    Kept [] w (w.polled i call next body result) := by
  cases result with
  | ready => exact kept_setCall _
  | interrupted => exact .refl _ _
  | timedOut | failed => exact kept_return _ _

theorem kept_send {result : UpstreamDescriptors.SendResult}
    (next : w.send i call result = some w') : Kept [] w w' := by
  cases result with
  | sent count =>
      simp only [World.send] at next
      split at next
      · cases next
      · cases next
        exact kept_setCall _
  | wouldBlock =>
      cases next
      exact kept_setCall _
  | interrupted =>
      cases next
      exact .refl _ _
  | failed =>
      cases next
      exact kept_return _ _

theorem kept_recv (result : UpstreamClient.RecvResult) :
    Kept [] w (w.recv responseOrder i call result) := by
  unfold World.recv
  simp only
  split
  · unfold World.complete
    split_ifs
    · exact kept_setCall _
    · exact kept_return _ _
  · exact kept_return _ _
  · split <;> exact kept_setCall _

inductive Drawn (event : UpstreamDescriptors.Event) (w w' : World) : Prop
  | kept (kept : Kept (opened (.upstream event)) w w')
  | leased (isHealthy : Nat → Bool) (hostKey : Bytes)
      (log : Grown (opened (.upstream event)) w.log w'.log)
      (pool : w'.pool = (w.pool.lease isHealthy hostKey).pool) (hosts : w'.hosts = w.hosts)
  | released (hostKey : Bytes) (fd now : Nat) (effect : ConnectionPooling.Effect)
      (log : Grown (opened (.upstream event)) w.log w'.log)
      (release : w.pool.release hostKey fd now = some effect) (pool : w'.pool = effect.pool)
      (hosts : w'.hosts = w.hosts.insert hostKey)
  | swept (gone : ConnectionPooling.PooledConnection → Bool) (hosts : List Bytes)
      (effect : ConnectionPooling.Effect) (log : Grown (opened (.upstream event)) w.log w'.log)
      (swept : ConnectionPooling.Swept w.pool gone hosts effect) (pool : w'.pool = effect.pool)
      (same : w'.hosts = w.hosts)

theorem drawn_lease (target : RouteTrie.ProxyTarget) (request : HttpRequest)
    (isHealthy : Nat → Bool) :
    Drawn (.lease i target request isHealthy) w
      (w.lease requestOrder upstreamOrder i target request isHealthy) := by
  have hprobed : Grown [] w.log (w.log ++ UpstreamDescriptors.leaseCalls
      (w.pool.lease isHealthy (UpstreamClient.hostKeyFor target))) := by
    refine grown_append (fun fd hmem => ?_) _
    simp [UpstreamDescriptors.leaseCalls] at hmem
  -- behind the lease the pool stays as it is
  have hbehind : ∀ {w₁ : World}, Kept [] ({ w with
      pool := (w.pool.lease isHealthy (UpstreamClient.hostKeyFor target)).pool }.logged
        (UpstreamDescriptors.leaseCalls (w.pool.lease isHealthy
          (UpstreamClient.hostKeyFor target)))) w₁ →
      Drawn (.lease i target request isHealthy) w w₁ := fun kept =>
    .leased isHealthy (UpstreamClient.hostKeyFor target) (hprobed.trans kept.log) kept.pool
      kept.hosts
  unfold World.lease
  simp only
  split
  · exact hbehind (kept_setCall _)
  · split
    · exact hbehind ((kept_logged [] (by simp)).trans (kept_setCall _))
    · exact hbehind (kept_prepare [])

theorem drawn_release {now : Nat} (next : w.release responseOrder i call now = some w') :
    Drawn (.release i now) w w' := by
  unfold World.release at next
  simp only at next
  split at next
  · cases next
    exact .kept (kept_return _ _)
  next fd _ =>
    obtain ⟨effect, heffect, rfl⟩ := Option.map_eq_some_iff.mp next
    refine .released _ fd now effect ?_ heffect rfl rfl
    refine Grown.trans ?_ (kept_return [] _).log
    exact grown_append (fun fd hmem => absurd hmem (acquire_closeCalls _)) _

theorem drawn_step {event : UpstreamDescriptors.Event}
    (next : UpstreamDescriptors.step requestOrder upstreamOrder responseOrder w event = some w') :
    Drawn event w w' := by
  cases event with
  | lease i target request isHealthy =>
      simp only [UpstreamDescriptors.step] at next
      split_ifs at next
      cases next
      exact drawn_lease target request isHealthy
  | connect i fd connected =>
      obtain ⟨call, -, hconnect⟩ := Option.bind_eq_some_iff.mp next
      exact .kept (kept_connect hconnect)
  | poll i result =>
      obtain ⟨call, -, hpoll⟩ := Option.bind_eq_some_iff.mp next
      unfold World.poll at hpoll
      simp only at hpoll
      refine .kept ?_
      split at hpoll
      · cases hpoll
        exact (kept_used []).trans (kept_polled _ _ _)
      · cases hpoll
        exact (kept_used []).trans (kept_polled _ _ _)
      · cases hpoll
        exact (kept_used []).trans (kept_polled _ _ _)
      · cases hpoll
  | getsockopt i socketError =>
      obtain ⟨call, -, rfl⟩ := Option.map_eq_some_iff.mp next
      unfold World.getsockopt
      simp only
      split_ifs
      · exact .kept ((kept_logged [] (by simp)).trans (kept_prepare []))
      · exact .kept ((kept_used []).trans (kept_return _ _))
  | send i result =>
      obtain ⟨call, -, hsend⟩ := Option.bind_eq_some_iff.mp next
      exact .kept ((kept_used []).trans (kept_send hsend))
  | recv i result =>
      obtain ⟨call, -, hrecv⟩ := Option.bind_eq_some_iff.mp next
      have hresult : (w.used call).recv responseOrder i call result = w' := by
        cases result with
        | bytes chunk =>
            simp only at hrecv
            split_ifs at hrecv
            exact Option.some.inj hrecv
        | closed | wouldBlock | failed => exact Option.some.inj hrecv
      rw [← hresult]
      exact .kept ((kept_used []).trans (kept_recv result))
  | recvInterrupted i =>
      obtain ⟨call, -, rfl⟩ := Option.map_eq_some_iff.mp next
      exact .kept (kept_used [])
  | release i now =>
      obtain ⟨call, -, hrelease⟩ := Option.bind_eq_some_iff.mp next
      exact drawn_release hrelease
  | reapStale hosts now =>
      simp only [UpstreamDescriptors.step] at next
      split_ifs at next
      cases next
      refine .swept _ hosts _ ?_ (ConnectionPooling.swept_reapStale w.pool hosts now) rfl rfl
      exact grown_append (fun fd hmem => absurd hmem (acquire_closeCalls _)) _
  | closeAll hosts =>
      simp only [UpstreamDescriptors.step] at next
      split_ifs at next
      cases next
      refine .swept _ hosts _ ?_ (ConnectionPooling.swept_closeAll w.pool hosts) rfl rfl
      exact grown_append (fun fd hmem => absurd hmem (acquire_closeCalls _)) _

theorem grown_upstream {event : UpstreamDescriptors.Event}
    (next : UpstreamDescriptors.step requestOrder upstreamOrder responseOrder w event = some w') :
    Grown (opened (.upstream event)) w.log w'.log := by
  cases drawn_step next with
  | kept kept => exact kept.log
  | leased _ _ log => exact log
  | released _ _ _ _ log => exact log
  | swept _ _ _ log => exact log

def Keyed (w : World) : Prop := ∀ hostKey fd, fd ∈ w.pool.fds hostKey → hostKey ∈ w.hosts

theorem Keyed.step (keyed : Keyed w) {event : UpstreamDescriptors.Event}
    (next : UpstreamDescriptors.step requestOrder upstreamOrder responseOrder w event = some w') :
    Keyed w' := by
  intro hostKey fd hfd
  cases drawn_step next with
  | kept kept =>
      rw [kept.pool] at hfd
      rw [kept.hosts]
      exact keyed hostKey fd hfd
  | leased isHealthy leasedKey log pool hosts =>
      rw [pool] at hfd
      rw [hosts]
      refine keyed hostKey fd ?_
      by_cases hkey : hostKey = leasedKey
      · rw [hkey] at hfd ⊢
        exact (ConnectionPooling.lease_perm w.pool isHealthy leasedKey).mem_iff.mpr
          (List.mem_append_left _ hfd)
      · rwa [ConnectionPooling.lease_other w.pool isHealthy hkey] at hfd
  | released releasedKey fd' now effect log release pool hosts =>
      rw [pool] at hfd
      rw [hosts, List.mem_insert_iff]
      rcases ConnectionPooling.release_kept release hfd with hold | hnew
      · exact .inr (keyed hostKey fd hold)
      · exact .inl hnew.2
  | swept gone hosts effect log swept pool same =>
      rw [pool] at hfd
      rw [same]
      exact keyed hostKey fd ((swept.sublist hostKey).subset hfd)

theorem fds_closeAll (keyed : Keyed w) {hosts : List Bytes}
    (next : UpstreamDescriptors.step requestOrder upstreamOrder responseOrder w (.closeAll hosts) =
      some w') (hostKey : Bytes) : w'.pool.fds hostKey = [] := by
  simp only [UpstreamDescriptors.step] at next
  split_ifs at next with hkeys
  cases next
  by_cases hkey : hostKey ∈ hosts
  · simp [ConnectionPooling.ConnectionPool.fds, World.swept,
      ConnectionPooling.ConnectionPool.closeAll, hkey, World.logged]
  · have hnone : w.pool.fds hostKey = [] :=
      List.eq_nil_iff_forall_not_mem.mpr fun fd hfd =>
        hkey (hkeys.mem_iff.mpr (keyed hostKey fd hfd))
    have hsame : (w.swept (w.pool.closeAll hosts)).pool.fds hostKey = w.pool.fds hostKey := by
      simp [ConnectionPooling.ConnectionPool.fds, World.swept,
        ConnectionPooling.ConnectionPool.closeAll, hkey, World.logged]
    rw [hsame, hnone]

end Upstream

structure Together (s : Program) : Prop where
  shared : Shared s.log
  gateway : part .gateway s.log = s.gateway.process.log.map (relabel fun _ => none)
  upstream : part .upstream s.log = s.upstream.log.map (relabel some)
  lost : part .lost s.log = s.lost.flatMap lostCalls

section Runs

variable {order requestOrder upstreamOrder responseOrder : IterationOrder Bytes Bytes}
  {s s' : Program} {event : Event}

theorem Together.withGateway (together : Together s) {gateway : Lifetime} {given : List Nat}
    (grown : Grown given s.gateway.process.log gateway.process.log)
    (proper : Proper gateway.process.log)
    (free : ∀ fd ∈ given, held (s.log.map Prod.snd) fd = none) :
    Together (s.withGateway gateway) := by
  obtain ⟨hshared, hpart, hother⟩ := together.shared.grow together.gateway grown proper free
  exact ⟨hshared, hpart, (hother .upstream (by simp)).trans together.upstream,
    (hother .lost (by simp)).trans together.lost⟩

theorem Together.withUpstream (together : Together s) {upstream : World} {given : List Nat}
    (grown : Grown given s.upstream.log upstream.log) (proper : Proper upstream.log)
    (free : ∀ fd ∈ given, held (s.log.map Prod.snd) fd = none) :
    Together (s.withUpstream upstream) := by
  obtain ⟨hshared, hpart, hother⟩ := together.shared.grow together.upstream grown proper free
  exact ⟨hshared, (hother .gateway (by simp)).trans together.gateway, hpart,
    (hother .lost (by simp)).trans together.lost⟩

theorem Together.withLost (together : Together s) {fd : Nat}
    (free : held (s.log.map Prod.snd) fd = none) : Together (s.withLost fd) := by
  have hfree := (together.shared.free_iff fd).mp free
  have hproper : Proper (part .lost s.log ++ lostCalls fd) := by
    have hopened : Proper (part .lost s.log ++ [.acquire fd]) :=
      (together.shared.proper_part .lost).snoc (hfree .lost)
    rw [lostCalls, List.append_cons]
    refine hopened.snoc ?_
    change held (part .lost s.log ++ [.acquire fd]) fd ≠ none
    rw [held_acquire, Function.update_self]
    exact Option.some_ne_none _
  refine ⟨together.shared.extend hproper fun h hmem t _ => ?_, ?_, ?_, ?_⟩
  · have hsame : h = fd := by simpa [lostCalls] using hmem
    rw [hsame]
    exact hfree t
  · exact (part_append _ _ _).trans ((congrArg _ (part_tagged_of_ne (by simp) _)).trans
      ((List.append_nil _).trans together.gateway))
  · exact (part_append _ _ _).trans ((congrArg _ (part_tagged_of_ne (by simp) _)).trans
      ((List.append_nil _).trans together.upstream))
  · change part .lost (s.log ++ (lostCalls fd).map (Prod.mk .lost)) =
      (s.lost ++ [fd]).flatMap lostCalls
    rw [part_append, part_tagged, together.lost, List.flatMap_append, List.flatMap_singleton]

theorem Together.step (together : Together s)
    (next : step order requestOrder upstreamOrder responseOrder s event = some s')
    (gateway : Proper s'.gateway.process.log) (upstream : Proper s'.upstream.log) :
    Together s' := by
  obtain ⟨hfree, hstepped⟩ := stepped_of_step next
  cases hstepped with
  | gateway done hnext => exact together.withGateway (grown_gateway hnext) gateway hfree
  | forward taken checked hnext =>
      have hkept := together.withUpstream (grown_upstream hnext) upstream (by simp [opened])
      exact ⟨hkept.shared, hkept.gateway, hkept.upstream, hkept.lost⟩
  | upstream goes hnext => exact together.withUpstream (grown_upstream hnext) upstream hfree
  | @unset i fd w hnext =>
      have hlost := together.withLost (hfree fd (List.mem_singleton_self fd))
      exact hlost.withUpstream (grown_upstream hnext) upstream (by simp [opened])
  | destroyPool ended first hnext =>
      have hkept := together.withUpstream (grown_upstream hnext) upstream (by simp [opened])
      exact ⟨hkept.shared, hkept.gateway, hkept.upstream, hkept.lost⟩

theorem mem_eraseIdx_of_ne {working : List Task} {k serial : Nat} {task : Task}
    (erased : working[k]? = some task) (other : task.serial ≠ serial)
    (mem : serial ∈ working.map Task.serial) : serial ∈ (working.eraseIdx k).map Task.serial := by
  have hperm := (ReactorPhases.perm_eraseIdx erased).map Task.serial
  rw [List.map_cons] at hperm
  exact (List.mem_cons.mp (hperm.mem_iff.mp mem)).resolve_left other.symm

theorem working_kept {gateway gateway' : Lifetime} {trace : List GatewayLifetime.Event}
    (living : Living trace gateway) {event : GatewayLifetime.Event}
    (next : GatewayLifetime.step order gateway event = some gateway') {serial : Nat}
    (checked : serial ∈ gateway.checked)
    (working : serial ∈ gateway.gateway.tables.working.map Task.serial)
    (busy : ∀ k outcome task, event = .reactor (.finish k outcome) →
      gateway.gateway.tables.working[k]? = some task → task.serial ≠ serial) :
    serial ∈ gateway'.checked ∧ serial ∈ gateway'.gateway.tables.working.map Task.serial := by
  cases event with
  | construct setup =>
      simp only [GatewayLifetime.step] at next
      split_ifs at next with hunbuilt
      obtain ⟨threadPoolSize, hnew⟩ := living.unbuilt hunbuilt.1
      rw [hnew] at checked
      cases checked
  | reactor e =>
      simp only [GatewayLifetime.step] at next
      split_ifs at next
      obtain ⟨g, hg, rfl⟩ := Option.map_eq_some_iff.mp next
      have hchecked : (gateway.accepted e).checked = gateway.checked := by
        unfold Lifetime.accepted
        split <;> rfl
      refine ⟨by rw [← hchecked] at checked; exact checked, ?_⟩
      by_cases hfinish : ∃ k outcome, e = .finish k outcome
      · obtain ⟨k, outcome, rfl⟩ := hfinish
        cases Reactor.stepped_of_step hg with
        | finish hnext =>
            obtain ⟨task, htask, rfl⟩ := GatewayLifetime.finish_cases hnext
            exact mem_eraseIdx_of_ne htask (busy k outcome task rfl htask) working
      · have hsame := workers_step hg fun k outcome h => hfinish ⟨k, outcome, h⟩
        by_cases htake : e = .take
        · subst htake
          cases Reactor.stepped_of_step hg with
          | take hnext =>
              obtain ⟨task, rest, -, rfl⟩ := GatewayLifetime.take_cases hnext
              change serial ∈ (gateway.gateway.tables.working ++ [task]).map Task.serial
              rw [List.map_append]
              exact List.mem_append_left _ working
        · change serial ∈ g.tables.working.map Task.serial
          rwa [hsame.2 htake]
  | check k =>
      simp only [GatewayLifetime.step] at next
      split_ifs at next
      obtain ⟨task, htask, hcheck⟩ := Option.bind_eq_some_iff.mp next
      split_ifs at hcheck with hunchecked
      cases hcheck
      unfold Lifetime.check
      split_ifs
      · refine ⟨checked, mem_eraseIdx_of_ne htask (fun hsame => ?_) working⟩
        rw [hsame] at hunchecked
        exact hunchecked checked
      · exact ⟨List.mem_append_left _ checked, working⟩
  | join =>
      simp only [GatewayLifetime.step] at next
      split_ifs at next
      cases next
      exact ⟨checked, working⟩
  | teardown | closeConnection | closeListener | closeKqueue =>
      simp only [GatewayLifetime.step] at next
      split_ifs at next
      cases next
      exact ⟨checked, working⟩

/-- A call that is under way is part of the work on a task. -/
def Working (s : Program) : Prop :=
  ∀ i call, s.upstream.calls i = some call → isReturned call.point = false →
    ∃ serial, (serial, i) ∈ s.made ∧ serial ∈ s.gateway.checked ∧
      serial ∈ s.gateway.gateway.tables.working.map Task.serial

theorem isReturned_iff (point : Point) :
    isReturned point = true ↔ ∃ reply, point = .returned reply := by
  cases point <;> simp [isReturned]

theorem called_before {w w' : World} {event : UpstreamDescriptors.Event}
    (next : UpstreamDescriptors.step requestOrder upstreamOrder responseOrder w event = some w')
    (noLease : ∀ i target request isHealthy, event ≠ .lease i target request isHealthy) {i : Nat}
    (index : eventCall event = some i) : w.calls i ≠ none := by
  intro hnone
  have hpoint : ∀ point, w.next i point = none := by
    simp [World.next, hnone]
  cases event with
  | lease j target request isHealthy => exact noLease j target request isHealthy rfl
  | poll j result =>
      cases index
      simp [UpstreamDescriptors.step, hnone] at next
  | reapStale | closeAll => cases index
  | connect | getsockopt | send | recv | recvInterrupted | release =>
      cases index
      simp [UpstreamDescriptors.step, hpoint] at next

theorem call_before {w w' : World} {place : Nat → Option UpstreamDescriptors.Place}
    (inv : UpstreamDescriptors.Inv w place) {event : UpstreamDescriptors.Event}
    (next : UpstreamDescriptors.step requestOrder upstreamOrder responseOrder w event = some w')
    (noLease : ∀ i target request isHealthy, event ≠ .lease i target request isHealthy) {i : Nat}
    {call' : Call} (had : w'.calls i = some call') (going : isReturned call'.point = false) :
    ∃ call, w.calls i = some call ∧ isReturned call.point = false := by
  cases callStep inv next with
  | none pool same => exact ⟨call', by rw [← same]; exact had, going⟩
  | lease j call index new => exact absurd new (called_before next noLease index)
  | goes j call index hadBefore goes =>
      obtain ⟨call'', hcalls, -⟩ := goes
      by_cases hsame : i = j
      · subst hsame
        refine ⟨call, hadBefore, Bool.eq_false_of_not_eq_true fun hreturned => ?_⟩
        obtain ⟨reply, hreply⟩ := (isReturned_iff _).mp hreturned
        rw [returned_idle hadBefore hreply index] at next
        cases next
      · rw [hcalls, Function.update_of_ne hsame] at had
        exact ⟨call', had, going⟩

theorem Working.step (working : Working s) {trace : List GatewayLifetime.Event}
    (living : Living trace s.gateway) {place : Nat → Option UpstreamDescriptors.Place}
    (inv : UpstreamDescriptors.Inv s.upstream place)
    (next : step order requestOrder upstreamOrder responseOrder s event = some s') :
    Working s' := by
  obtain ⟨-, hstepped⟩ := stepped_of_step next
  intro i call had hgoing
  cases hstepped with
  | @gateway event gateway done hnext =>
      obtain ⟨serial, hmade, hchecked, hworking⟩ := working i call had hgoing
      refine ⟨serial, hmade, working_kept living hnext hchecked hworking ?_⟩
      -- a worker does not finish before its calls have returned
      rintro k outcome task rfl htask rfl
      simp only [Program.workDone, htask, Option.all_some, Program.idle, List.all_eq_true] at done
      have hreturned := done _ hmade
      rw [show s.upstream.calls i = some call from had] at hreturned
      simp [hgoing] at hreturned
  | @forward k j target request isHealthy task upstream taken checked hnext =>
      have hlast : task.serial ∈ s.gateway.gateway.tables.working.map Task.serial :=
        List.mem_map_of_mem (List.mem_of_getElem? taken)
      by_cases hsame : i = j
      · exact ⟨task.serial, by simp [hsame], checked, hlast⟩
      · have hbefore : s.upstream.calls i = some call := by
          cases callStep inv hnext with
          | none pool => cases pool
          | goes j' call' index hadBefore =>
              cases index
              simp [UpstreamDescriptors.step, hadBefore] at hnext
          | lease j' call' index new calls =>
              cases index
              change upstream.calls i = some call at had
              rwa [calls, Function.update_of_ne hsame] at had
        obtain ⟨serial, hmade, hchecked, hworking⟩ := working i call hbefore hgoing
        exact ⟨serial, List.mem_append_left _ hmade, hchecked, hworking⟩
  | @upstream event upstream goes hnext =>
      obtain ⟨callBefore, hbefore, hgoingBefore⟩ := call_before inv hnext (by
        rintro i target request isHealthy rfl
        cases goes) had hgoing
      exact working i callBefore hbefore hgoingBefore
  | unset hnext =>
      obtain ⟨callBefore, hbefore, hgoingBefore⟩ := call_before inv hnext (by simp) had hgoing
      exact working i callBefore hbefore hgoingBefore
  | destroyPool ended first hnext =>
      obtain ⟨callBefore, hbefore, hgoingBefore⟩ := call_before inv hnext (by simp) had hgoing
      exact working i callBefore hbefore hgoingBefore

def Unworked (gateway : Lifetime) : Prop :=
  ∀ what, gateway.stage = .failed what → gateway.gateway.tables.working = []

theorem Unworked.step {gateway gateway' : Lifetime} {trace : List GatewayLifetime.Event}
    (living : Living trace gateway) {event : GatewayLifetime.Event}
    (next : GatewayLifetime.step order gateway event = some gateway') : Unworked gateway' := by
  intro what hfailed
  cases event with
  | construct setup =>
      simp only [GatewayLifetime.step] at next
      split_ifs at next with hfresh
      cases next
      obtain ⟨threadPoolSize, hnew⟩ := living.unbuilt hfresh.1
      subst hnew
      rcases GatewayLifetime.construct_cases threadPoolSize hfresh.2 with
        ⟨p, kq, listenFd, hconstruct, -⟩ | ⟨p, what, hconstruct, -⟩
      · rw [hconstruct] at hfailed
        cases hfailed
      · rw [hconstruct]
        rfl
  | reactor e =>
      simp only [GatewayLifetime.step] at next
      split_ifs at next with hruns
      obtain ⟨g, hg, rfl⟩ := Option.map_eq_some_iff.mp next
      have hstage := (GatewayTeardown.accepted_cases gateway e).2.1
      change (gateway.accepted e).stage = .failed what at hfailed
      rw [hstage] at hfailed
      unfold Lifetime.runs at hruns
      split at hruns <;> simp [hfailed] at hruns
  | check k =>
      simp only [GatewayLifetime.step] at next
      split_ifs at next with hstage
      obtain ⟨task, htask, hcheck⟩ := Option.bind_eq_some_iff.mp next
      split_ifs at hcheck
      cases hcheck
      unfold Lifetime.check at hfailed
      split_ifs at hfailed
      all_goals
        change gateway.stage = .failed what at hfailed
        simp [hfailed] at hstage
  | closeConnection fd =>
      simp only [GatewayLifetime.step] at next
      split_ifs at next with hclosing
      cases next
      change gateway.stage = .failed what at hfailed
      rw [hclosing.1] at hfailed
      cases hfailed
  | teardown | join | closeListener | closeKqueue =>
      simp only [GatewayLifetime.step] at next
      split_ifs at next
      cases next
      cases hfailed

theorem working_of_over {gateway : Lifetime} {trace : List GatewayLifetime.Event}
    (living : Living trace gateway) (unworked : Unworked gateway)
    (ended : isOver gateway.stage = true) : gateway.gateway.tables.working = [] := by
  cases hstage : gateway.stage with
  | failed what => exact unworked what hstage
  | destroyed => exact (living.tasks.joined (by rw [hstage]; rfl)).2
  | unbuilt | running | joining | closing | closingKqueue =>
      rw [hstage] at ended
      cases ended

theorem Working.returned (working : Working s)
    (none : s.gateway.gateway.tables.working = []) {i : Nat} {call : Call}
    (had : s.upstream.calls i = some call) : ∃ reply, call.point = .returned reply := by
  refine (isReturned_iff _).mp (Bool.eq_true_of_not_eq_false fun hgoing => ?_)
  obtain ⟨serial, -, -, hworking⟩ := working i call had hgoing
  rw [none] at hworking
  cases hworking

/-- Once the pool is destroyed it has nothing, and nothing calls `forward` any more. -/
def Gone (s : Program) : Prop :=
  s.poolGone = true → isOver s.gateway.stage = true ∧ ∀ hostKey, s.upstream.pool.fds hostKey = []

theorem over_step {gateway gateway' : Lifetime} {event : GatewayLifetime.Event}
    (next : GatewayLifetime.step order gateway event = some gateway')
    (ended : isOver gateway.stage = true) : False := by
  have hstage : gateway.stage = .destroyed ∨ ∃ what, gateway.stage = .failed what := by
    cases h : gateway.stage with
    | destroyed => exact .inl rfl
    | failed what => exact .inr ⟨what, rfl⟩
    | unbuilt | running | joining | closing | closingKqueue =>
        rw [h] at ended
        cases ended
  cases event with
  | reactor e =>
      simp only [GatewayLifetime.step] at next
      split_ifs at next with hruns
      unfold Lifetime.runs at hruns
      rcases hstage with h | ⟨what, h⟩ <;> split at hruns <;> simp [h] at hruns
  | _ =>
      rcases hstage with h | ⟨what, h⟩ <;> simp [GatewayLifetime.step, h] at next

theorem Working.idle (working : Working s) (none : s.gateway.gateway.tables.working = [])
    {event : UpstreamDescriptors.Event} {upstream : World} (goes : continues event = true)
    (next : UpstreamDescriptors.step requestOrder upstreamOrder responseOrder s.upstream event =
      some upstream) : False := by
  obtain ⟨i, hindex⟩ : ∃ i, eventCall event = some i := by
    cases event <;> first | exact ⟨_, rfl⟩ | cases goes
  have hthere := called_before next (by
    rintro i target request isHealthy rfl
    cases goes) hindex
  obtain ⟨call, hcall⟩ := Option.ne_none_iff_exists'.mp hthere
  obtain ⟨reply, hreply⟩ := working.returned none hcall
  rw [returned_idle hcall hreply hindex] at next
  cases next

theorem Gone.step (gone : Gone s) (working : Working s) (keyed : Keyed s.upstream)
    {trace : List GatewayLifetime.Event} (living : Living trace s.gateway)
    (unworked : Unworked s.gateway)
    (next : step order requestOrder upstreamOrder responseOrder s event = some s') :
    Gone s' := by
  obtain ⟨-, hstepped⟩ := stepped_of_step next
  intro hpool
  cases hstepped with
  | gateway done hnext => exact (over_step hnext (gone hpool).1).elim
  | forward taken checked hnext =>
      have hnone := working_of_over living unworked (gone hpool).1
      rw [hnone] at taken
      cases taken
  | upstream goes hnext =>
      exact (working.idle (working_of_over living unworked (gone hpool).1) goes hnext).elim
  | unset hnext =>
      exact (working.idle (working_of_over living unworked (gone hpool).1) rfl hnext).elim
  | destroyPool ended first hnext => exact ⟨ended, fds_closeAll keyed hnext⟩

structure Sound (s : Program) : Prop where
  together : Together s
  working : Working s
  keyed : Keyed s.upstream
  unworked : Unworked s.gateway
  gone : Gone s

variable {threadPoolSize maxIdlePerHost : Nat} {idleTimeout : Int} {trace : List Event}

theorem inv_of_run (positive : 1 ≤ maxIdlePerHost)
    (run : Run (fun s event s' => step order requestOrder upstreamOrder responseOrder s event =
      some s') (.new threadPoolSize maxIdlePerHost idleTimeout) trace s) :
    ∃ place, UpstreamDescriptors.Inv s.upstream place := by
  refine @Run.invariant _ _ _ _ (fun _ w => ∃ place, UpstreamDescriptors.Inv w place)
    ⟨_, UpstreamDescriptors.inv_init positive idleTimeout⟩ (fun _ _ _ _ hinv next => ?_) _ _
    (upstream_run run)
  obtain ⟨place, inv⟩ := hinv
  exact inv.step requestOrder upstreamOrder responseOrder next

theorem sound_of_run (positive : 1 ≤ maxIdlePerHost)
    (run : Run (fun s event s' => step order requestOrder upstreamOrder responseOrder s event =
      some s') (.new threadPoolSize maxIdlePerHost idleTimeout) trace s) : Sound s := by
  induction run with
  | nil =>
      refine ⟨⟨.nil, rfl, rfl, rfl⟩, fun i call had => ?_, fun hostKey fd hfd => ?_,
        fun what hstage => ?_, fun hgone => ?_⟩
      · cases had
      · cases hfd
      · cases hstage
      · cases hgone
  | @snoc trace s event s' earlier next ih =>
      have hliving := living_of_run (gateway_run earlier)
      obtain ⟨place, hinv⟩ := inv_of_run positive earlier
      have hgateway := living_of_run (gateway_run (.snoc earlier next))
      obtain ⟨place', hupstream⟩ := inv_of_run positive (.snoc earlier next)
      refine ⟨ih.together.step next hgateway.descriptors.account.proper hupstream.account.proper,
        ih.working.step hliving hinv next, ?_, ?_,
        ih.gone.step ih.working ih.keyed hliving ih.unworked next⟩
      · cases (stepped_of_step next).2 with
        | gateway => exact ih.keyed
        | forward _ _ hnext => exact ih.keyed.step hnext
        | upstream _ hnext => exact ih.keyed.step hnext
        | unset hnext => exact ih.keyed.step hnext
        | destroyPool _ _ hnext => exact ih.keyed.step hnext
      · cases (stepped_of_step next).2 with
        | gateway _ hnext => exact Unworked.step hliving hnext
        | forward | upstream | unset | destroyPool => exact ih.unworked

theorem lost_of_run
    (run : Run (fun s event s' => step order requestOrder upstreamOrder responseOrder s event =
      some s') (.new threadPoolSize maxIdlePerHost idleTimeout) trace s) (fd : Nat) :
    fd ∈ s.gateway.lost ∨ fd ∈ s.lost ↔ fd ∈ trace.flatMap lostBy := by
  rw [(living_of_run (gateway_run run)).lost]
  induction run with
  | nil => exact iff_of_false (by simp [Program.new]) (by simp)
  | @snoc trace s event s' _ next ih =>
      rw [List.filterMap_append, List.flatMap_append, List.flatMap_append, List.mem_append,
        List.mem_append, ← ih, List.flatMap_singleton]
      cases (stepped_of_step next).2 with
      | @gateway e gateway =>
          change (_ ∨ fd ∈ [e].flatMap GatewayTeardown.lostBy) ∨ fd ∈ s.lost ↔
            (_ ∨ fd ∈ s.lost) ∨ fd ∈ GatewayTeardown.lostBy e
          rw [List.flatMap_singleton]
          exact or_right_comm
      | @unset i fd' =>
          change (_ ∨ fd ∈ []) ∨ fd ∈ s.lost ++ [fd'] ↔ (_ ∨ fd ∈ s.lost) ∨ fd ∈ [fd']
          rw [or_iff_left List.not_mem_nil, List.mem_append]
          exact or_assoc.symm
      | forward | upstream | destroyPool =>
          change (_ ∨ fd ∈ []) ∨ fd ∈ s.lost ↔ (_ ∨ fd ∈ s.lost) ∨ fd ∈ []
          rw [or_iff_left List.not_mem_nil, or_iff_left List.not_mem_nil]

/-- The descriptors of a process whose gateway and whose calls of `forward` share the numbers
of one kernel. -/
structure Separate (trace : List Event) (s : Program) : Prop where
  parts : part .gateway s.log = s.gateway.process.log.map (relabel fun _ => none) ∧
    part .upstream s.log = s.upstream.log.map (relabel some) ∧
    part .lost s.log = s.lost.flatMap lostCalls
  proper : Proper (s.log.map Prod.snd)
  untouched : ∀ before party op later, s.log = before ++ (party, op) :: later →
    ∀ other, other ≠ party → held (part other before) op.handle = none
  out : ∀ fd, held (s.log.map Prod.snd) fd ≠ none ↔
    s.gateway.place fd ≠ none ∨ (∃ place, fd ∈ s.upstream.listed place) ∨ fd ∈ s.lost
  alone : ∀ fd place, fd ∈ s.upstream.listed place → s.gateway.place fd = none ∧ fd ∉ s.lost ∧
    ∀ other, fd ∈ s.upstream.listed other → other = place
  apart : ∀ fd ∈ s.lost, s.gateway.place fd = none
  returned : s.gateway.stage.joined = true → ∀ i call, s.upstream.calls i = some call →
    ∃ reply, call.point = .returned reply
  ended : s.poolGone = true → ∀ fd, held (s.log.map Prod.snd) fd ≠ none ↔
    fd ∈ trace.flatMap lostBy

theorem held_gateway_iff (together : Together s) (fd : Nat) :
    held (part .gateway s.log) fd = none ↔ held s.gateway.process.log fd = none := by
  rw [together.gateway, held_relabel, Option.map_eq_none_iff]

theorem held_upstream_iff (together : Together s) (fd : Nat) :
    held (part .upstream s.log) fd = none ↔ held s.upstream.log fd = none := by
  rw [together.upstream, held_relabel, Option.map_eq_none_iff]

theorem held_lost_iff (together : Together s) (fd : Nat) :
    held (part .lost s.log) fd ≠ none ↔ fd ∈ s.lost := by
  rw [together.lost]
  induction s.lost using List.reverseRecOn with
  | nil => exact iff_of_false (fun h => h rfl) List.not_mem_nil
  | append_singleton before last ih =>
      rw [List.flatMap_append, List.flatMap_singleton, lostCalls, List.append_cons, held_use,
        held_acquire, List.mem_append, List.mem_singleton]
      by_cases hsame : fd = last
      · rw [hsame, Function.update_self]
        exact iff_of_true (Option.some_ne_none _) (.inr rfl)
      · rw [Function.update_of_ne hsame, ih]
        exact (or_iff_left hsame).symm

theorem held_iff (together : Together s) (fd : Nat) : held (s.log.map Prod.snd) fd ≠ none ↔
    held s.gateway.process.log fd ≠ none ∨ held s.upstream.log fd ≠ none ∨ fd ∈ s.lost := by
  have hgateway := held_gateway_iff together fd
  have hupstream := held_upstream_iff together fd
  have hlost := held_lost_iff together fd
  rw [ne_eq, together.shared.free_iff]
  constructor
  · intro hout
    by_contra hnone
    push Not at hnone
    refine hout fun party => ?_
    cases party with
    | gateway => exact hgateway.mpr hnone.1
    | upstream => exact hupstream.mpr hnone.2.1
    | lost => exact not_not.mp fun hheld => hnone.2.2 (hlost.mp hheld)
  · rintro (h | h | h) hfree
    · exact h (hgateway.mp (hfree .gateway))
    · exact h (hupstream.mp (hfree .upstream))
    · exact hlost.mpr h (hfree .lost)

theorem held_listed_iff {w : World} (conserved : UpstreamDescriptors.Conserved w) (fd : Nat) :
    held w.log fd ≠ none ↔ ∃ p, fd ∈ w.listed p := by
  obtain ⟨place, hplaced, hout⟩ := conserved.places
  simp only [hplaced.here]
  exact (hout fd).not.trans Option.ne_none_iff_exists'

theorem listed_once {w : World} (conserved : UpstreamDescriptors.Conserved w) {fd : Nat}
    {p q : UpstreamDescriptors.Place} (hp : fd ∈ w.listed p) (hq : fd ∈ w.listed q) : q = p := by
  obtain ⟨place, hplaced, _⟩ := conserved.places
  have hplace := (hplaced.here p fd).mp hp
  rw [(hplaced.here q fd).mp hq] at hplace
  exact Option.some.inj hplace

theorem held_of_emptied {w : World} (conserved : UpstreamDescriptors.Conserved w)
    (returned : ∀ i call, w.calls i = some call → ∃ reply, call.point = .returned reply)
    (emptied : ∀ hostKey, w.pool.fds hostKey = []) (fd : Nat) : held w.log fd = none := by
  by_contra hheld
  obtain ⟨p, hfd⟩ := (held_listed_iff conserved fd).mp hheld
  cases p with
  | client i =>
      obtain ⟨call, hcall, hclient⟩ := Option.bind_eq_some_iff.mp (Option.mem_toList.mp hfd)
      obtain ⟨reply, hreply⟩ := returned i call hcall
      rw [conserved.returned i call reply hcall hreply] at hclient
      cases hclient
  | idle hostKey =>
      rw [World.listed, emptied] at hfd
      cases hfd

/-- In every interleaving of a gateway's life, the calls of `forward` that its workers make, and
the end of the pool, the kernel giving out any number that is free in the process: no system
call is on a descriptor that is closed, or that the other party has; every open descriptor is
the gateway's, in one place of the calls and the pool, or lost; no call is under way when the
gateway closes its descriptors; and in the end nothing is open but the sockets on which `fcntl`
failed, or the kqueue, if the thread pool was not built. -/
theorem process_separate (positive : 1 ≤ maxIdlePerHost)
    (run : Run (fun s event s' => step order requestOrder upstreamOrder responseOrder s event =
      some s') (.new threadPoolSize maxIdlePerHost idleTimeout) trace s) : Separate trace s := by
  have hsound := sound_of_run positive run
  have hliving := living_of_run (gateway_run run)
  obtain ⟨_, hinv⟩ := inv_of_run positive run
  have hconserved := hinv.conserved
  have hgateway : ∀ fd, held (part .gateway s.log) fd = none ↔ s.gateway.place fd = none :=
    fun fd => (held_gateway_iff hsound.together fd).trans (hliving.descriptors.account.out fd)
  have hlisted := held_listed_iff hconserved
  have hthere : ∀ fd p, fd ∈ s.upstream.listed p → held (part .upstream s.log) fd ≠ none :=
    fun fd p hfd => (held_upstream_iff hsound.together fd).not.mpr ((hlisted fd).mpr ⟨p, hfd⟩)
  refine ⟨⟨hsound.together.gateway, hsound.together.upstream, hsound.together.lost⟩,
    hsound.together.shared.proper, fun before party op later hlog other hother => ?_,
    fun fd => ?_, fun fd p hfd => ⟨?_, fun hgone => ?_, ?_⟩, fun fd hgone => ?_,
    fun hjoined i call had => ?_, fun hgone fd => ?_⟩
  · have hshared := hsound.together.shared
    rw [hlog] at hshared
    exact hshared.untouched hother
  · rw [held_iff hsound.together, hlisted]
    exact or_congr_left (hliving.descriptors.account.out fd).not
  · by_contra hheld
    cases hsound.together.shared.alone .gateway .upstream fd ((hgateway fd).not.mpr hheld)
      (hthere fd p hfd)
  · cases hsound.together.shared.alone .lost .upstream fd
      ((held_lost_iff hsound.together fd).mpr hgone) (hthere fd p hfd)
  · exact fun other hother => listed_once hconserved hfd hother
  · by_contra hheld
    cases hsound.together.shared.alone .gateway .lost fd ((hgateway fd).not.mpr hheld)
      ((held_lost_iff hsound.together fd).mpr hgone)
  · exact hsound.working.returned (hliving.tasks.joined hjoined).2 had
  · obtain ⟨hover, hpool⟩ := hsound.gone hgone
    have hnone := working_of_over hliving hsound.unworked hover
    have hidle := held_of_emptied hconserved
      (fun i call had => hsound.working.returned hnone had) hpool fd
    have hstage : s.gateway.stage.kqueueOpen = false ∧ s.gateway.stage.listening = false := by
      cases h : s.gateway.stage with
      | destroyed | failed => exact ⟨rfl, rfl⟩
      | unbuilt | running | joining | closing | closingKqueue =>
          rw [h] at hover
          cases hover
    rw [held_iff hsound.together, hidle, ne_eq, ← held_gateway_iff hsound.together, hgateway,
      ← ne_eq, GatewayLifetime.place_ne_none_iff, hstage.1, hstage.2,
      hliving.descriptors.closed hstage.2 fd, ← lost_of_run run]
    simp

end Runs

def takenOver : List Event :=
  let target : RouteTrie.ProxyTarget := ⟨ascii "10.0.0.1", 80⟩
  let request : HttpRequest := ⟨.GET, ascii "/", [], .empty, .empty, [], []⟩
  let reactor : List Reactor.Event := [.advance, .kevent [.ready 4 .read], .advance,
    .accept (.client 5 [] true), .accept (.client 6 [] true), .accept .failed, .advance, .advance,
    .advance, .kevent [.ready 6 .read, .ready 5 .read], .advance, .recv .endOfStream, .advance,
    .recv (.bytes (ascii "GET / HTTP/1.1\r\n\r\n")), .take]
  let call : List UpstreamDescriptors.Event := [.connect 0 (some 6) true, .poll 0 .ready,
    .getsockopt 0 (some false), .send 0 (.sent 61), .recv 0 .wouldBlock, .poll 0 .ready,
    .recv 0 (.bytes (ascii "HTTP/1.1 200 OK\r\nContent-Length: 1\r\n\r\nA")), .release 0 7]
  let finish : List Reactor.Event := [.finish 0 (.responded (ascii "HTTP/1.1 200 OK\r\n\r\n")),
    .advance, .advance, .advance, .advance, .kevent [.signal 15], .advance, .advance, .advance,
    .advance]
  let stepped : Reactor.Event → Event := fun e => .gateway (.reactor e)
  let forwarded : List Event :=
    .gateway (.check 0) :: (.forward 0 0 target request fun _ => true) :: call.map .upstream
  let refused : List Event :=
    [.forward 0 1 ⟨ascii "10.0.0.2", 80⟩ request fun _ => true, .unset 1 7]
  let ended : List Event := [.gateway .teardown, .gateway .join, .gateway (.closeConnection 5),
    .gateway .closeListener, .gateway .closeKqueue, .destroyPool [UpstreamClient.hostKeyFor target]]
  .gateway (.construct GatewayTeardown.built34) ::
    (reactor.map stepped ++ forwarded ++ refused ++ finish.map stepped ++ ended)

theorem process_separate_taken_over : ∃ s, (s.poolGone, s.lost) = (true, [7]) ∧
    s.log.filter (fun entry => decide (entry.2 = .acquire 6 ∨ entry.2 = .release 6)) =
      [(.gateway, .acquire 6), (.gateway, .release 6), (.upstream, .acquire 6),
        (.upstream, .release 6)] ∧
    Separate takenOver s := by
  have hends : ((exec (step default default default default) (.new 2 16 60) takenOver).map fun s =>
      ((s.poolGone, s.lost), s.log.filter fun entry =>
        decide (entry.2 = .acquire 6 ∨ entry.2 = .release 6))) =
      some ((true, [7]), [(.gateway, .acquire 6), (.gateway, .release 6), (.upstream, .acquire 6),
        (.upstream, .release 6)]) := by
    decide +kernel
  obtain ⟨s, hexec, hs⟩ := Option.map_eq_some_iff.mp hends
  rw [Prod.mk.injEq] at hs
  exact ⟨s, hs.1, hs.2, process_separate (by decide) (run_of_exec hexec)⟩

end ApiGateway.ProcessDescriptors
