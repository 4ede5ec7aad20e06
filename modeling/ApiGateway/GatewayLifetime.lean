import ApiGateway.ReactorRuns
import ApiGateway.ResourceLogs
import ApiGateway.ThreadPooling

/-! An `ApiGateway` from its constructor to its destructor: the kqueue, the listening socket
and the client sockets, and the tasks that are left when the destructor begins. A worker reads
`abandoningWork_` when it has taken a task and before it works on it. The log holds the system
calls on these descriptors. -/

namespace ApiGateway.GatewayLifetime
open ByteText StepRuns ResourceLogs Reactor ReactorPhases ReactorRuns
open RequestReading (onChunk)
open ThreadPooling (workerCount)

abbrev SystemCall := Operation Nat Unit

inductive Signal where
  | SIGINT | SIGTERM
  deriving DecidableEq

inductive Disposition where
  | initial | ignored | default
  deriving DecidableEq

def kShutdownSignals : List Signal := [.SIGINT, .SIGTERM]

structure Process where
  log : List SystemCall
  disposition : Signal → Disposition

def Process.logged (p : Process) (calls : List SystemCall) : Process :=
  { p with log := p.log ++ calls }

def Process.restoreSignalDispositions (p : Process) : Process :=
  { p with disposition := fun _ => .default }

/-- What the system calls of the constructor give: descriptors, or whether they succeed.
`threadPool` is the text of the exception when the pool is not built. -/
structure Setup where
  kqueue : Option Nat
  threadPool : Option Bytes
  socket : Option Nat
  reuseAddr : Bool
  bind : Bool
  listen : Bool
  nonBlocking : Bool
  wakeChannel : Bool
  ignore : Signal → Bool
  observe : Signal → Bool

/-- The descriptor that no one closes. -/
def Setup.lost (setup : Setup) : Option Nat :=
  if setup.threadPool.isSome then setup.kqueue
  else if setup.kqueue.isSome ∧ setup.reuseAddr = true ∧ setup.bind = true ∧ setup.listen = true ∧
    setup.nonBlocking = false then setup.socket else none

def Setup.Fresh (setup : Setup) : Prop := setup.socket.isSome → setup.socket ≠ setup.kqueue

instance (setup : Setup) : Decidable setup.Fresh := inferInstanceAs (Decidable (_ → _))

/-- The error is the text of the exception, up to what `strerror` says. -/
def createListeningSocket (setup : Setup) (p : Process) : Process × Except Bytes Nat :=
  match setup.socket with
  | none => (p, .error (ascii "socket() failed"))
  | some fd =>
      let p := (p.logged [.acquire fd]).logged [.use fd]
      if setup.reuseAddr = false then
        (p.logged [.release fd], .error (ascii "setsockopt(SO_REUSEADDR) failed"))
      else
        let p := (p.logged [.use fd]).logged [.use fd]
        if setup.bind = false then (p.logged [.release fd], .error (ascii "bind() failed"))
        else
          let p := p.logged [.use fd]
          if setup.listen = false then (p.logged [.release fd], .error (ascii "listen() failed"))
          else
            let p := p.logged [.use fd]
            -- `setNonBlocking` throws past the function, which has no handler
            if setup.nonBlocking = false then (p, .error (ascii "fcntl(F_SETFL, O_NONBLOCK) failed"))
            else (p, .ok fd)

def setupSignalHandling (setup : Setup) (kq : Nat) : List Signal → Process →
    Process × Except Bytes Unit
  | [], p => (p, .ok ())
  | sig :: rest, p =>
      if setup.ignore sig = false then (p, .error (ascii "signal(SIG_IGN) failed for "))
      else
        let p := { p.logged [.use kq] with
          disposition := Function.update p.disposition sig .ignored }
        if setup.observe sig = false then (p, .error (ascii "kevent() failed to register "))
        else setupSignalHandling setup kq rest p

/-- The body of the `try` block; an exception comes with the listening socket of that time. -/
def setupReactor (setup : Setup) (kq : Nat) (p : Process) :
    Process × Except (Option Nat × Bytes) Nat :=
  match createListeningSocket setup p with
  | (p, .error what) => (p, .error (none, what))
  | (p, .ok listenFd) =>
      let p := p.logged [.use kq]
      if setup.wakeChannel = false then
        (p, .error (some listenFd, ascii "kevent() failed to register wake channel"))
      else
        -- `registerEvent` does not look at the result
        let p := (p.logged [.use kq]).logged [.use listenFd]
        match setupSignalHandling setup kq kShutdownSignals p with
        | (p, .error what) => (p, .error (some listenFd, what))
        | (p, .ok ()) => (p, .ok listenFd)

/-- The kqueue and the listening socket, or the exception that leaves the constructor. -/
def construct (setup : Setup) (p : Process) : Process × Except Bytes (Nat × Nat) :=
  let p := p.logged (setup.kqueue.toList.map .acquire)
  match setup.threadPool with
  -- a member initializer throws before the handler is entered, and `kq_` is a number
  | some what => (p, .error what)
  | none =>
      match setup.kqueue with
      | none => (p, .error (ascii "kqueue() failed"))
      | some kq =>
          match setupReactor setup kq p with
          | (p, .ok listenFd) => (p, .ok (kq, listenFd))
          | (p, .error (listenFd, what)) =>
              let p := p.restoreSignalDispositions.logged (listenFd.toList.map .release)
              (p.logged [.release kq], .error what)

inductive Stage where
  | unbuilt
  | failed (what : Bytes)
  | running
  /-- the destructor has set `abandoningWork_` and waits for the workers -/
  | joining
  /-- the workers are joined, and the connections are closed one after the other -/
  | closing
  | closingKqueue
  | destroyed
  deriving DecidableEq

/-- `keys` are the descriptors that were ever accepted, and `lost` those that no one closes. Of
the tasks that workers have taken, `checked` are worked on and `dropped` were not. -/
structure Lifetime where
  process : Process
  stage : Stage
  kq : Nat
  gateway : Gateway
  threads : Nat
  keys : List Nat
  lost : List Nat
  abandoningWork : Bool
  checked : List Nat
  dropped : List Nat

def Process.new : Process := ⟨[], fun _ => .initial⟩

def Lifetime.new (threadPoolSize : Nat) : Lifetime :=
  ⟨.new, .unbuilt, 0, .init 0, workerCount threadPoolSize, [], [], false, [], []⟩

def registerCalls (kq fd : Nat) : List SystemCall := [.use kq, .use fd]

/-- `closeConnection` -/
def closeCalls (kq fd : Nat) : List SystemCall :=
  registerCalls kq fd ++ registerCalls kq fd ++ [.release fd]

/-- What follows a chunk: a request that is complete, or refused, is not read on. -/
def chunkCalls (order : IterationOrder Bytes Bytes) (kq fd : Nat) (conn : Reactor.Connection)
    (chunk : Bytes) : List SystemCall :=
  match onChunk order conn.toConnection chunk with
  | .stop (.dispatch _) => registerCalls kq fd
  | .stop (.reject _) => registerCalls kq conn.fd ++ registerCalls kq conn.fd
  | .more _ => []

def stepCalls (order : IterationOrder Bytes Bytes) (kq : Nat) (g : Gateway) :
    Reactor.Event → List SystemCall
  | .kevent _ => [.use kq]
  | .keventError _ => [.use kq]
  | .advance =>
      match g.control, g.tables.completionQueue with
      | .writing fd, _ => closeCalls kq fd
      | .draining _, result :: _ =>
          if (g.tables.connections result.fd).isSome then registerCalls kq result.fd else []
      | _, _ => []
  | .accept .failed => [.use g.tables.listenFd]
  | .accept (.client fd _ nonBlocking) =>
      [.use g.tables.listenFd, .acquire fd, .use fd] ++ if nonBlocking then registerCalls kq fd else []
  | .recv result =>
      match g.control with
      | .reading fd =>
          .use fd ::
            match result, g.tables.connections fd with
            | .bytes chunk, some conn => chunkCalls order kq fd conn chunk
            | .endOfStream, _ => closeCalls kq fd
            | .failed, _ => closeCalls kq fd
            | _, _ => []
      | _ => []
  | .send result =>
      match g.control with
      | .writing fd =>
          .use fd ::
            match result with
            | .failed => closeCalls kq fd
            | _ => []
      | _ => []
  | .take => []
  | .finish _ _ => [.use kq]
  | .stop => [.use kq]

inductive Event where
  | construct (setup : Setup)
  | reactor (e : Reactor.Event)
  /-- the worker with the task at this place reads `abandoningWork_` -/
  | check (k : Nat)
  /-- the destructor begins -/
  | teardown
  | join
  | closeConnection (fd : Nat)
  | closeListener
  | closeKqueue

def Lifetime.construct (s : Lifetime) (setup : Setup) : Lifetime :=
  match GatewayLifetime.construct setup s.process with
  | (p, .ok (kq, listenFd)) =>
      { s with process := p, stage := .running, kq := kq, gateway := .init listenFd }
  | (p, .error what) =>
      { s with process := p, stage := .failed what, lost := setup.lost.toList }

/-- Once the destructor has begun, only workers take steps. -/
def Lifetime.runs (s : Lifetime) : Reactor.Event → Bool
  | .take => (s.stage = .running ∨ s.stage = .joining) ∧
      s.gateway.tables.working.length < s.threads
  | .finish k _ =>
      (s.stage = .running ∨ s.stage = .joining) ∧
        ∃ task ∈ s.gateway.tables.working[k]?, task.serial ∈ s.checked
  | .accept (.client fd _ _) => s.stage = .running ∧ held s.process.log fd = none
  | _ => s.stage = .running

def Lifetime.accepted (s : Lifetime) : Reactor.Event → Lifetime
  | .accept (.client fd _ true) => { s with keys := s.keys ++ [fd] }
  | .accept (.client fd _ false) => { s with lost := s.lost ++ [fd] }
  | _ => s

def Lifetime.check (s : Lifetime) (k : Nat) (task : Task) : Lifetime :=
  if s.abandoningWork then
    { s with
      gateway := { s.gateway with tables := { s.gateway.tables with
        working := s.gateway.tables.working.eraseIdx k } }
      dropped := s.dropped ++ [task.serial] }
  else { s with checked := s.checked ++ [task.serial] }

/-- `teardown` up to the destructor of the pool -/
def Lifetime.teardown (s : Lifetime) : Lifetime :=
  { s with
    process := s.process.restoreSignalDispositions
    stage := .joining
    gateway := { s.gateway with running := false }
    abandoningWork := true }

def Lifetime.closeConnection (s : Lifetime) (fd : Nat) : Lifetime :=
  { s with
    process := s.process.logged [.release fd]
    gateway := { s.gateway with tables := { s.gateway.tables with
      connections := Function.update s.gateway.tables.connections fd none } } }

def Lifetime.closeListener (s : Lifetime) : Lifetime :=
  { s with
    process := s.process.logged [.release s.gateway.tables.listenFd]
    stage := .closingKqueue }

def Lifetime.closeKqueue (s : Lifetime) : Lifetime :=
  { s with process := s.process.logged [.release s.kq], stage := .destroyed }

def step (order : IterationOrder Bytes Bytes) (s : Lifetime) : Event → Option Lifetime
  | .construct setup => if s.stage = .unbuilt ∧ setup.Fresh then some (s.construct setup) else none
  | .reactor e =>
      if s.runs e then
        (Reactor.step order s.gateway e).map fun g =>
          { s.accepted e with
            gateway := g
            process := s.process.logged (stepCalls order s.kq s.gateway e) }
      else none
  | .check k =>
      if s.stage = .running ∨ s.stage = .joining then
        s.gateway.tables.working[k]?.bind fun task =>
          if task.serial ∈ s.checked then none else some (s.check k task)
      else none
  | .teardown =>
      -- `run` has returned or thrown, or was not called
      if s.stage = .running ∧ s.gateway.control ∈ [.poll, .returned, .thrown] then some s.teardown
      else none
  | .join =>
      if s.stage = .joining ∧ s.gateway.tables.tasks = [] ∧ s.gateway.tables.working = [] then
        some { s with stage := .closing }
      else none
  | .closeConnection fd =>
      if s.stage = .closing ∧ (s.gateway.tables.connections fd).isSome then
        some (s.closeConnection fd)
      else none
  | .closeListener =>
      if s.stage = .closing ∧ ∀ fd ∈ s.keys, s.gateway.tables.connections fd = none then
        some s.closeListener
      else none
  | .closeKqueue => if s.stage = .closingKqueue then some s.closeKqueue else none

section Effects

variable {order : IterationOrder Bytes Bytes} {kq : Nat} {g g' : Gateway} {e : Reactor.Event}

def Known (kq : Nat) (g : Gateway) (fd : Nat) : Prop :=
  fd = kq ∨ fd = g.tables.listenFd ∨ (g.tables.connections fd).isSome = true

inductive Effect (kq : Nat) (g : Gateway) (e : Reactor.Event) (calls : List SystemCall)
    (g' : Gateway) : Prop
  | used (fds : List Nat) (these : calls = fds.map .use) (known : ∀ fd ∈ fds, Known kq g fd)
      (quiet : ∀ fd requestId nonBlocking, e ≠ .accept (.client fd requestId nonBlocking))
      (same : ∀ fd, (g'.tables.connections fd).isSome = (g.tables.connections fd).isSome)
  | closed (fd : Nat) (fds : List Nat) (these : calls = fds.map .use ++ [.release fd])
      (known : ∀ fd ∈ fds, Known kq g fd) (open_ : (g.tables.connections fd).isSome = true)
      (quiet : ∀ fd requestId nonBlocking, e ≠ .accept (.client fd requestId nonBlocking))
      (gone : g'.tables.connections = Function.update g.tables.connections fd none)
  | accepted (fd : Nat) (requestId : Bytes) (conn : Reactor.Connection)
      (event : e = .accept (.client fd requestId true))
      (these : calls = [.use g.tables.listenFd, .acquire fd, .use fd, .use kq, .use fd])
      (new : g'.tables.connections = Function.update g.tables.connections fd (some conn))
  | leaked (fd : Nat) (requestId : Bytes) (event : e = .accept (.client fd requestId false))
      (these : calls = [.use g.tables.listenFd, .acquire fd, .use fd])
      (thrown : g' = g.goto .thrown)

theorem known_registered {fd : Nat} (held : (g.tables.connections fd).isSome = true) :
    ∀ fd' ∈ [kq, fd], Known kq g fd' := by
  intro fd' hfd
  rcases List.mem_cons.mp hfd with rfl | hfd
  · exact .inl rfl
  · rw [List.mem_singleton.mp hfd]
    exact .inr (.inr held)

theorem effect_close {fd : Nat} (held : (g.tables.connections fd).isSome = true)
    (before : List Nat) (first : ∀ fd' ∈ before, fd' = fd)
    (quiet : ∀ fd requestId nonBlocking, e ≠ .accept (.client fd requestId nonBlocking)) :
    Effect kq g e (before.map .use ++ closeCalls kq fd) (g.close fd) := by
  refine .closed fd (before ++ [kq, fd, kq, fd]) ?_ (fun fd' hfd => ?_) held quiet rfl
  · simp [closeCalls, registerCalls]
  · rcases List.mem_append.mp hfd with hbefore | hbehind
    · rw [first fd' hbefore]
      exact .inr (.inr held)
    · exact known_registered held fd' (by simpa [or_assoc, or_comm, or_left_comm] using hbehind)

theorem isSome_update {connections : Nat → Option Reactor.Connection} {fd : Nat}
    {conn : Reactor.Connection} (held : (connections fd).isSome = true) (fd' : Nat) :
    (Function.update connections fd (some conn) fd').isSome = (connections fd').isSome := by
  by_cases hfd : fd' = fd
  · rw [hfd, Function.update_self, held]
    rfl
  · rw [Function.update_of_ne hfd]

theorem effect_chunk {fd : Nat} {conn : Reactor.Connection} {chunk : Bytes}
    (held : g.tables.connections fd = some conn) (key : conn.fd = fd)
    {tables : Tables} {control : Control}
    (received : g.tables.onReceived order fd conn chunk = (tables, control)) :
    Effect kq g (.recv (.bytes chunk)) (.use fd :: chunkCalls order kq fd conn chunk)
      { g with tables := tables, control := control } := by
  have hheld : (g.tables.connections fd).isSome = true := by simp [held]
  have hquiet : ∀ fd requestId nonBlocking,
      Reactor.Event.recv (.bytes chunk) ≠ .accept (.client fd requestId nonBlocking) := by nofun
  have huse : ∀ fds : List Nat, (∀ fd' ∈ fds, Known kq g fd') → ∀ fd' ∈ fd :: fds, Known kq g fd' := by
    intro fds hfds
    exact List.forall_mem_cons.mpr ⟨.inr (.inr hheld), hfds⟩
  cases hchunk : onChunk order conn.toConnection chunk with
  | more reading =>
      simp only [Tables.onReceived, hchunk] at received
      cases received
      simp only [chunkCalls, hchunk]
      exact .used [fd] rfl (huse _ (by simp)) hquiet (isSome_update hheld)
  | stop verdict =>
      cases verdict with
      | dispatch dispatch =>
          simp only [Tables.onReceived, hchunk] at received
          cases received
          simp only [chunkCalls, hchunk]
          exact .used [fd, kq, fd] rfl (huse _ (known_registered hheld)) hquiet
            (isSome_update hheld)
      | reject rejection =>
          obtain ⟨response, hresponse⟩ := rejection_answered hchunk
          simp only [Tables.onReceived, hchunk, Tables.rejectRequest, hresponse] at received
          cases received
          simp only [chunkCalls, hchunk, key]
          exact .used [fd, kq, fd, kq, fd] rfl
            (huse ([kq, fd] ++ [kq, fd]) fun fd' hfd =>
              known_registered hheld fd' (or_self_iff.mp (List.mem_append.mp hfd))) hquiet
            (isSome_update hheld)

theorem deliver_isSome (t : Tables) (result : CompletionResult) (fd : Nat) :
    ((t.deliver result).connections fd).isSome = (t.connections fd).isSome := by
  unfold Tables.deliver
  cases hheld : t.connections result.fd with
  | none => rfl
  | some conn => exact isSome_update (by rw [hheld]; rfl) fd

theorem effect_advance (advanced : Advanced g g') :
    Effect kq g .advance (stepCalls order kq g .advance) g' := by
  have hsilent : ∀ {g' : Gateway}, stepCalls order kq g .advance = [] →
      g'.tables.connections = g.tables.connections →
      Effect kq g .advance (stepCalls order kq g .advance) g' := by
    intro g' hcalls hsame
    exact .used [] (by simp [hcalls]) (by simp) (by nofun) fun fd => by rw [hsame]
  cases advanced with
  | poll control => exact hsilent (by simp [stepCalls, control]) rfl
  | lastDrain control events => exact hsilent (by simp [stepCalls, control]) rfl
  | event control events =>
      refine hsilent (by simp [stepCalls, control]) ?_
      rw [onEvent_tables]
  | @written fd conn control held all =>
      have hcalls : stepCalls order kq g .advance = closeCalls kq fd := by
        simp [stepCalls, control]
      rw [hcalls]
      exact effect_close (by simp [held]) [] (by simp) (by nofun)
  | drained control queue => exact hsilent (by simp [stepCalls, control, queue]) rfl
  | @delivered last result rest control queue =>
      have hcalls : stepCalls order kq g .advance =
          if (g.tables.connections result.fd).isSome then registerCalls kq result.fd else [] := by
        simp [stepCalls, control, queue]
      rw [hcalls]
      split_ifs with hheld
      · exact .used [kq, result.fd] rfl (known_registered hheld) (by nofun)
          (deliver_isSome _ result)
      · exact .used [] rfl (by simp) (by nofun) (deliver_isSome _ result)

theorem effect_accept {result : Accept} (next : g.onAccept result = some g') :
    g'.tables.listenFd = g.tables.listenFd ∧
      Effect kq g (.accept result) (stepCalls order kq g (.accept result)) g' := by
  cases result with
  | failed =>
      cases next
      refine ⟨rfl, .used [g.tables.listenFd] rfl ?_ (by nofun) fun _ => rfl⟩
      exact List.forall_mem_singleton.mpr (.inr (.inl rfl))
  | client fd requestId nonBlocking =>
      unfold Gateway.onAccept at next
      simp only at next
      split_ifs at next with hused hfcntl
      · cases next
        subst hfcntl
        exact ⟨rfl, .accepted fd requestId _ rfl rfl rfl⟩
      · cases next
        rw [Bool.not_eq_true] at hfcntl
        subst hfcntl
        exact ⟨rfl, .leaked fd requestId rfl rfl rfl⟩

theorem effect_recv (steady : Steady g) {fd : Nat} {conn : Reactor.Connection}
    (control : g.control = .reading fd) (held : g.tables.connections fd = some conn)
    {result : Recv} (next : g.onRecv order fd conn result = some g') :
    g'.tables.listenFd = g.tables.listenFd ∧
      Effect kq g (.recv result) (stepCalls order kq g (.recv result)) g' := by
  have hheld : (g.tables.connections fd).isSome = true := by simp [held]
  have hknown : ∀ fd' ∈ [fd], Known kq g fd' :=
    List.forall_mem_singleton.mpr (.inr (.inr hheld))
  cases result with
  | bytes chunk =>
      unfold Gateway.onRecv at next
      simp only at next
      split_ifs at next
      cases next
      refine ⟨?_, ?_⟩
      · obtain ⟨dispatch, h⟩ | ⟨reading, rejection, t, hreject, h⟩ | ⟨reading, control, h, -⟩ :=
          onReceived_cases order g.tables fd conn chunk
        · rw [h]
          rfl
        · rw [h]
          obtain ⟨bytes, ht⟩ := rejectRequest_ok hreject
          rw [ht]
          rfl
        · rw [h]
          rfl
      · have hcalls : stepCalls order kq g (.recv (.bytes chunk)) =
            .use fd :: chunkCalls order kq fd conn chunk := by
          simp [stepCalls, control, held]
        rw [hcalls]
        exact effect_chunk held (steady.inv.entries.entry fd conn held).key rfl
  | endOfStream =>
      cases next
      have hcalls : stepCalls order kq g (.recv .endOfStream) =
          [fd].map .use ++ closeCalls kq fd := by
        simp [stepCalls, control]
      rw [hcalls]
      exact ⟨rfl, effect_close hheld [fd] (by simp) (by nofun)⟩
  | wouldBlock =>
      cases next
      have hcalls : stepCalls order kq g (.recv .wouldBlock) = [fd].map .use := by
        simp [stepCalls, control]
      rw [hcalls]
      exact ⟨rfl, .used [fd] rfl hknown (by nofun) fun _ => rfl⟩
  | interrupted =>
      cases next
      have hcalls : stepCalls order kq g (.recv .interrupted) = [fd].map .use := by
        simp [stepCalls, control]
      rw [hcalls]
      exact ⟨rfl, .used [fd] rfl hknown (by nofun) fun _ => rfl⟩
  | failed =>
      cases next
      have hcalls : stepCalls order kq g (.recv .failed) = [fd].map .use ++ closeCalls kq fd := by
        simp [stepCalls, control]
      rw [hcalls]
      exact ⟨rfl, effect_close hheld [fd] (by simp) (by nofun)⟩

theorem effect_send {fd : Nat} {conn : Reactor.Connection}
    (control : g.control = .writing fd) (held : g.tables.connections fd = some conn)
    {result : Send} (next : g.onSend fd conn result = some g') :
    g'.tables.listenFd = g.tables.listenFd ∧
      Effect kq g (.send result) (stepCalls order kq g (.send result)) g' := by
  have hheld : (g.tables.connections fd).isSome = true := by simp [held]
  have hknown : ∀ fd' ∈ [fd], Known kq g fd' :=
    List.forall_mem_singleton.mpr (.inr (.inr hheld))
  have hcalls : ∀ result : Send, stepCalls order kq g (.send result) = [fd].map .use ++
      match result with
      | .failed => closeCalls kq fd
      | _ => [] := by
    intro result
    simp [stepCalls, control]
  rw [hcalls]
  cases result with
  | bytes count =>
      unfold Gateway.onSend at next
      simp only at next
      split_ifs at next
      cases next
      exact ⟨rfl, .used [fd] rfl hknown (by nofun) (isSome_update hheld)⟩
  | wouldBlock =>
      cases next
      exact ⟨rfl, .used [fd] rfl hknown (by nofun) fun _ => rfl⟩
  | interrupted =>
      cases next
      exact ⟨rfl, .used [fd] rfl hknown (by nofun) fun _ => rfl⟩
  | failed =>
      cases next
      exact ⟨rfl, effect_close hheld [fd] (by simp) (by nofun)⟩

theorem take_cases {t t' : Tables} (next : t.take = some t') :
    ∃ task rest, t.tasks = task :: rest ∧
      t' = { t with tasks := rest, working := t.working ++ [task] } := by
  unfold Tables.take at next
  split at next
  · cases next
  next task rest htasks =>
    cases next
    exact ⟨task, rest, htasks, rfl⟩

theorem finish_cases {t t' : Tables} {k : Nat} {outcome : Outcome}
    (next : t.finish k outcome = some t') :
    ∃ task, t.working[k]? = some task ∧
      t' = { t with
        working := t.working.eraseIdx k
        completionQueue := t.completionQueue ++ [⟨task.fd, outcome.responseBytes, task.serial⟩]
        history := { t.history with completed := t.history.completed ++ [task.serial] } } := by
  unfold Tables.finish at next
  split at next
  · cases next
  next task htask =>
    cases next
    exact ⟨task, htask, rfl⟩

theorem effect_step (kq : Nat) (steady : Steady g) (next : Reactor.step order g e = some g') :
    g'.tables.listenFd = g.tables.listenFd ∧ Effect kq g e (stepCalls order kq g e) g' := by
  have hkq : ∀ fd ∈ [kq], Known kq g fd := List.forall_mem_singleton.mpr (.inl rfl)
  cases stepped_of_step next with
  | kevent control returns => exact ⟨rfl, .used [kq] rfl hkq (by nofun) fun _ => rfl⟩
  | keventError control => exact ⟨rfl, .used [kq] rfl hkq (by nofun) fun _ => rfl⟩
  | advance advanced =>
      refine ⟨?_, effect_advance advanced⟩
      cases advanced with
      | event control events => rw [onEvent_tables]
      | @delivered last result rest control queue =>
          unfold Tables.deliver
          cases g.tables.connections result.fd <;> rfl
      | _ => rfl
  | accept control haccept => exact effect_accept haccept
  | recv control held hrecv => exact effect_recv steady control held hrecv
  | send control held more hsend => exact effect_send control held hsend
  | take htake =>
      obtain ⟨task, rest, htasks, rfl⟩ := take_cases htake
      exact ⟨rfl, .used [] rfl (by simp) (by nofun) fun _ => rfl⟩
  | finish hfinish =>
      obtain ⟨task, htask, rfl⟩ := finish_cases hfinish
      exact ⟨rfl, .used [kq] rfl hkq (by nofun) fun _ => rfl⟩
  | stop => exact ⟨rfl, .used [kq] rfl hkq (by nofun) fun _ => rfl⟩

end Effects

inductive Place where
  | kqueue | listener | client | lost
  deriving DecidableEq

section Construction

variable {setup : Setup} {p : Process} {place : Nat → Option Place}

theorem update_none_iff {fd : Nat} (free : place fd = none) (o : Place) (h : Nat) :
    place h = none ↔ Function.update (Function.update place fd (some o)) fd none h = none := by
  by_cases hh : h = fd
  · rw [hh, Function.update_self]
    exact iff_of_true free rfl
  · rw [Function.update_of_ne hh, Function.update_of_ne hh]

theorem createListeningSocket_spec (account : Account p.log place)
    (free : ∀ fd, setup.socket = some fd → place fd = none) (built : setup.kqueue.isSome = true)
    (pooled : setup.threadPool = none) :
    (createListeningSocket setup p).1.disposition = p.disposition ∧
      ((∃ fd, setup.socket = some fd ∧ setup.lost = none ∧
          (createListeningSocket setup p).2 = .ok fd ∧
          Account (createListeningSocket setup p).1.log
            (Function.update place fd (some .listener))) ∨
        ∃ what, (createListeningSocket setup p).2 = .error what ∧
          Account (createListeningSocket setup p).1.log
            (fun fd => if setup.lost = some fd then some .lost else place fd)) := by
  unfold createListeningSocket
  cases hsocket : setup.socket with
  | none =>
      have hlost : setup.lost = none := by simp [Setup.lost, pooled, hsocket]
      refine ⟨rfl, .inr ⟨_, rfl, ?_⟩⟩
      simpa [hlost] using account
  | some fd =>
      have hfree := free fd hsocket
      have hout : Function.update place fd (some Place.listener) fd ≠ none := by simp
      have hclosed : ∀ {log : List SystemCall}, setup.lost = none →
          Account log (Function.update place fd (some Place.listener)) →
          Account (log ++ [.release fd])
            (fun h => if setup.lost = some h then some .lost else place h) := by
        intro log hlost h
        refine (h.release hout).move fun h' => ?_
        simpa [hlost] using update_none_iff hfree .listener h'
      have hopened := (account.acquire ((account.out fd).mpr hfree) Place.listener).use hout
      have hbound := (hopened.use hout).use hout
      simp only
      split_ifs with hreuse hbind hlisten hblock
      · exact ⟨rfl, .inr ⟨_, rfl, hclosed (by simp [Setup.lost, pooled, hreuse]) hopened⟩⟩
      · exact ⟨rfl, .inr ⟨_, rfl, hclosed (by simp [Setup.lost, pooled, hbind]) hbound⟩⟩
      · exact ⟨rfl, .inr ⟨_, rfl, hclosed (by simp [Setup.lost, pooled, hlisten]) (hbound.use hout)⟩⟩
      · have hlost : setup.lost = some fd := by
          simp [Setup.lost, pooled, built, hsocket, hblock, Bool.eq_true_of_not_eq_false hreuse,
            Bool.eq_true_of_not_eq_false hbind, Bool.eq_true_of_not_eq_false hlisten]
        refine ⟨rfl, .inr ⟨_, rfl, ((hbound.use hout).use hout).move fun h => ?_⟩⟩
        simp only [hlost, Option.some.injEq]
        by_cases hh : h = fd
        · simp [hh]
        · simp [hh, Ne.symm hh]
      · exact ⟨rfl, .inl ⟨fd, rfl, by simp [Setup.lost, pooled, hblock], rfl,
          (hbound.use hout).use hout⟩⟩

theorem setupSignalHandling_spec (setup : Setup) {kq : Nat} (account : Account p.log place)
    (out : place kq ≠ none) (signals : List Signal) :
    Account (setupSignalHandling setup kq signals p).1.log place ∧
      ((setupSignalHandling setup kq signals p).2 = .ok () →
        ∀ sig, (setupSignalHandling setup kq signals p).1.disposition sig =
          if sig ∈ signals then .ignored else p.disposition sig) := by
  induction signals generalizing p with
  | nil => exact ⟨account, fun _ _ => rfl⟩
  | cons sig rest ih =>
      unfold setupSignalHandling
      simp only
      split_ifs with hignore hobserve
      · exact ⟨account, fun h => by cases h⟩
      · exact ⟨account.use out, fun h => by cases h⟩
      · obtain ⟨haccount, hdisposition⟩ := ih (p := { p.logged [.use kq] with
          disposition := Function.update p.disposition sig .ignored }) (account.use out)
        refine ⟨haccount, fun hok other => ?_⟩
        rw [hdisposition hok other]
        by_cases hother : other = sig
        · simp [hother]
        · simp [hother]

def built (kq listenFd : Nat) : Nat → Option Place :=
  Function.update (Function.update (fun _ => none) kq (some .kqueue)) listenFd (some .listener)

theorem unwound {kq listenFd : Nat} {log : List SystemCall}
    (account : Account log (built kq listenFd)) (apart : kq ≠ listenFd) :
    Account (log ++ [.release listenFd] ++ [.release kq]) fun _ => (none : Option Place) := by
  have hlisten : built kq listenFd listenFd ≠ none := by simp [built]
  have hkq : Function.update (built kq listenFd) listenFd none kq ≠ none := by
    simp [built, apart]
  refine ((account.release hlisten).release hkq).move fun h => ?_
  by_cases hh : h = kq
  · simp [hh]
  · by_cases hh' : h = listenFd
    · simp [hh', apart.symm]
    · simp [built, hh, hh']

theorem setupReactor_spec {kq listenFd : Nat} {p p' : Process}
    (opened : createListeningSocket setup p = (p', .ok listenFd))
    (account : Account p'.log (built kq listenFd)) (apart : kq ≠ listenFd) :
    ∃ q result, setupReactor setup kq p = (q, result) ∧ Account q.log (built kq listenFd) ∧
      ((∃ what, result = .error (some listenFd, what)) ∨
        result = .ok listenFd ∧ ∀ sig, q.disposition sig = .ignored) := by
  have hkq : built kq listenFd kq ≠ none := by simp [built, apart]
  have hfd : built kq listenFd listenFd ≠ none := by simp [built]
  unfold setupReactor
  simp only [opened]
  by_cases hwake : setup.wakeChannel = false
  · rw [if_pos hwake]
    exact ⟨_, _, rfl, account.use hkq, .inl ⟨_, rfl⟩⟩
  · rw [if_neg hwake]
    have hsignals := setupSignalHandling_spec setup
      (p := ((p'.logged [.use kq]).logged [.use kq]).logged [.use listenFd])
      (((account.use hkq).use hkq).use hfd) hkq kShutdownSignals
    generalize setupSignalHandling setup kq kShutdownSignals
      (((p'.logged [.use kq]).logged [.use kq]).logged [.use listenFd]) = handled at hsignals ⊢
    obtain ⟨q, result⟩ := handled
    obtain ⟨haccount, hignored⟩ := hsignals
    cases result with
    | error what => exact ⟨_, _, rfl, haccount, .inl ⟨_, rfl⟩⟩
    | ok _ =>
        refine ⟨_, _, rfl, haccount, .inr ⟨rfl, fun sig => ?_⟩⟩
        have hsig := hignored rfl sig
        cases sig <;> simpa [kShutdownSignals] using hsig

def Constructed (setup : Setup) : Prop :=
  ∃ kq listenFd, setup.kqueue = some kq ∧ setup.socket = some listenFd ∧ setup.lost = none ∧
    (construct setup Process.new).2 = .ok (kq, listenFd) ∧
    Account (construct setup Process.new).1.log (built kq listenFd) ∧
    ∀ sig, (construct setup Process.new).1.disposition sig = .ignored

def Thrown (setup : Setup) : Prop :=
  ∃ what, (construct setup Process.new).2 = .error what ∧
    Account (construct setup Process.new).1.log
      (fun fd => if setup.lost = some fd then some Place.lost else none) ∧
    ∀ sig, (construct setup Process.new).1.disposition sig ≠ .ignored

theorem construct_unpooled {what : Bytes} (unpooled : setup.threadPool = some what) :
    Thrown setup := by
  have hlost : setup.lost = setup.kqueue := by simp [Setup.lost, unpooled]
  unfold Thrown construct
  simp only [unpooled, hlost]
  refine ⟨what, rfl, ?_, fun _ h => by cases h⟩
  cases setup.kqueue with
  | none =>
      change Account [] _
      simpa using Account.start
  | some kq =>
      refine (Account.start.acquire rfl Place.lost).move fun fd => ?_
      by_cases hfd : fd = kq
      · simp [hfd]
      · simp [hfd, Ne.symm hfd]

theorem construct_pooled (fresh : setup.Fresh) (pooled : setup.threadPool = none) :
    Constructed setup ∨ Thrown setup := by
  unfold Constructed Thrown construct
  simp only [pooled]
  cases hkqueue : setup.kqueue with
  | none =>
      refine .inr ⟨_, rfl, ?_, fun _ h => by cases h⟩
      have hlost : setup.lost = none := by simp [Setup.lost, hkqueue]
      change Account [] _
      simpa [hlost] using Account.start
  | some kq =>
      have hapart : ∀ fd, setup.socket = some fd → fd ≠ kq := by
        intro fd hsocket hsame
        exact fresh (by simp [hsocket]) (by rw [hsocket, hkqueue, hsame])
      have hstart : Account ((Process.new.logged [.acquire kq]).log)
          (Function.update (fun _ => none) kq (some Place.kqueue)) :=
        Account.start.acquire rfl Place.kqueue
      have hfree : ∀ fd, setup.socket = some fd →
          Function.update (fun _ => none) kq (some Place.kqueue) fd = none := by
        intro fd hsocket
        rw [Function.update_of_ne (hapart fd hsocket)]
      have hlisten := createListeningSocket_spec hstart hfree (by simp [hkqueue]) pooled
      simp only [Option.toList_some, List.map_singleton]
      cases hopened : createListeningSocket setup (Process.new.logged [.acquire kq]) with
      | mk p result =>
      rw [hopened] at hlisten
      obtain ⟨-, ⟨listenFd, hsocket, hlost, hok, haccount⟩ | ⟨what, herror, haccount⟩⟩ := hlisten
      · simp only at hok haccount
        subst hok
        obtain ⟨q, _, hreactor, haccount', ⟨what, rfl⟩ | ⟨rfl, hignored⟩⟩ :=
          setupReactor_spec hopened haccount (hapart listenFd hsocket).symm
        · rw [hreactor, hlost]
          exact .inr ⟨_, rfl, unwound haccount' (hapart listenFd hsocket).symm,
            fun _ h => by cases h⟩
        · rw [hreactor]
          exact .inl ⟨kq, listenFd, rfl, hsocket, hlost, rfl, haccount', hignored⟩
      · simp only at herror haccount
        subst herror
        have hkq : setup.lost ≠ some kq := by
          intro hlost
          simp only [Setup.lost, pooled, Option.isSome_none, Bool.false_eq_true, if_false] at hlost
          split_ifs at hlost
          exact hapart kq hlost rfl
        simp only [setupReactor, hopened]
        refine .inr ⟨_, rfl, ?_, fun _ h => by cases h⟩
        change Account (p.log ++ [] ++ [.release kq]) _
        rw [List.append_nil]
        refine (haccount.release (by simp [hkq])).move fun h => ?_
        by_cases hh : h = kq
        · simp [hh, hkq]
        · simp [hh]

theorem construct_spec (fresh : setup.Fresh) : Constructed setup ∨ Thrown setup := by
  cases hpool : setup.threadPool with
  | none => exact construct_pooled fresh hpool
  | some what => exact .inr (construct_unpooled hpool)

end Construction

def Stage.kqueueOpen : Stage → Bool
  | .running | .joining | .closing | .closingKqueue => true
  | _ => false

def Stage.listening : Stage → Bool
  | .running | .joining | .closing => true
  | _ => false

def Stage.joined : Stage → Bool
  | .closing | .closingKqueue | .destroyed => true
  | _ => false

def Lifetime.place (s : Lifetime) (fd : Nat) : Option Place :=
  if s.stage.kqueueOpen = true ∧ fd = s.kq then some .kqueue
  else if s.stage.listening = true ∧ fd = s.gateway.tables.listenFd then some .listener
  else if (s.gateway.tables.connections fd).isSome = true then some .client
  else if fd ∈ s.lost then some .lost
  else none

structure Descriptors (s : Lifetime) : Prop where
  account : Account s.process.log s.place
  apart : s.stage.listening = true → s.kq ≠ s.gateway.tables.listenFd
  clients : ∀ fd, (s.gateway.tables.connections fd).isSome = true →
    fd ∈ s.keys ∧ fd ≠ s.kq ∧ fd ≠ s.gateway.tables.listenFd
  lost : ∀ fd ∈ s.lost, s.gateway.tables.connections fd = none ∧
    (s.stage.kqueueOpen = true → fd ≠ s.kq) ∧
    (s.stage.listening = true → fd ≠ s.gateway.tables.listenFd)
  closed : s.stage.listening = false → ∀ fd, s.gateway.tables.connections fd = none

section Descriptors

variable {s s' : Lifetime} {order : IterationOrder Bytes Bytes}

theorem place_ne_none_iff (s : Lifetime) (fd : Nat) : s.place fd ≠ none ↔
    (s.stage.kqueueOpen = true ∧ fd = s.kq) ∨
      (s.stage.listening = true ∧ fd = s.gateway.tables.listenFd) ∨
      (s.gateway.tables.connections fd).isSome = true ∨ fd ∈ s.lost := by
  unfold Lifetime.place
  split_ifs <;> simp_all

theorem place_of_known (running : s.stage = .running) {fd : Nat}
    (known : Known s.kq s.gateway fd) : s.place fd ≠ none := by
  rw [place_ne_none_iff, running]
  rcases known with h | h | h
  · exact .inl ⟨rfl, h⟩
  · exact .inr (.inl ⟨rfl, h⟩)
  · exact .inr (.inr (.inl h))

theorem place_closed (inv : Descriptors s) {fd : Nat}
    (open_ : (s.gateway.tables.connections fd).isSome = true) (same : s'.stage = s.stage)
    (kq : s'.kq = s.kq) (listenFd : s'.gateway.tables.listenFd = s.gateway.tables.listenFd)
    (lost : s'.lost = s.lost)
    (gone : s'.gateway.tables.connections = Function.update s.gateway.tables.connections fd none) :
    s'.place = Function.update s.place fd none := by
  obtain ⟨-, hkq, hlisten⟩ := inv.clients fd open_
  have hlost : fd ∉ s.lost := by
    intro hmem
    rw [(inv.lost fd hmem).1] at open_
    cases open_
  funext h
  by_cases hh : h = fd
  · rw [hh, Function.update_self]
    simp [Lifetime.place, kq, listenFd, lost, gone, hkq, hlisten, hlost]
  · rw [Function.update_of_ne hh]
    simp only [Lifetime.place, same, kq, listenFd, lost, gone, Function.update_of_ne hh]

theorem Descriptors.fresh (inv : Descriptors s) {fd : Nat} {requestId : Bytes}
    {nonBlocking : Bool} (runs : s.runs (.accept (.client fd requestId nonBlocking)) = true) :
    s.stage = .running ∧ held s.process.log fd = none ∧ fd ≠ s.kq ∧
      fd ≠ s.gateway.tables.listenFd ∧ s.gateway.tables.connections fd = none ∧ fd ∉ s.lost := by
  obtain ⟨hrunning, hfree⟩ : s.stage = .running ∧ held s.process.log fd = none := by
    simpa [Lifetime.runs] using runs
  have hplace := (inv.account.out fd).mp hfree
  have hnone := (place_ne_none_iff s fd).not.mp (not_not.mpr hplace)
  rw [hrunning] at hnone
  simp only [Stage.kqueueOpen, Stage.listening, true_and, not_or,
    Option.not_isSome_iff_eq_none] at hnone
  exact ⟨hrunning, hfree, hnone⟩

theorem Descriptors.reactor (inv : Descriptors s) (running : s.stage = .running)
    (steady : Steady s.gateway) {e : Reactor.Event} (runs : s.runs e = true) {g : Gateway}
    (next : Reactor.step order s.gateway e = some g) :
    Descriptors { s.accepted e with
      gateway := g
      process := s.process.logged (stepCalls order s.kq s.gateway e) } := by
  obtain ⟨hlistenFd, heffect⟩ := effect_step s.kq steady next
  have hquiet : (∀ fd requestId nonBlocking, e ≠ .accept (.client fd requestId nonBlocking)) →
      s.accepted e = s := by
    intro hnone
    unfold Lifetime.accepted
    split
    · exact absurd rfl (hnone _ _ _)
    · exact absurd rfl (hnone _ _ _)
    · rfl
  have hopen : s.stage.kqueueOpen = true ∧ s.stage.listening = true := by
    rw [running]
    exact ⟨rfl, rfl⟩
  cases heffect with
  | used fds these known quiet same =>
      rw [hquiet quiet, these]
      have hplace : ({ s with
          gateway := g, process := s.process.logged (fds.map .use) } : Lifetime).place = s.place := by
        funext fd
        simp only [Lifetime.place, hlistenFd, same]
      refine ⟨?_, fun h => ?_, fun fd hfd => ?_, fun fd hfd => ?_, fun h => ?_⟩
      · rw [hplace]
        exact inv.account.uses fds fun fd hfd => place_of_known running (known fd hfd)
      · exact hlistenFd ▸ inv.apart h
      · exact hlistenFd ▸ inv.clients fd (same fd ▸ hfd)
      · obtain ⟨hnone, hkq, hlisten⟩ := inv.lost fd hfd
        refine ⟨?_, hkq, hlistenFd ▸ hlisten⟩
        rw [← Option.not_isSome_iff_eq_none, same, hnone]
        nofun
      · cases hopen.2.symm.trans h
  | closed fd fds these known open_ quiet gone =>
      rw [hquiet quiet, these]
      have hplace : ({ s with
          gateway := g, process := s.process.logged (fds.map .use ++ [.release fd]) } :
            Lifetime).place = Function.update s.place fd none :=
        place_closed inv open_ rfl rfl hlistenFd rfl gone
      have hbefore : ∀ fd', (g.tables.connections fd').isSome = true →
          (s.gateway.tables.connections fd').isSome = true := by
        intro fd' hfd
        rw [gone] at hfd
        by_cases h : fd' = fd
        · rw [h, Function.update_self] at hfd
          cases hfd
        · rwa [Function.update_of_ne h] at hfd
      refine ⟨?_, fun h => hlistenFd ▸ inv.apart h, fun fd' hfd => ?_, fun fd' hfd => ?_, fun h => ?_⟩
      · rw [hplace]
        change Account (s.process.log ++ (fds.map .use ++ [.release fd])) _
        rw [← List.append_assoc]
        refine Account.release (inv.account.uses fds fun fd' hfd => ?_) ?_
        · exact place_of_known running (known fd' hfd)
        · exact place_of_known running (.inr (.inr open_))
      · exact hlistenFd ▸ inv.clients fd' (hbefore fd' hfd)
      · obtain ⟨hnone, hkq, hlisten⟩ := inv.lost fd' hfd
        refine ⟨?_, hkq, hlistenFd ▸ hlisten⟩
        rw [← Option.not_isSome_iff_eq_none]
        intro hsome
        have hheld := hbefore fd' hsome
        rw [hnone] at hheld
        cases hheld
      · cases hopen.2.symm.trans h
  | accepted fd requestId conn event these new =>
      subst event
      obtain ⟨-, hfree, hkq, hlisten, hnone, hlost⟩ := inv.fresh runs
      rw [these]
      have hplace : ({ s.accepted (.accept (.client fd requestId true)) with
          gateway := g, process := s.process.logged [.use s.gateway.tables.listenFd, .acquire fd,
            .use fd, .use s.kq, .use fd] } : Lifetime).place =
          Function.update s.place fd (some .client) := by
        funext h
        by_cases hh : h = fd
        · rw [hh, Function.update_self]
          simp [Lifetime.place, Lifetime.accepted, hlistenFd, new, hkq, hlisten]
        · rw [Function.update_of_ne hh]
          simp only [Lifetime.place, hlistenFd, new, Function.update_of_ne hh]
          rfl
      have hclients : ∀ fd', (g.tables.connections fd').isSome = true →
          fd' = fd ∨ (s.gateway.tables.connections fd').isSome = true := by
        intro fd' hfd
        rw [new] at hfd
        by_cases h : fd' = fd
        · exact .inl h
        · rw [Function.update_of_ne h] at hfd
          exact .inr hfd
      refine ⟨?_, fun h => hlistenFd ▸ inv.apart h, fun fd' hfd => ?_, fun fd' hfd => ?_, fun h => ?_⟩
      · rw [hplace]
        have hacquired := (inv.account.use (place_of_known running (.inr (.inl rfl)))).acquire
          (h := fd) (by rw [held_use]; exact hfree) Place.client
        have hkqueue : Function.update s.place fd (some Place.client) s.kq ≠ none := by
          rw [Function.update_of_ne hkq.symm]
          exact place_of_known running (.inl rfl)
        have hused := hacquired.uses [fd, s.kq, fd] fun h hh => by
          rcases List.mem_cons.mp hh with rfl | hh
          · simp
          · rcases List.mem_cons.mp hh with rfl | hh
            · exact hkqueue
            · rw [List.mem_singleton.mp hh]
              simp
        simpa [Process.logged, Lifetime.accepted] using hused
      · change fd' ∈ s.keys ++ [fd] ∧ fd' ≠ s.kq ∧ fd' ≠ g.tables.listenFd
        rw [hlistenFd]
        rcases hclients fd' hfd with rfl | hold
        · exact ⟨by simp, hkq, hlisten⟩
        · obtain ⟨hkey, hrest⟩ := inv.clients fd' hold
          exact ⟨List.mem_append_left _ hkey, hrest⟩
      · obtain ⟨hgone, hkq', hlisten'⟩ := inv.lost fd' hfd
        refine ⟨?_, hkq', hlistenFd ▸ hlisten'⟩
        change g.tables.connections fd' = none
        rw [new, Function.update_of_ne (ne_of_mem_of_not_mem hfd hlost)]
        exact hgone
      · cases hopen.2.symm.trans h
  | leaked fd requestId event these thrown =>
      subst event thrown
      obtain ⟨-, hfree, hkq, hlisten, hnone, hlost⟩ := inv.fresh runs
      rw [these]
      have hplace : ({ s.accepted (.accept (.client fd requestId false)) with
          gateway := s.gateway.goto .thrown, process := s.process.logged
            [.use s.gateway.tables.listenFd, .acquire fd, .use fd] } : Lifetime).place =
          Function.update s.place fd (some .lost) := by
        funext h
        by_cases hh : h = fd
        · rw [hh, Function.update_self]
          simp [Lifetime.place, Lifetime.accepted, Gateway.goto, hkq, hlisten, hnone]
        · rw [Function.update_of_ne hh]
          simp [Lifetime.place, Lifetime.accepted, Gateway.goto, hh]
      refine ⟨?_, inv.apart, inv.clients, fun fd' hfd => ?_, fun h => ?_⟩
      · rw [hplace]
        have hacquired := (inv.account.use (place_of_known running (.inr (.inl rfl)))).acquire
          (h := fd) (by rw [held_use]; exact hfree) Place.lost
        have hused := hacquired.use (h := fd) (by simp)
        simpa [Process.logged, Lifetime.accepted] using hused
      · rcases List.mem_append.mp hfd with hold | hnew
        · exact inv.lost fd' hold
        · rw [List.mem_singleton.mp hnew]
          exact ⟨hnone, fun _ => hkq, fun _ => hlisten⟩
      · cases hopen.2.symm.trans h

structure Untouched (s s' : Lifetime) : Prop where
  kq : s'.kq = s.kq
  kqueueOpen : s'.stage.kqueueOpen = s.stage.kqueueOpen
  listening : s'.stage.listening = s.stage.listening
  listenFd : s'.gateway.tables.listenFd = s.gateway.tables.listenFd
  connections : s'.gateway.tables.connections = s.gateway.tables.connections
  keys : s'.keys = s.keys
  lost : s'.lost = s.lost

theorem Descriptors.keep (inv : Descriptors s) (same : Untouched s s') (fds : List Nat)
    (log : s'.process.log = s.process.log ++ fds.map .use) (out : ∀ fd ∈ fds, s.place fd ≠ none) :
    Descriptors s' := by
  have hplace : s'.place = s.place := by
    funext fd
    simp only [Lifetime.place, same.kq, same.kqueueOpen, same.listening, same.listenFd,
      same.connections, same.lost]
  refine ⟨?_, ?_, ?_, ?_, ?_⟩
  · rw [log, hplace]
    exact inv.account.uses fds out
  · rw [same.kq, same.listening, same.listenFd]
    exact inv.apart
  · rw [same.kq, same.listenFd, same.connections, same.keys]
    exact inv.clients
  · rw [same.kq, same.kqueueOpen, same.listening, same.listenFd, same.connections, same.lost]
    exact inv.lost
  · rw [same.listening, same.connections]
    exact inv.closed

theorem Descriptors.closeConnection (inv : Descriptors s) (closing : s.stage = .closing) {fd : Nat}
    (held : (s.gateway.tables.connections fd).isSome = true) :
    Descriptors (s.closeConnection fd) := by
  have hold : ∀ fd', (Function.update s.gateway.tables.connections fd none fd').isSome = true →
      (s.gateway.tables.connections fd').isSome = true := by
    intro fd' hfd
    by_cases h : fd' = fd
    · rw [h, Function.update_self] at hfd
      cases hfd
    · rwa [Function.update_of_ne h] at hfd
  have hplace : (s.closeConnection fd).place = Function.update s.place fd none :=
    place_closed inv held rfl rfl rfl rfl rfl
  refine ⟨?_, inv.apart, fun fd' hfd => inv.clients fd' (hold fd' hfd), fun fd' hfd => ?_,
    fun h => ?_⟩
  · rw [hplace]
    exact inv.account.release ((place_ne_none_iff s fd).mpr (.inr (.inr (.inl held))))
  · obtain ⟨hnone, hrest⟩ := inv.lost fd' hfd
    refine ⟨?_, hrest⟩
    change Function.update s.gateway.tables.connections fd none fd' = none
    rw [← Option.not_isSome_iff_eq_none]
    intro hsome
    have hheld := hold fd' hsome
    rw [hnone] at hheld
    cases hheld
  · change s.stage.listening = false at h
    rw [closing] at h
    cases h

theorem Descriptors.closeListener (inv : Descriptors s) (closing : s.stage = .closing)
    (emptied : ∀ fd ∈ s.keys, s.gateway.tables.connections fd = none) :
    Descriptors s.closeListener := by
  have hopen : s.stage.kqueueOpen = true ∧ s.stage.listening = true := by
    rw [closing]
    exact ⟨rfl, rfl⟩
  have hnone : ∀ fd, s.gateway.tables.connections fd = none := by
    intro fd
    rw [← Option.not_isSome_iff_eq_none]
    intro hsome
    rw [emptied fd (inv.clients fd hsome).1] at hsome
    cases hsome
  have hplace : s.closeListener.place =
      Function.update s.place s.gateway.tables.listenFd none := by
    funext fd
    by_cases hfd : fd = s.gateway.tables.listenFd
    · have hlost : s.gateway.tables.listenFd ∉ s.lost :=
        fun hmem => (inv.lost _ hmem).2.2 hopen.2 rfl
      rw [hfd, Function.update_self]
      simp [Lifetime.place, Lifetime.closeListener, Stage.listening, hnone, hlost,
        (inv.apart hopen.2).symm]
    · rw [Function.update_of_ne hfd]
      simp only [Lifetime.place, Lifetime.closeListener, closing, Stage.kqueueOpen,
        Stage.listening, hfd, and_false, if_false, Bool.false_eq_true]
      rfl
  refine ⟨?_, by nofun, inv.clients, fun fd hfd => ?_, fun _ => hnone⟩
  · rw [hplace]
    exact inv.account.release ((place_ne_none_iff s _).mpr (.inr (.inl ⟨hopen.2, rfl⟩)))
  · obtain ⟨hgone, hkq, -⟩ := inv.lost fd hfd
    exact ⟨hgone, fun _ => hkq hopen.1, by nofun⟩

theorem Descriptors.closeKqueue (inv : Descriptors s) (closing : s.stage = .closingKqueue) :
    Descriptors s.closeKqueue := by
  have hopen : s.stage.kqueueOpen = true ∧ s.stage.listening = false := by
    rw [closing]
    exact ⟨rfl, rfl⟩
  have hnone := inv.closed hopen.2
  have hplace : s.closeKqueue.place = Function.update s.place s.kq none := by
    funext fd
    by_cases hfd : fd = s.kq
    · have hlost : s.kq ∉ s.lost := fun hmem => (inv.lost _ hmem).2.1 hopen.1 rfl
      rw [hfd, Function.update_self]
      simp [Lifetime.place, Lifetime.closeKqueue, Stage.kqueueOpen, Stage.listening, hnone, hlost]
    · rw [Function.update_of_ne hfd]
      simp only [Lifetime.place, Lifetime.closeKqueue, closing, Stage.kqueueOpen, Stage.listening,
        hfd, and_false, if_false, Bool.false_eq_true, false_and]
      rfl
  refine ⟨?_, by nofun, inv.clients, fun fd hfd => ⟨(inv.lost fd hfd).1, by nofun, by nofun⟩,
    fun _ => hnone⟩
  rw [hplace]
  exact inv.account.release ((place_ne_none_iff s _).mpr (.inl ⟨hopen.1, rfl⟩))

theorem construct_cases (threadPoolSize : Nat) {setup : Setup} (fresh : setup.Fresh) :
    (∃ p kq listenFd, (Lifetime.new threadPoolSize).construct setup =
        { Lifetime.new threadPoolSize with
          process := p, stage := .running, kq := kq, gateway := .init listenFd } ∧
      setup.lost = none ∧ kq ≠ listenFd ∧ Account p.log (built kq listenFd) ∧
      ∀ sig, p.disposition sig = .ignored) ∨
    ∃ p what, (Lifetime.new threadPoolSize).construct setup =
        { Lifetime.new threadPoolSize with
          process := p, stage := .failed what, lost := setup.lost.toList } ∧
      Account p.log (fun fd => if setup.lost = some fd then some Place.lost else none) ∧
      ∀ sig, p.disposition sig ≠ .ignored := by
  have hspec := construct_spec fresh
  unfold Constructed Thrown at hspec
  unfold Lifetime.construct
  rw [show (Lifetime.new threadPoolSize).process = Process.new from rfl]
  generalize GatewayLifetime.construct setup Process.new = constructed at hspec ⊢
  obtain ⟨p, result⟩ := constructed
  obtain ⟨kq, listenFd, hkqueue, hsocket, hlost, hok, haccount, hignored⟩ |
    ⟨what, herror, haccount, hsignals⟩ := hspec
  · simp only at hok
    subst hok
    refine .inl ⟨p, kq, listenFd, rfl, hlost, ?_, haccount, hignored⟩
    intro hsame
    exact fresh (by simp [hsocket]) (by rw [hsocket, hkqueue, hsame])
  · simp only at herror
    subst herror
    exact .inr ⟨p, what, rfl, haccount, hsignals⟩

theorem Descriptors.construct (threadPoolSize : Nat) {setup : Setup} (fresh : setup.Fresh) :
    Descriptors ((Lifetime.new threadPoolSize).construct setup) := by
  rcases construct_cases threadPoolSize fresh with
    ⟨p, kq, listenFd, hconstruct, -, hapart, haccount, -⟩ | ⟨p, what, hconstruct, haccount, -⟩
  · rw [hconstruct]
    refine ⟨haccount.move fun fd => ?_, fun _ => hapart, by intros; contradiction,
      by intros; contradiction, by intros; contradiction⟩
    by_cases hkq : fd = kq
    · simp [Lifetime.place, built, Stage.kqueueOpen, hkq, hapart]
    · by_cases hlisten : fd = listenFd
      · simp [Lifetime.place, built, Stage.kqueueOpen, Stage.listening, hlisten, hapart.symm,
          Gateway.init]
      · simp [Lifetime.place, built, Stage.kqueueOpen, Stage.listening, hkq, hlisten,
          Gateway.init, Lifetime.new]
  · rw [hconstruct]
    refine ⟨haccount.move fun fd => ?_, by intros; contradiction, by intros; contradiction,
      fun _ _ => ⟨rfl, by intros; contradiction, by intros; contradiction⟩, fun _ _ => rfl⟩
    by_cases hlost : setup.lost = some fd
    · simp [Lifetime.place, Stage.kqueueOpen, Stage.listening, Lifetime.new, Gateway.init, hlost]
    · simp [Lifetime.place, Stage.kqueueOpen, Stage.listening, Lifetime.new, Gateway.init, hlost]

end Descriptors

end ApiGateway.GatewayLifetime
