import ApiGateway.RequestReading
import ApiGateway.ResponseBuilding
import ApiGateway.StepRuns

/-! The reactor of `ApiGateway.cpp` and its worker threads. The reactor is cut
at each system call and at each pass of its loops, a worker where it takes a
task and where it pushes the result. What the kernel answers, and what a task
comes to, is part of the event. Accepted connections are numbered; neither the
numbers nor the history are in the program. -/

namespace ApiGateway.Reactor
open ByteText ChunkedReading RequestParsing RequestReading ResponseBuilding

def kMaxEventsPerPoll : Nat := 256

inductive Filter where
  | read
  | write
  deriving DecidableEq

inductive KEvent where
  | user
  | signal (signalNumber : Nat)
  | ready (fd : Nat) (filter : Filter)
  deriving DecidableEq

structure Connection extends RequestReading.Connection where
  fd : Nat
  writeBuffer : Bytes
  writeOffset : Nat
  awaitingCompletion : Bool
  serial : Nat

structure Task where
  fd : Nat
  dispatch : Dispatch
  serial : Nat

structure CompletionResult where
  fd : Nat
  responseBytes : Bytes
  serial : Nat

/-- What has happened to the accepted connections, by number. A delivered result
stands with the connection that got it. -/
structure History where
  accepted : Nat
  dispatched : List Nat
  completed : List Nat
  delivered : List (Nat × Option Nat)
  responses : Nat → List Bytes
  sent : Nat → Bytes

/-- All that the handlers and the workers act on; `working` are the tasks that
workers have taken. -/
structure Tables where
  listenFd : Nat
  armed : Nat → Filter → Bool
  connections : Nat → Option Connection
  tasks : List Task
  working : List Task
  completionQueue : List CompletionResult
  history : History

inductive Control where
  | poll
  | waiting
  | batch
  | accepting
  | reading (fd : Nat)
  | writing (fd : Nat)
  /-- `last` after a batch, else in it -/
  | draining (last : Bool)
  | returned
  /-- an exception has left `run` -/
  | thrown
  deriving DecidableEq

structure Gateway where
  tables : Tables
  running : Bool
  control : Control
  /-- the rest of the batch -/
  events : List KEvent

def Tables.registerEvent (t : Tables) (fd : Nat) (filter : Filter) (on : Bool) : Tables :=
  { t with armed := Function.update t.armed fd (Function.update (t.armed fd) filter on) }

def Tables.setConnection (t : Tables) (fd : Nat) (conn : Connection) : Tables :=
  { t with connections := Function.update t.connections fd (some conn) }

/-- The number is free in the kernel from here on. -/
def Tables.closeConnection (t : Tables) (fd : Nat) : Tables :=
  let t := (t.registerEvent fd .read false).registerEvent fd .write false
  { t with connections := Function.update t.connections fd none }

def History.respond (h : History) (serial : Nat) (bytes : Bytes) : History :=
  { h with responses := Function.update h.responses serial (h.responses serial ++ [bytes]) }

def Tables.onAccepted (t : Tables) (clientFd : Nat) (requestId : Bytes) : Tables :=
  let conn : Connection := ⟨.fresh requestId, clientFd, [], 0, false, t.history.accepted⟩
  let t := (t.setConnection clientFd conn).registerEvent clientFd .read true
  { t with history := { t.history with accepted := t.history.accepted + 1 } }

def Tables.dispatchToThreadPool (t : Tables) (fd serial : Nat) (dispatch : Dispatch) : Tables :=
  { t with
    tasks := t.tasks ++ [⟨fd, dispatch, serial⟩]
    history := { t.history with dispatched := t.history.dispatched ++ [serial] } }

def Tables.rejectRequest (t : Tables) (fd : Nat) (conn : Connection) (rejection : Rejection) :
    Except HttpText.InvalidArgument Tables := do
  let response ← textResponse rejection.statusCode rejection.statusText rejection.body
  let t := t.setConnection fd { conn with writeBuffer := response.toBytes, writeOffset := 0 }
  let t := (t.registerEvent conn.fd .read false).registerEvent conn.fd .write true
  return { t with history := t.history.respond conn.serial response.toBytes }

/-- The connection as the gate leaves it, also when it throws. -/
def gated (conn : RequestReading.Connection) : RequestReading.Connection :=
  match hasEnoughBytesToParse conn with
  | .error _ => { conn with headerScanOffset := conn.readBuffer.length }
  | .ok (scanned, _) => scanned

/-- One chunk in the loop of `onConnectionReadable`. -/
def Tables.onReceived (order : IterationOrder Bytes Bytes) (t : Tables) (fd : Nat)
    (conn : Connection) (chunk : Bytes) : Tables × Control :=
  match onChunk order conn.toConnection chunk with
  | .stop (.dispatch dispatch) =>
      let t := t.setConnection fd { conn with readBuffer := [], awaitingCompletion := true }
      ((t.registerEvent fd .read false).dispatchToThreadPool fd conn.serial dispatch, .batch)
  | .stop (.reject rejection) =>
      let received := { conn with
        toConnection := gated { conn.toConnection with readBuffer := conn.readBuffer ++ chunk } }
      match t.rejectRequest fd received rejection with
      | .error _ => (t.setConnection fd received, .thrown)
      | .ok t => (t, .batch)
  | .more reading =>
      (t.setConnection fd { conn with toConnection := reading },
        if chunk.length < kReadChunkSize then .batch else .reading fd)

theorem rejection_answered {order : IterationOrder Bytes Bytes} {conn : RequestReading.Connection}
    {chunk : Bytes} {rejection : Rejection}
    (h : onChunk order conn chunk = .stop (.reject rejection)) :
    ∃ response, textResponse rejection.statusCode rejection.statusText rejection.body =
      .ok response := by
  have hrejected : ∀ ex ∈ [requestLineTooLong, headerSectionTooLarge, bodyTooLarge],
      100 ≤ ex.status ∧ ex.status ≤ 599 ∧ isValidHeaderValue ex.phrase = true := by
    decide
  have hmalformed : 100 ≤ 400 ∧ 400 ≤ 599 ∧ isValidHeaderValue (ascii "Bad Request") = true := by
    decide
  have hallowed : 100 ≤ rejection.statusCode ∧ rejection.statusCode ≤ 599 ∧
      isValidHeaderValue rejection.statusText = true := by
    unfold onChunk at h
    simp only at h
    split at h
    · next ex hgate =>
      cases h
      refine hrejected ex ?_
      cases hasEnoughBytesToParse_rejected hgate with
      | inl hline => simp [hline]
      | inr hsection => simp [hsection]
    · cases h
    · split at h
      · next ex hparse =>
        cases h
        cases ex with
        | requestRejected ex => exact hrejected ex (tryParseRequest_rejected hparse)
        | invalidArgument ex => exact hmalformed
      · cases h
      · split_ifs at h
  exact ⟨_, textResponse_ok hallowed.1 hallowed.2.1 hallowed.2.2 rejection.body⟩

/-- One result in the loop of `drainCompletionQueue`. -/
def Tables.deliver (t : Tables) (result : CompletionResult) : Tables :=
  match t.connections result.fd with
  | none =>
      { t with history := { t.history with
          delivered := t.history.delivered ++ [(result.serial, none)] } }
  | some conn =>
      let t := t.setConnection result.fd
        { conn with
          writeBuffer := result.responseBytes
          writeOffset := 0
          awaitingCompletion := false }
      let t := t.registerEvent result.fd .write true
      { t with history :=
          { t.history.respond conn.serial result.responseBytes with
            delivered := t.history.delivered ++ [(result.serial, some conn.serial)] } }

/-- One `send` in the loop of `onConnectionWritable`. -/
def Tables.onSent (t : Tables) (fd : Nat) (conn : Connection) (count : Nat) : Tables :=
  let t := t.setConnection fd { conn with writeOffset := conn.writeOffset + count }
  { t with history := { t.history with
      sent := Function.update t.history.sent conn.serial
        (t.history.sent conn.serial ++ (conn.writeBuffer.drop conn.writeOffset).take count) } }

inductive Outcome where
  | responded (responseBytes : Bytes)
  /-- an exception; `built` if the last-resort response could be made -/
  | threw (built : Bool)

/-- `internalError` of `dispatchToThreadPool` -/
def internalError (built : Bool) : Bytes :=
  if built then
    match textResponse 500 (ascii "Internal Server Error") (ascii "Internal server error") with
    | .ok response => response.toBytes
    | .error _ => []
  else []

def Outcome.responseBytes : Outcome → Bytes
  | .responded responseBytes => responseBytes
  | .threw built => internalError built

def Tables.take (t : Tables) : Option Tables :=
  match t.tasks with
  | [] => none
  | task :: rest => some { t with tasks := rest, working := t.working ++ [task] }

/-- The worker with the task at place `k` pushes its result. -/
def Tables.finish (t : Tables) (k : Nat) (outcome : Outcome) : Option Tables :=
  match t.working[k]? with
  | none => none
  | some task =>
      some { t with
        working := t.working.eraseIdx k
        completionQueue :=
          t.completionQueue ++ [⟨task.fd, outcome.responseBytes, task.serial⟩]
        history := { t.history with completed := t.history.completed ++ [task.serial] } }

inductive Recv where
  | bytes (chunk : Bytes)
  | endOfStream
  | wouldBlock
  | interrupted
  | failed

inductive Send where
  | bytes (count : Nat)
  | wouldBlock
  | interrupted
  /-- also a count of zero -/
  | failed

inductive Accept where
  /-- `fcntl` may fail on the new socket -/
  | client (clientFd : Nat) (requestId : Bytes) (nonBlocking : Bool)
  | failed

inductive Event where
  | kevent (events : List KEvent)
  | keventError (interrupted : Bool)
  /-- the reactor goes on without a system call that can fail -/
  | advance
  | accept (result : Accept)
  | recv (result : Recv)
  | send (result : Send)
  | take
  | finish (k : Nat) (outcome : Outcome)
  | stop

/-- A filter that fires is armed. -/
def Tables.canReport (t : Tables) : KEvent → Bool
  | .ready fd filter => t.armed fd filter
  | _ => true

/-- None fires twice in a batch. -/
def Tables.CanReturn (t : Tables) (events : List KEvent) : Prop :=
  events.length ≤ kMaxEventsPerPoll ∧ events.Nodup ∧ ∀ event ∈ events, t.canReport event = true

instance (t : Tables) (events : List KEvent) : Decidable (t.CanReturn events) :=
  inferInstanceAs (Decidable (_ ∧ _ ∧ _))

def Gateway.goto (g : Gateway) (control : Control) : Gateway := { g with control := control }

def Gateway.close (g : Gateway) (fd : Nat) : Gateway :=
  { g with tables := g.tables.closeConnection fd, control := .batch }

def Gateway.onEvent (g : Gateway) : KEvent → Gateway
  | .user => g.goto (.draining false)
  | .signal _ => { g with running := false }
  | .ready fd filter =>
      if fd = g.tables.listenFd ∧ filter = .read then g.goto .accepting
      else
        match filter, g.tables.connections fd with
        | _, none => g
        | .read, some conn => if conn.awaitingCompletion then g else g.goto (.reading fd)
        | .write, some _ => g.goto (.writing fd)

def Gateway.advance (g : Gateway) : Option Gateway :=
  match g.control with
  | .poll => some (g.goto (if g.running then .waiting else .returned))
  | .batch =>
      match g.events with
      | [] => some (g.goto (.draining true))
      | event :: rest => some ({ g with events := rest }.onEvent event)
  | .writing fd =>
      (g.tables.connections fd).bind fun conn =>
        if conn.writeOffset < conn.writeBuffer.length then none else some (g.close fd)
  | .draining last =>
      match g.tables.completionQueue with
      | [] => some (g.goto (if last then .poll else .batch))
      | result :: rest =>
          some { g with tables := { g.tables with completionQueue := rest }.deliver result }
  | _ => none

def Gateway.onAccept (g : Gateway) : Accept → Option Gateway
  | .failed => some (g.goto .batch)
  | .client clientFd requestId nonBlocking =>
      if clientFd = g.tables.listenFd ∨ (g.tables.connections clientFd).isSome then none
      else if nonBlocking then
        some { g with tables := g.tables.onAccepted clientFd requestId }
      else some (g.goto .thrown)

def Gateway.onRecv (order : IterationOrder Bytes Bytes) (g : Gateway) (fd : Nat)
    (conn : Connection) : Recv → Option Gateway
  | .bytes chunk =>
      if chunk = [] ∨ chunk.length > kReadChunkSize then none
      else
        let (tables, control) := g.tables.onReceived order fd conn chunk
        some { g with tables := tables, control := control }
  | .endOfStream => some (g.close fd)
  | .wouldBlock => some (g.goto .batch)
  | .interrupted => some g
  | .failed => some (g.close fd)

def Gateway.onSend (g : Gateway) (fd : Nat) (conn : Connection) : Send → Option Gateway
  | .bytes count =>
      if count = 0 ∨ conn.writeOffset + count > conn.writeBuffer.length then none
      else some { g with tables := g.tables.onSent fd conn count }
  | .wouldBlock => some (g.goto .batch)
  | .interrupted => some g
  | .failed => some (g.close fd)

def step (order : IterationOrder Bytes Bytes) (g : Gateway) : Event → Option Gateway
  | .kevent events =>
      if g.control = .waiting ∧ g.tables.CanReturn events then
        some { g with events := events, control := .batch }
      else none
  | .keventError interrupted =>
      if g.control = .waiting then some (g.goto (if interrupted then .poll else .thrown)) else none
  | .advance => g.advance
  | .accept result => if g.control = .accepting then g.onAccept result else none
  | .recv result =>
      match g.control with
      | .reading fd => (g.tables.connections fd).bind fun conn => g.onRecv order fd conn result
      | _ => none
  | .send result =>
      match g.control with
      | .writing fd =>
          (g.tables.connections fd).bind fun conn =>
            if conn.writeOffset < conn.writeBuffer.length then g.onSend fd conn result else none
      | _ => none
  | .take => g.tables.take.map fun tables => { g with tables := tables }
  | .finish k outcome => (g.tables.finish k outcome).map fun tables => { g with tables := tables }
  | .stop => some { g with running := false }

/-- The ways in which the reactor goes on by itself. -/
inductive Advanced (g : Gateway) : Gateway → Prop where
  | poll (control : g.control = .poll) :
      Advanced g (g.goto (if g.running then .waiting else .returned))
  | lastDrain (control : g.control = .batch) (events : g.events = []) :
      Advanced g (g.goto (.draining true))
  | event {event : KEvent} {rest : List KEvent} (control : g.control = .batch)
      (events : g.events = event :: rest) : Advanced g ({ g with events := rest }.onEvent event)
  | written {fd : Nat} {conn : Connection} (control : g.control = .writing fd)
      (held : g.tables.connections fd = some conn)
      (all : conn.writeBuffer.length ≤ conn.writeOffset) : Advanced g (g.close fd)
  | drained {last : Bool} (control : g.control = .draining last)
      (queue : g.tables.completionQueue = []) :
      Advanced g (g.goto (if last then .poll else .batch))
  | delivered {last : Bool} {result : CompletionResult} {rest : List CompletionResult}
      (control : g.control = .draining last)
      (queue : g.tables.completionQueue = result :: rest) :
      Advanced g { g with tables := { g.tables with completionQueue := rest }.deliver result }

theorem advanced_of_advance {g g' : Gateway} (next : g.advance = some g') : Advanced g g' := by
  unfold Gateway.advance at next
  split at next
  next hpoll =>
    cases next
    exact .poll hpoll
  next hbatch =>
    split at next
    next hevents =>
      cases next
      exact .lastDrain hbatch hevents
    next event rest hevents =>
      cases next
      exact .event hbatch hevents
  next fd hwriting =>
    obtain ⟨conn, hheld, hnext⟩ := Option.bind_eq_some_iff.mp next
    split_ifs at hnext with hmore
    cases hnext
    exact .written hwriting hheld (Nat.not_lt.mp hmore)
  next last hdraining =>
    split at next
    next hqueue =>
      cases next
      exact .drained hdraining hqueue
    next result rest hqueue =>
      cases next
      exact .delivered hdraining hqueue
  · cases next

inductive Stepped (order : IterationOrder Bytes Bytes) (g : Gateway) : Event → Gateway → Prop where
  | kevent {events : List KEvent} (control : g.control = .waiting)
      (returns : g.tables.CanReturn events) :
      Stepped order g (.kevent events) { g with events := events, control := .batch }
  | keventError {interrupted : Bool} (control : g.control = .waiting) :
      Stepped order g (.keventError interrupted) (g.goto (if interrupted then .poll else .thrown))
  | advance {g' : Gateway} (advanced : Advanced g g') : Stepped order g .advance g'
  | accept {result : Accept} {g' : Gateway} (control : g.control = .accepting)
      (next : g.onAccept result = some g') : Stepped order g (.accept result) g'
  | recv {result : Recv} {g' : Gateway} {fd : Nat} {conn : Connection}
      (control : g.control = .reading fd) (held : g.tables.connections fd = some conn)
      (next : g.onRecv order fd conn result = some g') : Stepped order g (.recv result) g'
  | send {result : Send} {g' : Gateway} {fd : Nat} {conn : Connection}
      (control : g.control = .writing fd) (held : g.tables.connections fd = some conn)
      (more : conn.writeOffset < conn.writeBuffer.length)
      (next : g.onSend fd conn result = some g') : Stepped order g (.send result) g'
  | take {t : Tables} (next : g.tables.take = some t) :
      Stepped order g .take { g with tables := t }
  | finish {k : Nat} {outcome : Outcome} {t : Tables}
      (next : g.tables.finish k outcome = some t) :
      Stepped order g (.finish k outcome) { g with tables := t }
  | stop : Stepped order g .stop { g with running := false }

theorem stepped_of_step {order : IterationOrder Bytes Bytes} {g g' : Gateway} {e : Event}
    (next : step order g e = some g') : Stepped order g e g' := by
  unfold step at next
  cases e with
  | kevent events =>
      simp only at next
      split_ifs at next with hready
      cases next
      exact .kevent hready.1 hready.2
  | keventError interrupted =>
      simp only at next
      split at next
      next hwaiting =>
        cases next
        exact .keventError hwaiting
      · cases next
  | advance => exact .advance (advanced_of_advance next)
  | accept result =>
      simp only at next
      split_ifs at next with haccepting
      exact .accept haccepting next
  | recv result =>
      simp only at next
      split at next
      next fd hreading =>
        obtain ⟨conn, hheld, hnext⟩ := Option.bind_eq_some_iff.mp next
        exact .recv hreading hheld hnext
      · cases next
  | send result =>
      simp only at next
      split at next
      next fd hwriting =>
        obtain ⟨conn, hheld, hnext⟩ := Option.bind_eq_some_iff.mp next
        split_ifs at hnext with hmore
        exact .send hwriting hheld hmore hnext
      · cases next
  | take =>
      obtain ⟨t, htake, rfl⟩ := Option.map_eq_some_iff.mp next
      exact .take htake
  | finish k outcome =>
      obtain ⟨t, hfinish, rfl⟩ := Option.map_eq_some_iff.mp next
      exact .finish hfinish
  | stop =>
      cases next
      exact .stop

/-- The gateway when `run` has stored `running_`, which undoes a `stop` that came before. -/
def Gateway.init (listenFd : Nat) : Gateway where
  tables :=
    { listenFd := listenFd
      armed := fun fd filter => fd = listenFd ∧ filter = .read
      connections := fun _ => none
      tasks := []
      working := []
      completionQueue := []
      history := ⟨0, [], [], [], fun _ => [], fun _ => []⟩ }
  running := true
  control := .poll
  events := []

def Tables.work (t : Tables) : List (Nat × Nat) :=
  t.tasks.map (fun task => (task.fd, task.serial)) ++
    (t.working.map (fun task => (task.fd, task.serial)) ++
      t.completionQueue.map fun result => (result.fd, result.serial))

def Tables.workOn (t : Tables) (fd : Nat) : Nat := (t.work.map Prod.fst).count fd

inductive Phase where
  | reading
  | inFlight
  | writing
  deriving DecidableEq

def Tables.InPhase (t : Tables) (fd : Nat) (conn : Connection) : Phase → Prop
  | .reading => t.armed fd .read = true ∧ t.armed fd .write = false ∧
      conn.awaitingCompletion = false ∧ t.workOn fd = 0
  | .inFlight => t.armed fd .read = false ∧ t.armed fd .write = false ∧
      conn.awaitingCompletion = true ∧ t.workOn fd = 1
  | .writing => t.armed fd .read = false ∧ t.armed fd .write = true ∧
      conn.awaitingCompletion = false ∧ t.workOn fd = 0

end ApiGateway.Reactor
