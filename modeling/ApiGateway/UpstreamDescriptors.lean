import ApiGateway.ProxyForwarding
import ApiGateway.ResourceLogs

/-! Who has an upstream descriptor, while any number of `forward` calls share the pool.
A call is cut at each of its system calls and at its two calls of the pool, and a system
call may have any result. The log holds the system calls on upstream descriptors. -/

namespace ApiGateway.UpstreamDescriptors
open ByteText HttpText UpstreamClient ConnectionPooling ResourceLogs RequestForwarding
open ProxyForwarding (badGateway gatewayTimeout upstreamKeepAlive)
open ResponseForwarding (responseText)
open RequestReading (HttpRequest)

/-- The address a socket was connected to, and whether the connection came about. -/
structure Peer where
  target : RouteTrie.ProxyTarget
  established : Bool
  deriving DecidableEq

abbrev SystemCall := Operation Nat Peer

inductive Point where
  | connect | pollConnect | getsockopt | send | pollSend | recv | pollReceive | release
  | returned (response : Bytes)
  deriving DecidableEq

structure Call where
  target : RouteTrie.ProxyTarget
  request : HttpRequest
  client : HttpClient
  point : Point

structure World where
  pool : ConnectionPool
  hosts : List Bytes
  calls : Nat → Option Call
  log : List SystemCall

inductive PollResult where
  | ready | timedOut | interrupted | failed
  deriving DecidableEq

inductive SendResult where
  | sent (count : Nat)
  | wouldBlock | interrupted | failed
  deriving DecidableEq

inductive Event where
  /-- `forward` begins and leases; `isHealthy` is what the probes find -/
  | lease (i : Nat) (target : RouteTrie.ProxyTarget) (request : HttpRequest)
      (isHealthy : Nat → Bool)
  /-- what `socket` gives, and whether `connect` succeeds or is in progress -/
  | connect (i : Nat) (opened : Option Nat) (connected : Bool)
  | poll (i : Nat) (result : PollResult)
  /-- `none` if the call fails, else whether it reports an error -/
  | getsockopt (i : Nat) (socketError : Option Bool)
  | send (i : Nat) (result : SendResult)
  /-- here `wouldBlock` is `EAGAIN` alone -/
  | recv (i : Nat) (result : RecvResult)
  | recvInterrupted (i : Nat)
  | release (i : Nat) (now : Nat)
  | reapStale (hosts : List Bytes) (now : Nat)
  | closeAll (hosts : List Bytes)

section Steps

variable (requestOrder upstreamOrder responseOrder : IterationOrder Bytes Bytes)

def World.setCall (w : World) (i : Nat) (call : Call) : World :=
  { w with calls := Function.update w.calls i (some call) }

def World.logged (w : World) (calls : List SystemCall) : World := { w with log := w.log ++ calls }

/-- A system call on the client's descriptor. -/
def World.used (w : World) (call : Call) : World :=
  w.logged (call.client.fd.toList.map .use)

def closeCalls (fds : List Nat) : List SystemCall := fds.flatMap fun fd => [.release fd]

/-- A return from `forward`: the destructor of the client closes its descriptor. -/
def World.return (w : World) (i : Nat) (call : Call) (response : Bytes) : World :=
  (w.logged (closeCalls call.client.fd.toList)).setCall i
    { call with client := { call.client with fd := none }, point := .returned response }

def World.prepare (w : World) (i : Nat) (call : Call) : World :=
  match call.client.prepareRequest upstreamOrder call.request.method
      (buildUpstreamTarget call.request.path call.request.query)
      (upstreamHeaders requestOrder call.request.headers) call.request.body with
  | none => w.return i call (badGateway (ascii "Internal proxy error preparing request"))
  | some client => w.setCall i { call with client := client, point := .send }

/-- Each candidate is probed, and closed if the probe finds anything. -/
def leaseCalls (effect : Effect) : List SystemCall :=
  (effect.closed.flatMap fun fd => [Operation.use fd, .release fd]) ++ effect.leased.toList.map .use

def World.lease (w : World) (i : Nat) (target : RouteTrie.ProxyTarget) (request : HttpRequest)
    (isHealthy : Nat → Bool) : World :=
  let effect := w.pool.lease isHealthy (hostKeyFor target)
  let w := { w with pool := effect.pool }.logged (leaseCalls effect)
  match effect.leased with
  | none => w.setCall i ⟨target, request, HttpClient.new, .connect⟩
  | some fd =>
      match HttpClient.new.adoptConnection fd (hostKeyFor target) with
      | none =>
          (w.logged [.release fd]).setCall i ⟨target, request, HttpClient.new, .connect⟩
      | some client => w.prepare requestOrder upstreamOrder i ⟨target, request, client, .connect⟩

/-- `createConnectingSocket`, once it has a socket, closes it if it cannot connect it. -/
def connectCalls (target : RouteTrie.ProxyTarget) (fd : Nat) (connected : Bool) :
    List SystemCall :=
  [Operation.acquire fd, .use fd] ++
    if inetPton target.host = false then [.release fd]
    else if connected then [.attach fd ⟨target, false⟩]
    else [.attach fd ⟨target, false⟩, .release fd]

def World.connect (w : World) (i : Nat) (call : Call) (opened : Option Nat) (connected : Bool) :
    Option World :=
  let refused := badGateway (ascii "Failed to reach upstream host")
  if call.client.state ≠ .NotConnected then some (w.return i call refused)
  else
    match opened with
    | none => some (w.return i call refused)
    | some fd =>
        -- the kernel gives a number that is free
        if (held w.log fd).isSome then none
        else
          let w := w.logged (connectCalls call.target fd connected)
          match call.client.connect call.target (if connected then some fd else none) with
          | none => some (w.return i call refused)
          | some client => some (w.setCall i { call with client := client, point := .pollConnect })

/-- The loops of `waitForWritable` and `waitForReadable`. -/
def World.polled (w : World) (i : Nat) (call : Call) (next : Point) (body : Bytes) :
    PollResult → World
  | .ready => w.setCall i { call with point := next }
  | .interrupted => w
  | .timedOut => w.return i call (gatewayTimeout body)
  | .failed => w.return i call (gatewayTimeout body)

def World.poll (w : World) (i : Nat) (call : Call) (result : PollResult) : Option World :=
  let polled := (w.used call).polled i call
  match call.point with
  | .pollConnect => some (polled .getsockopt (ascii "Timed out connecting to upstream") result)
  | .pollSend => some (polled .send (ascii "Timed out sending request to upstream") result)
  | .pollReceive => some (polled .recv (ascii "Timed out waiting for upstream response") result)
  | _ => none

def World.getsockopt (w : World) (i : Nat) (call : Call) (socketError : Option Bool) : World :=
  let client := call.client.completeConnect (socketError.getD true)
  if client.state = .Connected then
    (w.logged (call.client.fd.toList.map fun fd => .attach fd ⟨call.target, true⟩)).prepare
      requestOrder upstreamOrder i { call with client := client }
  else
    (w.used call).return i { call with client := client }
      (badGateway (ascii "Failed to connect to upstream host"))

def World.send (w : World) (i : Nat) (call : Call) : SendResult → Option World
  | .sent count =>
      if count = 0 ∨ call.client.writeOffset + count > call.client.writeBuffer.length then none
      else
        let client := call.client.onSent count
        some (w.setCall i { call with
          client := client
          point := if client.state = .Receiving then .recv else .send })
  | .wouldBlock => some (w.setCall i { call with point := .pollSend })
  | .interrupted => some w
  | .failed =>
      some (w.return i { call with client := { call.client with state := .Failed } }
        (badGateway (ascii "Failed to send request to upstream")))

/-- The response is complete: the connection is kept if the upstream keeps it. -/
def World.complete (w : World) (i : Nat) (call : Call) : World :=
  if upstreamKeepAlive responseOrder call.client.response.headers then
    w.setCall i { call with point := .release }
  else w.return i call (responseText responseOrder call.client.response)

/-- `receive` goes back to its caller after a short read. -/
def World.recv (w : World) (i : Nat) (call : Call) (result : RecvResult) : World :=
  let call := { call with client := call.client.onRecv responseOrder result }
  match call.client.state with
  | .Complete => w.complete responseOrder i call
  | .Failed => w.return i call (badGateway (ascii "Upstream connection closed unexpectedly"))
  | _ =>
      match result with
      | .bytes chunk =>
          w.setCall i { call with
            point := if chunk.length < ResponseParsing.kReadChunkSize then .pollReceive else .recv }
      | _ => w.setCall i { call with point := .pollReceive }

def World.release (w : World) (i : Nat) (call : Call) (now : Nat) : Option World :=
  let response := responseText responseOrder call.client.response
  let hostKey := hostKeyFor call.target
  let released := call.client.releaseFd
  match released.2 with
  | none => some (w.return i { call with client := released.1 } response)
  | some fd =>
      (w.pool.release hostKey fd now).map fun effect =>
        ({ w with
          pool := effect.pool
          hosts := w.hosts.insert hostKey }.logged
            (closeCalls effect.closed)).return i { call with client := released.1 } response

def World.swept (w : World) (effect : Effect) : World :=
  { w with pool := effect.pool }.logged (closeCalls effect.closed)

def World.next (w : World) (i : Nat) (point : Point) : Option Call :=
  (w.calls i).filter fun call => call.point = point

def step (w : World) : Event → Option World
  | .lease i target request isHealthy =>
      if (w.calls i).isSome then none
      else some (w.lease requestOrder upstreamOrder i target request isHealthy)
  | .connect i opened connected =>
      (w.next i .connect).bind fun call => w.connect i call opened connected
  | .poll i result => (w.calls i).bind fun call => w.poll i call result
  | .getsockopt i socketError =>
      (w.next i .getsockopt).map fun call =>
        w.getsockopt requestOrder upstreamOrder i call socketError
  | .send i result => (w.next i .send).bind fun call => (w.used call).send i call result
  | .recv i result =>
      (w.next i .recv).bind fun call =>
        match result with
        | .bytes chunk =>
            if chunk = [] ∨ chunk.length > ResponseParsing.kReadChunkSize then none
            else some ((w.used call).recv responseOrder i call result)
        | _ => some ((w.used call).recv responseOrder i call result)
  | .recvInterrupted i => (w.next i .recv).map fun call => w.used call
  | .release i now => (w.next i .release).bind fun call => w.release responseOrder i call now
  | .reapStale hosts now =>
      if hosts.Perm w.hosts then some (w.swept (w.pool.reapStale hosts now)) else none
  | .closeAll hosts =>
      if hosts.Perm w.hosts then some (w.swept (w.pool.closeAll hosts)) else none

end Steps

def World.init (maxIdlePerHost : Nat) (idleTimeout : Int) : World :=
  ⟨⟨maxIdlePerHost, idleTimeout, fun _ => []⟩, [], fun _ => none, []⟩

inductive Place where
  | client (i : Nat)
  | idle (hostKey : Bytes)
  deriving DecidableEq

def World.listed (w : World) : Place → List Nat
  | .client i => ((w.calls i).bind fun call => call.client.fd).toList
  | .idle hostKey => w.pool.fds hostKey

def Call.peer (call : Call) : Peer := ⟨call.target, decide (call.client.state ≠ .Connecting)⟩

def Point.holds : Point → Bool
  | .connect => false
  | .returned _ => false
  | _ => true

def Point.state : Point → Option HttpClientState
  | .connect => some .NotConnected
  | .pollConnect => some .Connecting
  | .getsockopt => some .Connecting
  | .send => some .Sending
  | .pollSend => some .Sending
  | .recv => some .Receiving
  | .pollReceive => some .Receiving
  | .release => some .Complete
  | .returned _ => none

structure Call.Fits (call : Call) : Prop where
  fd : call.client.fd.isSome = call.point.holds
  state : ∀ state, call.point.state = some state → call.client.state = state

structure Clients (calls : Nat → Option Call) (log : List SystemCall) (place : Nat → Option Place)
    (skip : Nat → Prop) : Prop where
  here : ∀ i fd, ¬ skip i →
    ((calls i).bind (fun call => call.client.fd) = some fd ↔ place fd = some (.client i))
  peers : ∀ i call fd, ¬ skip i → calls i = some call → call.client.fd = some fd →
    held log fd = some (some call.peer)
  fits : ∀ i call, ¬ skip i → calls i = some call → call.Fits

structure Idle (pool : ConnectionPool) (log : List SystemCall) (place : Nat → Option Place) :
    Prop where
  once : ∀ hostKey, (pool.fds hostKey).Nodup
  here : ∀ hostKey fd, fd ∈ pool.fds hostKey ↔ place fd = some (.idle hostKey)
  peers : ∀ hostKey fd, fd ∈ pool.fds hostKey →
    ∃ target, hostKeyFor target = hostKey ∧ held log fd = some (some ⟨target, true⟩)
  positive : 0 < pool.maxIdlePerHost

structure Inv (w : World) (place : Nat → Option Place) : Prop where
  account : Account w.log place
  clients : Clients w.calls w.log place fun _ => False
  idle : Idle w.pool w.log place
  keys : w.hosts.Nodup

theorem inv_init {maxIdlePerHost : Nat} (positive : 0 < maxIdlePerHost) (idleTimeout : Int) :
    Inv (World.init maxIdlePerHost idleTimeout) fun _ => none where
  account := .start
  clients := by
    refine ⟨fun _ _ _ => by simp [World.init], fun _ _ _ _ h => ?_, fun _ _ _ h => ?_⟩
    · cases h
    · cases h
  idle := by
    refine ⟨fun _ => List.nodup_nil, fun _ _ => by simp [World.init, ConnectionPool.fds],
      fun _ _ h => ?_, positive⟩
    cases h
  keys := List.nodup_nil

theorem Idle.distinct {pool : ConnectionPool} {log : List SystemCall}
    {place : Nat → Option Place} (idle : Idle pool log place) : pool.Distinct := by
  refine ⟨idle.once, fun hostKey other fd hfd hfd' => ?_⟩
  have hplace := (idle.here hostKey fd).mp hfd
  rw [(idle.here other fd).mp hfd'] at hplace
  cases hplace
  rfl

section Frames

variable {calls : Nat → Option Call} {pool : ConnectionPool} {log log' : List SystemCall}
  {place place' : Nat → Option Place} {skip : Nat → Prop}

theorem Clients.frame (clients : Clients calls log place skip)
    (same : ∀ i fd, ¬ skip i → (place' fd = some (.client i) ↔ place fd = some (.client i)))
    (kept : ∀ i fd, ¬ skip i → place fd = some (.client i) → held log' fd = held log fd) :
    Clients calls log' place' skip := by
  refine ⟨fun i fd hi => (clients.here i fd hi).trans (same i fd hi).symm,
    fun i call fd hi hcall hfd => ?_, clients.fits⟩
  have hplace : place fd = some (.client i) := by
    rw [← clients.here i fd hi, hcall]
    exact hfd
  rw [kept i fd hi hplace]
  exact clients.peers i call fd hi hcall hfd

theorem Clients.skipOne (clients : Clients calls log place fun _ => False) (i : Nat) :
    Clients calls log place fun j => j = i :=
  ⟨fun j fd _ => clients.here j fd not_false, fun j call fd _ => clients.peers j call fd not_false,
    fun j call _ => clients.fits j call not_false⟩

theorem Idle.frame (idle : Idle pool log place)
    (same : ∀ hostKey fd, place' fd = some (.idle hostKey) ↔ place fd = some (.idle hostKey))
    (kept : ∀ hostKey fd, place fd = some (.idle hostKey) → held log' fd = held log fd) :
    Idle pool log' place' := by
  refine ⟨idle.once, fun hostKey fd => (idle.here hostKey fd).trans (same hostKey fd).symm,
    fun hostKey fd hfd => ?_, idle.positive⟩
  rw [kept hostKey fd ((idle.here hostKey fd).mp hfd)]
  exact idle.peers hostKey fd hfd

theorem Idle.shrink (idle : Idle pool log place) {pool' : ConnectionPool} {gone : List Nat}
    (once : ∀ hostKey, (pool'.fds hostKey).Nodup)
    (mem : ∀ hostKey fd, fd ∈ pool'.fds hostKey ↔ fd ∈ pool.fds hostKey ∧ fd ∉ gone)
    (positive : 0 < pool'.maxIdlePerHost)
    (left : ∀ hostKey fd, place' fd = some (.idle hostKey) ↔
      place fd = some (.idle hostKey) ∧ fd ∉ gone)
    (kept : ∀ fd ∉ gone, held log' fd = held log fd) : Idle pool' log' place' := by
  refine ⟨once, fun hostKey fd => ?_, fun hostKey fd hfd => ?_, positive⟩
  · rw [mem, left, idle.here]
  · have ⟨hidle, hleft⟩ := (mem hostKey fd).mp hfd
    rw [kept fd hleft]
    exact idle.peers hostKey fd hidle

end Frames

section Rules

variable {w : World} {place : Nat → Option Place}

theorem setCall_self (w : World) (i : Nat) (call : Call) :
    (w.setCall i call).calls i = some call :=
  Function.update_self _ _ _

theorem setCall_of_ne (w : World) (call : Call) {i j : Nat} (h : j ≠ i) :
    (w.setCall i call).calls j = w.calls j :=
  Function.update_of_ne h _ _

theorem inv_set {i : Nat} {call : Call} (account : Account w.log place)
    (clients : Clients w.calls w.log place fun j => j = i) (idle : Idle w.pool w.log place)
    (keys : w.hosts.Nodup)
    (here : ∀ fd, call.client.fd = some fd ↔ place fd = some (.client i))
    (peer : ∀ fd, call.client.fd = some fd → held w.log fd = some (some call.peer))
    (fits : call.Fits) : Inv (w.setCall i call) place := by
  refine ⟨account, ⟨fun j fd _ => ?_, fun j call' fd _ hcall hfd => ?_, fun j call' _ hcall => ?_⟩,
    idle, keys⟩
  · by_cases hj : j = i
    · rw [hj, setCall_self]
      exact here fd
    · rw [setCall_of_ne w call hj]
      exact clients.here j fd hj
  · by_cases hj : j = i
    · rw [hj, setCall_self, Option.some.injEq] at hcall
      rw [← hcall] at hfd ⊢
      exact peer fd hfd
    · rw [setCall_of_ne w call hj] at hcall
      exact clients.peers j call' fd hj hcall hfd
  · by_cases hj : j = i
    · rw [hj, setCall_self, Option.some.injEq] at hcall
      rw [← hcall]
      exact fits
    · rw [setCall_of_ne w call hj] at hcall
      exact clients.fits j call' hj hcall

theorem Inv.here (inv : Inv w place) {i fd : Nat} {call : Call} (had : w.calls i = some call) :
    call.client.fd = some fd ↔ place fd = some (.client i) := by
  have h := inv.clients.here i fd not_false
  rwa [had, Option.bind_some] at h

theorem Inv.setCall (inv : Inv w place) {i : Nat} {call call' : Call}
    (had : w.calls i = some call) (fd : call'.client.fd = call.client.fd)
    (peer : ∀ h, call.client.fd = some h → call'.peer = call.peer) (fits : call'.Fits) :
    Inv (w.setCall i call') place := by
  refine inv_set inv.account (inv.clients.skipOne i) inv.idle inv.keys (fun h => ?_)
    (fun h hh => ?_) fits
  · rw [fd]
    exact inv.here had
  · rw [fd] at hh
    rw [peer h hh]
    exact inv.clients.peers i call h not_false had hh

theorem Inv.used (inv : Inv w place) {i : Nat} {call : Call} (had : w.calls i = some call) :
    Inv (w.used call) place := by
  cases hfd : call.client.fd with
  | none =>
      rw [World.used, hfd]
      simpa [World.logged] using inv
  | some fd =>
      have hplace := (inv.here had).mp hfd
      rw [World.used, hfd]
      refine ⟨inv.account.use (by simp [hplace]), inv.clients.frame (fun _ _ _ => .rfl) ?_,
        inv.idle.frame (fun _ _ => .rfl) ?_, inv.keys⟩
      · intro _ _ _ _
        exact congrFun (held_use w.log fd) _
      · intro _ _ _
        exact congrFun (held_use w.log fd) _

theorem ite_gone_iff {gone : List Nat} {p : Place} {fd : Nat}
    (theirs : ∀ h ∈ gone, place h ≠ some p) :
    (if fd ∈ gone then none else place fd) = some p ↔ place fd = some p := by
  split_ifs with hfd
  · exact iff_of_false (by simp) (theirs fd hfd)
  · rfl

theorem closes (fd : Nat) : [(.release fd : SystemCall)] = [.release fd] ∨
    [(.release fd : SystemCall)] = [.use fd, .release fd] :=
  .inl rfl

theorem Inv.return (inv : Inv w place) {i : Nat} {call call' : Call}
    (had : w.calls i = some call) (fd : call'.client.fd = call.client.fd) (response : Bytes) :
    ∃ place', Inv (w.return i call' response) place' := by
  have hmine : ∀ h ∈ call'.client.fd.toList, place h = some (.client i) := by
    intro h hh
    rw [fd, Option.mem_toList] at hh
    exact (inv.here had).mp hh
  have hnodup : call'.client.fd.toList.Nodup := by cases call'.client.fd <;> simp
  have ⟨haccount, hheld⟩ := inv.account.releaseAll hnodup
    (fun h hh => by simp [hmine h hh]) closes
  have hother : ∀ p ≠ Place.client i, ∀ h ∈ call'.client.fd.toList, place h ≠ some p := by
    intro p hp h hh hplace
    rw [hmine h hh, Option.some.injEq] at hplace
    exact hp hplace.symm
  have hkept : ∀ p ≠ Place.client i, ∀ h, place h = some p →
      held (w.log ++ call'.client.fd.toList.flatMap fun fd => [Operation.release fd]) h =
        held w.log h :=
    fun p hp h hplace => hheld h fun hmem => hother p hp h hmem hplace
  refine ⟨_, inv_set haccount ((inv.clients.skipOne i).frame ?_ ?_) (inv.idle.frame ?_ ?_)
    inv.keys ?_ (fun h hh => ?_) ⟨rfl, fun _ h => ?_⟩⟩
  · exact fun j h hj => ite_gone_iff (hother (.client j) (by simpa using hj))
  · exact fun j h hj => hkept (.client j) (by simpa using hj) h
  · exact fun hostKey h => ite_gone_iff (hother (.idle hostKey) (by simp))
  · exact fun hostKey h => hkept (.idle hostKey) (by simp) h
  · intro h
    rw [fd]
    refine iff_of_false (by simp) ?_
    split_ifs with hmem
    · simp
    · rw [Option.mem_toList] at hmem
      exact fun hplace => hmem ((inv.here had).mpr hplace)
  · cases hh
  · cases h

theorem prepare_connected (requestOrder upstreamOrder : IterationOrder Bytes Bytes) (w : World)
    (i : Nat) (call : Call) (connected : call.client.state = .Connected) :
    ∃ client, client.fd = call.client.fd ∧ client.state = .Sending ∧
      w.prepare requestOrder upstreamOrder i call =
        w.setCall i { call with client := client, point := .send } := by
  unfold World.prepare HttpClient.prepareRequest
  rw [if_neg (not_not.mpr connected)]
  refine ⟨{ call.client with
    writeBuffer := requestText upstreamOrder call.request.method
      (buildUpstreamTarget call.request.path call.request.query) call.client.remoteHostHeader
      (upstreamHeaders requestOrder call.request.headers) call.request.body
    writeOffset := 0
    state := .Sending }, rfl, rfl, rfl⟩

theorem Inv.polled (inv : Inv w place) {i : Nat} {call : Call} (had : w.calls i = some call)
    {next : Point} (holds : next.holds = call.point.holds) (state : next.state = call.point.state)
    (body : Bytes) (result : PollResult) :
    ∃ place', Inv (w.polled i call next body result) place' := by
  have hfits := inv.clients.fits i call not_false had
  cases result with
  | ready =>
      refine ⟨place, inv.setCall had rfl (fun _ _ => rfl) ⟨?_, ?_⟩⟩
      · rw [holds]
        exact hfits.fd
      · rw [state]
        exact hfits.state
  | interrupted => exact ⟨place, inv⟩
  | timedOut => exact inv.return had rfl _
  | failed => exact inv.return had rfl _

theorem Inv.poll (inv : Inv w place) {i : Nat} {call : Call} (had : w.calls i = some call)
    {result : PollResult} {w' : World} (h : w.poll i call result = some w') :
    ∃ place', Inv w' place' := by
  unfold World.poll at h
  have hused := inv.used had
  cases hpoint : call.point with
  | pollConnect =>
      rw [hpoint] at h
      cases h
      exact hused.polled had (by rw [hpoint]; rfl) (by rw [hpoint]; rfl) _ _
  | pollSend =>
      rw [hpoint] at h
      cases h
      exact hused.polled had (by rw [hpoint]; rfl) (by rw [hpoint]; rfl) _ _
  | pollReceive =>
      rw [hpoint] at h
      cases h
      exact hused.polled had (by rw [hpoint]; rfl) (by rw [hpoint]; rfl) _ _
  | _ =>
      rw [hpoint] at h
      cases h

theorem fits_of {call : Call} (opened : call.client.fd.isSome = true)
    (holds : call.point.holds = true) (state : call.point.state = some call.client.state) :
    call.Fits := by
  refine ⟨opened.trans holds.symm, fun state' hstate => ?_⟩
  rw [state, Option.some.injEq] at hstate
  exact hstate

theorem Inv.goOn (inv : Inv w place) {i : Nat} {call call' : Call} (had : w.calls i = some call)
    (opened : call.client.fd.isSome = true) (fd : call'.client.fd = call.client.fd)
    (target : call'.target = call.target) (past : call.client.state ≠ .Connecting)
    (past' : call'.client.state ≠ .Connecting) (holds : call'.point.holds = true)
    (state : call'.point.state = some call'.client.state) : Inv (w.setCall i call') place := by
  refine inv.setCall had fd (fun _ _ => ?_) (fits_of (by rw [fd]; exact opened) holds state)
  simp [Call.peer, target, past, past']

theorem onSent_spec {client : HttpClient} (sending : client.state = .Sending) (count : Nat) :
    (client.onSent count).fd = client.fd ∧
      ((client.onSent count).state = .Sending ∨ (client.onSent count).state = .Receiving) := by
  unfold HttpClient.onSent
  split_ifs
  · exact ⟨rfl, .inl sending⟩
  · exact ⟨rfl, .inr rfl⟩

theorem Inv.send (inv : Inv w place) {i : Nat} {call : Call} (had : w.calls i = some call)
    (point : call.point = .send) {result : SendResult} {w' : World}
    (h : w.send i call result = some w') : ∃ place', Inv w' place' := by
  have hfits := inv.clients.fits i call not_false had
  have hsending := hfits.state .Sending (by rw [point]; rfl)
  have hpast : call.client.state ≠ .Connecting := by simp [hsending]
  have hopen : call.client.fd.isSome = true := by
    rw [hfits.fd, point]
    rfl
  cases result with
  | sent count =>
      rw [World.send] at h
      split_ifs at h
      cases h
      have ⟨hfd, hstate⟩ := onSent_spec hsending count
      refine ⟨place, inv.goOn had hopen hfd rfl hpast ?_ ?_ ?_⟩
      · cases hstate with
        | inl hstill => simp [hstill]
        | inr hdone => simp [hdone]
      · cases hstate with
        | inl hstill => simp [hstill, Point.holds]
        | inr hdone => simp [hdone, Point.holds]
      · cases hstate with
        | inl hstill => simp [hstill, Point.state]
        | inr hdone => simp [hdone, Point.state]
  | wouldBlock =>
      cases h
      exact ⟨place, inv.goOn had hopen rfl rfl hpast hpast rfl (by rw [hsending]; rfl)⟩
  | interrupted =>
      cases h
      exact ⟨place, inv⟩
  | failed =>
      cases h
      exact inv.return had (by rfl) _

theorem onRecv_spec (order : IterationOrder Bytes Bytes) {client : HttpClient}
    (receiving : client.state = .Receiving) (result : RecvResult) :
    (client.onRecv order result).fd = client.fd ∧
      ((client.onRecv order result).state = .Receiving ∨
        (client.onRecv order result).state = .Complete ∨
        (client.onRecv order result).state = .Failed) := by
  cases result with
  | bytes chunk =>
      rw [HttpClient.onRecv]
      rcases onReceived_cases order client chunk with hfail | hmore | ⟨response, _, hdone⟩
      · rw [hfail]
        exact ⟨rfl, .inr (.inr rfl)⟩
      · rw [hmore]
        exact ⟨rfl, .inl receiving⟩
      · rw [hdone]
        exact ⟨rfl, .inr (.inl rfl)⟩
  | closed => exact ⟨rfl, .inr (.inr rfl)⟩
  | wouldBlock => exact ⟨rfl, .inl receiving⟩
  | failed => exact ⟨rfl, .inr (.inr rfl)⟩

theorem Inv.recv (inv : Inv w place) (responseOrder : IterationOrder Bytes Bytes) {i : Nat}
    {call : Call} (had : w.calls i = some call) (point : call.point = .recv)
    (result : RecvResult) : ∃ place', Inv (w.recv responseOrder i call result) place' := by
  have hfits := inv.clients.fits i call not_false had
  have hreceiving := hfits.state .Receiving (by rw [point]; rfl)
  have hpast : call.client.state ≠ .Connecting := by simp [hreceiving]
  have hopen : call.client.fd.isSome = true := by
    rw [hfits.fd, point]
    rfl
  have ⟨hfd, hstate⟩ := onRecv_spec responseOrder hreceiving result
  unfold World.recv
  rcases hstate with hstill | hdone | hfail
  · simp only [hstill]
    have hpast' : (call.client.onRecv responseOrder result).state ≠ .Connecting := by
      simp [hstill]
    cases result with
    | bytes chunk =>
        refine ⟨place, inv.goOn had hopen hfd rfl hpast hpast' ?_ ?_⟩
        · simp only
          split_ifs <;> rfl
        · simp only
          rw [hstill]
          split_ifs <;> rfl
    | closed => exact ⟨place, inv.goOn had hopen hfd rfl hpast hpast' rfl (by rw [hstill]; rfl)⟩
    | wouldBlock => exact ⟨place, inv.goOn had hopen hfd rfl hpast hpast' rfl (by rw [hstill]; rfl)⟩
    | failed => exact ⟨place, inv.goOn had hopen hfd rfl hpast hpast' rfl (by rw [hstill]; rfl)⟩
  · simp only [hdone]
    unfold World.complete
    split_ifs
    · have hpast' : (call.client.onRecv responseOrder result).state ≠ .Connecting := by
        simp [hdone]
      exact ⟨place, inv.goOn had hopen hfd rfl hpast hpast' rfl (by rw [hdone]; rfl)⟩
    · exact inv.return had hfd _
  · simp only [hfail]
    exact inv.return had hfd _

theorem Inv.others (inv : Inv w place) {i : Nat} {fd : Nat} {log : List SystemCall}
    {place' : Nat → Option Place} (mine : ∀ p ≠ Place.client i, place fd ≠ some p)
    (same : ∀ h ≠ fd, place' h = place h) (mine' : ∀ p ≠ Place.client i, place' fd ≠ some p)
    (kept : ∀ h ≠ fd, held log h = held w.log h) :
    Clients w.calls log place' (fun j => j = i) ∧ Idle w.pool log place' := by
  have hsame : ∀ p ≠ Place.client i, ∀ h, place' h = some p ↔ place h = some p := by
    intro p hp h
    by_cases hh : h = fd
    · rw [hh]
      exact iff_of_false (mine' p hp) (mine p hp)
    · rw [same h hh]
  have hkept : ∀ p ≠ Place.client i, ∀ h, place h = some p → held log h = held w.log h :=
    fun p hp h hplace => kept h fun hh => mine p hp (hh ▸ hplace)
  refine ⟨(inv.clients.skipOne i).frame ?_ ?_, inv.idle.frame ?_ ?_⟩
  · exact fun j h hj => hsame (.client j) (by simpa using hj) h
  · exact fun j h hj => hkept (.client j) (by simpa using hj) h
  · exact fun hostKey h => hsame (.idle hostKey) (by simp) h
  · exact fun hostKey h => hkept (.idle hostKey) (by simp) h

theorem Inv.getsockopt (inv : Inv w place)
    (requestOrder upstreamOrder : IterationOrder Bytes Bytes) {i : Nat} {call : Call}
    (had : w.calls i = some call) (point : call.point = .getsockopt)
    (socketError : Option Bool) :
    ∃ place', Inv (w.getsockopt requestOrder upstreamOrder i call socketError) place' := by
  have hfits := inv.clients.fits i call not_false had
  have hconnecting := hfits.state .Connecting (by rw [point]; rfl)
  have hopen : call.client.fd.isSome = true := by
    rw [hfits.fd, point]
    rfl
  have ⟨fd, hfd⟩ := Option.isSome_iff_exists.mp hopen
  have hplace := (inv.here had).mp hfd
  have hclient : (call.client.completeConnect (socketError.getD true)).fd = call.client.fd := by
    unfold HttpClient.completeConnect
    split_ifs <;> rfl
  unfold World.getsockopt
  simp only
  split_ifs with hconnected
  · have ⟨client, hclientFd, hsending, hprepare⟩ := prepare_connected requestOrder upstreamOrder
      (w.logged (call.client.fd.toList.map fun fd => .attach fd ⟨call.target, true⟩)) i
      { call with client := call.client.completeConnect (socketError.getD true) } hconnected
    have hclientFd' : client.fd = some fd := hclientFd.trans (hclient.trans hfd)
    have hmine : ∀ p ≠ Place.client i, place fd ≠ some p := by
      intro p hp hother
      rw [hplace, Option.some.injEq] at hother
      exact hp hother.symm
    have ⟨hclients, hidle⟩ := @Inv.others _ _ inv i fd
      (w.log ++ [Operation.attach fd ⟨call.target, true⟩]) place hmine (fun _ _ => rfl) hmine
      fun h hh => by rw [held_attach, Function.update_of_ne hh]
    have hlabel := inv.clients.peers i call fd not_false had hfd
    rw [hprepare, hfd]
    refine ⟨place, inv_set (inv.account.attach (by simp [hplace]) _) hclients hidle inv.keys
      (fun h => ?_) (fun h hh => ?_) (fits_of (by simp [hclientFd']) rfl ?_)⟩
    · exact hclientFd ▸ hclient ▸ inv.here had
    · have hsame : fd = h := by
        simpa [hclientFd'] using hh
      change held (w.log ++ [Operation.attach fd ⟨call.target, true⟩]) h = _
      rw [held_attach, ← hsame, Function.update_self, hlabel]
      simp [Call.peer, hsending]
    · simp [hsending, Point.state]
  · exact (inv.used had).return had hclient _

theorem connected_calls {log : List SystemCall} {place : Nat → Option Place} {fd : Nat}
    (account : Account log place) (free : held log fd = none) {target : RouteTrie.ProxyTarget}
    (address : inetPton target.host = true) (p : Place) :
    Account (log ++ connectCalls target fd true) (Function.update place fd (some p)) ∧
      held (log ++ connectCalls target fd true) =
        Function.update (held log) fd (some (some ⟨target, false⟩)) := by
  have hlog : log ++ connectCalls target fd true =
      ((log ++ [Operation.acquire fd]) ++ [Operation.use fd]) ++
        [Operation.attach fd ⟨target, false⟩] := by
    simp [connectCalls, address]
  have hout : Function.update place fd (some p) fd ≠ none := by simp
  rw [hlog]
  refine ⟨((account.acquire free p).use hout).attach hout _, ?_⟩
  rw [held_attach, held_use, held_acquire, Function.update_idem, Function.update_self]
  rfl

theorem refused_calls {log : List SystemCall} {place : Nat → Option Place} {fd : Nat}
    (account : Account log place) (free : held log fd = none) {target : RouteTrie.ProxyTarget}
    {connected : Bool} (fails : inetPton target.host = false ∨ connected = false) :
    Account (log ++ connectCalls target fd connected) place ∧
      held (log ++ connectCalls target fd connected) = held log := by
  have hplace := (account.out fd).mp free
  have hused : Account ((log ++ [Operation.acquire fd]) ++ [Operation.use fd])
      (Function.update place fd (some (Place.client 0))) :=
    (account.acquire free _).use (by simp)
  have hfree : ∀ h, place h = none ↔
      Function.update (Function.update place fd (some (Place.client 0))) fd none h = none := by
    intro h
    by_cases hh : h = fd
    · simp [hh, hplace]
    · simp [hh]
  have hback : Function.update (held log) fd none = held log := by
    rw [← free, Function.update_eq_self]
  by_cases haddress : inetPton target.host = false
  · have hlog : log ++ connectCalls target fd connected =
        ((log ++ [Operation.acquire fd]) ++ [Operation.use fd]) ++ [Operation.release fd] := by
      simp [connectCalls, haddress]
    rw [hlog]
    refine ⟨(hused.release (by simp)).move hfree, ?_⟩
    rw [held_release, held_use, held_acquire, Function.update_idem, hback]
  · have hlog : log ++ connectCalls target fd connected =
        (((log ++ [Operation.acquire fd]) ++ [Operation.use fd]) ++
          [Operation.attach fd ⟨target, false⟩]) ++ [Operation.release fd] := by
      simp [connectCalls, haddress, fails.resolve_left haddress]
    rw [hlog]
    refine ⟨((hused.attach (by simp) _).release (by simp)).move hfree, ?_⟩
    rw [held_release, held_attach, held_use, held_acquire, Function.update_idem,
      Function.update_idem, hback]

theorem Inv.connecting (inv : Inv w place) {i : Nat} {call : Call} (had : w.calls i = some call)
    (empty : call.client.fd = none) {fd : Nat} (free : held w.log fd = none)
    (address : inetPton call.target.host = true) {client : HttpClient}
    (fdOf : client.fd = some fd) (state : client.state = .Connecting) :
    ∃ place', Inv ((w.logged (connectCalls call.target fd true)).setCall i
      { call with client := client, point := .pollConnect }) place' := by
  have hplace := (inv.account.out fd).mp free
  obtain ⟨haccount, hheld⟩ := connected_calls inv.account free address (.client i)
  obtain ⟨hclients, hidle⟩ := @Inv.others _ _ inv i fd
    (w.log ++ connectCalls call.target fd true) (Function.update place fd (some (.client i)))
    (by simp [hplace]) (fun h hh => Function.update_of_ne hh _ _)
    (fun p hp => by simpa using fun h => hp h.symm)
    fun h hh => by rw [hheld, Function.update_of_ne hh]
  refine ⟨_, inv_set haccount hclients hidle inv.keys (fun h => ?_) (fun h hh => ?_)
    (fits_of (by simp [fdOf]) rfl (by simp [state, Point.state]))⟩
  · by_cases hh : h = fd
    · simp [hh, fdOf]
    · rw [Function.update_of_ne hh, ← inv.here had, empty]
      simpa [fdOf] using fun h => hh h.symm
  · have hsame : fd = h := by
      simpa [fdOf] using hh
    change held (w.log ++ connectCalls call.target fd true) h = _
    rw [hheld, ← hsame, Function.update_self]
    simp [Call.peer, state]

theorem Inv.refused (inv : Inv w place) {fd : Nat} {target : RouteTrie.ProxyTarget}
    {connected : Bool} (free : held w.log fd = none)
    (fails : inetPton target.host = false ∨ connected = false) :
    Inv (w.logged (connectCalls target fd connected)) place := by
  obtain ⟨haccount, hheld⟩ := refused_calls inv.account free fails
  exact ⟨haccount, inv.clients.frame (fun _ _ _ => .rfl) fun _ h _ _ => congrFun hheld h,
    inv.idle.frame (fun _ _ => .rfl) fun _ h _ => congrFun hheld h, inv.keys⟩

theorem Inv.connect (inv : Inv w place) {i : Nat} {call : Call} (had : w.calls i = some call)
    (point : call.point = .connect) {opened : Option Nat} {connected : Bool} {w' : World}
    (h : w.connect i call opened connected = some w') : ∃ place', Inv w' place' := by
  have hfits := inv.clients.fits i call not_false had
  have hnew := hfits.state .NotConnected (by rw [point]; rfl)
  have hempty : call.client.fd = none := by
    rw [← Option.not_isSome_iff_eq_none, hfits.fd, point]
    simp [Point.holds]
  unfold World.connect at h
  simp only [hnew, ne_eq, not_true_eq_false, if_false] at h
  cases opened with
  | none =>
      cases h
      exact inv.return had rfl _
  | some fd =>
      simp only at h
      by_cases hout : (held w.log fd).isSome = true
      · rw [if_pos hout] at h
        cases h
      rw [if_neg hout] at h
      have hfree : held w.log fd = none := by simpa using hout
      cases hconnect : call.client.connect call.target (if connected then some fd else none) with
      | some client =>
          simp only [hconnect, Option.some.injEq] at h
          obtain ⟨-, haddress, fd', hopened, hclient⟩ := connect_eq_some_iff.mp hconnect
          have hconnected : connected = true ∧ fd = fd' := by simpa using hopened
          obtain ⟨rfl, rfl⟩ := hconnected
          rw [← h]
          exact inv.connecting had hempty hfree haddress (by rw [hclient]) (by rw [hclient])
      | none =>
          have hfails : inetPton call.target.host = false ∨ connected = false := by
            by_contra hnot
            simp only [not_or, Bool.not_eq_false] at hnot
            have hsome := connect_eq_some_iff.mpr ⟨hnew, hnot.1, fd, rfl, rfl⟩
            rw [hnot.2, if_pos rfl, hsome] at hconnect
            cases hconnect
          simp only [hconnect, Option.some.injEq] at h
          rw [← h]
          exact (inv.refused hfree hfails).return had rfl _

theorem probes (fd : Nat) : [(.use fd : SystemCall), .release fd] = [.release fd] ∨
    [(.use fd : SystemCall), .release fd] = [.use fd, .release fd] :=
  .inr rfl

theorem lease_account {log : List SystemCall} {place : Nat → Option Place}
    (account : Account log place) {effect : Effect} (nodup : effect.closed.Nodup)
    (closed : ∀ h ∈ effect.closed, place h ≠ none)
    (leased : ∀ h, effect.leased = some h → place h ≠ none ∧ h ∉ effect.closed) :
    Account (log ++ leaseCalls effect) (fun h => if h ∈ effect.closed then none else place h) ∧
      ∀ h ∉ effect.closed, held (log ++ leaseCalls effect) h = held log h := by
  obtain ⟨haccount, hheld⟩ := account.releaseAll nodup closed probes
  cases hfd : effect.leased with
  | none => simpa [leaseCalls, hfd] using And.intro haccount hheld
  | some h =>
      obtain ⟨hplace, hleft⟩ := leased h hfd
      have hlog : log ++ leaseCalls effect =
          (log ++ effect.closed.flatMap fun fd => [.use fd, .release fd]) ++
            [Operation.use h] := by
        simp [leaseCalls, hfd]
      rw [hlog, held_use]
      exact ⟨haccount.use (by simp [hplace, hleft]), hheld⟩

/-- Where the descriptors are after a lease for call `i`. -/
def leasedPlace (effect : Effect) (i : Nat) (place : Nat → Option Place) (h : Nat) :
    Option Place :=
  if h ∈ effect.closed then none
  else if effect.leased = some h then some (.client i) else place h

theorem leasedPlace_idle_iff {effect : Effect} {i h : Nat} {hostKey : Bytes} :
    leasedPlace effect i place h = some (.idle hostKey) ↔
      place h = some (.idle hostKey) ∧ h ∉ effect.leased.toList ++ effect.closed := by
  rw [leasedPlace, List.mem_append, Option.mem_toList, not_or]
  by_cases hh : h ∈ effect.closed
  · simp [hh]
  · by_cases hfd : effect.leased = some h
    · simp [hh, hfd]
    · simp [hh, hfd]

theorem leasedPlace_client_iff {effect : Effect} {i j h : Nat}
    (idle : ∀ h ∈ effect.leased.toList ++ effect.closed, ∃ hostKey, place h = some (.idle hostKey))
    (other : j ≠ i) :
    leasedPlace effect i place h = some (.client j) ↔ place h = some (.client j) := by
  rw [leasedPlace]
  by_cases hh : h ∈ effect.closed
  · have ⟨hostKey, hplace⟩ := idle h (List.mem_append_right _ hh)
    simp [hh, hplace]
  · by_cases hfd : effect.leased = some h
    · have ⟨hostKey, hplace⟩ := idle h (List.mem_append_left _ (by simp [hfd]))
      simp [hh, hfd, hplace, Ne.symm other]
    · simp [hh, hfd]

theorem Inv.leased (inv : Inv w place) {i : Nat} (new : w.calls i = none)
    (isHealthy : Nat → Bool) (call : Call)
    (fd : call.client.fd = (w.pool.lease isHealthy (hostKeyFor call.target)).leased)
    (peer : call.client.fd ≠ none → call.client.state ≠ .Connecting) (fits : call.Fits) :
    ∃ place', Inv (({ w with
      pool := (w.pool.lease isHealthy (hostKeyFor call.target)).pool }.logged
        (leaseCalls (w.pool.lease isHealthy (hostKeyFor call.target)))).setCall i call) place' := by
  have hdistinct := inv.idle.distinct
  have hnodup := lease_nodup hdistinct isHealthy (hostKeyFor call.target)
  have hmem := lease_mem_iff hdistinct isHealthy (hostKeyFor call.target)
  have hidle : ∀ h ∈ (w.pool.lease isHealthy (hostKeyFor call.target)).leased.toList ++
      (w.pool.lease isHealthy (hostKeyFor call.target)).closed,
      place h = some (.idle (hostKeyFor call.target)) := fun h hh =>
    (inv.idle.here _ h).mp (lease_had isHealthy _ hh)
  have honce := (lease_shrinks hdistinct isHealthy (hostKeyFor call.target)).1.distinct.once
  have hpositive : 0 < (w.pool.lease isHealthy (hostKeyFor call.target)).pool.maxIdlePerHost :=
    inv.idle.positive
  generalize w.pool.lease isHealthy (hostKeyFor call.target) = effect at *
  obtain ⟨_, hclosed, hapart⟩ := List.nodup_append.mp hnodup
  have hleased : ∀ h, effect.leased = some h →
      place h = some (.idle (hostKeyFor call.target)) ∧ h ∉ effect.closed := by
    intro h hh
    have hlist : h ∈ effect.leased.toList := by simp [hh]
    exact ⟨hidle h (List.mem_append_left _ hlist), fun hgone => hapart h hlist h hgone rfl⟩
  obtain ⟨hclosing, hheld⟩ := lease_account inv.account hclosed
    (fun h hh => by simp [hidle h (List.mem_append_right _ hh)])
    fun h hh => ⟨by simp [(hleased h hh).1], (hleased h hh).2⟩
  have haccount : Account (w.log ++ leaseCalls effect) (leasedPlace effect i place) := by
    refine hclosing.move fun h => ?_
    rw [leasedPlace]
    by_cases hh : h ∈ effect.closed
    · simp [hh]
    · by_cases hfd : effect.leased = some h
      · simp [hh, hfd, (hleased h hfd).1]
      · simp [hh, hfd]
  have hnone : ∀ h, place h ≠ some (.client i) := by
    intro h hplace
    have hhere := (inv.clients.here i h not_false).mpr hplace
    rw [new] at hhere
    cases hhere
  have hlabel : ∀ h, effect.leased = some h →
      held (w.log ++ leaseCalls effect) h = some (some ⟨call.target, true⟩) := by
    intro h hfd
    obtain ⟨hplace, hleft⟩ := hleased h hfd
    obtain ⟨target, hkey, hpeer⟩ := inv.idle.peers _ h ((inv.idle.here _ h).mpr hplace)
    rw [hheld h hleft, hpeer, hostKeyFor_injective hkey]
  have hothers : Clients w.calls (w.log ++ leaseCalls effect) (leasedPlace effect i place)
      fun j => j = i := by
    refine (inv.clients.skipOne i).frame (fun j h hj =>
      leasedPlace_client_iff (fun h hh => ⟨_, hidle h hh⟩) hj) fun j h _ hplace => hheld h ?_
    intro hgone
    rw [hidle h (List.mem_append_right _ hgone)] at hplace
    cases hplace
  have hpool : Idle effect.pool (w.log ++ leaseCalls effect) (leasedPlace effect i place) :=
    inv.idle.shrink honce hmem hpositive (fun _ _ => leasedPlace_idle_iff)
      fun h hleft => hheld h fun hgone => hleft (List.mem_append_right _ hgone)
  refine ⟨_, inv_set haccount hothers hpool inv.keys (fun h => ?_) (fun h hh => ?_) fits⟩
  · rw [fd, leasedPlace]
    by_cases hfd : effect.leased = some h
    · simp [hfd, (hleased h hfd).2]
    · by_cases hh : h ∈ effect.closed
      · simp [hfd, hh]
      · simp [hfd, hh, hnone h]
  · have hstate := peer (by simp [hh])
    rw [fd] at hh
    change held (w.log ++ leaseCalls effect) h = _
    rw [hlabel h hh]
    simp [Call.peer, hstate]

theorem Inv.lease (inv : Inv w place) (requestOrder upstreamOrder : IterationOrder Bytes Bytes)
    {i : Nat} (new : w.calls i = none) (target : RouteTrie.ProxyTarget) (request : HttpRequest)
    (isHealthy : Nat → Bool) :
    ∃ place', Inv (w.lease requestOrder upstreamOrder i target request isHealthy) place' := by
  unfold World.lease
  simp only
  cases hleased : (w.pool.lease isHealthy (hostKeyFor target)).leased with
  | none =>
      refine inv.leased new isHealthy ⟨target, request, HttpClient.new, .connect⟩
        hleased.symm (fun h => absurd rfl h) ⟨rfl, fun state hstate => ?_⟩
      cases hstate
      rfl
  | some fd =>
      have ⟨client, hfd, hsending, hprepare⟩ := prepare_connected requestOrder upstreamOrder
        ({ w with pool := (w.pool.lease isHealthy (hostKeyFor target)).pool }.logged
          (leaseCalls (w.pool.lease isHealthy (hostKeyFor target)))) i
        ⟨target, request, ⟨some fd, .Connected, hostKeyFor target, [], 0, [], .empty⟩, .connect⟩ rfl
      have hadopt : HttpClient.new.adoptConnection fd (hostKeyFor target) =
          some ⟨some fd, .Connected, hostKeyFor target, [], 0, [], .empty⟩ := rfl
      simp only [hadopt]
      rw [hprepare]
      exact inv.leased new isHealthy ⟨target, request, client, .send⟩
        (hfd.trans hleased.symm) (fun _ => by simp [hsending])
        (fits_of (by simp [hfd]) rfl (by simp [hsending, Point.state]))

theorem return_of_none (w : World) (i : Nat) {call : Call} (h : call.client.fd = none)
    (response : Bytes) : w.return i call response =
      w.setCall i
        { call with client := { call.client with fd := none }, point := .returned response } := by
  rw [World.return, h]
  simp [closeCalls, World.logged]

def releasedPlace (effect : Effect) (fd : Nat) (hostKey : Bytes) (place : Nat → Option Place)
    (h : Nat) : Option Place :=
  if h ∈ effect.closed then none
  else Function.update place fd (some (.idle hostKey)) h

theorem releasedPlace_idle_iff {effect : Effect} {fd i h : Nat} {hostKey other : Bytes}
    (had : place fd = some (.client i)) :
    releasedPlace effect fd hostKey place h = some (.idle other) ↔
      (place h = some (.idle other) ∨ (h = fd ∧ other = hostKey)) ∧ h ∉ effect.closed := by
  rw [releasedPlace]
  by_cases hgone : h ∈ effect.closed
  · simp [hgone]
  · by_cases hsame : h = fd
    · rw [hsame] at hgone ⊢
      simp [hgone, had, eq_comm]
    · simp [hgone, hsame]

theorem releasedPlace_client_iff {effect : Effect} {fd j h : Nat} {hostKey : Bytes}
    (idle : ∀ h ∈ effect.closed, Function.update place fd (some (.idle hostKey)) h =
      some (.idle hostKey)) :
    releasedPlace effect fd hostKey place h = some (.client j) ↔
      place h = some (.client j) ∧ h ≠ fd := by
  rw [releasedPlace, ite_gone_iff fun h hh => by simp [idle h hh]]
  by_cases hsame : h = fd
  · simp [hsame]
  · simp [hsame]

theorem Idle.released {pool : ConnectionPool} {log log' : List SystemCall}
    (idle : Idle pool log place) {fd i now : Nat} {target : RouteTrie.ProxyTarget} {effect : Effect}
    (had : place fd = some (.client i))
    (label : held log fd = some (some ⟨target, true⟩))
    (kept : ∀ h ∉ effect.closed, held log' h = held log h)
    (release : pool.release (hostKeyFor target) fd now = some effect) :
    Idle effect.pool log' (releasedPlace effect fd (hostKeyFor target) place) := by
  have hnew : ∀ hostKey, fd ∉ pool.fds hostKey := by
    intro hostKey hmem
    rw [idle.here, had] at hmem
    cases hmem
  have hmem := (release_mem_iff idle.distinct hnew release).1
  refine ⟨(release_distinct idle.distinct hnew release).1.once, fun hostKey h => ?_,
    fun hostKey h hh => ?_, ?_⟩
  · rw [hmem, idle.here, releasedPlace_idle_iff had]
  · obtain ⟨hin, hleft⟩ := (hmem hostKey h).mp hh
    rw [kept h hleft]
    cases hin with
    | inl hold => exact idle.peers hostKey h hold
    | inr hfd =>
        rw [hfd.1, hfd.2]
        exact ⟨target, rfl, label⟩
  · rw [(release_perm release).2.2]
    exact idle.positive

theorem Inv.release (inv : Inv w place) {i : Nat} {call : Call} (had : w.calls i = some call)
    (point : call.point = .release) (responseOrder : IterationOrder Bytes Bytes) {now : Nat}
    {w' : World} (h : w.release responseOrder i call now = some w') :
    ∃ place', Inv w' place' := by
  have hfits := inv.clients.fits i call not_false had
  have hcomplete := hfits.state .Complete (by rw [point]; rfl)
  have hopen : call.client.fd.isSome = true := by
    rw [hfits.fd, point]
    rfl
  obtain ⟨fd, hfd⟩ := Option.isSome_iff_exists.mp hopen
  have hplace := (inv.here had).mp hfd
  have hnew : ∀ hostKey, fd ∉ w.pool.fds hostKey := by
    intro hostKey hmem
    rw [inv.idle.here, hplace] at hmem
    cases hmem
  unfold World.release at h
  simp only [HttpClient.releaseFd, hfd] at h
  obtain ⟨effect, heffect, hw'⟩ := Option.map_eq_some_iff.mp h
  have hnodup := (release_mem_iff inv.idle.distinct hnew heffect).2
  have hclosed := (release_distinct inv.idle.distinct hnew heffect).2.2
  have hmoved : Account w.log
      (Function.update place fd (some (.idle (hostKeyFor call.target)))) := by
    refine inv.account.move fun h => ?_
    by_cases hh : h = fd
    · simp [hh, hplace]
    · simp [hh]
  have hidle : ∀ h ∈ effect.closed, Function.update place fd
      (some (.idle (hostKeyFor call.target))) h = some (.idle (hostKeyFor call.target)) := by
    intro h hh
    by_cases hsame : h = fd
    · simp [hsame]
    · have hidle := (inv.idle.here _ h).mp ((hclosed h hh).1.resolve_right hsame)
      simpa [hsame] using hidle
  obtain ⟨haccount, hheld⟩ := hmoved.releaseAll hnodup (fun h hh => by simp [hidle h hh]) closes
  have hothers : ∀ j ≠ i, ∀ h, releasedPlace effect fd (hostKeyFor call.target) place h =
      some (.client j) ↔ place h = some (.client j) := by
    intro j hj h
    rw [releasedPlace_client_iff hidle, and_iff_left_iff_imp]
    rintro hthere rfl
    cases hplace.symm.trans hthere
    exact hj rfl
  have hlabel : held w.log fd = some (some ⟨call.target, true⟩) := by
    have hpeer := inv.clients.peers i call fd not_false had hfd
    simpa [Call.peer, hcomplete] using hpeer
  rw [← hw', return_of_none _ _ rfl]
  refine ⟨_, inv_set haccount ((inv.clients.skipOne i).frame (fun j h hj => hothers j hj h)
    fun j h hj hplaced => hheld h fun hgone => ?_) (inv.idle.released hplace hlabel hheld heffect)
    inv.keys.insert (fun h => ?_) (fun h hh => ?_) ⟨rfl, fun state hstate => ?_⟩⟩
  · have hthere := (hothers j hj h).mpr hplaced
    rw [releasedPlace, if_pos hgone] at hthere
    cases hthere
  · -- the call has none left
    refine iff_of_false (by simp) fun hthere => ?_
    obtain ⟨hmine, hne⟩ := (releasedPlace_client_iff hidle).mp hthere
    rw [← inv.here had, hfd] at hmine
    exact hne (Option.some.inj hmine).symm
  · cases hh
  · cases hstate

theorem Inv.swept (inv : Inv w place) {gone : PooledConnection → Bool} {hosts : List Bytes}
    (keys : hosts.Perm w.hosts) {effect : Effect} (swept : Swept w.pool gone hosts effect) :
    ∃ place', Inv (w.swept effect) place' := by
  have hmem := swept.mem_iff inv.idle.distinct
  have hnodup := swept.nodup inv.idle.distinct (keys.nodup_iff.mpr inv.keys)
  have hidle : ∀ h ∈ effect.closed, ∃ hostKey, place h = some (.idle hostKey) := by
    intro h hh
    have ⟨hostKey, hin⟩ := swept.had hh
    exact ⟨hostKey, (inv.idle.here hostKey h).mp hin⟩
  have ⟨haccount, hheld⟩ := inv.account.releaseAll hnodup (fun h hh => by
    have ⟨hostKey, hplace⟩ := hidle h hh
    simp [hplace]) closes
  have hclient : ∀ i, ∀ h ∈ effect.closed, place h ≠ some (.client i) := by
    intro i h hh
    have ⟨hostKey, hplace⟩ := hidle h hh
    simp [hplace]
  have hpositive : 0 < effect.pool.maxIdlePerHost := by
    rw [swept.same]
    exact inv.idle.positive
  have hpool : Idle effect.pool (w.log ++ closeCalls effect.closed)
      fun h => if h ∈ effect.closed then none else place h := by
    refine inv.idle.shrink (fun hostKey => (swept.sublist hostKey).nodup (inv.idle.once hostKey))
      hmem hpositive (fun hostKey h => ?_) hheld
    by_cases hgone : h ∈ effect.closed
    · simp [hgone]
    · simp [hgone]
  exact ⟨_, haccount, inv.clients.frame (fun i h _ => ite_gone_iff (hclient i))
    fun i h _ hplace => hheld h fun hgone => hclient i h hgone hplace, hpool, inv.keys⟩

theorem next_some {i : Nat} {point : Point} {call : Call} (h : w.next i point = some call) :
    w.calls i = some call ∧ call.point = point := by
  have ⟨hcall, hpoint⟩ := Option.filter_eq_some_iff.mp h
  exact ⟨hcall, by simpa using hpoint⟩

theorem Inv.step (inv : Inv w place)
    (requestOrder upstreamOrder responseOrder : IterationOrder Bytes Bytes) {event : Event}
    {w' : World}
    (h : UpstreamDescriptors.step requestOrder upstreamOrder responseOrder w event = some w') :
    ∃ place', Inv w' place' := by
  cases event with
  | lease i target request isHealthy =>
      simp only [UpstreamDescriptors.step] at h
      split_ifs at h with hbusy
      cases h
      exact inv.lease requestOrder upstreamOrder (by simpa using hbusy) target request isHealthy
  | connect i opened connected =>
      have ⟨call, hnext, hconnect⟩ := Option.bind_eq_some_iff.mp h
      have ⟨had, hpoint⟩ := next_some hnext
      exact inv.connect had hpoint hconnect
  | poll i result =>
      have ⟨call, had, hpoll⟩ := Option.bind_eq_some_iff.mp h
      exact inv.poll had hpoll
  | getsockopt i socketError =>
      have ⟨call, hnext, hresult⟩ := Option.map_eq_some_iff.mp h
      have ⟨had, hpoint⟩ := next_some hnext
      rw [← hresult]
      exact inv.getsockopt requestOrder upstreamOrder had hpoint socketError
  | send i result =>
      have ⟨call, hnext, hsend⟩ := Option.bind_eq_some_iff.mp h
      have ⟨had, hpoint⟩ := next_some hnext
      exact (inv.used had).send had hpoint hsend
  | recv i result =>
      have ⟨call, hnext, hrecv⟩ := Option.bind_eq_some_iff.mp h
      have ⟨had, hpoint⟩ := next_some hnext
      have hresult : (w.used call).recv responseOrder i call result = w' := by
        cases result with
        | bytes chunk =>
            simp only at hrecv
            split_ifs at hrecv
            exact Option.some.inj hrecv
        | closed => exact Option.some.inj hrecv
        | wouldBlock => exact Option.some.inj hrecv
        | failed => exact Option.some.inj hrecv
      rw [← hresult]
      exact (inv.used had).recv responseOrder had hpoint result
  | recvInterrupted i =>
      have ⟨call, hnext, hresult⟩ := Option.map_eq_some_iff.mp h
      have ⟨had, _⟩ := next_some hnext
      rw [← hresult]
      exact ⟨place, inv.used had⟩
  | release i now =>
      have ⟨call, hnext, hrelease⟩ := Option.bind_eq_some_iff.mp h
      have ⟨had, hpoint⟩ := next_some hnext
      exact inv.release had hpoint responseOrder hrelease
  | reapStale hosts now =>
      simp only [UpstreamDescriptors.step] at h
      split_ifs at h with hkeys
      cases h
      exact inv.swept hkeys (swept_reapStale w.pool hosts now)
  | closeAll hosts =>
      simp only [UpstreamDescriptors.step] at h
      split_ifs at h with hkeys
      cases h
      exact inv.swept hkeys (swept_closeAll w.pool hosts)

end Rules

/-- Every descriptor is open in one place or in none; one that was closed is not closed
again nor used before the kernel gives it out anew; a lease gives a descriptor that is
connected to its host and port; a call that has returned has none. -/
structure Conserved (w : World) : Prop where
  places : ∃ place, Placed w.listed place ∧ ∀ fd, held w.log fd = none ↔ place fd = none
  proper : Proper w.log
  once : ∀ before between later fd call,
    w.log = before ++ .release fd :: (between ++ call :: later) → call.handle = fd →
      call = .acquire fd ∨ .acquire fd ∈ between
  leased : ∀ isHealthy target fd, (w.pool.lease isHealthy (hostKeyFor target)).leased = some fd →
    held w.log fd = some (some ⟨target, true⟩)
  defined : ∀ hostKey fd now, (w.pool.release hostKey fd now).isSome = true
  returned : ∀ i call response, w.calls i = some call → call.point = .returned response →
    call.client.fd = none

theorem Inv.conserved {w : World} {place : Nat → Option Place} (inv : Inv w place) :
    Conserved w where
  places := by
    refine ⟨place, ⟨fun p => ?_, fun p fd => ?_⟩, inv.account.out⟩
    · cases p with
      | client i =>
          rw [World.listed]
          cases (w.calls i).bind fun call => call.client.fd <;> simp
      | idle hostKey => exact inv.idle.once hostKey
    · cases p with
      | client i =>
          rw [World.listed, Option.mem_toList]
          exact inv.clients.here i fd not_false
      | idle hostKey => exact inv.idle.here hostKey fd
  proper := inv.account.proper
  once := by
    intro before between later fd call hlog same
    have hproper := inv.account.proper
    rw [hlog] at hproper
    exact hproper.anew same
  leased := by
    intro isHealthy target fd hleased
    have hin : fd ∈ w.pool.fds (hostKeyFor target) := lease_had isHealthy _ (by simp [hleased])
    have ⟨target', hkey, hpeer⟩ := inv.idle.peers _ fd hin
    rw [hpeer, hostKeyFor_injective hkey]
  defined := by
    intro hostKey fd now
    have ⟨effect, heffect⟩ := release_defined inv.idle.positive hostKey fd now
    rw [heffect]
    rfl
  returned := by
    intro i call response had hpoint
    have hfd := (inv.clients.fits i call not_false had).fd
    rw [← Option.not_isSome_iff_eq_none, hfd, hpoint]
    simp [Point.holds]

/-- In every run, whatever the system calls answer, the upstream descriptors are conserved. -/
theorem descriptors_conserved (requestOrder upstreamOrder responseOrder : IterationOrder Bytes Bytes)
    (maxIdlePerHost : Nat) (positive : 1 ≤ maxIdlePerHost) (idleTimeout : Int)
    (events : List Event) (w : World)
    (run : StepRuns.Run
      (fun w e w' => step requestOrder upstreamOrder responseOrder w e = some w')
      (World.init maxIdlePerHost idleTimeout) events w) : Conserved w := by
  have base : ∃ place, Inv (World.init maxIdlePerHost idleTimeout) place :=
    ⟨_, inv_init positive idleTimeout⟩
  have preserved : ∀ (_ : List Event) w e w', (∃ place, Inv w place) →
      step requestOrder upstreamOrder responseOrder w e = some w' → ∃ place, Inv w' place := by
    intro _ w e w' hinv next
    have ⟨_, inv⟩ := hinv
    exact inv.step requestOrder upstreamOrder responseOrder next
  have ⟨_, inv⟩ := @StepRuns.Run.invariant _ _ _ _ (fun _ w => ∃ place, Inv w place) base preserved
    _ _ run
  exact inv.conserved

def reused : List Event :=
  let target : RouteTrie.ProxyTarget := ⟨ascii "10.0.0.1", 80⟩
  let request : HttpRequest := ⟨.GET, ascii "/", [], .empty, .empty, [], []⟩
  [.lease 0 target request fun _ => true, .connect 0 (some 5) true, .poll 0 .ready,
    .getsockopt 0 (some false), .send 0 (.sent 61), .recv 0 .wouldBlock, .poll 0 .ready,
    .recv 0 (.bytes (ascii "HTTP/1.1 200 OK\r\nContent-Length: 1\r\n\r\nA")), .release 0 7,
    .lease 1 target request fun _ => true, .send 1 .failed]

theorem descriptors_conserved_reused : ∃ w,
    StepRuns.Run (fun w e w' => step default default default w e = some w')
      (World.init 16 60) reused w ∧
      w.log.filter (fun call => decide (call = .acquire 5 ∨ call = .release 5)) =
        [.acquire 5, .release 5] ∧
      Conserved w := by
  have hlog : (StepRuns.exec (step default default default) (World.init 16 60) reused).map
      (fun w => w.log.filter fun call => decide (call = .acquire 5 ∨ call = .release 5)) =
        some [.acquire 5, .release 5] := by
    decide
  have ⟨w, hexec, hw⟩ := Option.map_eq_some_iff.mp hlog
  exact ⟨w, StepRuns.run_of_exec hexec, hw, descriptors_conserved default default default 16
    (by decide) 60 _ w (StepRuns.run_of_exec hexec)⟩

end ApiGateway.UpstreamDescriptors
