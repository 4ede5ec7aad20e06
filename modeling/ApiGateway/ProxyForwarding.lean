import ApiGateway.ConnectionPooling
import ApiGateway.RequestForwarding
import ApiGateway.ResponseForwarding
import ApiGateway.StepRuns

/-! `ProxyManager::forward`, any number of calls at a time, over one pool, with
the kernel's sockets and the upstream behind them. A call is cut where it
waits or asks the kernel. Each byte an upstream sends is marked with the serial
of the call whose request it answers; the mark is not in the program. -/

namespace ApiGateway.ProxyForwarding
open ByteText HttpText CrlfLines MessageHeaders ResponseParsing UpstreamClient ConnectionPooling
open ResponseForwarding RequestForwarding RequestReading

/-- A byte with the serial of the call it answers. -/
abbrev Marked := Nat × UInt8

structure Socket where
  pending : Option Nat
  inTransit : List Marked
  arrived : List Marked
  closedByPeer : Bool
  deriving DecidableEq

def Socket.new : Socket := ⟨none, [], [], false⟩

/-- One `forward`: its client, what `recv` gave it, and what it returned. -/
structure Call where
  target : RouteTrie.ProxyTarget
  request : HttpRequest
  client : HttpClient
  received : List Marked
  returned : Option Bytes

structure World where
  pool : ConnectionPool
  sockets : Nat → Option Socket
  calls : Nat → Option Call

/-- `recv` with `MSG_PEEK` on an idle connection would block. -/
def World.isHealthy (w : World) (fd : Nat) : Bool :=
  match w.sockets fd with
  | none => false
  | some socket => socket.arrived = [] ∧ socket.closedByPeer = false

def closeSockets (sockets : Nat → Option Socket) (closed : List Nat) (fd : Nat) : Option Socket :=
  if fd ∈ closed then none else sockets fd

def buildErrorResponse (statusCode : Nat) (statusText body : Bytes) : Bytes :=
  ascii "HTTP/1.1 " ++ toDecimal statusCode ++ ascii " " ++ statusText ++ ascii "\r\n" ++
    ascii "Content-Type: text/plain; charset=utf-8\r\n" ++
    ascii "Content-Length: " ++ toDecimal body.length ++ ascii "\r\n" ++
    ascii "Connection: close\r\n" ++
    ascii "\r\n" ++
    body

def badGateway (body : Bytes) : Bytes := buildErrorResponse 502 (ascii "Bad Gateway") body

def gatewayTimeout (body : Bytes) : Bytes := buildErrorResponse 504 (ascii "Gateway Timeout") body

def upstreamKeepAlive (order : IterationOrder Bytes Bytes) (headers : FirstWinsMap Bytes Bytes) :
    Bool :=
  match (headers.iterate order).find? fun e => caseInsensitiveEquals e.1 (ascii "connection") with
  | none => true
  | some e => caseInsensitiveEquals e.2 (ascii "keep-alive")

structure Head where
  headerSection : Bytes
  ends : find blankLine (headerSection ++ blankLine) = some headerSection.length

def Head.bytes (head : Head) : Bytes := head.headerSection ++ blankLine

inductive Body where
  | sized (content : Bytes)
  | chunked (chunks : List Bytes)
  /-- as after `HEAD`, and with 204 and 304 -/
  | absent

def chunkSize (n : Nat) : Bytes := (Nat.toDigits 16 n).map fun c => UInt8.ofNat c.toNat

def Body.bytes : Body → Bytes
  | .sized content => content
  | .chunked chunks =>
      (chunks.flatMap fun chunk => chunkSize chunk.length ++ crlf ++ chunk ++ crlf) ++
        chunkSize 0 ++ crlf ++ crlf
  | .absent => []

/-- The head announces the body as it is sent. -/
def Frames (head : Head) : Body → Prop
  | .sized content =>
      (∃ field ∈ headerFields head.bytes,
        caseInsensitiveEquals field.1 (ascii "content-length") = true) ∧
      ∀ field ∈ headerFields head.bytes,
        caseInsensitiveEquals field.1 (ascii "content-length") = true →
          digitsValue field.2 = content.length
  | .chunked _ =>
      (∃ field ∈ headerFields head.bytes,
        caseInsensitiveEquals field.1 (ascii "transfer-encoding") = true ∧
        caseInsensitiveEquals field.2 (ascii "chunked") = true) ∧
      ∀ field ∈ headerFields head.bytes,
        caseInsensitiveEquals field.1 (ascii "content-length") = false
  | .absent => True

/-- One final response, after any number of interim ones. -/
structure Answer where
  interim : List Head
  head : Head
  body : Body
  isInterim : ∀ h ∈ interim, (secondPart (startLine h.bytes)).head? = some 49
  framed : Frames head body

def Answer.bytes (answer : Answer) : Bytes :=
  answer.interim.flatMap Head.bytes ++ answer.head.bytes ++ answer.body.bytes

def Answer.firstHead (answer : Answer) : Head := answer.interim.headD answer.head

def Body.isChunked : Body → Bool
  | .chunked _ => true
  | _ => false

/-- If the first head lets its connection go to the pool, it is the only one,
with a body that is not chunked. -/
def Answer.OneMessage (order : IterationOrder Bytes Bytes) (answer : Answer) : Prop :=
  upstreamKeepAlive order (.ofList (headerFields answer.firstHead.bytes)) = true →
    answer.interim = [] ∧ answer.body.isChunked = false

inductive Event where
  /-- `forward` begins; `opened` is what the kernel gives if it asks for a socket -/
  | start (i : Nat) (target : RouteTrie.ProxyTarget) (request : HttpRequest) (opened : Option Nat)
  /-- the socket is writable, with what `SO_ERROR` says -/
  | connected (i : Nat) (socketError : Bool)
  | connectTimeout (i : Nat)
  | sent (i : Nat) (count : Nat)
  | sendError (i : Nat) (timeout : Bool)
  | received (i : Nat) (count now : Nat)
  /-- `recv` fails or finds the end of the stream, or the poll times out -/
  | receiveError (i : Nat) (timeout : Bool)
  | reapStale (hosts : List Bytes) (now : Nat)
  /-- the upstream answers the request pending on a connection -/
  | answer (fd : Nat) (answer : Answer)
  /-- the network delivers some bytes -/
  | deliver (fd : Nat) (count : Nat)
  | peerClose (fd : Nat)

section Steps

variable (requestOrder upstreamOrder responseOrder : IterationOrder Bytes Bytes)

def World.setCall (w : World) (i : Nat) (call : Call) : World :=
  { w with calls := Function.update w.calls i (some call) }

def World.setSocket (w : World) (fd : Nat) (socket : Socket) : World :=
  { w with sockets := Function.update w.sockets fd (some socket) }

def World.openSocket (w : World) : Option Nat → World
  | none => w
  | some fd => w.setSocket fd Socket.new

/-- A return from `forward`: the destructor of the client closes its connection. -/
def World.return (w : World) (i : Nat) (call : Call) (response : Bytes) : World :=
  { w with
    sockets := closeSockets w.sockets call.client.fd.toList
    calls := Function.update w.calls i
      (some { call with client := { call.client with fd := none }, returned := some response }) }

def World.prepare (w : World) (i : Nat) (call : Call) : World :=
  match call.client.prepareRequest upstreamOrder call.request.method
      (buildUpstreamTarget call.request.path call.request.query)
      (upstreamHeaders requestOrder call.request.headers) call.request.body with
  | none => w.return i call (badGateway (ascii "Internal proxy error preparing request"))
  | some client => w.setCall i { call with client := client }

def World.start (w : World) (i : Nat) (target : RouteTrie.ProxyTarget) (request : HttpRequest)
    (opened : Option Nat) : Option World :=
  let lease := w.pool.lease w.isHealthy (hostKeyFor target)
  let adopted := lease.leased.bind fun fd =>
    HttpClient.new.adoptConnection fd (hostKeyFor target)
  let refused := if adopted.isNone then lease.leased.toList else []
  let w := { w with
    pool := lease.pool
    sockets := closeSockets w.sockets (lease.closed ++ refused) }
  match adopted with
  | some client =>
      some (w.prepare requestOrder upstreamOrder i ⟨target, request, client, [], none⟩)
  | none =>
      -- the kernel gives a number that is not in use
      if (opened.bind w.sockets).isSome then none
      else
        match HttpClient.new.connect target opened with
        | none =>
            some (w.return i ⟨target, request, HttpClient.new, [], none⟩
              (badGateway (ascii "Failed to reach upstream host")))
        | some client =>
            some ((w.openSocket client.fd).setCall i ⟨target, request, client, [], none⟩)

/-- The response is complete: it is written out, and the connection goes to the
pool if the upstream keeps it. -/
def World.finish (w : World) (i : Nat) (call : Call) (now : Nat) : Option World :=
  let response := responseText responseOrder call.client.response
  if upstreamKeepAlive responseOrder call.client.response.headers then
    match call.client.releaseFd with
    | (client, none) => some (w.return i { call with client := client } response)
    | (client, some fd) =>
        (w.pool.release (hostKeyFor call.target) fd now).map fun release =>
          { pool := release.pool
            sockets := closeSockets w.sockets release.closed
            calls := Function.update w.calls i
              (some { call with client := client, returned := some response }) }
  else some (w.return i call response)

def World.inState (w : World) (i : Nat) (state : HttpClientState) :
    Option (Call × Nat × Socket) :=
  match w.calls i with
  | none => none
  | some call =>
      match call.client.fd with
      | none => none
      | some fd =>
          match w.sockets fd with
          | none => none
          | some socket =>
              if call.client.state = state ∧ call.returned = none then some (call, fd, socket)
              else none

def World.onConnected (w : World) (i : Nat) (call : Call) (socketError : Bool) : World :=
  let client := call.client.completeConnect socketError
  if client.state ≠ .Connected then
    w.return i { call with client := client }
      (badGateway (ascii "Failed to connect to upstream host"))
  else w.prepare requestOrder upstreamOrder i { call with client := client }

/-- With the first bytes the upstream has a request. -/
def World.onSent (w : World) (i : Nat) (call : Call) (fd : Nat) (socket : Socket) (count : Nat) :
    World :=
  let socket := if call.client.writeOffset = 0 then { socket with pending := some i } else socket
  (w.setSocket fd socket).setCall i { call with client := call.client.onSent count }

/-- After `receive`: the client waits for more, has failed, or has the response. -/
def World.afterReceive (w : World) (i : Nat) (call : Call) (now : Nat) : Option World :=
  match call.client.state with
  | .Complete => w.finish responseOrder i call now
  | .Failed =>
      some (w.return i call (badGateway (ascii "Upstream connection closed unexpectedly")))
  | _ => some (w.setCall i call)

def World.onReceived (w : World) (i : Nat) (call : Call) (fd : Nat) (socket : Socket)
    (count now : Nat) : Option World :=
  let chunk := socket.arrived.take count
  let call := { call with
    client := call.client.onReceived responseOrder (chunk.map Prod.snd)
    received := call.received ++ chunk }
  (w.setSocket fd { socket with arrived := socket.arrived.drop count }).afterReceive responseOrder i
    call now

def step (w : World) : Event → Option World
  | .start i target request opened =>
      if (w.calls i).isSome then none
      else w.start requestOrder upstreamOrder i target request opened
  | .connected i socketError =>
      (w.inState i .Connecting).map fun (call, _, _) =>
        w.onConnected requestOrder upstreamOrder i call socketError
  | .connectTimeout i =>
      (w.inState i .Connecting).map fun (call, _, _) =>
        w.return i call (gatewayTimeout (ascii "Timed out connecting to upstream"))
  | .sent i count =>
      (w.inState i .Sending).bind fun (call, fd, socket) =>
        if count = 0 ∨ call.client.writeOffset + count > call.client.writeBuffer.length then none
        else some (w.onSent i call fd socket count)
  | .sendError i timeout =>
      (w.inState i .Sending).map fun (call, _, _) =>
        w.return i call (if timeout then
            gatewayTimeout (ascii "Timed out sending request to upstream")
          else badGateway (ascii "Failed to send request to upstream"))
  | .received i count now =>
      (w.inState i .Receiving).bind fun (call, fd, socket) =>
        if count = 0 ∨ count > ResponseParsing.kReadChunkSize ∨ count > socket.arrived.length then none
        else w.onReceived responseOrder i call fd socket count now
  | .receiveError i timeout =>
      (w.inState i .Receiving).map fun (call, _, _) =>
        w.return i call (if timeout then
            gatewayTimeout (ascii "Timed out waiting for upstream response")
          else badGateway (ascii "Upstream connection closed unexpectedly"))
  | .reapStale hosts now =>
      let reap := w.pool.reapStale hosts now
      some { w with pool := reap.pool, sockets := closeSockets w.sockets reap.closed }
  | .answer fd answer =>
      (w.sockets fd).bind fun socket =>
        match socket.pending with
        | none => none
        | some i =>
            if socket.closedByPeer then none
            else some (w.setSocket fd { socket with
              pending := none
              inTransit := socket.inTransit ++ answer.bytes.map fun b => (i, b) })
  | .deliver fd count =>
      (w.sockets fd).map fun socket =>
        w.setSocket fd { socket with
          inTransit := socket.inTransit.drop count
          arrived := socket.arrived ++ socket.inTransit.take count }
  | .peerClose fd =>
      (w.sockets fd).bind fun socket =>
        if socket.inTransit = [] then some (w.setSocket fd { socket with closedByPeer := true })
        else none

end Steps

def World.init (maxIdlePerHost : Nat) (idleTimeout : Int) : World :=
  ⟨⟨maxIdlePerHost, idleTimeout, fun _ => []⟩, fun _ => none, fun _ => none⟩

end ApiGateway.ProxyForwarding
