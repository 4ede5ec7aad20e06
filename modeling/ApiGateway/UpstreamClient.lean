import ApiGateway.ResponseParsing
import ApiGateway.RouteTrie

/-! The `HttpClient` object, which holds one upstream connection for one
exchange. The loops of `send` and `receive` are cut at the system calls: one
result at a time. That a call returns to the caller, who polls and calls it
again, shows only in the timeouts. -/

namespace ApiGateway.UpstreamClient
open ByteText HttpText CrlfLines ResponseParsing

inductive HttpClientState where
  | NotConnected | Connecting | Connected | Sending | Receiving | Complete | Failed
  deriving DecidableEq

structure HttpClient where
  fd : Option Nat
  state : HttpClientState
  remoteHostHeader : Bytes
  writeBuffer : Bytes
  writeOffset : Nat
  readBuffer : Bytes
  response : HttpClientResponse
  deriving DecidableEq

/-- A default-constructed client. -/
def HttpClient.new : HttpClient := ⟨none, .NotConnected, [], [], 0, [], .empty⟩

/-- A part of a dotted address: one to three digits, at most 255, no leading zero. -/
def isOctet (part : Bytes) : Bool :=
  part ≠ [] ∧ part.all isdigit ∧ part.length ≤ 3 ∧ digitsValue part ≤ 255 ∧
    (part.length = 1 ∨ part.head? ≠ some 48)

def isIPv4Address (text : Bytes) : Bool :=
  (text.splitOn 46).length = 4 ∧ (text.splitOn 46).all isOctet

/-- Whether `inet_pton` accepts `ip.c_str()` for `AF_INET`: it sees the text up to the first
NUL. -/
def inetPton (ip : Bytes) : Bool := isIPv4Address (ip.takeWhile (· ≠ 0))

theorem mem_of_isIPv4Address {ip : Bytes} (h : isIPv4Address ip = true) {b : UInt8}
    (hb : b ∈ ip) : b = 46 ∨ isdigit b = true := by
  have hall : ∀ part ∈ ip.splitOn 46, isOctet part = true := by
    simp only [isIPv4Address, decide_eq_true_eq, List.all_eq_true] at h
    exact h.2
  have hjoin : ∀ parts : List Bytes, (∀ part ∈ parts, isOctet part = true) →
      b ∈ [46].intercalate parts → b = 46 ∨ isdigit b = true := by
    intro parts hparts hmem
    induction parts with
    | nil => simp [List.intercalate] at hmem
    | cons part rest ih =>
        have hoctet : ∀ c ∈ part, isdigit c = true := by
          have hpart := hparts part (by simp)
          simp only [isOctet, decide_eq_true_eq, List.all_eq_true] at hpart
          exact hpart.2.1
        cases rest with
        | nil =>
            rw [List.intercalate_singleton] at hmem
            exact .inr (hoctet b hmem)
        | cons next more =>
            rw [List.intercalate_cons_cons, List.mem_append, List.mem_append,
              List.mem_singleton] at hmem
            rcases hmem with (hmem | hmem) | hmem
            · exact .inr (hoctet b hmem)
            · exact .inl hmem
            · exact ih (fun p hp => hparts p (by simp [hp])) hmem
  refine hjoin _ hall ?_
  rw [List.intercalate_splitOn]
  exact hb

theorem inetPton_of_isIPv4Address {ip : Bytes} (h : isIPv4Address ip = true) :
    inetPton ip = true := by
  have hwhole : ip.takeWhile (· ≠ 0) = ip := by
    refine List.takeWhile_eq_self_iff.mpr fun b hb => decide_eq_true ?_
    rcases mem_of_isIPv4Address h hb with rfl | hdigit
    · decide
    · rintro rfl
      exact absurd hdigit (by decide)
  rwa [inetPton, hwhole]

/-- `opened` is the descriptor the kernel gives, if the socket can be opened and
the connection begun; `none` is an exception. -/
def createConnectingSocket (ip : Bytes) (opened : Option Nat) : Option Nat :=
  if inetPton ip then opened else none

def hostKeyFor (target : RouteTrie.ProxyTarget) : Bytes :=
  target.host ++ ascii ":" ++ toDecimal target.port.toNat

theorem hostKeyFor_injective : Function.Injective hostKeyFor := by
  intro target target' same
  have hcolon : ascii ":" = [58] := rfl
  rw [hostKeyFor, hostKeyFor, hcolon, List.append_assoc, List.append_assoc,
    List.singleton_append, List.singleton_append] at same
  have hdigits : ∀ n : Nat, 58 ∉ toDecimal n := not_mem_toDecimal (by decide)
  have ⟨hhost, hport⟩ := last_split (hdigits _) (hdigits _) same
  have hvalue := congrArg digitsValue hport
  rw [digitsValue_toDecimal, digitsValue_toDecimal] at hvalue
  cases target
  cases target'
  simp only at hhost hvalue
  rw [hhost, UInt16.toNat_inj.mp hvalue]

def HttpClient.connect (client : HttpClient) (target : RouteTrie.ProxyTarget)
    (opened : Option Nat) : Option HttpClient :=
  if client.state ≠ .NotConnected then none
  else
    (createConnectingSocket target.host opened).map fun fd =>
      { client with fd := some fd, remoteHostHeader := hostKeyFor target, state := .Connecting }

theorem connect_eq_some_iff {client client' : HttpClient} {target : RouteTrie.ProxyTarget}
    {opened : Option Nat} :
    client.connect target opened = some client' ↔
      client.state = .NotConnected ∧ inetPton target.host = true ∧ ∃ fd, opened = some fd ∧
        client' = { client with
          fd := some fd, remoteHostHeader := hostKeyFor target, state := .Connecting } := by
  unfold HttpClient.connect createConnectingSocket
  by_cases hstate : client.state = .NotConnected
  · by_cases haddress : inetPton target.host = true
    · simp [hstate, haddress, eq_comm]
    · simp [hstate, haddress]
  · simp [hstate]

/-- `socketError` is what `SO_ERROR` reports. -/
def HttpClient.completeConnect (client : HttpClient) (socketError : Bool) : HttpClient :=
  if client.state ≠ .Connecting then client
  else if socketError then { client with state := .Failed }
  else { client with state := .Connected }

/-- A client in another state refuses the connection. The descriptor a client
held before is not modelled: the callers adopt into a new client. -/
def HttpClient.adoptConnection (client : HttpClient) (fd : Nat) (remoteHostHeader : Bytes) :
    Option HttpClient :=
  if client.state ≠ .NotConnected ∧ client.state ≠ .Complete ∧ client.state ≠ .Failed then none
  else some ⟨some fd, .Connected, remoteHostHeader, [], 0, [], .empty⟩

def HttpClient.releaseFd (client : HttpClient) : HttpClient × Option Nat :=
  match client.fd with
  | none => (client, none)
  | some fd => ({ client with fd := none, state := .NotConnected }, some fd)

def requestText (order : IterationOrder Bytes Bytes) (method : HttpMethod) (path : Bytes)
    (remoteHostHeader : Bytes) (headers : FirstWinsMap Bytes Bytes) (body : Bytes) : Bytes :=
  let hasHeader := fun name => (headers.iterate order).any fun e => caseInsensitiveEquals e.1 name
  httpMethodToString method ++ ascii " " ++ path ++ ascii " HTTP/1.1\r\n" ++
    ((headers.iterate order).flatMap fun e => e.1 ++ ascii ": " ++ e.2 ++ ascii "\r\n") ++
    (if hasHeader (ascii "host") then [] else ascii "Host: " ++ remoteHostHeader ++ ascii "\r\n") ++
    (if body ≠ [] ∧ ¬ hasHeader (ascii "content-length") then
      ascii "Content-Length: " ++ toDecimal body.length ++ ascii "\r\n" else []) ++
    (if hasHeader (ascii "connection") then [] else ascii "Connection: close\r\n") ++
    ascii "\r\n" ++ body

/-- `none` is `std::logic_error`. -/
def HttpClient.prepareRequest (order : IterationOrder Bytes Bytes) (client : HttpClient)
    (method : HttpMethod) (path : Bytes) (headers : FirstWinsMap Bytes Bytes) (body : Bytes) :
    Option HttpClient :=
  if client.state ≠ .Connected then none
  else some { client with
    writeBuffer := requestText order method path client.remoteHostHeader headers body
    writeOffset := 0
    state := .Sending }

/-- A `send` that took `count` bytes; with the last of them the client goes on
to receive. -/
def HttpClient.onSent (client : HttpClient) (count : Nat) : HttpClient :=
  if client.writeOffset + count < client.writeBuffer.length then
    { client with writeOffset := client.writeOffset + count }
  else
    { client with
      writeBuffer := []
      writeOffset := client.writeOffset + count
      state := .Receiving }

/-- The result of one `recv`; `wouldBlock` stands for `EAGAIN` and `EINTR`. -/
inductive RecvResult where
  | bytes (chunk : Bytes)
  | closed
  | wouldBlock
  | failed
  deriving DecidableEq

def HttpClient.onReceived (order : IterationOrder Bytes Bytes) (client : HttpClient)
    (chunk : Bytes) : HttpClient :=
  let appended := { client with readBuffer := client.readBuffer ++ chunk }
  if appended.readBuffer.length > kMaxResponseSize then { appended with state := .Failed }
  else
    match tryParseResponse order appended.readBuffer with
    | .error _ => { appended with state := .Failed }
    | .ok none => appended
    | .ok (some response) =>
        { appended with state := .Complete, readBuffer := [], response := response }

def HttpClient.onRecv (order : IterationOrder Bytes Bytes) (client : HttpClient) :
    RecvResult → HttpClient
  | .bytes chunk => client.onReceived order chunk
  | .closed => { client with state := .Failed }
  | .wouldBlock => client
  | .failed => { client with state := .Failed }

/-- Calls of `receive` that meet these results; in another state than
`Receiving` no more are asked for. -/
def HttpClient.receive (order : IterationOrder Bytes Bytes) (client : HttpClient) :
    List RecvResult → HttpClient
  | [] => client
  | result :: rest =>
      if client.state ≠ .Receiving then client else (client.onRecv order result).receive order rest

def receivedBytes (results : List RecvResult) : Bytes :=
  results.flatMap fun
    | .bytes chunk => chunk
    | _ => []

theorem onReceived_cases (order : IterationOrder Bytes Bytes) (client : HttpClient)
    (chunk : Bytes) :
    client.onReceived order chunk =
        { client with readBuffer := client.readBuffer ++ chunk, state := .Failed } ∨
      client.onReceived order chunk = { client with readBuffer := client.readBuffer ++ chunk } ∨
      ∃ response, tryParseResponse order (client.readBuffer ++ chunk) = .ok (some response) ∧
        client.onReceived order chunk =
          { client with readBuffer := [], state := .Complete, response := response } := by
  unfold HttpClient.onReceived
  simp only
  split_ifs with hlarge
  · exact .inl rfl
  · cases hparse : tryParseResponse order (client.readBuffer ++ chunk) with
    | error ex => exact .inl rfl
    | ok result =>
        cases result with
        | none => exact .inr (.inl rfl)
        | some response => exact .inr (.inr ⟨response, rfl, rfl⟩)

theorem receive_of_not_receiving (order : IterationOrder Bytes Bytes) {client : HttpClient}
    (h : client.state ≠ .Receiving) (results : List RecvResult) :
    client.receive order results = client := by
  cases results with
  | nil => rfl
  | cons result rest => rw [HttpClient.receive, if_pos h]

theorem receive_complete {order : IterationOrder Bytes Bytes} {client : HttpClient}
    {results : List RecvResult} (receiving : client.state = .Receiving)
    (complete : (client.receive order results).state = .Complete) :
    ∃ taken, taken <+: client.readBuffer ++ receivedBytes results ∧
      tryParseResponse order taken = .ok (some (client.receive order results).response) := by
  induction results generalizing client with
  | nil => simp [HttpClient.receive, receiving] at complete
  | cons result rest ih =>
      have hgo : client.receive order (result :: rest) =
          (client.onRecv order result).receive order rest := by
        rw [HttpClient.receive, if_neg (not_not.mpr receiving)]
      rw [hgo] at complete ⊢
      cases result with
      | bytes chunk =>
          change (HttpClient.receive order (client.onReceived order chunk) rest).state = _
            at complete
          change ∃ taken, _ ∧ _ =
            Except.ok (some (HttpClient.receive order (client.onReceived order chunk) rest).response)
          have hbytes : receivedBytes (.bytes chunk :: rest) = chunk ++ receivedBytes rest := rfl
          rw [hbytes, ← List.append_assoc]
          rcases onReceived_cases order client chunk with hfail | hmore | ⟨response, hparse, hdone⟩
          · rw [hfail, receive_of_not_receiving order (by simp)] at complete
            cases complete
          · rw [hmore] at complete ⊢
            exact ih (by exact receiving) complete
          · rw [hdone, receive_of_not_receiving order (by simp)]
            exact ⟨_, List.prefix_append _ _, hparse⟩
      | closed =>
          rw [receive_of_not_receiving order (by simp [HttpClient.onRecv])] at complete
          cases complete
      | wouldBlock => exact ih receiving complete
      | failed =>
          rw [receive_of_not_receiving order (by simp [HttpClient.onRecv])] at complete
          cases complete

end ApiGateway.UpstreamClient
