import ApiGateway.DownstreamRoundTrip
import ApiGateway.ProxyForwarding
import ApiGateway.ResponseBuilding
import ApiGateway.ResponseCompletion
import ApiGateway.UpstreamRoundTrip

/-! Gateways in a row, each the upstream of the one before it. Every gateway reads a request
cut as its socket cuts it, writes its own, reads the answer cut likewise, and writes the
response of it or a text of its own where the exchange failed. -/

namespace ApiGateway.GatewayChains
open ByteText HttpText CrlfLines MessageHeaders RequestParsing UpstreamClient
open ChunkedReading (feed)
open RequestReading (Connection HttpRequest Rejection onChunk outcome outcomeOf outcome_feed
  requestOf dispatchOf makeRequest makeRequest_dispatchOf parsed_in)
open ResponseParsing (HttpClientResponse kMaxResponseSize kMaxBodySize tryParseResponse)
open RequestForwarding (buildUpstreamTarget upstreamHeaders upstreamRequest startText From)
open ResponseForwarding (responseText statusText)
open ResponseFraming (IsHead bodyOf_length statusOf)
open ProxyForwarding (badGateway gatewayTimeout buildErrorResponse)
open RequestTransparency (passedOn_idem)
open UpstreamRoundTrip (Reread)
open UpstreamReads (Delivers)

/-- What comes on a connection, and whether the connection ends behind it. -/
structure Answer where
  bytes : Bytes
  closes : Bool
  deriving DecidableEq

structure Cuts where
  chunks : Bytes → List Bytes
  nonempty : ∀ message, ∀ chunk ∈ chunks message, chunk ≠ []
  whole : ∀ message, (chunks message).flatten = message

/-- Results of `recv` for an answer, up to the end of the connection or to a wait that runs
out. -/
structure Reads where
  results : Answer → List RecvResult
  delivers : ∀ answer, Delivers answer.bytes (results answer)
  opened : ∀ answer, answer.closes = false → .closed ∉ results answer

/-- No wait runs out before the answer has come, and the end of the connection with it. -/
structure Reads.Whole (reads : Reads) : Prop where
  bytes : ∀ answer, receivedBytes (reads.results answer) = answer.bytes
  ended : ∀ answer, .closed ∈ reads.results answer ∨ .failed ∈ reads.results answer ↔
    answer.closes = true

/-- How far `forward` comes with a new connection. -/
inductive Link where
  /-- `connect` throws -/
  | unreached
  | connectTimeout
  | connectError
  | sendError
  | sendTimeout
  | sent
  deriving DecidableEq

/-- A gateway that forwards a request over a new connection. The orders are those of the maps
that `tryParseRequest`, `forward`, `prepareRequest` and `tryParseResponse` go through, and the
last of the reply's. -/
structure Hop where
  target : RouteTrie.ProxyTarget
  address : isIPv4Address target.host = true
  fd : Nat
  requestId : Bytes
  parseOrder : IterationOrder Bytes Bytes
  upstreamOrder : IterationOrder Bytes Bytes
  requestOrder : IterationOrder Bytes Bytes
  responseOrder : IterationOrder Bytes Bytes
  replyOrder : IterationOrder Bytes Bytes
  cuts : Cuts
  link : Link
  reads : Reads

structure Hop.Reliable (hop : Hop) : Prop where
  link : hop.link = .sent
  reads : hop.reads.Whole

/-- The end of `forward`, when `receive` has met the results of its reads. -/
def Hop.result (hop : Hop) (client : HttpClient) : Bytes :=
  match client.state with
  | .Failed => badGateway (ascii "Upstream connection closed unexpectedly")
  | .Complete => responseText hop.replyOrder client.response
  | _ => gatewayTimeout (ascii "Timed out waiting for upstream response")

/-- `forward`, with an empty pool. -/
def Hop.forward (hop : Hop) (upstream : Bytes → Answer) (request : HttpRequest) : Bytes :=
  let opened := if hop.link = .unreached then none else some hop.fd
  match HttpClient.new.connect hop.target opened with
  | none => badGateway (ascii "Failed to reach upstream host")
  | some client =>
  if hop.link = .connectTimeout then gatewayTimeout (ascii "Timed out connecting to upstream")
  else
    let client := client.completeConnect (hop.link = .connectError)
    if client.state ≠ .Connected then badGateway (ascii "Failed to connect to upstream host")
    else
      match client.prepareRequest hop.requestOrder request.method
        (buildUpstreamTarget request.path request.query)
        (upstreamHeaders hop.upstreamOrder request.headers) request.body with
      | none => badGateway (ascii "Internal proxy error preparing request")
      | some prepared =>
      if hop.link = .sendError then badGateway (ascii "Failed to send request to upstream")
      else if hop.link = .sendTimeout then
        gatewayTimeout (ascii "Timed out sending request to upstream")
      else
        hop.result ((prepared.onSent prepared.writeBuffer.length).receive hop.responseOrder
          (hop.reads.results (upstream prepared.writeBuffer)))

def rejectionText (rejection : Rejection) : Bytes :=
  match ResponseBuilding.textResponse rejection.statusCode rejection.statusText rejection.body with
  | .ok response => response.toBytes
  | .error _ => []

/-- What a gateway sends to a client that it admits, with no middleware before the route. It
closes the connection behind its response. -/
def Hop.answer (hop : Hop) (upstream : Bytes → Answer) (message : Bytes) : Answer :=
  match feed (onChunk hop.parseOrder) (.fresh hop.requestId) (hop.cuts.chunks message) with
  | .stop (.dispatch task) => ⟨hop.forward upstream (makeRequest task), true⟩
  | .stop (.reject rejection) => ⟨rejectionText rejection, true⟩
  | .more _ => ⟨[], false⟩

def through : List Hop → (Bytes → Answer) → Bytes → Answer
  | [], origin, message => origin message
  | hop :: rest, origin, message => hop.answer (through rest origin) message

/-- The parser gets this response from the whole message and nothing from a beginning of it. -/
structure Delimited (order : IterationOrder Bytes Bytes) (message : Bytes)
    (response : HttpClientResponse) : Prop where
  whole : tryParseResponse order message = .ok (some response)
  beginning : ∀ n < message.length, tryParseResponse order (message.take n) = .ok none
  size : message.length ≤ kMaxResponseSize

theorem Delimited.positive {order : IterationOrder Bytes Bytes} {message : Bytes}
    {response : HttpClientResponse} (delimited : Delimited order message response) :
    0 < message.length := by
  by_contra hnone
  have hempty : message = [] := List.eq_nil_of_length_eq_zero (by omega)
  have hwhole := delimited.whole
  rw [hempty] at hwhole
  cases hwhole

theorem Delimited.onReceived {order : IterationOrder Bytes Bytes} {message : Bytes}
    {response : HttpClientResponse} (delimited : Delimited order message response)
    {client : HttpClient} {chunk : Bytes} {n : Nat} (buffer : client.readBuffer = message.take n)
    (now : message.take n ++ chunk = message.take (n + chunk.length))
    (arrived : n + chunk.length ≤ message.length) :
    client.onReceived order chunk =
      if n + chunk.length = message.length then
        { client with readBuffer := [], state := .Complete, response := response }
      else { client with readBuffer := message.take (n + chunk.length) } := by
  have hsize : ¬ (message.take (n + chunk.length)).length > kMaxResponseSize := by
    have hfits := delimited.size
    rw [List.length_take]
    omega
  simp only [HttpClient.onReceived, buffer, now, if_neg hsize]
  split_ifs with hlast
  · rw [hlast, List.take_length, delimited.whole]
  · rw [delimited.beginning _ (by omega)]

theorem Delimited.receive {order : IterationOrder Bytes Bytes} {message : Bytes}
    {response : HttpClientResponse} (delimited : Delimited order message response)
    {client : HttpClient} {results : List RecvResult} {n : Nat}
    (receiving : client.state = .Receiving) (buffer : client.readBuffer = message.take n)
    (before : n < message.length)
    (last : ∀ result ∈ results.dropLast, result ≠ .closed ∧ result ≠ .failed)
    (bytes : message.take n ++ receivedBytes results = message) :
    client.receive order results =
      { client with readBuffer := [], state := .Complete, response := response } := by
  have hlength : n + (receivedBytes results).length = message.length := by
    have hsame := congrArg List.length bytes
    rw [List.length_append, List.length_take] at hsame
    omega
  induction results generalizing client n with
  | nil =>
      rw [show receivedBytes [] = [] from rfl, List.length_nil] at hlength
      omega
  | cons result rest ih =>
      obtain ⟨hlast, hends⟩ := UpstreamReads.last_cons last
      -- the connection cannot end before the response is there
      have hgoes : receivedBytes (result :: rest) = receivedBytes rest → rest ≠ [] := by
        rintro hsame rfl
        rw [hsame, show receivedBytes [] = [] from rfl, List.length_nil] at hlength
        omega
      rw [HttpClient.receive, if_neg (not_not.mpr receiving)]
      cases result with
      | bytes chunk =>
          have hbytes : receivedBytes (.bytes chunk :: rest) = chunk ++ receivedBytes rest := rfl
          rw [hbytes, ← List.append_assoc] at bytes
          rw [hbytes, List.length_append] at hlength
          obtain ⟨hthere, hnow⟩ := UpstreamReads.take_append_of_prefix before.le
            (List.IsPrefix.trans ⟨_, bytes⟩ (List.prefix_refl message))
          change HttpClient.receive order (client.onReceived order chunk) rest = _
          rw [delimited.onReceived buffer hnow hthere]
          split_ifs with hdone
          · exact receive_of_not_receiving order (by simp) rest
          · rw [hnow] at bytes
            rw [ih (by exact receiving) rfl (by omega) hlast bytes (by omega)]
      | closed => exact absurd rfl (hends (hgoes rfl)).1
      | wouldBlock => exact ih receiving buffer before hlast bytes hlength
      | failed => exact absurd rfl (hends (hgoes rfl)).2

/-- The parser waits for more behind every beginning of the bytes. -/
structure Unfinished (order : IterationOrder Bytes Bytes) (bytes : Bytes) : Prop where
  beginning : ∀ n ≤ bytes.length, tryParseResponse order (bytes.take n) = .ok none
  size : bytes.length ≤ kMaxResponseSize

theorem Unfinished.receive {order : IterationOrder Bytes Bytes} {bytes : Bytes}
    (unfinished : Unfinished order bytes) {client : HttpClient} {results : List RecvResult}
    {n : Nat} (receiving : client.state = .Receiving) (buffer : client.readBuffer = bytes.take n)
    (before : n ≤ bytes.length) (inOrder : bytes.take n ++ receivedBytes results <+: bytes) :
    (client.receive order results).state =
      if .closed ∈ results ∨ .failed ∈ results then .Failed else .Receiving := by
  induction results generalizing client n with
  | nil => simpa [HttpClient.receive] using receiving
  | cons result rest ih =>
      rw [HttpClient.receive, if_neg (not_not.mpr receiving)]
      cases result with
      | bytes chunk =>
          have hbytes : receivedBytes (.bytes chunk :: rest) = chunk ++ receivedBytes rest := rfl
          rw [hbytes, ← List.append_assoc] at inOrder
          obtain ⟨hthere, hnow⟩ := UpstreamReads.take_append_of_prefix before
            ((List.prefix_append _ _).trans inOrder)
          rw [hnow] at inOrder
          have hmore : client.onReceived order chunk =
              { client with readBuffer := bytes.take (n + chunk.length) } := by
            have hsize : ¬ (bytes.take (n + chunk.length)).length > kMaxResponseSize := by
              have hfits := unfinished.size
              rw [List.length_take]
              omega
            simp only [HttpClient.onReceived, buffer, hnow, if_neg hsize,
              unfinished.beginning _ hthere]
          change (HttpClient.receive order (client.onReceived order chunk) rest).state = _
          rw [hmore, ih (by exact receiving) rfl hthere inOrder]
          simp
      | closed =>
          rw [receive_of_not_receiving order (by simp [HttpClient.onRecv])]
          simp [HttpClient.onRecv]
      | wouldBlock =>
          have hsame := ih receiving buffer before inOrder
          simpa [HttpClient.onRecv] using hsame
      | failed =>
          rw [receive_of_not_receiving order (by simp [HttpClient.onRecv])]
          simp [HttpClient.onRecv]

/-- The response that a text of `buildErrorResponse` stands for. -/
def errorResponse (statusCode : Nat) (statusText body : Bytes) : HttpClientResponse :=
  ⟨statusCode, statusText, .ofList [(ascii "Content-Type", ascii "text/plain; charset=utf-8")],
    body⟩

theorem responseText_errorResponse (order : IterationOrder Bytes Bytes) {statusCode : Nat}
    {statusText : Bytes} (named : statusText ≠ []) (body : Bytes) :
    responseText order (errorResponse statusCode statusText body) =
      buildErrorResponse statusCode statusText body := by
  have hone : (errorResponse statusCode statusText body).headers.iterate order =
      [(ascii "Content-Type", ascii "text/plain; charset=utf-8")] :=
    List.perm_singleton.mp (FirstWinsMap.iterate_perm order _)
  have hkept : isHopByHopHeader (ascii "Content-Type") = false := by decide
  have htype : ascii "Content-Type: text/plain; charset=utf-8\r\n" = ascii "Content-Type" ++
      ascii ": " ++ ascii "text/plain; charset=utf-8" ++ ascii "\r\n" := rfl
  rw [responseText, hone, buildErrorResponse, htype]
  simp [errorResponse, named, hkept]

def badGatewayResponse (body : Bytes) : HttpClientResponse :=
  errorResponse 502 (ascii "Bad Gateway") body

def gatewayTimeoutResponse (body : Bytes) : HttpClientResponse :=
  errorResponse 504 (ascii "Gateway Timeout") body

theorem responseText_badGateway (order : IterationOrder Bytes Bytes) (body : Bytes) :
    responseText order (badGatewayResponse body) = badGateway body :=
  responseText_errorResponse order (by decide) body

theorem responseText_gatewayTimeout (order : IterationOrder Bytes Bytes) (body : Bytes) :
    responseText order (gatewayTimeoutResponse body) = gatewayTimeout body :=
  responseText_errorResponse order (by decide) body

def filled (reasonPhrase : Bytes) : Bytes :=
  if reasonPhrase = [] then ascii "OK" else reasonPhrase

/-- What the reader of a gateway's answer gets for a response of the origin. -/
structure Relayed (response relayed : HttpClientResponse) : Prop where
  statusCode : relayed.statusCode = response.statusCode
  reasonPhrase : relayed.reasonPhrase = filled response.reasonPhrase
  body : relayed.body = response.body
  headers : relayed.headers.entries.Perm
    (passedOn response.headers.entries ++ ResponseForwarding.ownFields response.body.length)

structure SameResponse (response held : HttpClientResponse) : Prop where
  statusCode : held.statusCode = response.statusCode
  reasonPhrase : filled held.reasonPhrase = filled response.reasonPhrase
  body : held.body = response.body
  passed : (passedOn held.headers.entries).Perm (passedOn response.headers.entries)

theorem filled_filled (reasonPhrase : Bytes) :
    filled (filled reasonPhrase) = filled reasonPhrase := by
  unfold filled
  by_cases h : reasonPhrase = []
  · rw [if_pos h]
    rfl
  · rw [if_neg h, if_neg h]

theorem SameResponse.refl (response : HttpClientResponse) : SameResponse response response :=
  ⟨rfl, rfl, rfl, .refl _⟩

theorem passedOn_relayed {fields held : List (Bytes × Bytes)} {bodyLength : Nat}
    (h : held.Perm (passedOn fields ++ ResponseForwarding.ownFields bodyLength)) :
    (passedOn held).Perm (passedOn fields) := by
  have hfilter := h.filter fun field => !isHopByHopHeader field.1
  rwa [List.filter_append, ← passedOn, ← passedOn, ← passedOn,
    ResponseForwarding.passedOn_ownFields, List.append_nil, passedOn_idem] at hfilter

theorem Relayed.same {response relayed : HttpClientResponse} (h : Relayed response relayed) :
    SameResponse response relayed := by
  refine ⟨h.statusCode, ?_, h.body, passedOn_relayed h.headers⟩
  rw [h.reasonPhrase, filled_filled]

theorem SameResponse.trans {response held held' : HttpClientResponse}
    (h : SameResponse response held) (h' : SameResponse held held') :
    SameResponse response held' :=
  ⟨h'.statusCode.trans h.statusCode, h'.reasonPhrase.trans h.reasonPhrase, h'.body.trans h.body,
    h'.passed.trans h.passed⟩

theorem SameResponse.relayed {response held relayed : HttpClientResponse}
    (h : SameResponse response held) (next : Relayed held relayed) : Relayed response relayed := by
  refine ⟨next.statusCode.trans h.statusCode, next.reasonPhrase.trans h.reasonPhrase,
    next.body.trans h.body, ?_⟩
  rw [← h.body]
  exact next.headers.trans (h.passed.append_right _)

theorem joinLines_length_perm {fields fields' : List (Bytes × Bytes)} (h : fields.Perm fields') :
    (joinLines (fields.map renderField)).length = (joinLines (fields'.map renderField)).length := by
  simp only [joinLines, List.length_flatMap]
  exact (((h.map renderField).map fun line => (line ++ crlf).length).sum_eq)

theorem responseText_length {response held : HttpClientResponse} (h : SameResponse response held)
    (order order' : IterationOrder Bytes Bytes) :
    (responseText order held).length = (responseText order' response).length := by
  have hstatus : statusText held = statusText response := by
    change ascii "HTTP/1.1 " ++ toDecimal held.statusCode ++ ascii " " ++ filled held.reasonPhrase =
      ascii "HTTP/1.1 " ++ toDecimal response.statusCode ++ ascii " " ++
        filled response.reasonPhrase
    rw [h.statusCode, h.reasonPhrase]
  have hpassed : (passedOn (held.headers.iterate order)).Perm
      (passedOn (response.headers.iterate order')) :=
    ((FirstWinsMap.iterate_perm order held.headers).filter _).trans
      (h.passed.trans ((FirstWinsMap.iterate_perm order' response.headers).filter _).symm)
  have hlines := joinLines_length_perm
    (hpassed.append_right (ResponseForwarding.ownFields response.body.length))
  rw [ResponseForwarding.responseText_eq, ResponseForwarding.responseText_eq, hstatus, h.body,
    joinLines_cons, joinLines_cons]
  simp only [List.length_append] at hlines ⊢
  rw [hlines]

theorem read_responseText {response : HttpClientResponse} (h : DownstreamRoundTrip.Parsed response)
    (order : IterationOrder Bytes Bytes) :
    startLine (responseText order response) = statusText response ∧
      headerFields (responseText order response) =
        DownstreamRoundTrip.writtenFields order response ∧
      bodyOf (responseText order response) = response.body ∧
      statusOf (responseText order response) = response.statusCode := by
  obtain ⟨hstart, hfields, hbody⟩ :=
    ResponseForwarding.read_responseText order h.trimmed h.noCrlf h.fields
  refine ⟨hstart, hfields, hbody, ?_⟩
  rw [statusOf, hstart, (ResponseForwarding.statusText_parts response).1, digitsValue_toDecimal]

theorem isHead_responseText {response : HttpClientResponse}
    (h : DownstreamRoundTrip.Parsed response) (order : IterationOrder Bytes Bytes) :
    IsHead (responseText order response) := by
  obtain ⟨hstart, _, _, hstatus⟩ := read_responseText h order
  refine ⟨⟨?_, ?_, ?_⟩, fun line hline _ => ?_⟩
  · rw [hstart]
    simp [statusText, ascii]
  · rw [hstart, (ResponseForwarding.statusText_parts response).1]
    exact ⟨toDecimal_ne_nil _, all_isdigit_toDecimal _⟩
  · rw [hstatus]
    exact h.code
  · rw [(DownstreamRoundTrip.ended_responseText order h).2, List.tail_cons] at hline
    obtain ⟨field, hfield, hrender⟩ := List.mem_map.mp hline
    obtain ⟨⟨hnamed, hcolon, htrimmed, _⟩, _⟩ := DownstreamRoundTrip.isField_writtenFields h hfield
    rw [← hrender, fieldOf_written ⟨hnamed, hcolon, htrimmed⟩]
    simp

theorem relayed_responseText {response : HttpClientResponse}
    (h : DownstreamRoundTrip.Parsed response) (order : IterationOrder Bytes Bytes) :
    Relayed response
      (ResponseCompletion.responseOf (responseText order response) response.body.length) := by
  obtain ⟨hstart, hfields, hbody, hstatus⟩ := read_responseText h order
  unfold ResponseCompletion.responseOf
  rw [hstatus, hstart, (ResponseForwarding.statusText_parts response).2,
    DownstreamRoundTrip.trimView_reason h, hbody, List.take_length, hfields]
  refine ⟨rfl, rfl, rfl, ?_⟩
  rw [FirstWinsMap.entries_ofList,
    FirstWinsMap.firsts_of_nodup (DownstreamRoundTrip.writtenFields_nodup order response)]
  exact DownstreamRoundTrip.writtenFields_perm order response

theorem delimited_responseText {response : HttpClientResponse}
    (h : DownstreamRoundTrip.Parsed response) (writeOrder readOrder : IterationOrder Bytes Bytes)
    (head : (responseText writeOrder response).length ≤
      ResponseParsing.kMaxHeaderSectionLength + response.body.length) :
    Delimited readOrder (responseText writeOrder response)
      (ResponseCompletion.responseOf (responseText writeOrder response) response.body.length) := by
  obtain ⟨headerEnd, hend⟩ :=
    Option.ne_none_iff_exists'.mp (DownstreamRoundTrip.ended_responseText writeOrder h).1
  obtain ⟨_, hfields, hbody, _⟩ := read_responseText h writeOrder
  have hannounced : ResponseParsing.contentLengthOf readOrder
      (.ofList (headerFields (responseText writeOrder response))) = .ok response.body.length := by
    rw [hfields]
    exact DownstreamRoundTrip.contentLengthOf_written writeOrder readOrder h.short
  have hlength := bodyOf_length hend
  rw [hbody] at hlength
  have hwhole : headerEnd + 4 ≤ (responseText writeOrder response).length := find_add_length_le hend
  have hparse := fun n => ResponseCompletion.parse_beginning_eq hend (n := n)
    (isHead_responseText h writeOrder) hannounced
  refine ⟨?_, fun n hn => ?_, ?_⟩
  · have hlast := hparse _ hwhole le_rfl
    rwa [List.take_length, if_neg (by omega)] at hlast
  · by_cases hplace : n < headerEnd + 4
    · exact ResponseCompletion.parse_unended hend readOrder hplace (by omega)
    · rw [hparse n (by omega) hn.le, if_pos (by omega)]
  · have hshort := h.short
    unfold kMaxResponseSize
    omega

structure SameRequest (parsed held : ParsedRequestView) : Prop where
  method : held.method = parsed.method
  path : held.path.text = parsed.path.text
  query : held.query.text = parsed.query.text
  body : held.body.text = parsed.body.text
  passed : (passedOn held.headers.entries).Perm (passedOn parsed.headers.entries)

theorem SameRequest.reread {parsed held reread : ParsedRequestView}
    {ownFields : List (Bytes × Bytes)} (h : SameRequest parsed held)
    (next : Reread held reread ownFields) : Reread parsed reread ownFields :=
  ⟨next.method.trans h.method, next.path.trans h.path, next.query.trans h.query,
    next.body.trans h.body, next.headers.trans (h.passed.append_right _)⟩

def Hop.writes (hop : Hop) (parsed : ParsedRequestView) : Bytes :=
  upstreamRequest hop.upstreamOrder hop.requestOrder hop.target
    (requestOf hop.parseOrder hop.requestId parsed)

def Hop.ownFields (hop : Hop) (parsed : ParsedRequestView) : List (Bytes × Bytes) :=
  RequestForwarding.ownFields (hostKeyFor hop.target) parsed.body.text

/-- What a gateway writes for the request keeps the limits of its reader. -/
structure Fits (parsed : ParsedRequestView) (hop : Hop) : Prop where
  line : (startText (requestOf hop.parseOrder hop.requestId parsed)).length ≤
    kMaxRequestLineLength
  head : (hop.writes parsed).length ≤ kMaxHeaderSectionLength + parsed.body.text.length

section Parsed

variable {order : IterationOrder Bytes Bytes} {message : Bytes} {parsed held : ParsedRequestView}
  {requestBytes : Nat} (ok : tryParseRequest order message = .ok (some held, requestBytes))
include ok

theorem from_requestOf (order' : IterationOrder Bytes Bytes) (requestId : Bytes) :
    From message (requestOf order' requestId held) := by
  have hok : tryParseRequest order ({ Connection.fresh requestId with
      readBuffer := message } : Connection).readBuffer = .ok (some held, requestBytes) := ok
  obtain ⟨hpath, hquery, hbody⟩ := parsed_in hok
  have hfrom := RequestForwarding.from_dispatched order' hok
  rwa [makeRequest_dispatchOf hpath hquery hbody] at hfrom

theorem writtenFields_perm (hop : Hop) :
    (RequestForwarding.writtenFields hop.upstreamOrder hop.requestOrder hop.target
      (requestOf hop.parseOrder hop.requestId held)).Perm
      (passedOn held.headers.entries ++ hop.ownFields held) := by
  have hperm := RequestForwarding.writtenFields_perm hop.upstreamOrder hop.requestOrder hop.target
    (from_requestOf ok hop.parseOrder hop.requestId)
  rwa [← FirstWinsMap.entries_ofList, ← (tryParseRequest_ok ok).1] at hperm

theorem Hop.answer_parsed (hop : Hop) (same : order = hop.parseOrder)
    (upstream : Bytes → Answer) :
    hop.answer upstream message =
      ⟨hop.forward upstream (requestOf hop.parseOrder hop.requestId held), true⟩ := by
  have hread : (find blankLine message).isSome := by
    unfold tryParseRequest at ok
    split at ok
    · cases ok
    · next headerEnd hend => simp [hend]
  have hfeed := @outcome_feed hop.parseOrder hop.requestId _ (hop.cuts.nonempty message)
    (by rw [hop.cuts.whole]; exact hread)
  rw [hop.cuts.whole, outcomeOf, ← same, ok, same] at hfeed
  unfold Hop.answer
  revert hfeed
  cases feed (onChunk hop.parseOrder) (.fresh hop.requestId) (hop.cuts.chunks message) with
  | more conn => exact fun hfeed => absurd hfeed (by simp [outcome])
  | stop verdict =>
      cases verdict with
      | reject rejection => exact fun hfeed => absurd hfeed (by simp [outcome])
      | dispatch task =>
          intro hfeed
          simp only [outcome, RequestReading.Outcome.dispatched.injEq] at hfeed
          simp only [hfeed]

end Parsed

theorem Hop.same_reread (hop : Hop) {parsed reread : ParsedRequestView}
    (h : Reread parsed reread (hop.ownFields parsed)) : SameRequest parsed reread := by
  refine ⟨h.method, h.path, h.query, h.body, ?_⟩
  have hfilter := h.headers.filter fun field => !isHopByHopHeader field.1
  rwa [List.filter_append, ← passedOn, ← passedOn, ← passedOn, Hop.ownFields,
    RequestTransparency.passedOn_ownFields hop.address, List.append_nil, passedOn_idem] at hfilter

def Hop.waiting (hop : Hop) : HttpClient :=
  ⟨some hop.fd, .Receiving, hostKeyFor hop.target, [], 0, [], .empty⟩

/-- The response whose text `forward` returns. -/
def Hop.received (hop : Hop) (answer : Answer) : HttpClientResponse :=
  match hop.link with
  | .unreached => badGatewayResponse (ascii "Failed to reach upstream host")
  | .connectTimeout => gatewayTimeoutResponse (ascii "Timed out connecting to upstream")
  | .connectError => badGatewayResponse (ascii "Failed to connect to upstream host")
  | .sendError => badGatewayResponse (ascii "Failed to send request to upstream")
  | .sendTimeout => gatewayTimeoutResponse (ascii "Timed out sending request to upstream")
  | .sent =>
      let client := hop.waiting.receive hop.responseOrder (hop.reads.results answer)
      match client.state with
      | .Failed => badGatewayResponse (ascii "Upstream connection closed unexpectedly")
      | .Complete => client.response
      | _ => gatewayTimeoutResponse (ascii "Timed out waiting for upstream response")

theorem onReceived_writeOffset (order : IterationOrder Bytes Bytes) (client : HttpClient)
    (writeOffset : Nat) (chunk : Bytes) :
    ({ client with writeOffset := writeOffset } : HttpClient).onReceived order chunk =
      { client.onReceived order chunk with writeOffset := writeOffset } := by
  unfold HttpClient.onReceived
  simp only
  split_ifs
  · rfl
  · split <;> rfl

theorem receive_writeOffset (order : IterationOrder Bytes Bytes) (client : HttpClient)
    (writeOffset : Nat) (results : List RecvResult) :
    ({ client with writeOffset := writeOffset } : HttpClient).receive order results =
      { client.receive order results with writeOffset := writeOffset } := by
  induction results generalizing client with
  | nil => rfl
  | cons result rest ih =>
      rw [HttpClient.receive, HttpClient.receive]
      by_cases hreceiving : client.state = .Receiving
      · rw [if_neg (not_not.mpr hreceiving), if_neg (not_not.mpr hreceiving), ← ih]
        cases result with
        | bytes chunk =>
            exact congrArg (fun client => HttpClient.receive order client rest)
              (onReceived_writeOffset order client writeOffset chunk)
        | closed => rfl
        | wouldBlock => rfl
        | failed => rfl
      · rw [if_pos hreceiving, if_pos hreceiving]

theorem Hop.forward_eq (hop : Hop) (upstream : Bytes → Answer) (request : HttpRequest) :
    hop.forward upstream request = responseText hop.replyOrder (hop.received
      (upstream (upstreamRequest hop.upstreamOrder hop.requestOrder hop.target request))) := by
  have hconnect : ∀ opened : Option Nat, HttpClient.new.connect hop.target opened =
      opened.map fun fd => { HttpClient.new with
        fd := some fd, remoteHostHeader := hostKeyFor hop.target, state := .Connecting } := by
    intro opened
    simp [HttpClient.connect, createConnectingSocket, inetPton_of_isIPv4Address hop.address,
      HttpClient.new]
  rw [Hop.forward, hconnect]
  unfold Hop.received
  cases hlink : hop.link with
  | unreached => simp [responseText_badGateway]
  | connectTimeout => simp [responseText_gatewayTimeout]
  | connectError => simp [HttpClient.completeConnect, responseText_badGateway]
  | sendError =>
      simp [HttpClient.completeConnect, HttpClient.prepareRequest, responseText_badGateway]
  | sendTimeout =>
      simp [HttpClient.completeConnect, HttpClient.prepareRequest, responseText_gatewayTimeout]
  | sent =>
      let asked := upstreamRequest hop.upstreamOrder hop.requestOrder hop.target request
      have hsent : HttpClient.onSent ⟨some hop.fd, .Sending, hostKeyFor hop.target, asked, 0, [],
          .empty⟩ asked.length = { hop.waiting with writeOffset := asked.length } := by
        simp [HttpClient.onSent, Hop.waiting]
      change hop.result (HttpClient.receive hop.responseOrder (HttpClient.onSent ⟨some hop.fd,
        .Sending, hostKeyFor hop.target, asked, 0, [], .empty⟩ asked.length)
        (hop.reads.results (upstream asked))) = _
      rw [hsent, receive_writeOffset, Hop.result]
      simp only
      split
      · next hfailed => rw [hfailed, responseText_badGateway]
      · next hcomplete => rw [hcomplete]
      · exact (responseText_gatewayTimeout hop.replyOrder _).symm

theorem Hop.received_delimited (hop : Hop) (reliable : hop.Reliable) {answer : Answer}
    {response : HttpClientResponse}
    (delimited : Delimited hop.responseOrder answer.bytes response) :
    hop.received answer = response := by
  have hreceive : hop.waiting.receive hop.responseOrder (hop.reads.results answer) =
      { hop.waiting with readBuffer := [], state := .Complete, response := response } :=
    delimited.receive (n := 0) rfl rfl delimited.positive (hop.reads.delivers answer).last
      (reliable.reads.bytes answer)
  rw [Hop.received, reliable.link]
  simp only [hreceive]

/-- The head of the response, as a gateway writes it, is within the limit of its reader. -/
def HeadFits (response : HttpClientResponse) : Prop :=
  (responseText default response).length ≤
    ResponseParsing.kMaxHeaderSectionLength + response.body.length

instance : DecidablePred HeadFits := fun _ => inferInstanceAs (Decidable (_ ≤ _))

theorem HeadFits.held {response held : HttpClientResponse} (h : HeadFits response)
    (same : SameResponse response held) (order : IterationOrder Bytes Bytes) :
    (responseText order held).length ≤
      ResponseParsing.kMaxHeaderSectionLength + held.body.length := by
  rw [responseText_length same order default, same.body]
  exact h

def lastHop (first : Hop) (rest : List Hop) : Hop := (first :: rest).getLast (by simp)

structure Transparent (first : Hop) (rest : List Hop) (message asked : Bytes)
    (parsed : ParsedRequestView) : Prop where
  request : ∀ order, ∃ reread, tryParseRequest order asked = .ok (some reread, asked.length) ∧
    Reread parsed reread ((lastHop first rest).ownFields parsed)
  response : ∀ origin, HeadFits ((lastHop first rest).received (origin asked)) →
    ∃ held, through (first :: rest) origin message = ⟨responseText first.replyOrder held, true⟩ ∧
      DownstreamRoundTrip.Parsed held ∧
      SameResponse ((lastHop first rest).received (origin asked)) held

theorem Transparent.behind (hop : Hop) {first : Hop} {rest : List Hop} {message asked : Bytes}
    {parsed held : ParsedRequestView} {requestBytes : Nat}
    (ok : tryParseRequest hop.parseOrder message = .ok (some parsed, requestBytes))
    (reread : Reread parsed held (hop.ownFields parsed)) (reliable : hop.Reliable)
    (h : Transparent first rest (hop.writes parsed) asked held) :
    Transparent hop (first :: rest) message asked parsed := by
  have hsame := hop.same_reread reread
  have hlast : lastHop hop (first :: rest) = lastHop first rest := List.getLast_cons_cons ..
  have hown : (lastHop first rest).ownFields held = (lastHop first rest).ownFields parsed := by
    rw [Hop.ownFields, hsame.body, Hop.ownFields]
  constructor
  · intro order
    obtain ⟨again, hparse, hagain⟩ := h.request order
    rw [hown] at hagain
    rw [hlast]
    exact ⟨again, hparse, hsame.reread hagain⟩
  · intro origin hhead
    rw [hlast] at hhead ⊢
    obtain ⟨response, hreply, hparsed, hresponse⟩ := h.response origin hhead
    have hdelimited := delimited_responseText hparsed first.replyOrder hop.responseOrder
      (hhead.held hresponse first.replyOrder)
    refine ⟨_, ?_, DownstreamRoundTrip.parsed_of_ok hdelimited.whole,
      hresponse.trans (relayed_responseText hparsed first.replyOrder).same⟩
    rw [through, hop.answer_parsed ok rfl, Hop.forward_eq]
    change Answer.mk (responseText _ (hop.received (through (first :: rest) origin
      (hop.writes parsed)))) true = _
    rw [hreply, hop.received_delimited reliable hdelimited]

def Cuts.bytes : Cuts where
  chunks := fun message => message.map fun b => [b]
  nonempty := by simp
  whole := fun message => by
    induction message with
    | nil => rfl
    | cons b rest ih => rw [List.map_cons, List.flatten_cons, ih, List.singleton_append]

theorem receivedBytes_single (message : Bytes) (more : List RecvResult) :
    receivedBytes (message.map (fun b => .bytes [b]) ++ more) = message ++ receivedBytes more := by
  induction message with
  | nil => rfl
  | cons b rest ih =>
      change b :: receivedBytes (rest.map (fun b => .bytes [b]) ++ more) = _
      rw [ih, List.cons_append]

def Reads.bytes : Reads where
  results := fun answer =>
    answer.bytes.map (fun b => .bytes [b]) ++ if answer.closes then [.closed] else []
  delivers := fun answer => by
    have hbytes : receivedBytes (answer.bytes.map (fun b => .bytes [b]) ++
        if answer.closes then [.closed] else []) = answer.bytes := by
      rw [receivedBytes_single]
      split_ifs <;> simp [receivedBytes]
    refine ⟨fun chunk hchunk => ?_, by rw [hbytes], fun _ => hbytes, fun result hresult => ?_⟩
    · have hone : ∃ b ∈ answer.bytes, RecvResult.bytes [b] = .bytes chunk := by
        split_ifs at hchunk <;> simpa using hchunk
      obtain ⟨b, _, hb⟩ := hone
      cases hb
      exact ⟨by simp, by simp [ResponseParsing.kReadChunkSize]⟩
    · have hone : ∃ b ∈ answer.bytes, RecvResult.bytes [b] = result := by
        split_ifs at hresult
        · simpa using hresult
        · simpa using List.mem_of_mem_dropLast hresult
      obtain ⟨b, _, rfl⟩ := hone
      simp
  opened := fun answer hopen => by simp [hopen]

end ApiGateway.GatewayChains
