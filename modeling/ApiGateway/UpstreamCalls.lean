import ApiGateway.UpstreamClient
import ApiGateway.StepRuns

/-! The public calls of an `HttpClient` in any order, with any results of their
system calls. `send` and `receive` are cut at the system calls in their loops. -/

namespace ApiGateway.UpstreamCalls
open ByteText HttpText ResponseParsing UpstreamClient StepRuns

inductive Call where
  | none
  | send
  | receive
  deriving DecidableEq

/-- `requested` is the buffer that `prepareRequest` made and `accepted` what the kernel took
of it; `received` came on the connection begun last and `leftover` was in the read buffer
before it; `parsed` is what the response was parsed from. -/
structure Session where
  client : HttpClient
  call : Call
  requested : Bytes
  accepted : Bytes
  leftover : Bytes
  received : Bytes
  parsed : Bytes
  deriving DecidableEq

def Session.new : Session := ⟨.new, .none, [], [], [], [], []⟩

inductive SendResult where
  | bytes (count : Nat)
  | wouldBlock
  /-- also a count of zero -/
  | failed
  deriving DecidableEq

inductive Event where
  | connect (target : RouteTrie.ProxyTarget) (opened : Option Nat)
  | completeConnect (socketError : Bool)
  | adoptConnection (fd : Nat) (remoteHostHeader : Bytes)
  | prepareRequest (method : HttpMethod) (path : Bytes) (headers : FirstWinsMap Bytes Bytes)
      (body : Bytes)
  | send
  | sent (result : SendResult)
  | receive
  /-- `wouldBlock` is only `EAGAIN` here -/
  | recv (result : RecvResult)
  /-- `EINTR` in either loop -/
  | interrupted
  | releaseFd
  | close

/-- `std::logic_error` leaves the client as it is, the exception of
`createConnectingSocket` makes it `Failed`. -/
def connectThrew (client : HttpClient) : HttpClient :=
  if client.state = .NotConnected then { client with state := .Failed } else client

def Session.begin (s : Session) (client : HttpClient) : Session :=
  { s with client := client, leftover := client.readBuffer, received := [] }

def Session.onSent (s : Session) (count : Nat) : Session :=
  let client := s.client.onSent count
  { s with
    client := client
    call := if client.state = .Sending then .send else .none
    accepted := s.accepted ++ (s.client.writeBuffer.drop s.client.writeOffset).take count }

def Session.onReceived (order : IterationOrder Bytes Bytes) (s : Session) (chunk : Bytes) :
    Session :=
  let client := s.client.onReceived order chunk
  { s with
    client := client
    call := if client.state = .Receiving ∧ chunk.length = kReadChunkSize then .receive else .none
    received := s.received ++ chunk
    parsed := if client.state = .Complete then s.client.readBuffer ++ chunk else s.parsed }

def Session.fail (s : Session) : Session :=
  { s with client := { s.client with state := .Failed }, call := .none }

def Session.public (order : IterationOrder Bytes Bytes) (s : Session) : Event → Option Session
  | .connect target opened =>
      match s.client.connect target opened with
      | some client => some (s.begin client)
      | none => some { s with client := connectThrew s.client }
  | .completeConnect socketError =>
      some { s with client := s.client.completeConnect socketError }
  | .adoptConnection fd remoteHostHeader =>
      match s.client.adoptConnection fd remoteHostHeader with
      | some client => some (s.begin client)
      | none => some s
  | .prepareRequest method path headers body =>
      match s.client.prepareRequest order method path headers body with
      | some client =>
          some { s with client := client, requested := client.writeBuffer, accepted := [] }
      | none => some s
  | .send => if s.client.state = .Sending then some (s.onSent 0) else some s
  | .receive =>
      if s.client.state = .Receiving then some { s with call := .receive } else some s
  | .releaseFd => some { s with client := s.client.releaseFd.1 }
  | .close => some { s with client := { s.client with fd := none } }
  | _ => none

/-- An answer of the kernel to the loop of `send`; a closed client has no descriptor. -/
def Session.sendAnswered (s : Session) : SendResult → Option Session
  | .bytes count =>
      if s.client.fd = none ∨ count = 0 ∨
          s.client.writeOffset + count > s.client.writeBuffer.length then none
      else some (s.onSent count)
  | .wouldBlock => if s.client.fd = none then none else some { s with call := .none }
  | .failed => some s.fail

def Session.recvAnswered (order : IterationOrder Bytes Bytes) (s : Session) :
    RecvResult → Option Session
  | .bytes chunk =>
      if s.client.fd = none ∨ chunk = [] ∨ chunk.length > kReadChunkSize then none
      else some (s.onReceived order chunk)
  | .closed => if s.client.fd = none then none else some s.fail
  | .wouldBlock => if s.client.fd = none then none else some { s with call := .none }
  | .failed => some s.fail

def step (order : IterationOrder Bytes Bytes) (s : Session) (event : Event) : Option Session :=
  match s.call, event with
  | .none, event => s.public order event
  | .send, .sent result => s.sendAnswered result
  | .receive, .recv result => s.recvAnswered order result
  | .send, .interrupted => some s
  | .receive, .interrupted => some s
  | _, _ => none

theorem connect_state {client client' : HttpClient} {target : RouteTrie.ProxyTarget}
    {opened : Option Nat} (next : client.connect target opened = some client') :
    client'.state = .Connecting ∧ client'.readBuffer = client.readBuffer ∧
      client.state = .NotConnected := by
  obtain ⟨hstate, -, fd, -, rfl⟩ := connect_eq_some_iff.mp next
  exact ⟨rfl, rfl, hstate⟩

theorem adoptConnection_state {client client' : HttpClient} {fd : Nat} {remoteHostHeader : Bytes}
    (next : client.adoptConnection fd remoteHostHeader = some client') :
    client'.state = .Connected ∧ client'.readBuffer = [] := by
  unfold HttpClient.adoptConnection at next
  split_ifs at next
  cases next
  exact ⟨rfl, rfl⟩

theorem prepareRequest_state {order : IterationOrder Bytes Bytes} {client client' : HttpClient}
    {method : HttpMethod} {path : Bytes} {headers : FirstWinsMap Bytes Bytes} {body : Bytes}
    (next : client.prepareRequest order method path headers body = some client') :
    client'.state = .Sending ∧ client'.writeOffset = 0 ∧
      client'.readBuffer = client.readBuffer ∧ client'.response = client.response ∧
      client.state = .Connected := by
  unfold HttpClient.prepareRequest at next
  split_ifs at next with hstate
  cases next
  exact ⟨rfl, rfl, rfl, rfl, not_not.mp hstate⟩

theorem completeConnect_state (client : HttpClient) (socketError : Bool) :
    client.completeConnect socketError = client ∨
      client.state = .Connecting ∧ ((client.completeConnect socketError) =
        { client with state := .Failed } ∨
        client.completeConnect socketError = { client with state := .Connected }) := by
  unfold HttpClient.completeConnect
  split_ifs with hstate herror
  · exact .inl rfl
  · exact .inr ⟨not_not.mp hstate, .inl rfl⟩
  · exact .inr ⟨not_not.mp hstate, .inr rfl⟩

theorem releaseFd_state (client : HttpClient) :
    client.releaseFd.1 = client ∨
      client.releaseFd.1 = { client with fd := none, state := .NotConnected } := by
  unfold HttpClient.releaseFd
  cases client.fd with
  | none => exact .inl rfl
  | some fd => exact .inr rfl

inductive Effect (s : Session) : Event → Session → Prop where
  | nothing {event : Event} : Effect s event s
  | connecting {target : RouteTrie.ProxyTarget} {opened : Option Nat} {client : HttpClient}
      (before : s.client.state = .NotConnected) (state : client.state = .Connecting)
      (buffer : client.readBuffer = s.client.readBuffer) :
      Effect s (.connect target opened) (s.begin client)
  | adopted {fd : Nat} {remoteHostHeader : Bytes} {client : HttpClient}
      (state : client.state = .Connected) (buffer : client.readBuffer = []) :
      Effect s (.adoptConnection fd remoteHostHeader) (s.begin client)
  | lost {event : Event} {client : HttpClient}
      (state : client.state = .Failed ∨ client.state = .NotConnected) :
      Effect s event { s with client := client }
  | connected {socketError : Bool} (before : s.client.state = .Connecting) :
      Effect s (.completeConnect socketError)
        { s with client := { s.client with state := .Connected } }
  | prepared {method : HttpMethod} {path : Bytes} {headers : FirstWinsMap Bytes Bytes}
      {body : Bytes} {client : HttpClient} (before : s.client.state = .Connected)
      (state : client.state = .Sending) (offset : client.writeOffset = 0)
      (buffer : client.readBuffer = s.client.readBuffer)
      (response : client.response = s.client.response) :
      Effect s (.prepareRequest method path headers body)
        { s with client := client, requested := client.writeBuffer, accepted := [] }
  | sending (before : s.client.state = .Sending) : Effect s .send (s.onSent 0)
  | receiving (before : s.client.state = .Receiving) :
      Effect s .receive { s with call := .receive }
  | closed : Effect s .close { s with client := { s.client with fd := none } }

theorem effect_of_public {order : IterationOrder Bytes Bytes} {s s' : Session} {event : Event}
    (next : s.public order event = some s') : Effect s event s' := by
  cases event with
  | connect target opened =>
      simp only [Session.public] at next
      split at next
      next client hconnect =>
        cases next
        obtain ⟨hstate, hbuffer, hbefore⟩ := connect_state hconnect
        exact .connecting hbefore hstate hbuffer
      next =>
        cases next
        unfold connectThrew
        split_ifs
        · exact .lost (.inl rfl)
        · exact .nothing
  | completeConnect socketError =>
      cases next
      rcases completeConnect_state s.client socketError with hsame | ⟨hstate, hfailed | hconnected⟩
      · rw [hsame]
        exact .nothing
      · rw [hfailed]
        exact .lost (.inl rfl)
      · rw [hconnected]
        exact .connected hstate
  | adoptConnection fd remoteHostHeader =>
      simp only [Session.public] at next
      split at next
      next client hadopt =>
        cases next
        obtain ⟨hstate, hbuffer⟩ := adoptConnection_state hadopt
        exact .adopted hstate hbuffer
      next =>
        cases next
        exact .nothing
  | prepareRequest method path headers body =>
      simp only [Session.public] at next
      split at next
      next client hprepare =>
        cases next
        obtain ⟨hstate, hoffset, hbuffer, hresponse, hbefore⟩ := prepareRequest_state hprepare
        exact .prepared hbefore hstate hoffset hbuffer hresponse
      next =>
        cases next
        exact .nothing
  | send =>
      simp only [Session.public] at next
      split_ifs at next with hsending
      · cases next
        exact .sending hsending
      · cases next
        exact .nothing
  | receive =>
      simp only [Session.public] at next
      split_ifs at next with hreceiving
      · cases next
        exact .receiving hreceiving
      · cases next
        exact .nothing
  | releaseFd =>
      cases next
      rcases releaseFd_state s.client with hsame | hreleased
      · rw [hsame]
        exact .nothing
      · rw [hreleased]
        exact .lost (.inr rfl)
  | close =>
      cases next
      exact .closed
  | sent _ | recv _ | interrupted => cases next

theorem sendAnswered_cases {s s' : Session} {result : SendResult}
    (next : s.sendAnswered result = some s') :
    (∃ count, s.client.writeOffset + count ≤ s.client.writeBuffer.length ∧ s' = s.onSent count) ∨
      s' = { s with call := .none } ∨ s' = s.fail := by
  cases result with
  | bytes count =>
      simp only [Session.sendAnswered] at next
      split_ifs at next with hbad
      cases next
      simp only [not_or, Nat.not_lt] at hbad
      exact .inl ⟨count, hbad.2.2, rfl⟩
  | wouldBlock =>
      simp only [Session.sendAnswered] at next
      split_ifs at next
      cases next
      exact .inr (.inl rfl)
  | failed =>
      cases next
      exact .inr (.inr rfl)

theorem recvAnswered_cases {order : IterationOrder Bytes Bytes} {s s' : Session}
    {result : RecvResult} (next : s.recvAnswered order result = some s') :
    (∃ chunk, s' = s.onReceived order chunk) ∨ s' = { s with call := .none } ∨ s' = s.fail := by
  cases result with
  | bytes chunk =>
      simp only [Session.recvAnswered] at next
      split_ifs at next
      cases next
      exact .inl ⟨chunk, rfl⟩
  | closed =>
      simp only [Session.recvAnswered] at next
      split_ifs at next
      cases next
      exact .inr (.inr rfl)
  | wouldBlock =>
      simp only [Session.recvAnswered] at next
      split_ifs at next
      cases next
      exact .inr (.inl rfl)
  | failed =>
      cases next
      exact .inr (.inr rfl)

theorem step_cases {order : IterationOrder Bytes Bytes} {s s' : Session} {event : Event}
    (next : step order s event = some s') :
    (s.call = .none ∧ Effect s event s') ∨
      (s.call = .send ∧ ∃ result, s.sendAnswered result = some s') ∨
      (s.call = .receive ∧ ∃ result, s.recvAnswered order result = some s') ∨ s' = s := by
  unfold step at next
  split at next
  next hcall => exact .inl ⟨hcall, effect_of_public next⟩
  next result hcall => exact .inr (.inl ⟨hcall, result, next⟩)
  next result hcall => exact .inr (.inr (.inl ⟨hcall, result, next⟩))
  next =>
    cases next
    exact .inr (.inr (.inr rfl))
  next =>
    cases next
    exact .inr (.inr (.inr rfl))
  next => cases next

structure Writing (s : Session) : Prop where
  loop : s.call = .send → s.client.state = .Sending
  sending : s.client.state = .Sending → s.client.writeBuffer = s.requested ∧
    s.client.writeOffset ≤ s.requested.length ∧ s.accepted = s.requested.take s.client.writeOffset
  whole : s.client.state = .Receiving ∨ s.client.state = .Complete → s.accepted = s.requested
  beginning : s.accepted <+: s.requested

theorem Writing.left {s s' : Session} (h : Writing s) (requested : s'.requested = s.requested)
    (accepted : s'.accepted = s.accepted) (call : s'.call ≠ .send)
    (state : s'.client.state ≠ .Sending ∧ s'.client.state ≠ .Receiving ∧
      s'.client.state ≠ .Complete) : Writing s' := by
  refine ⟨fun hcall => absurd hcall call, fun hsending => absurd hsending state.1,
    fun hwhole => hwhole.elim (fun hr => absurd hr state.2.1) fun hc => absurd hc state.2.2, ?_⟩
  rw [requested, accepted]
  exact h.beginning

theorem Writing.kept {s s' : Session} (h : Writing s) (requested : s'.requested = s.requested)
    (accepted : s'.accepted = s.accepted) (call : s'.call = .send → s'.client.state = .Sending)
    (sending : s'.client.state = .Sending → s.client.state = .Sending ∧
      s'.client.writeBuffer = s.client.writeBuffer ∧ s'.client.writeOffset = s.client.writeOffset)
    (whole : s'.client.state = .Receiving ∨ s'.client.state = .Complete →
      s.client.state = .Receiving ∨ s.client.state = .Complete) : Writing s' := by
  refine ⟨call, fun hsending => ?_, fun hwhole => ?_, ?_⟩
  · have ⟨hbefore, hbuffer, hoffset⟩ := sending hsending
    rw [hbuffer, hoffset, requested, accepted]
    exact h.sending hbefore
  · rw [requested, accepted]
    exact h.whole (whole hwhole)
  · rw [requested, accepted]
    exact h.beginning

theorem Writing.onSent {s : Session} (h : Writing s) (sending : s.client.state = .Sending)
    {count : Nat} (fits : s.client.writeOffset + count ≤ s.client.writeBuffer.length) :
    Writing (s.onSent count) := by
  have ⟨hbuffer, hoffset, haccepted⟩ := h.sending sending
  have htotal : (s.onSent count).accepted = s.requested.take (s.client.writeOffset + count) := by
    change s.accepted ++ (s.client.writeBuffer.drop s.client.writeOffset).take count = _
    rw [hbuffer, haccepted, ← List.take_add]
  rw [hbuffer] at fits
  have hclient : (s.onSent count).client = s.client.onSent count := rfl
  by_cases hmore : s.client.writeOffset + count < s.client.writeBuffer.length
  · have hsent : s.client.onSent count =
        { s.client with writeOffset := s.client.writeOffset + count } := if_pos hmore
    refine ⟨fun _ => ?_, fun _ => ⟨?_, ?_, ?_⟩, fun hwhole => ?_, ?_⟩
    · rw [hclient, hsent]
      exact sending
    · rw [hclient, hsent]
      exact hbuffer
    · rw [hclient, hsent]
      exact fits
    · rw [hclient, hsent]
      exact htotal
    · rw [hclient, hsent] at hwhole
      change s.client.state = .Receiving ∨ s.client.state = .Complete at hwhole
      rw [sending] at hwhole
      simp at hwhole
    · rw [htotal]
      exact List.take_prefix _ _
  · have hsent : (s.client.onSent count).state = .Receiving := by
      rw [HttpClient.onSent, if_neg hmore]
    have hall : (s.onSent count).accepted = s.requested := by
      rw [htotal]
      rw [hbuffer] at hmore
      exact List.take_of_length_le (by omega)
    refine ⟨fun hcall => ?_, fun hsending => ?_, fun _ => hall, ?_⟩
    · change (if (s.client.onSent count).state = .Sending then Call.send else .none) = .send
        at hcall
      rw [hsent] at hcall
      cases hcall
    · rw [hclient, hsent] at hsending
      cases hsending
    · rw [hall]
      exact List.prefix_rfl

theorem Writing.fail {s : Session} (h : Writing s) : Writing s.fail :=
  h.left rfl rfl (by simp [Session.fail]) (by simp [Session.fail])

theorem Writing.effect {s s' : Session} {event : Event} (h : Writing s) (idle : s.call = .none)
    (effect : Effect s event s') : Writing s' := by
  have hidle : s.call ≠ .send := by simp [idle]
  cases effect with
  | nothing => exact h
  | connecting _ state _ => exact h.left rfl rfl hidle (by simp [Session.begin, state])
  | adopted state _ => exact h.left rfl rfl hidle (by simp [Session.begin, state])
  | lost state =>
      refine h.left rfl rfl hidle ?_
      rcases state with hstate | hstate <;> simp [hstate]
  | connected _ => exact h.left rfl rfl hidle (by simp)
  | prepared _ state offset _ _ =>
      refine ⟨fun hcall => absurd hcall hidle, fun _ => ⟨rfl, ?_, ?_⟩, ?_, List.nil_prefix⟩
      · simp [offset]
      · simp [offset]
      · simp [state]
  | sending before =>
      obtain ⟨hbuffer, hoffset, -⟩ := h.sending before
      refine h.onSent before ?_
      rw [hbuffer]
      exact hoffset
  | receiving _ => exact h.kept rfl rfl (by simp) (fun hsending => ⟨hsending, rfl, rfl⟩) id
  | closed =>
      exact h.kept rfl rfl (fun hcall => absurd hcall hidle) (fun hsending => ⟨hsending, rfl, rfl⟩) id

theorem onReceived_state (order : IterationOrder Bytes Bytes) {client : HttpClient}
    (chunk : Bytes) (receiving : client.state = .Receiving) :
    (client.onReceived order chunk).state ≠ .Sending := by
  rcases onReceived_cases order client chunk with hfail | hmore | ⟨response, -, hdone⟩
  · simp [hfail]
  · simp [hmore, receiving]
  · simp [hdone]

theorem Writing.step {order : IterationOrder Bytes Bytes} {s s' : Session} {event : Event}
    (h : Writing s) (loop : s.call = .receive → s.client.state = .Receiving)
    (next : step order s event = some s') : Writing s' := by
  rcases step_cases next with ⟨hcall, heffect⟩ | ⟨hcall, result, hsend⟩ |
    ⟨hcall, result, hrecv⟩ | hsame
  · exact h.effect hcall heffect
  · rcases sendAnswered_cases hsend with ⟨count, hfits, hsent⟩ | hblocked | hfailed
    · rw [hsent]
      exact h.onSent (h.loop hcall) hfits
    · rw [hblocked]
      exact h.kept rfl rfl (by simp) (fun hsending => ⟨hsending, rfl, rfl⟩) id
    · rw [hfailed]
      exact h.fail
  · have hreceiving := loop hcall
    rcases recvAnswered_cases hrecv with ⟨chunk, hreceived⟩ | hblocked | hfailed
    · have hstate := onReceived_state order chunk hreceiving
      rw [hreceived]
      refine h.kept rfl rfl (fun hloop => ?_) (fun hsending => absurd hsending hstate)
        fun _ => .inl hreceiving
      simp only [Session.onReceived] at hloop
      split_ifs at hloop
    · rw [hblocked]
      exact h.kept rfl rfl (by simp) (fun hsending => ⟨hsending, rfl, rfl⟩) id
    · rw [hfailed]
      exact h.fail
  · rw [hsame]
    exact h

structure Reading (order : IterationOrder Bytes Bytes) (s : Session) : Prop where
  loop : s.call = .receive → s.client.state = .Receiving
  begun : s.client.state = .Connecting ∨ s.client.state = .Connected ∨
    s.client.state = .Sending → s.received = [] ∧ s.client.readBuffer = s.leftover
  receiving : s.client.state = .Receiving → s.client.readBuffer = s.leftover ++ s.received
  complete : s.client.state = .Complete → s.parsed = s.leftover ++ s.received ∧
    tryParseResponse order s.parsed = .ok (some s.client.response)

theorem Reading.left {order : IterationOrder Bytes Bytes} {s : Session}
    (call : s.call ≠ .receive)
    (state : s.client.state = .Failed ∨ s.client.state = .NotConnected) : Reading order s := by
  refine ⟨fun hcall => absurd hcall call, ?_, ?_, ?_⟩
  · intro hbegun
    rcases state with hstate | hstate <;> simp [hstate] at hbegun
  · intro hreceiving
    rcases state with hstate | hstate <;> simp [hstate] at hreceiving
  · intro hcomplete
    rcases state with hstate | hstate <;> simp [hstate] at hcomplete

theorem Reading.begin {order : IterationOrder Bytes Bytes} {s : Session} (idle : s.call = .none)
    {client : HttpClient} (state : client.state = .Connecting ∨ client.state = .Connected) :
    Reading order (s.begin client) := by
  refine ⟨fun hcall => ?_, fun _ => ⟨rfl, rfl⟩, fun hreceiving => ?_, fun hcomplete => ?_⟩
  · change s.call = .receive at hcall
    rw [idle] at hcall
    cases hcall
  · change client.state = .Receiving at hreceiving
    rcases state with hstate | hstate <;> simp [hstate] at hreceiving
  · change client.state = .Complete at hcomplete
    rcases state with hstate | hstate <;> simp [hstate] at hcomplete

theorem Reading.kept {order : IterationOrder Bytes Bytes} {s s' : Session} (h : Reading order s)
    (received : s'.received = s.received) (leftover : s'.leftover = s.leftover)
    (parsed : s'.parsed = s.parsed) (readBuffer : s'.client.readBuffer = s.client.readBuffer)
    (response : s'.client.response = s.client.response)
    (call : s'.call = .receive → s'.client.state = .Receiving)
    (state : s'.client.state = s.client.state ∨
      (s.client.state = .Connecting ∨ s.client.state = .Connected ∨ s.client.state = .Sending) ∧
        (s'.client.state = .Connected ∨ s'.client.state = .Sending ∨
          s'.client.state = .Receiving)) : Reading order s' := by
  rcases state with hsame | ⟨hbefore, hafter⟩
  · refine ⟨call, ?_, ?_, ?_⟩
    · rw [hsame, received, readBuffer, leftover]
      exact h.begun
    · rw [hsame, received, readBuffer, leftover]
      exact h.receiving
    · rw [hsame, received, parsed, leftover, response]
      exact h.complete
  · have ⟨hnone, hbuffer⟩ := h.begun hbefore
    refine ⟨call, fun _ => ?_, fun _ => ?_, fun hcomplete => ?_⟩
    · rw [received, readBuffer, leftover]
      exact ⟨hnone, hbuffer⟩
    · rw [received, readBuffer, leftover, hnone, List.append_nil]
      exact hbuffer
    · rcases hafter with hstate | hstate | hstate <;> simp [hstate] at hcomplete

theorem onSent_state (client : HttpClient) (count : Nat) :
    (client.onSent count).readBuffer = client.readBuffer ∧
      (client.onSent count).response = client.response ∧
      ((client.onSent count).state = client.state ∨
        (client.onSent count).state = .Receiving) := by
  unfold HttpClient.onSent
  split_ifs
  · exact ⟨rfl, rfl, .inl rfl⟩
  · exact ⟨rfl, rfl, .inr rfl⟩

theorem Reading.onSent {order : IterationOrder Bytes Bytes} {s : Session} (h : Reading order s)
    (sending : s.client.state = .Sending) (count : Nat) : Reading order (s.onSent count) := by
  have ⟨hbuffer, hresponse, hstate⟩ := onSent_state s.client count
  refine h.kept rfl rfl rfl hbuffer hresponse (fun hcall => ?_) ?_
  · simp only [Session.onSent] at hcall
    split_ifs at hcall
  · exact hstate.imp id fun hreceiving => ⟨.inr (.inr sending), .inr (.inr hreceiving)⟩

theorem Reading.onReceived {order : IterationOrder Bytes Bytes} {s : Session}
    (h : Reading order s) (receiving : s.client.state = .Receiving) (chunk : Bytes) :
    Reading order (s.onReceived order chunk) := by
  have hbuffer := h.receiving receiving
  have hclient : (s.onReceived order chunk).client = s.client.onReceived order chunk := rfl
  have hcall : (s.onReceived order chunk).call = .receive →
      (s.onReceived order chunk).client.state = .Receiving := by
    intro hloop
    simp only [Session.onReceived] at hloop
    split_ifs at hloop with hgoes
    exact hgoes.1
  have hall : s.client.readBuffer ++ chunk = s.leftover ++ (s.received ++ chunk) := by
    rw [hbuffer, List.append_assoc]
  rcases onReceived_cases order s.client chunk with hfail | hmore | ⟨response, hparse, hdone⟩
  · refine Reading.left (fun hloop => ?_) (.inl ?_)
    · have hstate := hcall hloop
      rw [hclient, hfail] at hstate
      cases hstate
    · rw [hclient, hfail]
  · refine ⟨hcall, fun hbegun => ?_, fun _ => ?_, fun hcomplete => ?_⟩
    · rw [hclient, hmore] at hbegun
      simp [receiving] at hbegun
    · rw [hclient, hmore]
      exact hall
    · rw [hclient, hmore] at hcomplete
      exact absurd (receiving.symm.trans hcomplete) (by decide)
  · have hparsed : (s.onReceived order chunk).parsed = s.client.readBuffer ++ chunk := by
      change (if (s.client.onReceived order chunk).state = .Complete then _ else _) = _
      rw [hdone, if_pos rfl]
    refine ⟨hcall, fun hbegun => ?_, fun hreceiving => ?_, fun _ => ⟨?_, ?_⟩⟩
    · rw [hclient, hdone] at hbegun
      simp at hbegun
    · rw [hclient, hdone] at hreceiving
      cases hreceiving
    · rw [hparsed]
      exact hall
    · rw [hparsed, hclient, hdone]
      exact hparse

theorem Reading.effect {order : IterationOrder Bytes Bytes} {s s' : Session} {event : Event}
    (h : Reading order s) (idle : s.call = .none) (effect : Effect s event s') :
    Reading order s' := by
  have hidle : s.call ≠ .receive := by simp [idle]
  cases effect with
  | nothing => exact h
  | connecting _ state _ => exact Reading.begin idle (.inl state)
  | adopted state _ => exact Reading.begin idle (.inr state)
  | lost state => exact Reading.left hidle state
  | connected before =>
      exact h.kept rfl rfl rfl rfl rfl (fun hcall => absurd hcall hidle)
        (.inr ⟨.inl before, .inl rfl⟩)
  | prepared before state _ buffer response =>
      exact h.kept rfl rfl rfl buffer response (fun hcall => absurd hcall hidle)
        (.inr ⟨.inr (.inl before), .inr (.inl state)⟩)
  | sending before => exact h.onSent before 0
  | receiving before => exact h.kept rfl rfl rfl rfl rfl (fun _ => before) (.inl rfl)
  | closed => exact h.kept rfl rfl rfl rfl rfl (fun hcall => absurd hcall hidle) (.inl rfl)

theorem Reading.step {order : IterationOrder Bytes Bytes} {s s' : Session} {event : Event}
    (h : Reading order s) (loop : s.call = .send → s.client.state = .Sending)
    (next : step order s event = some s') : Reading order s' := by
  rcases step_cases next with ⟨hcall, heffect⟩ | ⟨hcall, result, hsend⟩ |
    ⟨hcall, result, hrecv⟩ | hsame
  · exact h.effect hcall heffect
  · rcases sendAnswered_cases hsend with ⟨count, -, hsent⟩ | hblocked | hfailed
    · rw [hsent]
      exact h.onSent (loop hcall) count
    · rw [hblocked]
      exact h.kept rfl rfl rfl rfl rfl (by simp) (.inl rfl)
    · rw [hfailed]
      exact Reading.left (by simp [Session.fail]) (.inl rfl)
  · rcases recvAnswered_cases hrecv with ⟨chunk, hreceived⟩ | hblocked | hfailed
    · rw [hreceived]
      exact h.onReceived (h.loop hcall) chunk
    · rw [hblocked]
      exact h.kept rfl rfl rfl rfl rfl (by simp) (.inl rfl)
    · rw [hfailed]
      exact Reading.left (by simp [Session.fail]) (.inl rfl)
  · rw [hsame]
    exact h

theorem calls_of_run {order : IterationOrder Bytes Bytes} {trace : List Event} {s : Session}
    (run : Run (fun s event s' => step order s event = some s') .new trace s) :
    Writing s ∧ Reading order s :=
  @Run.invariant _ _ _ _ (fun _ s => Writing s ∧ Reading order s)
    ⟨⟨by nofun, by nofun, by nofun, List.nil_prefix⟩, ⟨by nofun, by nofun, by nofun, by nofun⟩⟩
    (fun _ _ _ _ h next => ⟨h.1.step h.2.loop next, h.2.step h.1.loop next⟩) _ _ run

/-- The response comes from the bytes of its own connection alone. -/
def Own (order : IterationOrder Bytes Bytes) (s : Session) : Prop :=
  s.parsed = s.received ∧ tryParseResponse order s.received = .ok (some s.client.response)

/-- No `connect` starts over with bytes that an earlier connection has left. -/
def startsClean (s : Session) : Event → Bool
  | .connect _ _ => s.client.state ≠ .NotConnected ∨ s.client.readBuffer = []
  | _ => true

theorem leftover_of_step {order : IterationOrder Bytes Bytes} {s s' : Session} {event : Event}
    (next : step order s event = some s') (clean : startsClean s event = true)
    (none : s.leftover = []) : s'.leftover = [] := by
  rcases step_cases next with ⟨-, heffect⟩ | ⟨-, result, hsend⟩ | ⟨-, result, hrecv⟩ | hsame
  · cases heffect with
    | connecting before _ buffer =>
        simp only [startsClean, before, ne_eq, not_true_eq_false, false_or,
          decide_eq_true_eq] at clean
        exact buffer.trans clean
    | adopted _ buffer => exact buffer
    | nothing | lost _ | connected _ | prepared _ _ _ _ _ | sending _ | receiving _ | closed =>
        exact none
  · rcases sendAnswered_cases hsend with ⟨count, -, hsent⟩ | hblocked | hfailed
    · rw [hsent]
      exact none
    · rw [hblocked]
      exact none
    · rw [hfailed]
      exact none
  · rcases recvAnswered_cases hrecv with ⟨chunk, hreceived⟩ | hblocked | hfailed
    · rw [hreceived]
      exact none
    · rw [hblocked]
      exact none
    · rw [hfailed]
      exact none
  · rw [hsame]
    exact none

theorem own_iff {order : IterationOrder Bytes Bytes} {s : Session} (h : Reading order s)
    (complete : s.client.state = .Complete) : Own order s ↔ s.leftover = [] := by
  have ⟨hparsed, hresponse⟩ := h.complete complete
  constructor
  · intro hown
    have hlength := congrArg List.length (hparsed.symm.trans hown.1)
    rw [List.length_append] at hlength
    exact List.eq_nil_of_length_eq_zero (by omega)
  · intro hnone
    rw [hnone, List.nil_append] at hparsed
    exact ⟨hparsed, hparsed ▸ hresponse⟩

/-- A response is from the bytes of its own connection just when nothing was in the read
buffer as that connection began; so it is in every run in which no `connect` finds
anything there. -/
theorem response_own (order : IterationOrder Bytes Bytes) (trace : List Event) (s : Session) :
    (Run (fun s event s' => step order s event = some s' ∧ startsClean s event = true) .new trace s →
        s.client.state = .Complete → Own order s) ∧
      (Run (fun s event s' => step order s event = some s') .new trace s →
        s.client.state = .Complete → (Own order s ↔ s.leftover = [])) := by
  refine ⟨fun run complete => ?_, fun run complete => own_iff (calls_of_run run).2 complete⟩
  have hreading := (calls_of_run (run.imp fun _ _ _ next => next.1)).2
  have hnone : s.leftover = [] :=
    @Run.invariant _ _ _ _ (fun _ s => s.leftover = []) rfl
      (fun _ _ _ _ none next => leftover_of_step next.1 next.2 none) _ _ run
  exact (own_iff hreading complete).mpr hnone

def upstream : RouteTrie.ProxyTarget := ⟨ascii "10.0.0.1", 80⟩

def exchange (fd : Nat) (chunk : Bytes) : List Event :=
  [.connect upstream (some fd), .completeConnect false,
    .prepareRequest .GET (ascii "/") .empty [], .send, .sent (.bytes 20), .interrupted,
    .sent (.bytes 36), .receive, .recv (.bytes chunk)]

theorem response_own_reconnected : ∃ s,
    Run (fun s event s' => step default s event = some s' ∧ startsClean s event = true) .new
        (exchange 5 (ascii "HTTP/1.1 204 No Content\r\n\r\n") ++
          .releaseFd :: exchange 6 (ascii "HTTP/1.1 404 Not Found\r\n\r\n")) s ∧
      Own default s := by
  have hrun : (exec (fun s event => if startsClean s event then step default s event else none)
      .new (exchange 5 (ascii "HTTP/1.1 204 No Content\r\n\r\n") ++
        .releaseFd :: exchange 6 (ascii "HTTP/1.1 404 Not Found\r\n\r\n"))).map
          (fun s => s.client.state) = some .Complete := by
    decide
  have ⟨s, hexec, hcomplete⟩ := Option.map_eq_some_iff.mp hrun
  have hallowed : Run (fun s event s' => step default s event = some s' ∧
      startsClean s event = true) .new (exchange 5 (ascii "HTTP/1.1 204 No Content\r\n\r\n") ++
        .releaseFd :: exchange 6 (ascii "HTTP/1.1 404 Not Found\r\n\r\n")) s := by
    refine (run_of_exec hexec).imp fun s event s' next => ?_
    split_ifs at next with hclean
    exact ⟨next, hclean⟩
  exact ⟨s, hallowed, (response_own default _ s).1 hallowed hcomplete⟩

theorem response_mixed : ¬ ∀ (trace : List Event) (s : Session),
    Run (fun s event s' => step default s event = some s') .new trace s →
      s.client.state = .Complete → Own default s := by
  intro h
  have hrun : (exec (step default) .new
      (exchange 5 (ascii "HTTP/1.1 200 OK\r\nContent-Length: 4\r\n\r\nab") ++
        .releaseFd :: exchange 6 (ascii "HTTP/1.1 404 Not Found\r\n\r\n"))).map
          (fun s => (s.client.state, s.parsed.length, s.received.length)) =
            some (.Complete, 66, 26) := by
    decide
  have ⟨s, hexec, hs⟩ := Option.map_eq_some_iff.mp hrun
  have ⟨hcomplete, hlengths⟩ := Prod.mk.inj hs
  have hown := h _ s (run_of_exec hexec) hcomplete
  have ⟨hparsed, hreceived⟩ := Prod.mk.inj hlengths
  rw [hown.1, hreceived] at hparsed
  cases hparsed

end ApiGateway.UpstreamCalls
