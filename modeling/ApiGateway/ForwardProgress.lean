import ApiGateway.StepMeasures
import ApiGateway.UpstreamDescriptors
import ApiGateway.WholeMessages

/-! How long a call of `forward` can take, and what it returns. Each of its steps brings it
nearer to its end, but for the system calls that were interrupted or would block, and whatever
it meets, it returns a whole response. -/

namespace ApiGateway.ForwardProgress
open ByteText HttpText UpstreamClient ConnectionPooling RequestForwarding UpstreamDescriptors
open WholeMessages StepRuns StepMeasures
open ProxyForwarding (badGateway gatewayTimeout upstreamKeepAlive)
open ResponseForwarding (responseText)
open ResponseParsing (kMaxResponseSize tryParseResponse)
open RequestReading (HttpRequest)
open DownstreamRoundTrip (Parsed parsed_of_ok)

def eventCall : Event → Option Nat
  | .lease i _ _ _ => some i
  | .connect i _ _ => some i
  | .poll i _ => some i
  | .getsockopt i _ => some i
  | .send i _ => some i
  | .recv i _ => some i
  | .recvInterrupted i => some i
  | .release i _ => some i
  | .reapStale _ _ => none
  | .closeAll _ => none

/-- The steps that an event costs a call and that bring it no nearer to its end: a system call
that would block is made again after a `poll`. -/
def waste : Event → Nat
  | .poll _ .interrupted => 1
  | .send _ .wouldBlock => 2
  | .send _ .interrupted => 1
  | .recv _ .wouldBlock => 2
  | .recvInterrupted _ => 1
  | _ => 0

structure Sound (call : Call) : Prop where
  parsed : call.point = .release → Parsed call.client.response
  whole : ∀ reply, call.point = .returned reply → Whole reply

section Progress

variable (requestOrder upstreamOrder responseOrder : IterationOrder Bytes Bytes)

def requestLength (target : Bytes) (request : HttpRequest) : Nat :=
  (requestText upstreamOrder request.method (buildUpstreamTarget request.path request.query) target
    (upstreamHeaders requestOrder request.headers) request.body).length

/-- Two steps, a `recv` and a `poll`, for each byte that the client still takes. -/
def room (client : HttpClient) : Nat := 2 * (kMaxResponseSize + 1 - client.readBuffer.length) + 2

def unsent (client : HttpClient) : Nat := client.writeBuffer.length - client.writeOffset

/-- How many steps a call is from its end. -/
def left (call : Call) : Nat :=
  match call.point with
  | .connect =>
      requestLength requestOrder upstreamOrder (hostKeyFor call.target) call.request +
        room call.client + 3
  | .pollConnect =>
      requestLength requestOrder upstreamOrder call.client.remoteHostHeader call.request +
        room call.client + 2
  | .getsockopt =>
      requestLength requestOrder upstreamOrder call.client.remoteHostHeader call.request +
        room call.client + 1
  | .pollSend => unsent call.client + room call.client + 1
  | .send => unsent call.client + room call.client
  | .pollReceive => room call.client + 1
  | .recv => room call.client
  | .release => 1
  | .returned _ => 0

/-- The steps of a call that nothing interrupts and that never has to wait twice. -/
def bound (target : RouteTrie.ProxyTarget) (request : HttpRequest) : Nat :=
  requestLength requestOrder upstreamOrder (hostKeyFor target) request +
    2 * (kMaxResponseSize + 1) + 5

structure Progress (call call' : Call) (wasted : Nat) : Prop where
  target : call'.target = call.target
  request : call'.request = call.request
  pays : left requestOrder upstreamOrder call' + 1 ≤ left requestOrder upstreamOrder call + wasted
  sound : Sound call → Sound call'

def Goes (w w' : World) (i : Nat) (call : Call) (wasted : Nat) : Prop :=
  ∃ call', w'.calls = Function.update w.calls i (some call') ∧
    Progress requestOrder upstreamOrder call call' wasted

end Progress

section Steps

variable {requestOrder upstreamOrder responseOrder : IterationOrder Bytes Bytes} {w w' : World}
  {i wasted : Nat} {call : Call}

theorem whole_badGateway (body : Bytes) : Whole (badGateway body) :=
  whole_buildErrorResponse (by decide) body

theorem whole_gatewayTimeout (body : Bytes) : Whole (gatewayTimeout body) :=
  whole_buildErrorResponse (by decide) body

variable (requestOrder upstreamOrder) in
theorem left_pos (running : ∀ reply, call.point ≠ .returned reply) :
    1 ≤ left requestOrder upstreamOrder call := by
  unfold left room
  split <;> first | omega | exact absurd ‹_› (running _)

theorem goes_return (running : ∀ reply, call.point ≠ .returned reply) {client : HttpClient}
    {reply : Bytes} (whole : Sound call → Whole reply) :
    Goes requestOrder upstreamOrder w (w.return i { call with client := client } reply) i call
      wasted := by
  refine ⟨_, rfl, rfl, rfl, ?_, fun sound => ⟨by nofun, fun reply' hreply => ?_⟩⟩
  · have hpos := left_pos requestOrder upstreamOrder running
    change 0 + 1 ≤ _
    omega
  · cases hreply
    exact whole sound

theorem goes_set {call' : Call} (target : call'.target = call.target)
    (request : call'.request = call.request)
    (pays : left requestOrder upstreamOrder call' + 1 ≤
      left requestOrder upstreamOrder call + wasted)
    (parsed : call'.point = .release → Parsed call'.client.response)
    (running : ∀ reply, call'.point ≠ .returned reply) :
    Goes requestOrder upstreamOrder w (w.setCall i call') i call wasted :=
  ⟨_, rfl, target, request, pays, fun _ => ⟨parsed, fun reply h => absurd h (running reply)⟩⟩

theorem goes_again (had : w.calls i = some call) (again : w'.calls = w.calls) (one : 1 ≤ wasted) :
    Goes requestOrder upstreamOrder w w' i call wasted := by
  refine ⟨call, ?_, rfl, rfl, by omega, id⟩
  rw [again, ← had, Function.update_eq_self]

theorem goes_prepare {call' : Call} (target : call'.target = call.target)
    (request : call'.request = call.request) (connected : call'.client.state = .Connected)
    (pays : requestLength requestOrder upstreamOrder call'.client.remoteHostHeader call'.request +
      room call'.client + 1 ≤ left requestOrder upstreamOrder call + wasted) :
    Goes requestOrder upstreamOrder w (w.prepare requestOrder upstreamOrder i call') i call
      wasted := by
  unfold World.prepare HttpClient.prepareRequest
  rw [if_neg (not_not.mpr connected)]
  refine goes_set target request ?_ (by nofun) (by nofun)
  simpa only [left, unsent, room, requestLength, Nat.sub_zero] using pays

theorem goes_connect (point : call.point = .connect) {opened : Option Nat} {connected : Bool}
    (next : w.connect i call opened connected = some w') :
    Goes requestOrder upstreamOrder w w' i call 0 := by
  have hrunning : ∀ reply, call.point ≠ .returned reply := by simp [point]
  have hrefused : ∀ {w : World}, Goes requestOrder upstreamOrder w
      (w.return i call (badGateway (ascii "Failed to reach upstream host"))) i call 0 :=
    goes_return hrunning fun _ => whole_badGateway _
  unfold World.connect at next
  simp only at next
  by_cases hstate : call.client.state ≠ .NotConnected
  · rw [if_pos hstate] at next
    cases next
    exact hrefused
  rw [if_neg hstate] at next
  split at next
  · cases next
    exact hrefused
  next fd =>
    by_cases hused : (ResourceLogs.held w.log fd).isSome = true
    · rw [if_pos hused] at next
      cases next
    rw [if_neg hused] at next
    split at next
    · cases next
      exact hrefused
    next client hconnect =>
      cases next
      obtain ⟨-, -, fd', -, rfl⟩ := connect_eq_some_iff.mp hconnect
      refine goes_set rfl rfl ?_ (by simp) (by simp)
      simp only [left, point, room]
      omega

theorem goes_polled (running : ∀ reply, call.point ≠ .returned reply)
    (had : w.calls i = some call) {next : Point}
    (pays : left requestOrder upstreamOrder { call with point := next } + 1 ≤
      left requestOrder upstreamOrder call)
    (parsed : next ≠ .release) (goesOn : ∀ reply, next ≠ .returned reply) (body : Bytes)
    (result : PollResult) :
    Goes requestOrder upstreamOrder w ((w.used call).polled i call next body result) i call
      (waste (.poll i result)) := by
  cases result with
  | ready => exact goes_set rfl rfl pays (fun h => absurd h parsed) goesOn
  | interrupted => exact goes_again had rfl le_rfl
  | timedOut => exact goes_return running fun _ => whole_gatewayTimeout _
  | failed => exact goes_return running fun _ => whole_gatewayTimeout _

theorem goes_poll (had : w.calls i = some call) {result : PollResult}
    (next : w.poll i call result = some w') :
    Goes requestOrder upstreamOrder w w' i call (waste (.poll i result)) := by
  unfold World.poll at next
  cases hpoint : call.point with
  | pollConnect =>
      rw [hpoint] at next
      cases next
      exact goes_polled (by simp [hpoint]) had (by simp only [left, hpoint]; omega) (by nofun)
        (by nofun) _ _
  | pollSend =>
      rw [hpoint] at next
      cases next
      exact goes_polled (by simp [hpoint]) had (by simp only [left, hpoint]; omega) (by nofun)
        (by nofun) _ _
  | pollReceive =>
      rw [hpoint] at next
      cases next
      exact goes_polled (by simp [hpoint]) had (by simp only [left, hpoint]; omega) (by nofun)
        (by nofun) _ _
  | _ =>
      rw [hpoint] at next
      cases next

theorem goes_getsockopt (point : call.point = .getsockopt) (socketError : Option Bool) :
    Goes requestOrder upstreamOrder w
      (w.getsockopt requestOrder upstreamOrder i call socketError) i call 0 := by
  have hrunning : ∀ reply, call.point ≠ .returned reply := by simp [point]
  have hclient : (call.client.completeConnect (socketError.getD true)).remoteHostHeader =
        call.client.remoteHostHeader ∧
      (call.client.completeConnect (socketError.getD true)).readBuffer =
        call.client.readBuffer := by
    unfold HttpClient.completeConnect
    split_ifs <;> exact ⟨rfl, rfl⟩
  unfold World.getsockopt
  simp only
  split_ifs with hconnected
  · refine goes_prepare (w := w.logged _) rfl rfl hconnected ?_
    simp only [left, point, room, hclient]
    omega
  · exact goes_return (w := w.used call) hrunning fun _ => whole_badGateway _

theorem goes_send (had : w.calls i = some call) (point : call.point = .send)
    (sending : call.client.state = .Sending) {result : SendResult}
    (next : w.send i call result = some w') :
    Goes requestOrder upstreamOrder w w' i call (waste (.send i result)) := by
  have hrunning : ∀ reply, call.point ≠ .returned reply := by simp [point]
  cases result with
  | sent count =>
      simp only [World.send] at next
      by_cases hbad : count = 0 ∨
          call.client.writeOffset + count > call.client.writeBuffer.length
      · rw [if_pos hbad] at next
        cases next
      rw [if_neg hbad] at next
      cases next
      rw [not_or] at hbad
      by_cases hmore : call.client.writeOffset + count < call.client.writeBuffer.length
      · have hpoint : (if (call.client.onSent count).state = .Receiving then Point.recv
            else .send) = .send := by
          simp [HttpClient.onSent, hmore, sending]
        rw [hpoint]
        refine goes_set rfl rfl ?_ (by simp) (by simp)
        simp only [left, point, unsent, room, HttpClient.onSent, if_pos hmore]
        omega
      · have hpoint : (if (call.client.onSent count).state = .Receiving then Point.recv
            else .send) = .recv := by
          simp [HttpClient.onSent, hmore]
        rw [hpoint]
        refine goes_set rfl rfl ?_ (by simp) (by simp)
        simp only [left, point, unsent, room, HttpClient.onSent, if_neg hmore]
        omega
  | wouldBlock =>
      cases next
      refine goes_set rfl rfl ?_ (by simp) (by simp)
      simp only [left, point, waste]
      omega
  | interrupted =>
      cases next
      exact goes_again had rfl le_rfl
  | failed =>
      cases next
      exact goes_return hrunning fun _ => whole_badGateway _

theorem onReceived_room (responseOrder : IterationOrder Bytes Bytes) {client : HttpClient}
    (receiving : client.state = .Receiving)
    (chunk : Bytes) :
    (client.onReceived responseOrder chunk).state = .Failed ∨
      ((client.readBuffer ++ chunk).length ≤ kMaxResponseSize ∧
        client.onReceived responseOrder chunk =
          { client with readBuffer := client.readBuffer ++ chunk }) ∨
      ∃ response, Parsed response ∧ client.onReceived responseOrder chunk =
        { client with readBuffer := [], state := .Complete, response := response } := by
  rcases onReceived_cases responseOrder client chunk with
    hfail | hmore | ⟨response, hparse, hdone⟩
  · exact .inl (by rw [hfail])
  · refine .inr (.inl ⟨not_lt.mp fun hlarge => ?_, hmore⟩)
    have hstate := congrArg HttpClient.state hmore
    simp only [HttpClient.onReceived, gt_iff_lt, if_pos hlarge, receiving] at hstate
    cases hstate
  · exact .inr (.inr ⟨response, parsed_of_ok hparse, hdone⟩)

theorem goes_recv (point : call.point = .recv) (receiving : call.client.state = .Receiving)
    {result : RecvResult} (nonempty : result ≠ .bytes []) :
    Goes requestOrder upstreamOrder w (w.recv responseOrder i call result) i call
      (waste (.recv i result)) := by
  have hrunning : ∀ reply, call.point ≠ .returned reply := by simp [point]
  have hfailed : ∀ {client : HttpClient}, Goes requestOrder upstreamOrder w (w.return i
      { call with client := client }
      (badGateway (ascii "Upstream connection closed unexpectedly"))) i call
      (waste (.recv i result)) := goes_return hrunning fun _ => whole_badGateway _
  unfold World.recv
  cases result with
  | bytes chunk =>
      have hchunk : 1 ≤ chunk.length :=
        List.length_pos_iff.mpr fun h => nonempty (by rw [h])
      simp only [HttpClient.onRecv]
      rcases onReceived_room responseOrder receiving chunk with
        hfail | ⟨hfits, hmore⟩ | ⟨response, hparsed, hdone⟩
      · rw [hfail]
        exact hfailed
      · rw [hmore]
        rw [List.length_append] at hfits
        simp only [receiving]
        refine goes_set rfl rfl ?_ (by split_ifs <;> simp) (by split_ifs <;> simp)
        split_ifs
        · simp only [left, point, room, List.length_append]
          omega
        · simp only [left, point, room, List.length_append]
          omega
      · rw [hdone]
        simp only
        unfold World.complete
        split_ifs with hkeep
        · refine goes_set rfl rfl ?_ (fun _ => ?_) (by simp)
          · simp only [left, point, room]
            omega
          · exact hparsed
        · exact goes_return hrunning fun _ => whole_responseText responseOrder hparsed
  | closed => exact hfailed
  | wouldBlock =>
      simp only [HttpClient.onRecv, receiving]
      refine goes_set rfl rfl ?_ (by simp) (by simp)
      simp only [left, point, waste]
      omega
  | failed => exact hfailed

theorem goes_release (point : call.point = .release) {now : Nat}
    (next : w.release responseOrder i call now = some w') :
    Goes requestOrder upstreamOrder w w' i call 0 := by
  have hrunning : ∀ reply, call.point ≠ .returned reply := by simp [point]
  have hreply : Sound call → Whole (responseText responseOrder call.client.response) :=
    fun sound => whole_responseText responseOrder (sound.parsed point)
  unfold World.release at next
  simp only at next
  split at next
  · cases next
    exact goes_return hrunning hreply
  · obtain ⟨effect, -, rfl⟩ := Option.map_eq_some_iff.mp next
    exact goes_return (w := World.logged _ _) hrunning hreply

theorem lease_begins (requestOrder upstreamOrder : IterationOrder Bytes Bytes) (w : World)
    (i : Nat) (target : RouteTrie.ProxyTarget) (request : HttpRequest) (isHealthy : Nat → Bool) :
    ∃ call, (w.lease requestOrder upstreamOrder i target request isHealthy).calls =
        Function.update w.calls i (some call) ∧ call.target = target ∧ call.request = request ∧
      left requestOrder upstreamOrder call ≤ bound requestOrder upstreamOrder target request ∧
      Sound call := by
  have hnew : left requestOrder upstreamOrder ⟨target, request, HttpClient.new, .connect⟩ ≤
      bound requestOrder upstreamOrder target request := by
    simp only [left, bound, room, HttpClient.new, List.length_nil]
    omega
  have hsound : Sound ⟨target, request, HttpClient.new, .connect⟩ := ⟨by nofun, by nofun⟩
  unfold World.lease
  simp only
  split
  · exact ⟨_, rfl, rfl, rfl, hnew, hsound⟩
  next fd hleased =>
    split
    · exact ⟨_, rfl, rfl, rfl, hnew, hsound⟩
    next client hadopt =>
      unfold HttpClient.adoptConnection at hadopt
      split_ifs at hadopt
      cases hadopt
      have hleft : left requestOrder upstreamOrder ⟨target, request,
          ⟨some fd, .Connected, hostKeyFor target, [], 0, [], .empty⟩, .connect⟩ =
          bound requestOrder upstreamOrder target request := by
        simp only [left, bound, room, List.length_nil]
        omega
      have hprepared : Goes requestOrder upstreamOrder
          (w.logged (leaseCalls (w.pool.lease isHealthy (hostKeyFor target)))) _ i _ 0 :=
        goes_prepare (i := i) rfl rfl rfl (by
          rw [hleft]
          simp only [bound, room, List.length_nil]
          omega)
      obtain ⟨call, hcalls, hprogress⟩ := hprepared
      have hpays := hprogress.pays
      rw [hleft] at hpays
      exact ⟨call, hcalls, hprogress.target, hprogress.request, by omega,
        hprogress.sound ⟨by nofun, by nofun⟩⟩

inductive CallStep (requestOrder upstreamOrder : IterationOrder Bytes Bytes) (w : World)
    (event : Event) (w' : World) : Prop
  | none (pool : eventCall event = none) (same : w'.calls = w.calls)
  | lease (i : Nat) (call : Call) (index : eventCall event = some i) (new : w.calls i = Option.none)
      (calls : w'.calls = Function.update w.calls i (some call)) (wastes : waste event = 0)
      (begins : left requestOrder upstreamOrder call ≤
        bound requestOrder upstreamOrder call.target call.request) (sound : Sound call)
  | goes (i : Nat) (call : Call) (index : eventCall event = some i) (had : w.calls i = some call)
      (goes : Goes requestOrder upstreamOrder w w' i call (waste event))

theorem callStep {place : Nat → Option Place} (inv : Inv w place) {event : Event}
    (next : step requestOrder upstreamOrder responseOrder w event = some w') :
    CallStep requestOrder upstreamOrder w event w' := by
  cases event with
  | lease i target request isHealthy =>
      simp only [step] at next
      split_ifs at next with hbusy
      cases next
      obtain ⟨call, hcalls, htarget, hrequest, hbegins, hsound⟩ :=
        lease_begins requestOrder upstreamOrder w i target request isHealthy
      exact .lease i call rfl (by simpa using hbusy) hcalls rfl
        (by rw [htarget, hrequest]; exact hbegins) hsound
  | connect i opened connected =>
      obtain ⟨call, hnext, hconnect⟩ := Option.bind_eq_some_iff.mp next
      obtain ⟨had, hpoint⟩ := next_some hnext
      exact .goes i call rfl had (goes_connect hpoint hconnect)
  | poll i result =>
      obtain ⟨call, had, hpoll⟩ := Option.bind_eq_some_iff.mp next
      exact .goes i call rfl had (goes_poll had hpoll)
  | getsockopt i socketError =>
      obtain ⟨call, hnext, rfl⟩ := Option.map_eq_some_iff.mp next
      obtain ⟨had, hpoint⟩ := next_some hnext
      exact .goes i call rfl had (goes_getsockopt hpoint socketError)
  | send i result =>
      obtain ⟨call, hnext, hsend⟩ := Option.bind_eq_some_iff.mp next
      obtain ⟨had, hpoint⟩ := next_some hnext
      have hsending := (inv.clients.fits i call not_false had).state .Sending (by rw [hpoint]; rfl)
      exact .goes i call rfl had (goes_send (w := w.used call) had hpoint hsending hsend)
  | recv i result =>
      obtain ⟨call, hnext, hrecv⟩ := Option.bind_eq_some_iff.mp next
      obtain ⟨had, hpoint⟩ := next_some hnext
      have hreceiving := (inv.clients.fits i call not_false had).state .Receiving
        (by rw [hpoint]; rfl)
      have hresult : result ≠ .bytes [] ∧ (w.used call).recv responseOrder i call result = w' := by
        cases result with
        | bytes chunk =>
            simp only at hrecv
            split_ifs at hrecv with hbad
            refine ⟨fun h => hbad (.inl ?_), Option.some.inj hrecv⟩
            injection h
        | _ => exact ⟨by simp, Option.some.inj hrecv⟩
      obtain ⟨hnonempty, rfl⟩ := hresult
      exact .goes i call rfl had
        (goes_recv (w := w.used call) hpoint hreceiving hnonempty)
  | recvInterrupted i =>
      obtain ⟨call, hnext, rfl⟩ := Option.map_eq_some_iff.mp next
      obtain ⟨had, -⟩ := next_some hnext
      exact .goes i call rfl had (goes_again had rfl le_rfl)
  | release i now =>
      obtain ⟨call, hnext, hrelease⟩ := Option.bind_eq_some_iff.mp next
      obtain ⟨had, hpoint⟩ := next_some hnext
      exact .goes i call rfl had (goes_release hpoint hrelease)
  | reapStale hosts now =>
      simp only [step] at next
      split_ifs at next
      cases next
      exact .none rfl rfl
  | closeAll hosts =>
      simp only [step] at next
      split_ifs at next
      cases next
      exact .none rfl rfl

theorem returned_idle {reply : Bytes} (had : w.calls i = some call)
    (returned : call.point = .returned reply) {event : Event} (index : eventCall event = some i) :
    step requestOrder upstreamOrder responseOrder w event = none := by
  cases event with
  | lease j target request isHealthy =>
      cases index
      simp [step, had]
  | poll j result =>
      cases index
      simp [step, had, World.poll, returned]
  | reapStale hosts now => cases index
  | closeAll hosts => cases index
  | _ =>
      cases index
      simp [step, World.next, had, returned]

theorem returned_stays {place : Nat → Option Place} (inv : Inv w place) {event : Event}
    (next : step requestOrder upstreamOrder responseOrder w event = some w') {reply : Bytes}
    (had : w.calls i = some call) (returned : call.point = .returned reply) :
    w'.calls i = some call := by
  have hother : ∀ j, eventCall event = some j → i ≠ j := by
    rintro j index rfl
    rw [returned_idle had returned index] at next
    cases next
  cases callStep inv next with
  | none pool same =>
      rw [same]
      exact had
  | lease j begun index new calls wastes begins sound =>
      rw [calls, Function.update_of_ne (hother j index)]
      exact had
  | goes j going index had' goes =>
      obtain ⟨call', hcalls, -⟩ := goes
      rw [hcalls, Function.update_of_ne (hother j index)]
      exact had

theorem call_moves (requestOrder upstreamOrder responseOrder : IterationOrder Bytes Bytes)
    {place : Nat → Option Place} (inv : Inv w place) (had : w.calls i = some call)
    (running : ∀ reply, call.point ≠ .returned reply) :
    ∃ event w', eventCall event = some i ∧ waste event = 0 ∧
      step requestOrder upstreamOrder responseOrder w event = some w' := by
  have hnext : w.next i call.point = some call :=
    Option.filter_eq_some_iff.mpr ⟨had, by simp⟩
  cases hpoint : call.point with
  | connect =>
      rw [hpoint] at hnext
      refine ⟨.connect i none false, ?_⟩
      simp only [step, hnext, Option.bind_some, World.connect]
      split_ifs <;> exact ⟨_, rfl, rfl, rfl⟩
  | getsockopt =>
      rw [hpoint] at hnext
      refine ⟨.getsockopt i none, ?_⟩
      simp only [step, hnext]
      exact ⟨_, rfl, rfl, rfl⟩
  | send =>
      rw [hpoint] at hnext
      refine ⟨.send i .failed, ?_⟩
      simp only [step, hnext]
      exact ⟨_, rfl, rfl, rfl⟩
  | recv =>
      rw [hpoint] at hnext
      refine ⟨.recv i .failed, ?_⟩
      simp only [step, hnext]
      exact ⟨_, rfl, rfl, rfl⟩
  | release =>
      rw [hpoint] at hnext
      refine ⟨.release i 0, ?_⟩
      simp only [step, hnext, Option.bind_some, World.release]
      split
      · exact ⟨_, rfl, rfl, rfl⟩
      next fd hfd =>
        obtain ⟨effect, heffect⟩ := release_defined inv.idle.positive (hostKeyFor call.target) fd 0
        rw [heffect]
        exact ⟨_, rfl, rfl, rfl⟩
  | returned reply => exact absurd hpoint (running reply)
  | _ =>
      refine ⟨.poll i .timedOut, ?_⟩
      simp only [step, had, Option.bind_some, World.poll, hpoint]
      exact ⟨_, rfl, rfl, rfl⟩

end Steps

def stepsOf (i : Nat) (trace : List Event) : List Event :=
  trace.filter fun event => eventCall event = some i

def wastedBy (i : Nat) (trace : List Event) : Nat := ((stepsOf i trace).map waste).sum

theorem stepsOf_snoc (i : Nat) (trace : List Event) (event : Event) :
    stepsOf i (trace ++ [event]) =
      stepsOf i trace ++ if eventCall event = some i then [event] else [] := by
  rw [stepsOf, List.filter_append]
  by_cases h : eventCall event = some i
  · rw [if_pos h, List.filter_cons_of_pos (by simpa using h), List.filter_nil, stepsOf]
  · rw [if_neg h, List.filter_cons_of_neg (by simpa using h), List.filter_nil, stepsOf]

section Runs

variable {requestOrder upstreamOrder responseOrder : IterationOrder Bytes Bytes} {w w' : World}
  {trace : List Event}

structure Counted (requestOrder upstreamOrder : IterationOrder Bytes Bytes) (trace : List Event)
    (w : World) : Prop where
  owned : ∃ place, Inv w place
  unborn : ∀ i, w.calls i = none → stepsOf i trace = []
  bounded : ∀ i call, w.calls i = some call →
    (stepsOf i trace).length + left requestOrder upstreamOrder call ≤
      bound requestOrder upstreamOrder call.target call.request + 1 + wastedBy i trace
  sound : ∀ i call, w.calls i = some call → Sound call

theorem Counted.step (counted : Counted requestOrder upstreamOrder trace w) {event : Event}
    (next : UpstreamDescriptors.step requestOrder upstreamOrder responseOrder w event = some w') :
    Counted requestOrder upstreamOrder (trace ++ [event]) w' := by
  obtain ⟨place, inv⟩ := counted.owned
  have howned := inv.step requestOrder upstreamOrder responseOrder next
  have hother : ∀ i, eventCall event ≠ some i → stepsOf i (trace ++ [event]) = stepsOf i trace := by
    intro i hi
    rw [stepsOf_snoc, if_neg hi, List.append_nil]
  have hwasted : ∀ i, eventCall event ≠ some i → wastedBy i (trace ++ [event]) = wastedBy i trace := by
    intro i hi
    rw [wastedBy, hother i hi, wastedBy]
  have hown : ∀ i, eventCall event = some i →
      (stepsOf i (trace ++ [event])).length = (stepsOf i trace).length + 1 ∧
        wastedBy i (trace ++ [event]) = wastedBy i trace + waste event := by
    intro i hi
    rw [wastedBy, stepsOf_snoc, if_pos hi, wastedBy]
    simp
  cases callStep inv next with
  | none pool same =>
      have hsteps : ∀ i, eventCall event ≠ some i := by simp [pool]
      refine ⟨howned, fun i hi => ?_, fun i call hi => ?_, fun i call hi => ?_⟩
      · rw [hother i (hsteps i)]
        exact counted.unborn i (same ▸ hi)
      · rw [hother i (hsteps i), hwasted i (hsteps i)]
        exact counted.bounded i call (same ▸ hi)
      · exact counted.sound i call (same ▸ hi)
  | lease i call index new calls wastes begins sound =>
      refine ⟨howned, fun j hj => ?_, fun j call' hj => ?_, fun j call' hj => ?_⟩
      · have hji : j ≠ i := by
          rintro rfl
          rw [calls, Function.update_self] at hj
          cases hj
        have hindex : eventCall event ≠ some j := by
          rw [index, ne_eq, Option.some_inj]
          exact hji.symm
        rw [calls, Function.update_of_ne hji] at hj
        rw [hother j hindex]
        exact counted.unborn j hj
      · by_cases hji : j = i
        · subst hji
          rw [calls, Function.update_self, Option.some_inj] at hj
          obtain ⟨hlength, hwaste⟩ := hown j index
          rw [hlength, hwaste, counted.unborn j new, List.length_nil, ← hj, wastes]
          omega
        · have hindex : eventCall event ≠ some j := by
            rw [index, ne_eq, Option.some_inj]
            exact fun h => hji h.symm
          rw [calls, Function.update_of_ne hji] at hj
          rw [hother j hindex, hwasted j hindex]
          exact counted.bounded j call' hj
      · by_cases hji : j = i
        · subst hji
          rw [calls, Function.update_self, Option.some_inj] at hj
          exact hj ▸ sound
        · rw [calls, Function.update_of_ne hji] at hj
          exact counted.sound j call' hj
  | goes i call index had goes =>
      obtain ⟨call', hcalls, hprogress⟩ := goes
      have hbefore := counted.bounded i call had
      have hpays := hprogress.pays
      refine ⟨howned, fun j hj => ?_, fun j call'' hj => ?_, fun j call'' hj => ?_⟩
      · have hji : j ≠ i := by
          rintro rfl
          rw [hcalls, Function.update_self] at hj
          cases hj
        have hindex : eventCall event ≠ some j := by
          rw [index, ne_eq, Option.some_inj]
          exact hji.symm
        rw [hcalls, Function.update_of_ne hji] at hj
        rw [hother j hindex]
        exact counted.unborn j hj
      · by_cases hji : j = i
        · subst hji
          rw [hcalls, Function.update_self, Option.some_inj] at hj
          obtain ⟨hlength, hwaste⟩ := hown j index
          rw [hlength, hwaste, ← hj, hprogress.target, hprogress.request]
          omega
        · have hindex : eventCall event ≠ some j := by
            rw [index, ne_eq, Option.some_inj]
            exact fun h => hji h.symm
          rw [hcalls, Function.update_of_ne hji] at hj
          rw [hother j hindex, hwasted j hindex]
          exact counted.bounded j call'' hj
      · by_cases hji : j = i
        · subst hji
          rw [hcalls, Function.update_self, Option.some_inj] at hj
          exact hj ▸ hprogress.sound (counted.sound j call had)
        · rw [hcalls, Function.update_of_ne hji] at hj
          exact counted.sound j call'' hj

theorem counted_of_run {maxIdlePerHost : Nat} {idleTimeout : Int} (positive : 1 ≤ maxIdlePerHost)
    (run : Run (fun w e w' =>
      UpstreamDescriptors.step requestOrder upstreamOrder responseOrder w e = some w')
      (World.init maxIdlePerHost idleTimeout) trace w) :
    Counted requestOrder upstreamOrder trace w := by
  refine run.invariant ⟨⟨_, inv_init positive idleTimeout⟩, fun _ _ => rfl, ?_, ?_⟩
    fun _ _ _ _ counted next => counted.step next
  · intro i call h
    cases h
  · intro i call h
    cases h

def leftOf (requestOrder upstreamOrder : IterationOrder Bytes Bytes) (i : Nat) (w : World) : Nat :=
  ((w.calls i).map (left requestOrder upstreamOrder)).getD 0

theorem call_paid (requestOrder upstreamOrder responseOrder : IterationOrder Bytes Bytes) (i : Nat) :
    Paid (fun w e w' =>
        UpstreamDescriptors.step requestOrder upstreamOrder responseOrder w e = some w')
      (fun w => (∃ place, Inv w place) ∧ w.calls i ≠ none) (leftOf requestOrder upstreamOrder i)
      (fun event => if eventCall event = some i then 1 else 0)
      (fun event => if eventCall event = some i then waste event else 0) where
  kept := by
    rintro w event w' ⟨⟨place, inv⟩, had⟩ next
    refine ⟨inv.step requestOrder upstreamOrder responseOrder next, ?_⟩
    have hset : ∀ {j : Nat} {call : Call},
        w'.calls = Function.update w.calls j (some call) → w'.calls i ≠ none := by
      intro j call hcalls
      by_cases hji : i = j
      · rw [hcalls, hji, Function.update_self]
        nofun
      · rwa [hcalls, Function.update_of_ne hji]
    cases callStep inv next with
    | none pool same => rwa [same]
    | lease j call index new calls => exact hset calls
    | goes j call index had' goes =>
        obtain ⟨call', hcalls, -⟩ := goes
        exact hset hcalls
  pays := by
    rintro w event w' ⟨⟨place, inv⟩, had⟩ next
    have hother : ∀ {j : Nat} {call : Call}, w'.calls = Function.update w.calls j (some call) →
        j ≠ i → leftOf requestOrder upstreamOrder i w' = leftOf requestOrder upstreamOrder i w := by
      intro j call hcalls hji
      rw [leftOf, hcalls, Function.update_of_ne hji.symm, leftOf]
    cases callStep inv next with
    | none pool same =>
        rw [leftOf, same, pool]
        exact le_rfl
    | lease j call index new calls =>
        have hji : j ≠ i := by
          rintro rfl
          exact had new
        have hindex : eventCall event ≠ some i := by simpa [index] using hji
        rw [hother calls hji, if_neg hindex, if_neg hindex]
    | goes j call index had' goes =>
        obtain ⟨call', hcalls, hprogress⟩ := goes
        by_cases hji : j = i
        · subst hji
          rw [if_pos index, if_pos index, leftOf, leftOf, hcalls, Function.update_self, had']
          exact hprogress.pays
        · have hindex : eventCall event ≠ some i := by simpa [index] using hji
          rw [hother hcalls hji, if_neg hindex, if_neg hindex]

/-- Whatever the upstream and the other calls do, a call of `forward` takes at most so many
steps as its request and the largest response have bytes, and one or two more for each system
call that was interrupted or would block; until it has returned it can go on by itself to its
return; and what it returns is a whole response. -/
theorem forward_answers {maxIdlePerHost : Nat} {idleTimeout : Int} (positive : 1 ≤ maxIdlePerHost)
    (run : Run (fun w e w' =>
      UpstreamDescriptors.step requestOrder upstreamOrder responseOrder w e = some w')
      (World.init maxIdlePerHost idleTimeout) trace w) {i : Nat} {call : Call}
    (had : w.calls i = some call) :
    (stepsOf i trace).length + left requestOrder upstreamOrder call ≤
        bound requestOrder upstreamOrder call.target call.request + 1 + wastedBy i trace ∧
      (∀ reply, call.point = .returned reply → Whole reply) ∧
      ∃ rest w' call' reply, Run (fun w e w' =>
          UpstreamDescriptors.step requestOrder upstreamOrder responseOrder w e = some w') w rest w' ∧
        (∀ event ∈ rest, eventCall event = some i) ∧ w'.calls i = some call' ∧
          call'.point = .returned reply ∧ Whole reply := by
  have hcounted := counted_of_run positive run
  refine ⟨hcounted.bounded i call had, (hcounted.sound i call had).whole, ?_⟩
  obtain ⟨rest, w', hrest, hown, call', reply, hcall', hreply⟩ :=
    (call_paid requestOrder upstreamOrder responseOrder i).completes
      (fun w => ∃ call reply, w.calls i = some call ∧ call.point = .returned reply)
      (fun event => eventCall event = some i ∧ waste event = 0)
      (fun event hown => by
        rw [if_pos hown.1, if_pos hown.1, hown.2]
        exact Nat.zero_lt_one)
      (fun w inv hgoal => by
        obtain ⟨⟨place, hinv⟩, hsome⟩ := inv
        obtain ⟨call, hcall⟩ := Option.ne_none_iff_exists'.mp hsome
        obtain ⟨event, w', hindex, hwaste, hnext⟩ := call_moves requestOrder upstreamOrder
          responseOrder hinv hcall fun reply hpoint => hgoal ⟨call, reply, hcall, hpoint⟩
        exact ⟨event, w', ⟨hindex, hwaste⟩, hnext⟩)
      w ⟨hcounted.owned, by rw [had]; nofun⟩
  have hcounted' := counted_of_run positive (run_append run hrest)
  exact ⟨rest, w', call', reply, hrest, fun event hevent => (hown event hevent).1, hcall', hreply,
    (hcounted'.sound i call' hcall').whole reply hreply⟩

def inTwoParts : List Event :=
  let target : RouteTrie.ProxyTarget := ⟨ascii "10.0.0.1", 80⟩
  let request : HttpRequest := ⟨.GET, ascii "/", [], .empty, .empty, [], []⟩
  [.lease 0 target request fun _ => true, .connect 0 (some 5) true,
    .lease 1 target request fun _ => true, .poll 0 .interrupted, .poll 0 .ready,
    .getsockopt 0 (some false), .connect 1 none false, .send 0 (.sent 61), .recv 0 .wouldBlock,
    .poll 0 .ready, .recv 0 (.bytes (ascii "HTTP/1.1 200 OK\r\nContent-Length: 1\r\n\r\n"))]

theorem forward_answers_in_two_parts : ∃ w call,
    Run (fun w e w' => UpstreamDescriptors.step default default default w e = some w')
        (World.init 16 60) inTwoParts w ∧ w.calls 0 = some call ∧ call.point = .pollReceive ∧
      (stepsOf 0 inTwoParts).length + left default default call ≤
        bound default default call.target call.request + 1 + wastedBy 0 inTwoParts ∧
      (∀ reply, call.point = .returned reply → Whole reply) ∧
      ∃ rest w' call' reply, Run (fun w e w' =>
          UpstreamDescriptors.step default default default w e = some w') w rest w' ∧
        (∀ event ∈ rest, eventCall event = some 0) ∧ w'.calls 0 = some call' ∧
          call'.point = .returned reply ∧ Whole reply := by
  have hends : ((exec (UpstreamDescriptors.step default default default) (World.init 16 60)
      inTwoParts).bind fun w => (w.calls 0).map Call.point) = some .pollReceive := by
    decide
  obtain ⟨w, hexec, hw⟩ := Option.bind_eq_some_iff.mp hends
  obtain ⟨call, hcall, hpoint⟩ := Option.map_eq_some_iff.mp hw
  exact ⟨w, call, run_of_exec hexec, hcall, hpoint,
    forward_answers (by decide) (run_of_exec hexec) hcall⟩

end Runs

end ApiGateway.ForwardProgress
