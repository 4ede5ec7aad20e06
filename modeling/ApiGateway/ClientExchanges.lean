import ApiGateway.ForwardProgress
import ApiGateway.ReactorRuns
import ApiGateway.RequestDispatching

/-! The gateway between its clients and its upstreams: the reactor, the work on the tasks and
the calls of `forward`, in any order. What a client is sent is the beginning of one response,
and that response answers the bytes that were received from this client. -/

namespace ApiGateway.ClientExchanges
open ByteText HttpText CrlfLines ChunkedReading RequestParsing ResponseBuilding MiddlewareChain
open Reactor ReactorPhases ReactorRuns RequestDispatching WholeMessages StepRuns
open RequestReading (Dispatch HttpRequest Verdict Waiting dispatchOf hasEnoughBytesToParse
  makeRequest onChunk rejectionOf requestOf)
open UpstreamDescriptors (World)

/-- `received` is what was read from each connection, by its number. -/
structure System where
  gateway : Gateway
  upstream : World
  received : Nat → Bytes

inductive Event where
  | gateway (event : Reactor.Event)
  | upstream (event : UpstreamDescriptors.Event)

def Event.gateway? : Event → Option Reactor.Event
  | .gateway event => some event
  | .upstream _ => none

def Event.upstream? : Event → Option UpstreamDescriptors.Event
  | .gateway _ => none
  | .upstream event => some event

def System.init (listenFd maxIdlePerHost : Nat) (idleTimeout : Int) : System where
  gateway := .init listenFd
  upstream := .init maxIdlePerHost idleTimeout
  received _ := []

def hears (g : Gateway) (received : Nat → Bytes) : Reactor.Event → Nat → Bytes
  | .recv (.bytes chunk) =>
      match g.control with
      | .reading fd =>
          match g.tables.connections fd with
          | some conn =>
              Function.update received conn.serial (received conn.serial ++ chunk)
          | none => received
      | _ => received
  | _ => received

section Systems

variable {ε μ : Type} (middleware : MiddlewarePipeline (HttpRequest × Response) ε μ)
  (router : RouteTrie.Router (RouteHandler ε))
  (order requestOrder upstreamOrder responseOrder : IterationOrder Bytes Bytes)

def Forwarded (w : World)
    (forward : RouteTrie.ProxyTarget → HttpRequest → Except (MiddlewareChain.Exception ε) Bytes) :
    Prop :=
  ∀ target request reply, forward target request = .ok reply → ∃ i call,
    w.calls i = some call ∧ call.target = target ∧ call.request = request ∧
      call.point = .returned reply

def Works (w : World) (dispatch : Dispatch) (outcome : Reactor.Outcome) : Prop :=
  ∃ forward admitted built m, Forwarded w forward ∧
    ChainReached middleware router forward order dispatch m ∧
      taskOutcome admitted built m = some outcome

def step (s : System) : Event → Option System
  | .gateway event =>
      (Reactor.step order s.gateway event).map fun g =>
        { s with gateway := g, received := hears s.gateway s.received event }
  | .upstream event =>
      (UpstreamDescriptors.step requestOrder upstreamOrder responseOrder s.upstream event).map
        fun w => { s with upstream := w }

/-- A worker has done its work when it pushes the result. -/
def Justified (s : System) : Event → Prop
  | .gateway (.finish k outcome) => ∀ task, s.gateway.tables.working[k]? = some task →
      Works middleware router order s.upstream task.dispatch outcome
  | _ => True

def Listed (ex : ParseError) : Prop :=
  ∀ known, ex = .requestRejected known →
    known ∈ [requestLineTooLong, headerSectionTooLarge, bodyTooLarge]

/-- Whatever comes behind these bytes, they do not begin a request. -/
def Malformed (received : Bytes) : Prop :=
  ∀ later, blankLine <:+: received ++ later →
    ∃ ex, tryParseRequest order (received ++ later) = .error ex

/-- A task for the one request that these bytes hold. -/
def Asked (received : Bytes) (dispatch : Dispatch) : Prop :=
  ∃ requestId parsed requestBytes,
    tryParseRequest order received = .ok (some parsed, requestBytes) ∧
      makeRequest dispatch = requestOf order requestId parsed

/-- A response that these bytes call for. -/
inductive Answers (w : World) (received : Bytes) : Bytes → Prop where
  | refused {ex : ParseError} {response : HttpResponse} (malformed : Malformed order received)
      (listed : Listed ex)
      (text : textResponse (rejectionOf ex).statusCode (rejectionOf ex).statusText
        (rejectionOf ex).body = .ok response) : Answers w received response.toBytes
  | answered {dispatch : Dispatch} {outcome : Reactor.Outcome}
      (asked : Asked order received dispatch)
      (works : Works middleware router order w dispatch outcome) :
      Answers w received outcome.responseBytes

end Systems

section Responses

variable {ε μ : Type} {middleware : MiddlewarePipeline (HttpRequest × Response) ε μ}
  {router : RouteTrie.Router (RouteHandler ε)} {order : IterationOrder Bytes Bytes} {w : World}

theorem whole_textResponse {statusCode : Int} {reasonPhrase body : Bytes} {response : HttpResponse}
    (ok : textResponse statusCode reasonPhrase body = .ok response) : Whole response.toBytes := by
  unfold textResponse fillTextResponse at ok
  cases hstatus : HttpResponse.new.setStatus statusCode reasonPhrase with
  | error ex =>
      rw [hstatus] at ok
      cases ok
  | ok named =>
      rw [hstatus] at ok
      have hnamed := ResponseRoundTrip.WellFormed.new.setStatus hstatus
      cases htype : named.setHeader (ascii "Content-Type") (ascii "text/plain; charset=utf-8") with
      | error ex =>
          simp only [bind, Except.bind, htype] at ok
          cases ok
      | ok typed =>
          simp only [bind, Except.bind, htype] at ok
          cases ok
          have htyped := hnamed.setHeader htype
          exact whole_toBytes
            ⟨htyped.low, htyped.high, htyped.reason, htyped.named, htyped.valued, htyped.distinct⟩

theorem whole_internalError (built : Bool) :
    internalError built = [] ∨ Whole (internalError built) := by
  unfold internalError
  split_ifs
  · split
    next response htext => exact .inr (whole_textResponse htext)
    · exact .inl rfl
  · exact .inl rfl

theorem whole_works (replies : ∀ i call, w.calls i = some call → ∀ reply,
      call.point = .returned reply → Whole reply) {dispatch : Dispatch} {outcome : Reactor.Outcome}
    (works : Works middleware router order w dispatch outcome) :
    outcome.responseBytes = [] ∨ Whole outcome.responseBytes := by
  obtain ⟨forward, admitted, built, m, hforward, hreached, houtcome⟩ := works
  unfold taskOutcome at houtcome
  split_ifs at houtcome
  · split at houtcome
    next response htext =>
      cases houtcome
      exact .inr (whole_textResponse htext)
    · cases houtcome
      exact whole_internalError built
  · split at houtcome
    · cases houtcome
    next ending hending =>
      cases houtcome
      refine .inr ?_
      change Whole m.state.responseBytes
      cases hproxied : m.state.proxiedBytes with
      | none =>
          rw [Exchange.responseBytes, hproxied]
          exact whole_toBytes m.state.response.2.wellFormed
      | some reply =>
          rw [Exchange.responseBytes, hproxied]
          obtain ⟨before, -, target, -, hreply⟩ := proxied_of_ran hreached reply hproxied
          obtain ⟨i, call, hcall, -, -, hpoint⟩ := hforward _ _ _ hreply
          exact replies i call hcall reply hpoint
    next ex hending =>
      cases houtcome
      exact whole_internalError built

theorem Answers.whole (replies : ∀ i call, w.calls i = some call → ∀ reply,
      call.point = .returned reply → Whole reply) {received response : Bytes}
    (answers : Answers middleware router order w received response) :
    response = [] ∨ Whole response := by
  cases answers with
  | refused malformed listed text => exact .inr (whole_textResponse text)
  | answered asked works => exact whole_works replies works

end Responses

section Reading

variable {order : IterationOrder Bytes Bytes}

theorem gate_keeps {conn scanned : RequestReading.Connection} {enough : Bool}
    (gate : hasEnoughBytesToParse conn = .ok (scanned, enough)) :
    scanned.readBuffer = conn.readBuffer ∧ scanned.requestId = conn.requestId := by
  unfold hasEnoughBytesToParse at gate
  generalize (if conn.headerScanOffset ≥ 3 then conn.headerScanOffset - 3 else 0) = resumeFrom
    at gate
  simp only at gate
  split_ifs at gate
  all_goals
    cases gate
    exact ⟨rfl, rfl⟩

theorem onChunk_dispatched {conn : RequestReading.Connection} {chunk : Bytes} {task : Dispatch}
    (h : onChunk order conn chunk = .stop (.dispatch task)) :
    Asked order (conn.readBuffer ++ chunk) task := by
  unfold onChunk at h
  simp only at h
  split at h
  · cases h
  · cases h
  next scanned hgate =>
    obtain ⟨hbuffer, hnamed⟩ := gate_keeps hgate
    split at h
    · cases h
    next parsed requestBytes hparse =>
      cases h
      obtain ⟨hpath, hquery, hbody⟩ := RequestReading.parsed_in hparse
      rw [hbuffer] at hparse
      exact ⟨_, parsed, requestBytes, hparse,
        RequestReading.makeRequest_dispatchOf hpath hquery hbody⟩
    · split_ifs at h

theorem onChunk_rejected {conn : RequestReading.Connection} {chunk : Bytes}
    {rejection : RequestReading.Rejection}
    (h : onChunk order conn chunk = .stop (.reject rejection)) :
    ∃ ex, Listed ex ∧ rejection = rejectionOf ex := by
  unfold onChunk at h
  simp only at h
  split at h
  next ex hgate =>
    cases h
    refine ⟨_, ?_, rfl⟩
    rintro known ⟨⟩
    rcases RequestReading.hasEnoughBytesToParse_rejected hgate with hline | hsection
    · simp [hline]
    · simp [hsection]
  · cases h
  · split at h
    next ex hparse =>
      cases h
      refine ⟨ex, ?_, rfl⟩
      rintro known rfl
      exact tryParseRequest_rejected hparse
    · cases h
    · split_ifs at h

def Heard (order : IterationOrder Bytes Bytes) (received : Bytes) : Verdict → Prop
  | .dispatch task => Asked order received task
  | .reject rejection => Malformed order received ∧ ∃ ex, Listed ex ∧ rejection = rejectionOf ex

theorem onChunk_heard {requestId : Bytes} {conn : RequestReading.Connection} {seen chunk : Bytes}
    (waiting : Waiting order requestId conn seen) (nonempty : chunk ≠ []) :
    (onChunk order conn chunk).Holds (Waiting order requestId · (seen ++ chunk))
      (Heard order (seen ++ chunk)) := by
  have hsound : ∀ later, blankLine <:+: seen ++ chunk ++ later →
      (onChunk order conn chunk).Holds (Waiting order requestId · (seen ++ chunk))
        (RequestReading.RightFor order requestId (seen ++ chunk ++ later)) :=
    fun later hlater => RequestReading.onChunk_sound order requestId (find_isSome_iff.mpr hlater)
      conn seen chunk nonempty waiting (List.prefix_append _ _)
  cases h : onChunk order conn chunk with
  | more reading =>
      have hmore := hsound blankLine (List.suffix_append _ _).isInfix
      rw [h] at hmore
      exact hmore
  | stop verdict =>
      cases verdict with
      | dispatch task =>
          have hasked := onChunk_dispatched h
          rw [waiting.buffered] at hasked
          exact hasked
      | reject rejection =>
          refine ⟨fun later hlater => ?_, onChunk_rejected h⟩
          have hrefused := hsound later hlater
          rw [h] at hrefused
          exact hrefused

end Reading

section Tables

variable {ε μ : Type} {middleware : MiddlewarePipeline (HttpRequest × Response) ε μ}
  {router : RouteTrie.Router (RouteHandler ε)} {order : IterationOrder Bytes Bytes} {w : World}
  {received received' : Nat → Bytes} {t t' : Tables}

variable (middleware router order) in
/-- Every task, result and response is for what was received from its connection. -/
structure Told (w : World) (received : Nat → Bytes) (t : Tables) : Prop where
  tasks : ∀ task ∈ t.tasks ++ t.working, Asked order (received task.serial) task.dispatch
  results : ∀ result ∈ t.completionQueue,
    Answers middleware router order w (received result.serial) result.responseBytes
  responses : ∀ serial, ∀ response ∈ t.history.responses serial,
    Answers middleware router order w (received serial) response

variable (order) in
/-- A connection that is being read has stored what was received. -/
def Reads (received : Nat → Bytes) (t : Tables) : Prop :=
  ∀ fd conn, t.connections fd = some conn → t.armed fd .read = true →
    Waiting order conn.requestId conn.toConnection (received conn.serial)

variable (middleware router order) in
structure Kept (w : World) (received : Nat → Bytes) (t : Tables) : Prop where
  told : Told middleware router order w received t
  reads : Reads order received t
  unborn : ∀ serial, t.history.accepted ≤ serial → received serial = []

theorem unasked (inv : Inv t) {serial : Nat} (undispatched : serial ∉ t.history.dispatched) :
    (∀ task ∈ t.tasks ++ t.working, task.serial ≠ serial) ∧
      ∀ result ∈ t.completionQueue, result.serial ≠ serial := by
  refine ⟨fun task htask hserial => undispatched ?_, fun result hresult hserial => undispatched ?_⟩
  · rw [inv.accounts.yielded.mem_iff, ← List.map_append, ← hserial]
    exact List.mem_append_left _ (List.mem_map_of_mem htask)
  · have hcompleted : serial ∈ t.history.completed := by
      rw [inv.accounts.handed.mem_iff, ← hserial]
      exact List.mem_append_left _ (List.mem_map_of_mem hresult)
    rw [inv.accounts.yielded.mem_iff]
    exact List.mem_append_right _ hcompleted

theorem Told.heard (told : Told middleware router order w received t) (inv : Inv t) {serial : Nat}
    (undispatched : serial ∉ t.history.dispatched) (silent : t.history.responses serial = [])
    (same : ∀ other, other ≠ serial → received' other = received other) :
    Told middleware router order w received' t := by
  obtain ⟨htasks, hresults⟩ := unasked inv undispatched
  refine ⟨fun task htask => ?_, fun result hresult => ?_, fun other response hresponse => ?_⟩
  · rw [same _ (htasks task htask)]
    exact told.tasks task htask
  · rw [same _ (hresults result hresult)]
    exact told.results result hresult
  · have hother : other ≠ serial := by
      rintro rfl
      rw [silent] at hresponse
      cases hresponse
    rw [same other hother]
    exact told.responses other response hresponse

theorem Told.respond (told : Told middleware router order w received t) {serial : Nat}
    {response : Bytes} (answers : Answers middleware router order w (received serial) response)
    {history : History} (responses : history.responses =
      Function.update t.history.responses serial (t.history.responses serial ++ [response])) :
    Told middleware router order w received { t with history := history } := by
  refine ⟨told.tasks, told.results, fun other response' hresponse => ?_⟩
  change response' ∈ history.responses other at hresponse
  rw [responses] at hresponse
  by_cases hother : other = serial
  · rw [hother] at hresponse ⊢
    rw [Function.update_self] at hresponse
    rcases List.mem_append.mp hresponse with hold | hnew
    · exact told.responses serial response' hold
    · rw [List.mem_singleton.mp hnew]
      exact answers
  · rw [Function.update_of_ne hother] at hresponse
    exact told.responses other response' hresponse

theorem Reads.only (reads : Reads order received t) {fd serial : Nat} (only : Only t t' fd serial)
    (same : ∀ fd' conn, fd' ≠ fd → t.connections fd' = some conn →
      received' conn.serial = received conn.serial)
    (own : ∀ conn, t'.connections fd = some conn → t'.armed fd .read = true →
      Waiting order conn.requestId conn.toConnection (received' conn.serial)) :
    Reads order received' t' := by
  intro fd' conn hheld harmed
  by_cases h : fd' = fd
  · subst h
    exact own conn hheld harmed
  · rw [only.connections fd' h] at hheld
    rw [only.armed fd' h] at harmed
    rw [same fd' conn h hheld]
    exact reads fd' conn hheld harmed

theorem Kept.closeConnection (kept : Kept middleware router order w received t) (inv : Inv t)
    {fd : Nat} {conn : Connection} (held : t.connections fd = some conn)
    (awaiting : conn.awaitingCompletion = false) :
    Kept middleware router order w received (t.closeConnection fd) := by
  refine ⟨⟨kept.told.tasks, kept.told.results, kept.told.responses⟩,
    kept.reads.only (inv.closeConnection held awaiting).2 (fun _ _ _ _ => rfl)
      (fun conn' hheld => ?_), kept.unborn⟩
  have hclosed : (t.closeConnection fd).connections fd = none := Function.update_self _ _ _
  rw [hclosed] at hheld
  cases hheld

theorem Kept.onAccepted (kept : Kept middleware router order w received t) {clientFd : Nat}
    (requestId : Bytes) :
    Kept middleware router order w received (t.onAccepted clientFd requestId) := by
  refine ⟨⟨kept.told.tasks, kept.told.results, kept.told.responses⟩, fun fd conn hheld harmed => ?_,
    fun serial hserial => kept.unborn serial (Nat.le_of_succ_le hserial)⟩
  by_cases h : fd = clientFd
  · have hself : (t.onAccepted clientFd requestId).connections clientFd =
        some ⟨.fresh requestId, clientFd, [], 0, false, t.history.accepted⟩ :=
      Function.update_self _ _ _
    rw [h, hself] at hheld
    cases hheld
    rw [kept.unborn _ le_rfl]
    exact ⟨rfl, rfl, fun _ => ⟨rfl, rfl⟩, nofun⟩
  · have hother : (t.onAccepted clientFd requestId).connections fd = t.connections fd :=
      Function.update_of_ne h _ _
    have harmed' : (t.onAccepted clientFd requestId).armed fd = t.armed fd := armed_other _ h _ _
    rw [hother] at hheld
    rw [harmed'] at harmed
    exact kept.reads fd conn hheld harmed

theorem Kept.onSent (kept : Kept middleware router order w received t) (inv : Inv t)
    {fd : Nat} {conn : Connection} (held : t.connections fd = some conn)
    (armed : t.armed fd .write = true) {count : Nat}
    (fits : conn.writeOffset + count ≤ conn.writeBuffer.length) :
    Kept middleware router order w received (t.onSent fd conn count) := by
  refine ⟨⟨kept.told.tasks, kept.told.results, kept.told.responses⟩,
    kept.reads.only (inv.onSent held armed fits).2 (fun _ _ _ _ => rfl)
      (fun conn' _ hread => ?_), kept.unborn⟩
  exact absurd ((inv.writing held armed).1.symm.trans hread) (by decide)

theorem Kept.deliver (kept : Kept middleware router order w received t) (inv : Inv t)
    {result : CompletionResult} {rest : List CompletionResult}
    (queue : t.completionQueue = result :: rest) :
    Kept middleware router order w received
      ({ t with completionQueue := rest }.deliver result) := by
  obtain ⟨conn, hheld, hserial, harmed, -, -⟩ := inv.front queue
  have hqueue : ∀ result' ∈ result :: rest,
      Answers middleware router order w (received result'.serial) result'.responseBytes := by
    rw [← queue]
    exact kept.told.results
  have htold : Told middleware router order w received { t with completionQueue := rest } :=
    ⟨kept.told.tasks, fun result' hresult => hqueue result' (List.mem_cons_of_mem _ hresult),
      kept.told.responses⟩
  have hanswers := hqueue result List.mem_cons_self
  rw [← hserial] at hanswers
  obtain ⟨-, serial, honly, -⟩ := inv.deliver queue
  refine ⟨?_, kept.reads.only honly (fun _ _ _ _ => rfl) (fun conn' _ hread => ?_), ?_⟩
  · have hresponded : Told middleware router order w received
        { t with
          completionQueue := rest
          history := { t.history.respond conn.serial result.responseBytes with
            delivered := t.history.delivered ++ [(result.serial, some conn.serial)] } } :=
      htold.respond hanswers rfl
    simp only [Tables.deliver, hheld]
    exact ⟨hresponded.tasks, hresponded.results, hresponded.responses⟩
  · rw [deliver_armed] at hread
    exact absurd (harmed.1.symm.trans hread) (by decide)
  · intro serial' hserial'
    refine kept.unborn serial' ?_
    simp only [Tables.deliver, hheld] at hserial'
    exact hserial'

theorem Kept.onReceived (kept : Kept middleware router order w received t) (inv : Inv t)
    {fd : Nat} {conn : Connection} (held : t.connections fd = some conn)
    (armed : t.armed fd .read = true) {chunk : Bytes} (nonempty : chunk ≠ []) :
    Kept middleware router order w
      (Function.update received conn.serial (received conn.serial ++ chunk))
      (t.onReceived order fd conn chunk).1 := by
  obtain ⟨-, -, hundispatched, hsilent, -⟩ := inv.reading held armed
  have hentry := inv.entries.entry fd conn held
  have hheard := onChunk_heard (kept.reads fd conn held armed) nonempty
  have hsame : ∀ other, other ≠ conn.serial → Function.update received conn.serial
      (received conn.serial ++ chunk) other = received other :=
    fun other hother => Function.update_of_ne hother _ _
  have hself : Function.update received conn.serial (received conn.serial ++ chunk) conn.serial =
      received conn.serial ++ chunk := Function.update_self _ _ _
  have htold := kept.told.heard inv hundispatched hsilent hsame
  have hothers : ∀ fd' conn', fd' ≠ fd → t.connections fd' = some conn' →
      Function.update received conn.serial (received conn.serial ++ chunk) conn'.serial =
        received conn'.serial :=
    fun fd' conn' hfd hheld => hsame _ (inv.entries.alone held fd' conn' hfd hheld)
  have hunborn : ∀ serial, t.history.accepted ≤ serial → Function.update received conn.serial
      (received conn.serial ++ chunk) serial = [] := by
    intro serial hserial
    rw [hsame serial (hentry.accepted.trans_le hserial).ne']
    exact kept.unborn serial hserial
  rw [Tables.onReceived]
  cases h : onChunk order conn.toConnection chunk with
  | more reading =>
      rw [h] at hheard
      refine ⟨⟨htold.tasks, htold.results, htold.responses⟩,
        kept.reads.only (inv.readMore held armed reading).2 hothers (fun conn' hheld _ => ?_),
        hunborn⟩
      simp only [Tables.setConnection, Function.update_self, Option.some.injEq] at hheld
      subst hheld
      change Waiting order reading.requestId reading _
      rw [hself, hheard.named]
      exact hheard
  | stop verdict =>
      rw [h] at hheard
      cases verdict with
      | dispatch task =>
          refine ⟨⟨fun task' htask => ?_, htold.results, htold.responses⟩,
            kept.reads.only (inv.dispatch held armed task rfl).2 hothers (fun conn' _ hread => ?_),
            hunborn⟩
          · rcases List.mem_append.mp htask with hqueued | hworking
            · rcases List.mem_append.mp hqueued with hold | hnew
              · exact htold.tasks task' (List.mem_append_left _ hold)
              · rw [List.mem_singleton.mp hnew, hself]
                exact hheard
            · exact htold.tasks task' (List.mem_append_right _ hworking)
          · have hclosed : ((t.setConnection fd { conn with
                readBuffer := [], awaitingCompletion := true }).registerEvent fd .read
                  false).armed fd .read = false := by simp
            exact absurd (hclosed.symm.trans hread) (by decide)
      | reject rejection =>
          obtain ⟨hmalformed, ex, hlisted, rfl⟩ := hheard
          obtain ⟨response, hresponse⟩ := rejection_answered h
          have hanswers : Answers middleware router order w
              (Function.update received conn.serial (received conn.serial ++ chunk) conn.serial)
              response.toBytes := by
            rw [hself]
            exact .refused hmalformed hlisted hresponse
          simp only
          split
          next hreject =>
            rw [Tables.rejectRequest, hresponse] at hreject
            cases hreject
          next t' hreject =>
            have honly := (inv.rejectRequest held armed _ hreject).2
            have hkey := hentry.key
            rw [Tables.rejectRequest, hresponse] at hreject
            cases hreject
            have hresponded : Told middleware router order w _
                { t with history := t.history.respond conn.serial response.toBytes } :=
              htold.respond hanswers rfl
            refine ⟨⟨hresponded.tasks, hresponded.results, hresponded.responses⟩,
              kept.reads.only honly hothers (fun conn' _ hread => ?_), hunborn⟩
            simp [hkey] at hread

theorem Kept.take (kept : Kept middleware router order w received t) (next : t.take = some t') :
    Kept middleware router order w received t' := by
  unfold Tables.take at next
  split at next
  · cases next
  next task rest htasks =>
    cases next
    refine ⟨⟨fun task' htask => kept.told.tasks task' ?_, kept.told.results, kept.told.responses⟩,
      kept.reads, kept.unborn⟩
    have hperm : (rest ++ (t.working ++ [task])).Perm (t.tasks ++ t.working) := by
      rw [htasks, ← List.append_assoc]
      exact List.perm_append_singleton task _
    exact hperm.mem_iff.mp htask

theorem Kept.finish (kept : Kept middleware router order w received t) {k : Nat}
    {outcome : Reactor.Outcome} (works : ∀ task, t.working[k]? = some task →
      Works middleware router order w task.dispatch outcome)
    (next : t.finish k outcome = some t') : Kept middleware router order w received t' := by
  unfold Tables.finish at next
  split at next
  · cases next
  next task htask =>
    cases next
    have hasked := kept.told.tasks task
      (List.mem_append_right _ (List.mem_of_getElem? htask))
    refine ⟨⟨fun task' hmem => kept.told.tasks task' ?_, fun result hresult => ?_,
      kept.told.responses⟩, kept.reads, kept.unborn⟩
    · exact (List.mem_append.mp hmem).elim (List.mem_append_left _)
        fun hworking => List.mem_append_right _ (List.mem_of_mem_eraseIdx hworking)
    · rcases List.mem_append.mp hresult with hold | hnew
      · exact kept.told.results result hold
      · rw [List.mem_singleton.mp hnew]
        exact .answered hasked (works task htask)

end Tables

section Runs

variable {ε μ : Type} {middleware : MiddlewarePipeline (HttpRequest × Response) ε μ}
  {router : RouteTrie.Router (RouteHandler ε)}
  {order requestOrder upstreamOrder responseOrder : IterationOrder Bytes Bytes}
  {s s' : System} {w w' : World}

theorem hears_of_recv {g : Gateway} {fd : Nat} {conn : Connection}
    (control : g.control = .reading fd) (held : g.tables.connections fd = some conn)
    (received : Nat → Bytes) (chunk : Bytes) :
    hears g received (.recv (.bytes chunk)) =
      Function.update received conn.serial (received conn.serial ++ chunk) := by
  simp only [hears, control, held]

theorem Kept.step (steady : Steady s.gateway)
    (kept : Kept middleware router order w s.received s.gateway.tables) {event : Reactor.Event}
    {g : Gateway} (next : Reactor.step order s.gateway event = some g)
    (works : ∀ k outcome task, event = .finish k outcome →
      s.gateway.tables.working[k]? = some task →
        Works middleware router order w task.dispatch outcome) :
    Kept middleware router order w (hears s.gateway s.received event) g.tables := by
  have hinv := steady.inv
  have hwork := steady.atWork
  cases stepped_of_step next with
  | kevent control returns => exact kept
  | keventError control => exact kept
  | advance advanced =>
      cases advanced with
      | poll control => exact kept
      | lastDrain control events => exact kept
      | event control events =>
          rw [onEvent_tables]
          exact kept
      | written control held all =>
          rw [control] at hwork
          exact kept.closeConnection hinv held (hinv.writing held hwork.armed).2.1
      | drained control queue => exact kept
      | delivered control queue => exact kept.deliver hinv queue
  | @accept result g control haccept =>
      cases result with
      | failed =>
          cases haccept
          exact kept
      | client clientFd requestId nonBlocking =>
          unfold Gateway.onAccept at haccept
          simp only at haccept
          split_ifs at haccept
          · cases haccept
            exact kept.onAccepted requestId
          · cases haccept
            exact kept
  | @recv result g fd conn control held hrecv =>
      rw [control] at hwork
      have hawaiting := (hinv.reading held hwork.armed).2.1
      cases result with
      | bytes chunk =>
          unfold Gateway.onRecv at hrecv
          simp only at hrecv
          split_ifs at hrecv with hchunk
          cases hrecv
          rw [hears_of_recv control held]
          exact kept.onReceived hinv held hwork.armed fun hempty => hchunk (.inl hempty)
      | endOfStream =>
          cases hrecv
          exact kept.closeConnection hinv held hawaiting
      | wouldBlock =>
          cases hrecv
          exact kept
      | interrupted =>
          cases hrecv
          exact kept
      | failed =>
          cases hrecv
          exact kept.closeConnection hinv held hawaiting
  | @send result g fd conn control held more hsend =>
      rw [control] at hwork
      cases result with
      | bytes count =>
          unfold Gateway.onSend at hsend
          simp only at hsend
          split_ifs at hsend with hbad
          cases hsend
          rw [not_or, Nat.not_lt] at hbad
          exact kept.onSent hinv held hwork.armed hbad.2
      | wouldBlock =>
          cases hsend
          exact kept
      | interrupted =>
          cases hsend
          exact kept
      | failed =>
          cases hsend
          exact kept.closeConnection hinv held (hinv.writing held hwork.armed).2.1
  | take htake => exact kept.take htake
  | finish hfinish => exact kept.finish (fun task htask => works _ _ task rfl htask) hfinish
  | stop => exact kept

theorem Answers.later (stays : ∀ i call reply, w.calls i = some call →
      call.point = .returned reply → w'.calls i = some call) {received response : Bytes}
    (answers : Answers middleware router order w received response) :
    Answers middleware router order w' received response := by
  cases answers with
  | refused malformed listed text => exact .refused malformed listed text
  | answered asked works =>
      obtain ⟨forward, admitted, built, m, hforward, hreached, houtcome⟩ := works
      refine .answered asked ⟨forward, admitted, built, m, fun target request reply hreply => ?_,
        hreached, houtcome⟩
      obtain ⟨i, call, hcall, htarget, hrequest, hpoint⟩ := hforward target request reply hreply
      exact ⟨i, call, stays i call reply hcall hpoint, htarget, hrequest, hpoint⟩

theorem Kept.later {received : Nat → Bytes} {t : Tables} (stays : ∀ i call reply,
      w.calls i = some call → call.point = .returned reply → w'.calls i = some call)
    (kept : Kept middleware router order w received t) :
    Kept middleware router order w' received t :=
  ⟨⟨kept.told.tasks, fun result hresult => (kept.told.results result hresult).later stays,
    fun serial response hresponse => (kept.told.responses serial response hresponse).later stays⟩,
    kept.reads, kept.unborn⟩

variable (middleware router order) in
structure Consistent (s : System) : Prop where
  steady : Steady s.gateway
  owned : ∃ place, UpstreamDescriptors.Inv s.upstream place
  kept : Kept middleware router order s.upstream s.received s.gateway.tables

theorem Consistent.step (consistent : Consistent middleware router order s) {event : Event}
    (next : step order requestOrder upstreamOrder responseOrder s event = some s')
    (justified : Justified middleware router order s event) :
    Consistent middleware router order s' := by
  cases event with
  | gateway event =>
      obtain ⟨g, hg, rfl⟩ := Option.map_eq_some_iff.mp next
      refine ⟨consistent.steady.step hg, consistent.owned,
        consistent.kept.step consistent.steady hg ?_⟩
      rintro k outcome task rfl htask
      exact justified task htask
  | upstream event =>
      obtain ⟨w, hw, rfl⟩ := Option.map_eq_some_iff.mp next
      obtain ⟨place, hinv⟩ := consistent.owned
      exact ⟨consistent.steady, hinv.step requestOrder upstreamOrder responseOrder hw,
        consistent.kept.later fun i call reply hcall hpoint =>
          ForwardProgress.returned_stays hinv hw hcall hpoint⟩

theorem consistent_init {maxIdlePerHost : Nat} (positive : 1 ≤ maxIdlePerHost)
    (listenFd : Nat) (idleTimeout : Int) :
    Consistent middleware router order (.init listenFd maxIdlePerHost idleTimeout) := by
  refine ⟨steady_init listenFd, ⟨_, UpstreamDescriptors.inv_init positive idleTimeout⟩,
    ⟨⟨?_, ?_, ?_⟩, ?_, fun _ _ => rfl⟩⟩
  · intro task htask
    cases htask
  · intro result hresult
    cases hresult
  · intro serial response hresponse
    cases hresponse
  · intro fd conn hheld
    cases hheld

variable (middleware router order) in
/-- What a connection has been sent, by what was received from it. -/
inductive Exchanged (s : System) (serial : Nat) : Prop where
  | silent (responses : s.gateway.tables.history.responses serial = [])
      (sent : s.gateway.tables.history.sent serial = [])
  | answered (response : Bytes) (responses : s.gateway.tables.history.responses serial = [response])
      (sent : s.gateway.tables.history.sent serial <+: response)
      (answers : Answers middleware router order s.upstream (s.received serial) response)
      (whole : response = [] ∨ Whole response)
      (all : Whole (s.gateway.tables.history.sent serial) →
        s.gateway.tables.history.sent serial = response)

theorem Consistent.exchanged (consistent : Consistent middleware router order s)
    (replies : ∀ i call, s.upstream.calls i = some call → ∀ reply,
      call.point = .returned reply → Whole reply) (serial : Nat) :
    Exchanged middleware router order s serial := by
  rcases consistent.steady.inv.accounts.answered serial with
    ⟨hresponses, hsent⟩ | ⟨response, hresponses, hsent⟩
  · exact .silent hresponses hsent
  · have hanswers := consistent.kept.told.responses serial response (by simp [hresponses])
    have hwhole := hanswers.whole replies
    refine .answered response hresponses hsent hanswers hwhole fun hall => ?_
    rcases hwhole with hempty | hresponse
    · rw [hempty] at hsent ⊢
      exact List.prefix_nil.mp hsent
    · exact hall.eq_of_prefix hresponse hsent

/-- Whatever the clients, the upstreams and the workers do, and in whatever order: a connection
has at most one response, and was sent the beginning of it. The response answers what was
received from this connection, by a refusal or by the work on the request; and it says where it
ends, so a client that was sent a whole message was sent all of it. -/
theorem exchanges_answered {maxIdlePerHost : Nat} (positive : 1 ≤ maxIdlePerHost)
    {listenFd : Nat} {idleTimeout : Int} {trace : List Event}
    (run : Run (fun s event s' => step order requestOrder upstreamOrder responseOrder s event =
        some s' ∧ Justified middleware router order s event)
      (.init listenFd maxIdlePerHost idleTimeout) trace s) :
    Run (fun g event g' => Reactor.step order g event = some g') (.init listenFd)
        (trace.filterMap Event.gateway?) s.gateway ∧
      Run (fun w event w' =>
          UpstreamDescriptors.step requestOrder upstreamOrder responseOrder w event = some w')
        (.init maxIdlePerHost idleTimeout) (trace.filterMap Event.upstream?) s.upstream ∧
      ∀ serial, Exchanged middleware router order s serial := by
  have hgateway : Run (fun g event g' => Reactor.step order g event = some g') (.init listenFd)
      (trace.filterMap Event.gateway?) s.gateway := by
    refine run.project System.gateway fun s event s' next => ?_
    cases event with
    | gateway event =>
        obtain ⟨g, hg, rfl⟩ := Option.map_eq_some_iff.mp next.1
        exact hg
    | upstream event =>
        obtain ⟨w, hw, rfl⟩ := Option.map_eq_some_iff.mp next.1
        rfl
  have hupstream : Run (fun w event w' =>
        UpstreamDescriptors.step requestOrder upstreamOrder responseOrder w event = some w')
      (.init maxIdlePerHost idleTimeout) (trace.filterMap Event.upstream?) s.upstream := by
    refine run.project System.upstream fun s event s' next => ?_
    cases event with
    | gateway event =>
        obtain ⟨g, hg, rfl⟩ := Option.map_eq_some_iff.mp next.1
        rfl
    | upstream event =>
        obtain ⟨w, hw, rfl⟩ := Option.map_eq_some_iff.mp next.1
        exact hw
  have hconsistent : Consistent middleware router order s :=
    @Run.invariant _ _ _ _ (fun _ s => Consistent middleware router order s)
      (consistent_init positive listenFd idleTimeout)
      (fun _ _ _ _ consistent next => consistent.step next.1 next.2) _ _ run
  have hcounted := ForwardProgress.counted_of_run positive hupstream
  exact ⟨hgateway, hupstream, fun serial => hconsistent.exchanged
    (fun i call hcall => (hcounted.sound i call hcall).whole) serial⟩

def noMiddleware : MiddlewarePipeline (HttpRequest × Response) Unit Unit := ⟨[], Nat.zero_le _⟩

def proxiedTarget : RouteTrie.ProxyTarget := ⟨ascii "10.0.0.1", 80⟩

def proxiedRequest : HttpRequest := ⟨.GET, ascii "/p", [], .empty, .empty, [], []⟩

def proxiedReply : Bytes :=
  ascii "HTTP/1.1 200 OK\r\nContent-Length: 1\r\nConnection: close\r\n\r\nA"

theorem works_proxied {w : World} {call : UpstreamDescriptors.Call} {dispatch : Dispatch}
    (made : makeRequest dispatch = proxiedRequest) (called : w.calls 0 = some call)
    (returned : (call.target, call.request, call.point) =
      (proxiedTarget, proxiedRequest, .returned proxiedReply)) :
    Works noMiddleware proxyRoutes default w dispatch (.responded proxiedReply) := by
  let forward : RouteTrie.ProxyTarget → HttpRequest →
      Except (MiddlewareChain.Exception Unit) Bytes := fun target request =>
      if target = proxiedTarget ∧ request = proxiedRequest then .ok proxiedReply
      else .error (.thrown ())
  have hforwarded : Forwarded w forward := by
    intro target request reply hreply
    simp only [forward] at hreply
    split_ifs at hreply with hasked
    cases hreply
    simp only [Prod.mk.injEq] at returned
    exact ⟨0, call, called, returned.1.trans hasked.1.symm, returned.2.1.trans hasked.2.symm,
      returned.2.2⟩
  have hreached := reached_runFor (gatewayPipeline noMiddleware)
    (inOnePiece (routeRequest proxyRoutes forward default))
    ⟨makeRequest dispatch, ⟨.new, .new⟩, none⟩ 4
  refine ⟨forward, true, true, _, hforwarded, hreached, ?_⟩
  rw [made]
  rfl

def twoRequests : List Event :=
  let accepted : List Reactor.Event := [.advance, .kevent [.ready 3 .read], .advance,
    .accept (.client 5 [] true), .accept (.client 6 [] true), .accept .failed, .advance, .advance]
  let received : List Reactor.Event := [.advance, .kevent [.ready 5 .read, .ready 6 .read],
    .advance, .recv (.bytes (ascii "GET /p HT")), .advance,
    .recv (.bytes (ascii "BAD\r\n\r\n")), .advance, .advance, .advance,
    .kevent [.ready 5 .read], .advance, .recv (.bytes (ascii "TP/1.1\r\n\r\n")), .take]
  let forwarded : List UpstreamDescriptors.Event :=
    [.lease 0 proxiedTarget proxiedRequest fun _ => true, .connect 0 (some 7) true,
      .poll 0 .ready, .getsockopt 0 (some false), .send 0 (.sent 62), .recv 0 .wouldBlock,
      .poll 0 .ready, .recv 0 (.bytes (ascii "HTTP/1.1 200 OK\r\nContent-Length: 1\r\n\r\nA")),
      .release 0 7]
  (accepted ++ received).map .gateway ++ forwarded.map .upstream

/-- Of two requests one is malformed, and the other, which comes in two parts, is forwarded;
its client has a byte of the reply. -/
def twoClients : List Event :=
  let sent : List Reactor.Event := [.advance, .advance, .advance, .advance,
    .kevent [.ready 5 .write], .advance, .send (.bytes 1)]
  twoRequests ++ .gateway (.finish 0 (.responded proxiedReply)) :: sent.map .gateway

theorem run_of_unfinished {s s' : System} {trace : List Event}
    (hexec : exec (step default default default default) s trace = some s')
    (unfinished : ∀ k outcome, Event.gateway (.finish k outcome) ∉ trace) :
    Run (fun s event s' => step default default default default s event = some s' ∧
      Justified noMiddleware proxyRoutes default s event) s trace s' := by
  refine @Run.refine _ _ _ _ _ (fun _ => True) trivial (fun _ _ _ _ _ => trivial) _ _
    (run_of_exec hexec) fun s event s' _ hmem next => ⟨next, ?_⟩
  cases event with
  | upstream event => trivial
  | gateway event =>
      cases event with
      | finish k outcome => exact absurd hmem (unfinished k outcome)
      | _ => trivial

theorem exchanges_answered_two_clients : ∃ s,
    Run (fun s event s' => step default default default default s event = some s' ∧
        Justified noMiddleware proxyRoutes default s event) (.init 3 16 60) twoClients s ∧
      (s.received 0 = ascii "GET /p HTTP/1.1\r\n\r\n" ∧
        s.gateway.tables.history.responses 0 = [proxiedReply] ∧
        s.gateway.tables.history.sent 0 = ascii "H") ∧
      Run (fun g event g' => Reactor.step default g event = some g') (.init 3)
        (twoClients.filterMap Event.gateway?) s.gateway ∧
      Run (fun w event w' => UpstreamDescriptors.step default default default w event = some w')
        (.init 16 60) (twoClients.filterMap Event.upstream?) s.upstream ∧
      ∀ serial, Exchanged noMiddleware proxyRoutes default s serial := by
  have hends : ((exec (step default default default default) (.init 3 16 60) twoClients).map
      fun s => (s.received 0, s.gateway.tables.history.responses 0,
        s.gateway.tables.history.sent 0)) =
        some (ascii "GET /p HTTP/1.1\r\n\r\n", [proxiedReply], ascii "H") := by
    decide +kernel
  have hforwarded : ((exec (step default default default default) (.init 3 16 60)
      twoRequests).bind fun s => (s.upstream.calls 0).map fun call =>
        (s.gateway.tables.working.map fun task => makeRequest task.dispatch,
          call.target, call.request, call.point)) =
        some ([proxiedRequest], proxiedTarget, proxiedRequest, .returned proxiedReply) := by
    decide +kernel
  obtain ⟨s, hexec, hs⟩ := Option.map_eq_some_iff.mp hends
  simp only [Prod.mk.injEq] at hs
  obtain ⟨before, hbefore, hcalled⟩ := Option.bind_eq_some_iff.mp hforwarded
  obtain ⟨call, hcall, hreturned⟩ := Option.map_eq_some_iff.mp hcalled
  rw [Prod.mk.injEq] at hreturned
  rw [twoClients, exec_append, hbefore, Option.bind_some, exec] at hexec
  obtain ⟨after, hfinish, hsent⟩ := Option.bind_eq_some_iff.mp hexec
  have hjustified : Justified noMiddleware proxyRoutes default before
      (.gateway (.finish 0 (.responded proxiedReply))) := by
    intro task htask
    refine works_proxied ?_ hcall hreturned.2
    have hmade := List.mem_map_of_mem (f := fun task => makeRequest task.dispatch)
      (List.mem_of_getElem? htask)
    rw [hreturned.1] at hmade
    exact List.mem_singleton.mp hmade
  have hrun := run_append
    (Run.snoc (run_of_unfinished hbefore (by simp [twoRequests])) ⟨hfinish, hjustified⟩)
    (run_of_unfinished hsent (by simp))
  rw [List.append_assoc, List.singleton_append] at hrun
  exact ⟨s, hrun, hs, exchanges_answered (by decide) hrun⟩

end Runs

end ApiGateway.ClientExchanges
