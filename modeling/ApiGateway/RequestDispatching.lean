import ApiGateway.JsonEscape
import ApiGateway.MiddlewareChain
import ApiGateway.Reactor
import ApiGateway.ResponseRoundTrip

/-! What a worker does with a request: the rate limiter's answer, the middleware
chain, the route, and the bytes of the result. -/

namespace ApiGateway.RequestDispatching
open ByteText HttpText CrlfLines MessageHeaders RequestReading ResponseBuilding ResponseRoundTrip
open MiddlewareChain JsonEscape

/-- Outside its setters nothing changes a response. -/
abbrev Response := { response : HttpResponse // Reached response }

/-- What the lambda of `dispatchToThreadPool` holds. -/
structure Exchange where
  request : HttpRequest
  response : Response
  proxiedBytes : Option Bytes

section Routing

variable {ε : Type*}

def callAll : List SetterCall → Response → Outcome ε × Response
  | [], response => (.ok (), response)
  | call :: rest, response =>
      match call.result response.1 with
      | .error ex => (.error (.invalidArgument ex), response)
      | .ok _ => callAll rest ⟨call.apply response.1, response.2.called call⟩

def fillTextCalls (statusCode : Int) (reasonPhrase body : Bytes) : List SetterCall :=
  [.setStatusReason statusCode reasonPhrase,
    .setHeader (ascii "Content-Type") (ascii "text/plain; charset=utf-8"), .setBody body]

/-- A three-digit status code in its place, or 0. -/
def statusFromWire (wire : Bytes) : Nat :=
  if wire.length < 12 ∨ wire.take 5 ≠ ascii "HTTP/" ∨ wire[8]? ≠ some 32 then 0
  else if ((wire.drop 9).take 3).all isdigit = false then 0
  else
    let code := digitsValue ((wire.drop 9).take 3)
    if 100 ≤ code ∧ code ≤ 599 then code else 0

/-- The echo document; the order is the one the iteration over the parameters takes. -/
def echoJson (order : IterationOrder Bytes Bytes) (request : HttpRequest) : Bytes :=
  let head := appendJsonEscaped (ascii "\x7b\"status\":\"ok\",\"path\":\"") request.path ++
    ascii "\",\"params\":\x7b"
  let members := (request.params.iterate order).foldl (fun (json, first) (key, value) =>
    let json := if first then json else json ++ ascii ","
    let json := appendJsonEscaped (json ++ ascii "\"") key ++ ascii "\":\""
    (appendJsonEscaped json value ++ ascii "\"", false)) (head, true)
  members.1 ++ ascii "\x7d\x7d"

/-- A stored closure: how it ends, and the response as it leaves it. -/
abbrev RouteHandler (ε : Type) := HttpRequest → Response → Outcome ε × Response

variable {ε : Type} (router : RouteTrie.Router (RouteHandler ε))
  (forward : RouteTrie.ProxyTarget → HttpRequest → Except (MiddlewareChain.Exception ε) Bytes)
  (order : IterationOrder Bytes Bytes)

/-- The setters are called on the response of the exchange. -/
def Exchange.callAll (x : Exchange) (calls : List SetterCall) : Outcome ε × Exchange :=
  let result := RequestDispatching.callAll calls x.response
  (result.1, { x with response := result.2 })

def callHandler (handler : Option (RouteHandler ε)) (x : Exchange) : Outcome ε × Exchange :=
  match handler with
  | none => (.ok (), x)
  | some handler =>
      let result := handler x.request x.response
      (result.1, { x with response := result.2 })

def echo (x : Exchange) : Outcome ε × Exchange :=
  x.callAll [.setStatus 200, .setHeader (ascii "Content-Type") (ascii "application/json"),
    .setBody (echoJson order x.request)]

/-- The branch for a proxy route; `forward` is what one call of the proxy comes to. -/
def proxy (target : RouteTrie.ProxyTarget) (x : Exchange) : Outcome ε × Exchange :=
  match forward target x.request with
  | .error ex => (.error ex, x)
  | .ok proxiedBytes =>
      let x := { x with proxiedBytes := some proxiedBytes }
      if statusFromWire proxiedBytes ≠ 0 then
        x.callAll [.setStatus (statusFromWire proxiedBytes)]
      else (.ok (), x)

def routeRequest (x : Exchange) : Outcome ε × Exchange :=
  let found := router.matchRoute x.request.method x.request.path
  if found.found = false then
    x.callAll (fillTextCalls 404 (ascii "Not Found") (ascii "No route matches this path/method."))
  else
    let x := { x with request := { x.request with params := found.params } }
    match found.proxyTarget with
    | some target => proxy forward target x
    | none =>
        match callHandler found.handler x with
        | (.error ex, x) => (.error ex, x)
        | (.ok _, x) => if found.echoResponse then echo order x else (.ok (), x)

end Routing

section Chain

variable {ε μ : Type}

abbrev Memory (ε μ : Type) := μ ⊕ Option (Outcome ε)

/-- A middleware sees the request and the response, and not what the proxy returned. -/
def onMessages (middleware : Program (HttpRequest × Response) ε μ) :
    Program Exchange ε (Memory ε μ) where
  start := .inl middleware.start
  resume memory outcome := memory.map (fun memory => middleware.resume memory outcome) id
  move
    | .inr ending, _ => (.ret, .inr ending)
    | .inl memory, x =>
        match middleware.move memory (x.request, x.response) with
        | (.assign (request, response), memory) =>
            (.assign { x with request := request, response := response }, .inl memory)
        | (.callNext frame, memory) => (.callNext frame, .inl memory)
        | (.ret, memory) => (.ret, .inl memory)
        | (.raise ex, memory) => (.raise ex, .inl memory)

/-- Code that runs in one piece. -/
def inOnePiece (code : Exchange → Outcome ε × Exchange) : Program Exchange ε (Memory ε μ) where
  start := .inr none
  resume memory _ := memory
  move
    | .inl memory, _ => (.ret, .inl memory)
    | .inr none, x => (.assign (code x).2, .inr (some (code x).1))
    | .inr (some (.ok ending)), _ => (.ret, .inr (some (.ok ending)))
    | .inr (some (.error ex)), _ => (.raise ex, .inr (some (.error ex)))

def gatewayPipeline (middleware : MiddlewarePipeline (HttpRequest × Response) ε μ) :
    MiddlewarePipeline Exchange ε (Memory ε μ) :=
  ⟨middleware.middleware.map onMessages, by
    rw [List.length_map]
    exact middleware.bounded⟩

variable (middleware : MiddlewarePipeline (HttpRequest × Response) ε μ)
  (router : RouteTrie.Router (RouteHandler ε))
  (forward : RouteTrie.ProxyTarget → HttpRequest → Except (MiddlewareChain.Exception ε) Bytes)
  (order : IterationOrder Bytes Bytes)

def ChainReached (task : Dispatch) (m : Machine Exchange ε (Memory ε μ)) : Prop :=
  Reached (gatewayPipeline middleware) (inOnePiece (routeRequest router forward order))
    ⟨makeRequest task, ⟨.new, .new⟩, none⟩ m

def Exchange.responseBytes (x : Exchange) : Bytes :=
  match x.proxiedBytes with
  | some proxiedBytes => proxiedBytes
  | none => x.response.1.toBytes

/-- How the work on a task ends; `none` while its chain runs. -/
def taskOutcome (admitted built : Bool) (m : Machine Exchange ε (Memory ε μ)) :
    Option Reactor.Outcome :=
  if admitted = false then
    match textResponse 429 (ascii "Too Many Requests")
        (ascii "Rate limit exceeded. Please try again later.") with
    | .ok response => some (.responded response.toBytes)
    | .error _ => some (.threw built)
  else
    match m.outcome with
    | none => none
    | some (.ok _) => some (.responded m.state.responseBytes)
    | some (.error _) => some (.threw built)

end Chain

section Sent

variable {ε μ : Type} {middleware : MiddlewarePipeline (HttpRequest × Response) ε μ}
  {router : RouteTrie.Router (RouteHandler ε)}
  {forward : RouteTrie.ProxyTarget → HttpRequest → Except (MiddlewareChain.Exception ε) Bytes}
  {order : IterationOrder Bytes Bytes}

/-- The bytes read as the response: its status line, its headers with their values
trimmed and the length of its body, and the body. -/
structure Carries (bytes : Bytes) (response : HttpResponse) : Prop where
  ended : find blankLine bytes ≠ none
  status : startLine bytes = statusLine response
  headers : headerFields bytes = announcedHeaders response
  body : bodyOf bytes = response.body

theorem carries_toBytes (response : Response) : Carries response.1.toBytes response.1 := by
  have ⟨hended, hhead, hfields, hbody⟩ := read_toBytes response.2.wellFormed
  exact ⟨hended, (startLine_headerFields hhead).1, hfields, hbody⟩

def Forwards (router : RouteTrie.Router (RouteHandler ε))
    (forward : RouteTrie.ProxyTarget → HttpRequest → Except (MiddlewareChain.Exception ε) Bytes)
    (request : HttpRequest) (reply : Bytes) : Prop :=
  ∃ target, (router.matchRoute request.method request.path).proxyTarget = some target ∧
    forward target { request with
      params := (router.matchRoute request.method request.path).params } = .ok reply

theorem matchRoute_cases {H : Type} (router : RouteTrie.Router H) (method : HttpMethod)
    (path : Bytes) : router.matchRoute method path = .notFound ∨
      ∃ entry params, router.matchRoute method path = .ofEntry entry params := by
  unfold RouteTrie.Router.matchRoute
  split
  · exact .inl rfl
  · split
    · exact .inl rfl
    · split
      · exact .inl rfl
      · exact .inr ⟨_, _, rfl⟩

theorem found_of_proxyTarget {H : Type} {router : RouteTrie.Router H} {method : HttpMethod}
    {path : Bytes} {target : RouteTrie.ProxyTarget}
    (h : (router.matchRoute method path).proxyTarget = some target) :
    ¬ (router.matchRoute method path).found = false := by
  rcases matchRoute_cases router method path with hnone | ⟨entry, params, hentry⟩
  · rw [hnone] at h
    cases h
  · rw [hentry]
    exact Bool.true_eq_false.mp

theorem callHandler_proxied (handler : Option (RouteHandler ε)) (x : Exchange) :
    (callHandler handler x).2.proxiedBytes = x.proxiedBytes := by
  cases handler with
  | none => rfl
  | some handler => rfl

theorem callHandler_request (handler : Option (RouteHandler ε)) (x : Exchange) :
    (callHandler handler x).2.request = x.request := by
  cases handler <;> rfl

theorem routeRequest_of_other {x : Exchange}
    (h : (router.matchRoute x.request.method x.request.path).proxyTarget = none) :
    (routeRequest router forward order x).2.proxiedBytes = x.proxiedBytes := by
  by_cases hfound : (router.matchRoute x.request.method x.request.path).found = false
  · rw [routeRequest, if_pos hfound]
    rfl
  · have hhandled := callHandler_proxied
      (router.matchRoute x.request.method x.request.path).handler { x with
        request := { x.request with
          params := (router.matchRoute x.request.method x.request.path).params } }
    rw [routeRequest, if_neg hfound]
    simp only [h]
    split
    · next ex y hhandler =>
      rw [hhandler] at hhandled
      exact hhandled
    · next y hhandler =>
      rw [hhandler] at hhandled
      split_ifs
      · exact hhandled
      · exact hhandled

theorem routeRequest_of_forwards {x : Exchange} {reply : Bytes}
    (h : Forwards router forward x.request reply) :
    (routeRequest router forward order x).2.proxiedBytes = some reply := by
  have ⟨target, htarget, hforward⟩ := h
  rw [routeRequest, if_neg (found_of_proxyTarget htarget)]
  simp only [htarget, proxy, hforward]
  split_ifs
  · rfl
  · rfl

theorem routeRequest_proxied (x : Exchange) :
    (routeRequest router forward order x).2.proxiedBytes = x.proxiedBytes ∨
      ∃ reply, Forwards router forward x.request reply ∧
        (routeRequest router forward order x).2.proxiedBytes = some reply := by
  cases htarget : (router.matchRoute x.request.method x.request.path).proxyTarget with
  | none => exact .inl (routeRequest_of_other htarget)
  | some target =>
      cases hforward : forward target { x.request with
          params := (router.matchRoute x.request.method x.request.path).params } with
      | error ex =>
          rw [routeRequest, if_neg (found_of_proxyTarget htarget)]
          refine .inl ?_
          simp only [htarget, proxy, hforward]
      | ok reply =>
          have hreply : Forwards router forward x.request reply := ⟨target, htarget, hforward⟩
          exact .inr ⟨reply, hreply, routeRequest_of_forwards hreply⟩

theorem code_assign {index : Nat} {memory memory' : Memory ε μ} {x x' : Exchange}
    (move : ((gatewayPipeline middleware).code (inOnePiece (routeRequest router forward order))
      index).move memory x = (.assign x', memory')) :
    x'.proxiedBytes = x.proxiedBytes ∨ middleware.middleware.length ≤ index ∧
      memory = .inr none ∧ x' = (routeRequest router forward order x).2 := by
  rw [MiddlewarePipeline.code, gatewayPipeline, List.getElem?_map] at move
  cases hindex : middleware.middleware[index]? with
  | none =>
      rw [hindex, Option.map_none, Option.getD_none] at move
      rcases memory with memory | _ | ⟨ex | ending⟩
      · cases move
      · cases move
        exact .inr ⟨List.getElem?_eq_none_iff.mp hindex, rfl, rfl⟩
      · cases move
      · cases move
  | some code =>
      rw [hindex, Option.map_some, Option.getD_some] at move
      cases memory with
      | inr ending => cases move
      | inl memory =>
          simp only [onMessages] at move
          split at move
          · cases move
            exact .inl rfl
          · cases move
          · cases move
          · cases move

section Runs

variable (middleware router forward order)

def ChainStep (m m' : Machine Exchange ε (Memory ε μ)) : Prop :=
  step (gatewayPipeline middleware) (inOnePiece (routeRequest router forward order)) m = some m'

/-- The terminal step was about to run in `before`, and `m` came later. -/
structure TerminalRan (task : Dispatch) (before m : Machine Exchange ε (Memory ε μ)) : Prop where
  reached : ChainReached middleware router forward order task before
  entered : ∃ frame rest, before.stack = frame :: rest ∧
    frame.index = middleware.middleware.length ∧ frame.memory = .inr none
  later : Relation.TransGen (ChainStep middleware router forward order) before m

end Runs

variable {task : Dispatch} {m m' : Machine Exchange ε (Memory ε μ)}

theorem proxied_of_ran (reached : ChainReached middleware router forward order task m) :
    ∀ reply, m.state.proxiedBytes = some reply →
      ∃ before, TerminalRan middleware router forward order task before m ∧
        Forwards router forward before.state.request reply := by
  induction reached with
  | refl =>
      rintro reply ⟨⟩
  | @tail m m' reached next ih =>
      intro reply hreply
      have hcarry : m.state.proxiedBytes = some reply →
          ∃ before, TerminalRan middleware router forward order task before m' ∧
            Forwards router forward before.state.request reply := by
        intro hold
        have ⟨before, hran, hforwards⟩ := ih reply hold
        exact ⟨before, ⟨hran.reached, hran.entered, hran.later.tail next⟩, hforwards⟩
      rcases step_state next with hsame | ⟨top, rest, memory, hstack, hmove⟩
      · rw [hsame] at hreply
        exact hcarry hreply
      · rcases code_assign hmove with hkept | ⟨hbehind, hmemory, hroute⟩
        · rw [hkept] at hreply
          exact hcarry hreply
        · rw [hroute] at hreply
          rcases routeRequest_proxied m.state with hold | ⟨reply', hforwards, hnew⟩
          · rw [hold] at hreply
            exact hcarry hreply
          · rw [hnew] at hreply
            cases hreply
            have htop : top ∈ m.stack := by
              rw [hstack]
              exact List.mem_cons_self
            have hindex := Reached.index_le reached htop
            rw [gatewayPipeline, List.length_map] at hindex
            exact ⟨m, ⟨reached, ⟨top, rest, hstack, by omega, hmemory⟩, .single next⟩, hforwards⟩

theorem proxied_step (next : ChainStep middleware router forward order m m')
    (h : m.state.proxiedBytes ≠ none) : m'.state.proxiedBytes ≠ none := by
  rcases step_state next with hsame | ⟨top, rest, memory, _, hmove⟩
  · rw [hsame]
    exact h
  · rcases code_assign hmove with hkept | ⟨_, _, hroute⟩
    · rw [hkept]
      exact h
    · rw [hroute]
      rcases routeRequest_proxied m.state with hold | ⟨reply, _, hnew⟩
      · rw [hold]
        exact h
      · rw [hnew]
        exact Option.some_ne_none _

theorem ran_proxied {before : Machine Exchange ε (Memory ε μ)} {reply : Bytes}
    (ran : TerminalRan middleware router forward order task before m)
    (forwards : Forwards router forward before.state.request reply) :
    m.state.proxiedBytes ≠ none := by
  have ⟨first, hfirst, hlater⟩ := Relation.TransGen.head'_iff.mp ran.later
  have ⟨frame, rest, hstack, hindex, hmemory⟩ := ran.entered
  have hcode : (gatewayPipeline middleware).code
      (inOnePiece (routeRequest router forward order)) frame.index =
      inOnePiece (routeRequest router forward order) := by
    rw [MiddlewarePipeline.code, gatewayPipeline,
      List.getElem?_eq_none (by rw [List.length_map]; omega), Option.getD_none]
  have hmove : (inOnePiece (routeRequest router forward order) :
      Program Exchange ε (Memory ε μ)).move frame.memory before.state =
        (.assign (routeRequest router forward order before.state).2,
          .inr (some (routeRequest router forward order before.state).1)) := by
    rw [hmemory]
    rfl
  have hstate : first.state = (routeRequest router forward order before.state).2 := by
    unfold ChainStep step at hfirst
    simp only [hstack, hcode, hmove, Option.some.injEq] at hfirst
    rw [← hfirst]
  have hproxied : first.state.proxiedBytes ≠ none := by
    rw [hstate, routeRequest_of_forwards forwards]
    exact Option.some_ne_none _
  clear ran hfirst hstate
  induction hlater with
  | refl => exact hproxied
  | tail _ next ih => exact proxied_step next ih

/-- When the chain returns, the bytes are the reply that the proxy returned in it, or the
response as the chain leaves it if there is none. -/
theorem response_left_is_sent
    (reached : ChainReached middleware router forward order task m)
    (returned : m.outcome = some (.ok ())) (built : Bool) :
    ∃ bytes, taskOutcome true built m = some (.responded bytes) ∧
      ((∃ before, TerminalRan middleware router forward order task before m ∧
          Forwards router forward before.state.request bytes) ∨
        Carries bytes m.state.response.1 ∧
          ∀ before reply, TerminalRan middleware router forward order task before m →
            ¬ Forwards router forward before.state.request reply) := by
  refine ⟨m.state.responseBytes, ?_, ?_⟩
  · simp only [taskOutcome, returned, Bool.true_eq_false, if_false]
  · cases hproxied : m.state.proxiedBytes with
    | some reply =>
        rw [Exchange.responseBytes, hproxied]
        exact .inl (proxied_of_ran reached reply hproxied)
    | none =>
        rw [Exchange.responseBytes, hproxied]
        exact .inr ⟨carries_toBytes _, fun before reply ran forwards =>
          ran_proxied ran forwards hproxied⟩

def tagging (name value : Bytes) : Program (HttpRequest × Response) Unit Nat where
  start := 0
  resume memory _ := memory
  move
    | 0, _ => (.callNext 0, 1)
    | 1, (request, response) =>
        let call := SetterCall.setHeader name value
        (.assign (request, ⟨call.apply response.1, response.2.called call⟩), 2)
    | memory, _ => (.ret, memory)

def taggingPipeline (name value : Bytes) :
    MiddlewarePipeline (HttpRequest × Response) Unit Nat :=
  ⟨[tagging name value], by simp [kMaxMiddleware]⟩

def getTask (path : Bytes) : Dispatch where
  requestId := []
  method := .GET
  pathOffset := 0
  pathLen := path.length
  queryOffset := 0
  queryLen := 0
  bodyOffset := path.length
  bodyLen := 0
  buffer := path
  headers := .empty

def proxyRoutes : RouteTrie.Router (RouteHandler Unit) :=
  (RouteTrie.Router.empty.addProxyRoute .GET (ascii "/p") (ascii "10.0.0.1") 80).1

def upstreamReply : Bytes :=
  ascii "HTTP/1.1 202 Accepted\r\nContent-Length: 2\r\nConnection: close\r\n\r\nhi"

def taggedRun (path name value : Bytes) : Machine Exchange Unit (Memory Unit Nat) :=
  let pipeline := gatewayPipeline (taggingPipeline name value)
  let terminal := inOnePiece (routeRequest proxyRoutes (fun _ _ => .ok upstreamReply) default)
  runFor pipeline terminal 6 (run pipeline terminal ⟨makeRequest (getTask path), ⟨.new, .new⟩, none⟩)

theorem taggedRun_reached (path name value : Bytes) :
    ChainReached (taggingPipeline name value) proxyRoutes (fun _ _ => .ok upstreamReply) default
      (getTask path) (taggedRun path name value) :=
  reached_runFor _ _ _ _

theorem response_left_is_sent_unmatched :
    let middleware := taggingPipeline (ascii "X-a") (ascii " 1")
    let forward := fun _ _ => .ok upstreamReply
    let m := taggedRun (ascii "/q") (ascii "X-a") (ascii " 1")
    ∃ bytes, taskOutcome true true m = some (.responded bytes) ∧
      ((∃ before, TerminalRan middleware proxyRoutes forward default (getTask (ascii "/q")) before m ∧
          Forwards proxyRoutes forward before.state.request bytes) ∨
        Carries bytes m.state.response.1 ∧
          ∀ before reply,
            TerminalRan middleware proxyRoutes forward default (getTask (ascii "/q")) before m →
            ¬ Forwards proxyRoutes forward before.state.request reply) :=
  response_left_is_sent (taggedRun_reached (ascii "/q") (ascii "X-a") (ascii " 1")) rfl true

theorem header_behind_next_lost :
    let forward := fun _ _ => .ok upstreamReply
    let proxied := taggedRun (ascii "/p") (ascii "X-a") (ascii "1")
    let unmatched := taggedRun (ascii "/q") (ascii "Content-Length") (ascii "99")
    (ChainReached (taggingPipeline (ascii "X-a") (ascii "1")) proxyRoutes forward default
        (getTask (ascii "/p")) proxied ∧
      proxied.outcome = some (.ok ()) ∧
      (ascii "X-a", ascii "1") ∈ proxied.state.response.1.headers ∧
      (ascii "X-a", ascii "1") ∉ headerFields proxied.state.responseBytes) ∧
    ChainReached (taggingPipeline (ascii "Content-Length") (ascii "99")) proxyRoutes forward
        default (getTask (ascii "/q")) unmatched ∧
      unmatched.outcome = some (.ok ()) ∧
      (ascii "Content-Length", ascii "99") ∈ unmatched.state.response.1.headers ∧
      (ascii "Content-Length", ascii "99") ∉ headerFields unmatched.state.responseBytes :=
  ⟨⟨taggedRun_reached _ _ _, rfl, by decide +kernel, by decide +kernel⟩,
    taggedRun_reached _ _ _, rfl, by decide +kernel, by decide +kernel⟩

end Sent

end ApiGateway.RequestDispatching
