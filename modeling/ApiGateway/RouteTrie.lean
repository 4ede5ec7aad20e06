import ApiGateway.HttpText

/-! The router's trie as `Router.cpp` builds and walks it. A hash map whose
iteration order is never observed is its lookup function. A registration
returns the trie it leaves behind also when it throws: nodes created before
the exception stay. -/

namespace ApiGateway.RouteTrie
open ByteText HttpText

abbrev RouteParams := FirstWinsMap Bytes Bytes

structure ProxyTarget where
  host : Bytes
  port : UInt16
  deriving DecidableEq

/-- `H` is the type of the stored handler closures. -/
structure RouteEntry (H : Type) where
  handler : Option H
  echoResponse : Bool
  proxyTarget : Option ProxyTarget
  deriving DecidableEq

structure RouteMatch (H : Type) where
  found : Bool
  handler : Option H
  echoResponse : Bool
  params : RouteParams
  proxyTarget : Option ProxyTarget
  deriving DecidableEq

inductive TrieNode (H : Type) where
  | mk (children : Bytes → Option (TrieNode H)) (paramChild : Option (TrieNode H))
      (paramName : Bytes) (handlers : HttpMethod → Option (RouteEntry H))

namespace TrieNode

variable {H : Type}

def children : TrieNode H → Bytes → Option (TrieNode H)
  | mk children _ _ _ => children

def paramChild : TrieNode H → Option (TrieNode H)
  | mk _ paramChild _ _ => paramChild

def paramName : TrieNode H → Bytes
  | mk _ _ paramName _ => paramName

def handlers : TrieNode H → HttpMethod → Option (RouteEntry H)
  | mk _ _ _ handlers => handlers

/-- `std::make_unique<TrieNode>()`, with the name a parameter node is given. -/
def fresh (paramName : Bytes) : TrieNode H :=
  mk (fun _ => none) none paramName (fun _ => none)

def setChild (node : TrieNode H) (key : Bytes) (child : TrieNode H) : TrieNode H :=
  mk (fun k => if k = key then some child else node.children k)
    node.paramChild node.paramName node.handlers

def setParamChild (node child : TrieNode H) : TrieNode H :=
  mk node.children (some child) node.paramName node.handlers

def setHandler (node : TrieNode H) (method : HttpMethod) (entry : RouteEntry H) : TrieNode H :=
  mk node.children node.paramChild node.paramName
    (fun m => if m = method then some entry else node.handlers m)

end TrieNode

/-- The rest of `splitPath` behind the leading slash: `segment` holds the bytes
since the last slash. An empty segment is allowed only at the very end. -/
def splitFrom (path : Bytes) : (segment rest : Bytes) → Except InvalidArgument (List Bytes)
  | segment, [] => .ok (if segment = [] then [] else [segment])
  | segment, b :: rest =>
      if b = 47 then
        if segment = [] then
          .error ⟨ascii "Route path contains an empty segment: " ++ path⟩
        else (splitFrom path [] rest).map (segment :: ·)
      else splitFrom path (segment ++ [b]) rest

def splitPath (path : Bytes) : Except InvalidArgument (List Bytes) :=
  match path with
  | [] => .error ⟨ascii "Route path must not be empty"⟩
  | b :: rest =>
      if b = 47 then splitFrom path [] rest
      else .error ⟨ascii "Route path must start with '/': " ++ path⟩

def isParamSegment (segment : Bytes) : Bool := segment.head? == some 58

section Registration

variable {H : Type}

/-- The loop of `resolveOrCreateNode`. `found` is what the caller does with the
node the returned pointer names; the result is the trie afterwards. -/
def descendOrCreate (path : Bytes)
    (found : TrieNode H → TrieNode H × Except InvalidArgument Unit) :
    List Bytes → TrieNode H → TrieNode H × Except InvalidArgument Unit
  | [], current => found current
  | segment :: rest, current =>
      if isParamSegment segment then
        let name := segment.tail
        if name = [] then
          (current, .error ⟨ascii "Parameter segment must have a name in path: " ++ path⟩)
        else
          match current.paramChild with
          | none =>
              let below := descendOrCreate path found rest (TrieNode.fresh name)
              (current.setParamChild below.1, below.2)
          | some child =>
              if child.paramName ≠ name then
                (current, .error ⟨ascii "Conflicting parameter name at same path position: " ++
                  ascii "expected ':" ++ child.paramName ++ ascii "' but got ':" ++ name ++
                  ascii "' in path: " ++ path⟩)
              else
                let below := descendOrCreate path found rest child
                (current.setParamChild below.1, below.2)
      else
        let child := (current.children segment).getD (TrieNode.fresh [])
        let below := descendOrCreate path found rest child
        (current.setChild segment below.1, below.2)

structure Router (H : Type) where
  root : TrieNode H

def Router.empty : Router H := ⟨TrieNode.fresh []⟩

def Router.resolveOrCreateNode (router : Router H) (path : Bytes)
    (found : TrieNode H → TrieNode H × Except InvalidArgument Unit) :
    Router H × Except InvalidArgument Unit :=
  match splitPath path with
  | .error e => (router, .error e)
  | .ok segments =>
      let below := descendOrCreate path found segments router.root
      (⟨below.1⟩, below.2)

def addHandlerEntry (method : HttpMethod) (path : Bytes) (entry : RouteEntry H)
    (node : TrieNode H) : TrieNode H × Except InvalidArgument Unit :=
  if (node.handlers method).isSome then
    (node, .error ⟨ascii "Duplicate route registration for method " ++
      httpMethodToString method ++ ascii " on path: " ++ path⟩)
  else (node.setHandler method entry, .ok ())

/-- `addRoute` with a `RouteHandler`; `none` is an empty `std::function`. -/
def Router.addRoute (router : Router H) (method : HttpMethod) (path : Bytes)
    (handler : Option H) : Router H × Except InvalidArgument Unit :=
  match handler with
  | none => (router, .error ⟨ascii "Route handler must not be empty for path: " ++ path⟩)
  | some h => router.resolveOrCreateNode path (addHandlerEntry method path ⟨some h, false, none⟩)

/-- `addRoute` with a `ParamsHandler`: `typed` is the closure that calls it with
`request.params`, absent when the given handler is empty. -/
def Router.addParamsRoute (router : Router H) (method : HttpMethod) (path : Bytes)
    (typed : Option H) : Router H × Except InvalidArgument Unit :=
  match typed with
  | none => (router, .error ⟨ascii "Route handler must not be empty for path: " ++ path⟩)
  | some h => router.resolveOrCreateNode path (addHandlerEntry method path ⟨some h, true, none⟩)

def Router.addProxyRoute (router : Router H) (method : HttpMethod) (path : Bytes)
    (upstreamHost : Bytes) (upstreamPort : UInt16) : Router H × Except InvalidArgument Unit :=
  if upstreamHost = [] then
    (router, .error ⟨ascii "Proxy route upstream host must not be empty for path: " ++ path⟩)
  else
    router.resolveOrCreateNode path fun current =>
      if (current.handlers method).isSome then
        (current, .error ⟨ascii "Duplicate route registration for method " ++
          httpMethodToString method ++ ascii " on path: " ++ path⟩)
      else (current.setHandler method ⟨none, false, some ⟨upstreamHost, upstreamPort⟩⟩, .ok ())

end Registration

section Match

variable {H : Type}

/-- The trie walk of `match`: a literal child wins over the parameter child,
and the choice is never revised. -/
def matchWalk : List Bytes → TrieNode H → RouteParams → Option (TrieNode H × RouteParams)
  | [], current, params => some (current, params)
  | segment :: rest, current, params =>
      match current.children segment with
      | some child => matchWalk rest child params
      | none =>
          match current.paramChild with
          | some child => matchWalk rest child (params.emplace child.paramName segment)
          | none => none

/-- A default-constructed `RouteMatch`. -/
def RouteMatch.notFound : RouteMatch H := ⟨false, none, false, .empty, none⟩

def RouteMatch.ofEntry (entry : RouteEntry H) (params : RouteParams) : RouteMatch H where
  found := true
  handler := if entry.proxyTarget.isSome then none else entry.handler
  echoResponse := entry.echoResponse
  params := params
  proxyTarget := entry.proxyTarget

/-- `Router::match` -/
def Router.matchRoute (router : Router H) (method : HttpMethod) (path : Bytes) : RouteMatch H :=
  match splitPath path with
  | .error _ => .notFound
  | .ok segments =>
      match matchWalk segments router.root .empty with
      | none => .notFound
      | some (current, params) =>
          match current.handlers method with
          | none => .notFound
          | some entry => .ofEntry entry params

end Match

inductive Registration (H : Type) where
  | route (method : HttpMethod) (path : Bytes) (handler : Option H)
  | params (method : HttpMethod) (path : Bytes) (typed : Option H)
  | proxy (method : HttpMethod) (path : Bytes) (upstreamHost : Bytes) (upstreamPort : UInt16)
  deriving DecidableEq

variable {H : Type}

def Router.register (router : Router H) :
    Registration H → Router H × Except InvalidArgument Unit
  | .route method path handler => router.addRoute method path handler
  | .params method path typed => router.addParamsRoute method path typed
  | .proxy method path host port => router.addProxyRoute method path host port

/-- The router after a sequence of calls; a call that throws is caught by the caller. -/
def Router.registerAll (router : Router H) (calls : List (Registration H)) : Router H :=
  calls.foldl (fun r c => (r.register c).1) router

def Router.outcomes (router : Router H) : List (Registration H) →
    List (Except InvalidArgument Unit)
  | [] => []
  | c :: calls => (router.register c).2 :: Router.outcomes (router.register c).1 calls

end ApiGateway.RouteTrie
