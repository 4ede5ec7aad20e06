import ApiGateway.JsonDocuments
import ApiGateway.JsonEscapeExact
import ApiGateway.RequestDispatching

/-! The body of an echo route as a JSON document. The code puts it together piece by
piece; each piece is read as its own tokens, whatever bytes the path and the parameters
hold. -/

namespace ApiGateway.EchoDocument
open ByteText JsonEscape JsonStrings JsonDocuments JsonEscapeExact Utf8Text
open RequestReading RequestDispatching

/-- The bytes are the UTF-8 of a text that is read as these tokens. -/
def Written (bytes : Bytes) (tokens : List Token) : Prop :=
  ∃ text, bytes = encodeText text ∧ ReadAs text tokens

theorem Written.append {bytes bytes' : Bytes} {tokens tokens' : List Token}
    (h : Written bytes tokens) (h' : Written bytes' tokens') :
    Written (bytes ++ bytes') (tokens ++ tokens') := by
  obtain ⟨text, hbytes, hread⟩ := h
  obtain ⟨text', hbytes', hread'⟩ := h'
  refine ⟨text ++ text', ?_, hread.append hread'⟩
  rw [hbytes, hbytes', encodeText_append]

theorem Written.structural {c : Char} {token : Token} (white : isWhite c = false)
    (next : ∀ rest, nextToken (c :: rest) = some (token, rest)) :
    Written (encodeText [c]) [token] :=
  ⟨[c], rfl, .structural white next⟩

theorem written_beginObject : Written (ascii "\x7b") [.beginObject] :=
  .structural (c := '\x7b') rfl fun _ => rfl

theorem written_endObject : Written (ascii "\x7d") [.endObject] :=
  .structural (c := '\x7d') rfl fun _ => rfl

theorem written_nameSeparator : Written (ascii ":") [.nameSeparator] :=
  .structural (c := ':') rfl fun _ => rfl

theorem written_valueSeparator : Written (ascii ",") [.valueSeparator] :=
  .structural (c := ',') rfl fun _ => rfl

theorem written_escaped (input : Bytes) :
    Written (ascii "\"" ++ escaped input ++ ascii "\"") [.string (lossyDecode input)] := by
  obtain ⟨text, hescaped, hdenotes⟩ := escaped_denotes input
  refine ⟨'"' :: text ++ ['"'], ?_, .string hdenotes⟩
  rw [encodeText_append, encodeText_cons, hescaped]
  rfl

theorem written_plain (text : List Char)
    (plain : ∀ c ∈ text, 0x20 ≤ c.toNat ∧ c ≠ '"' ∧ c ≠ '\\') :
    Written (ascii "\"" ++ encodeText text ++ ascii "\"") [.string text] := by
  refine ⟨'"' :: text ++ ['"'], ?_, .string (unescape_plain plain)⟩
  rw [encodeText_append, encodeText_cons]
  rfl

def appendMember (state : Bytes × Bool) (entry : Bytes × Bytes) : Bytes × Bool :=
  let json := if state.2 then state.1 else state.1 ++ ascii ","
  let json := appendJsonEscaped (json ++ ascii "\"") entry.1 ++ ascii "\":\""
  (appendJsonEscaped json entry.2 ++ ascii "\"", false)

theorem echoJson_eq (order : IterationOrder Bytes Bytes) (request : HttpRequest) :
    echoJson order request =
      ((request.params.iterate order).foldl appendMember
        (appendJsonEscaped (ascii "\x7b\"status\":\"ok\",\"path\":\"") request.path ++
          ascii "\",\"params\":\x7b", true)).1 ++ ascii "\x7d\x7d" := rfl

def member (entry : Bytes × Bytes) : List Char × Json :=
  (lossyDecode entry.1, .string (lossyDecode entry.2))

def memberBytes (entry : Bytes × Bytes) : Bytes :=
  (ascii "\"" ++ escaped entry.1 ++ ascii "\"") ++ ascii ":" ++
    (ascii "\"" ++ escaped entry.2 ++ ascii "\"")

theorem appendMember_eq (json : Bytes) (first : Bool) (entry : Bytes × Bytes) :
    appendMember (json, first) entry =
      (json ++ ((if first then [] else ascii ",") ++ memberBytes entry), false) := by
  have hcolon : ascii "\":\"" = ascii "\"" ++ ascii ":" ++ ascii "\"" := rfl
  cases first
  · simp [appendMember, memberBytes, appendJsonEscaped_eq, hcolon]
  · simp [appendMember, memberBytes, appendJsonEscaped_eq, hcolon]

theorem written_member (entry : Bytes × Bytes) :
    Written (memberBytes entry)
      [.string (lossyDecode entry.1), .nameSeparator, .string (lossyDecode entry.2)] :=
  ((written_escaped entry.1).append written_nameSeparator).append (written_escaped entry.2)

theorem foldl_appendMember (entries : List (Bytes × Bytes)) (json : Bytes) (first : Bool) :
    ∃ bytes, (entries.foldl appendMember (json, first)).1 = json ++ bytes ∧
      Written (bytes ++ ascii "\x7d")
        (if first then memberTokens (entries.map member) else
          moreMemberTokens (entries.map member)) := by
  induction entries generalizing json first with
  | nil =>
      refine ⟨[], by simp, ?_⟩
      cases first
      · exact written_endObject
      · exact written_endObject
  | cons entry entries ih =>
      obtain ⟨bytes, hbytes, hwritten⟩ :=
        ih (json ++ ((if first then [] else ascii ",") ++ memberBytes entry)) false
      refine ⟨(if first then [] else ascii ",") ++ memberBytes entry ++ bytes, ?_, ?_⟩
      · rw [List.foldl_cons, appendMember_eq, hbytes, List.append_assoc]
      · have hmember := (written_member entry).append hwritten
        cases first
        · have hseparated := written_valueSeparator.append hmember
          simpa [moreMemberTokens, member, tokensOf] using hseparated
        · simpa [memberTokens, moreMemberTokens, member, tokensOf] using hmember

def document (path : Bytes) (members : List (List Char × Json)) : Json :=
  .object [("status".toList, .string "ok".toList), ("path".toList, .string (lossyDecode path)),
    ("params".toList, .object members)]

/-- The bytes are the UTF-8 of a text that denotes the document of the path and of one
member for each entry of the map, and nothing else. -/
def Faithful (body path : Bytes) (params : FirstWinsMap Bytes Bytes) : Prop :=
  ∃ text members, body = encodeText text ∧ members.Perm (params.entries.map member) ∧
    ∀ value, Denotes text value ↔ value = document path members

theorem written_head :
    Written (ascii "\x7b\"status\":\"ok\",\"path\":") [.beginObject, .string "status".toList,
      .nameSeparator, .string "ok".toList, .valueSeparator, .string "path".toList,
      .nameSeparator] := by
  have hstatus := written_plain "status".toList (by simp)
  have hok := written_plain "ok".toList (by simp)
  have hpath := written_plain "path".toList (by simp)
  exact (((((written_beginObject.append hstatus).append written_nameSeparator).append hok).append
    written_valueSeparator).append hpath).append written_nameSeparator

theorem written_params :
    Written (ascii ",\"params\":\x7b") [.valueSeparator, .string "params".toList, .nameSeparator,
      .beginObject] := by
  have hparams := written_plain "params".toList (by simp)
  exact ((written_valueSeparator.append hparams).append written_nameSeparator).append
    written_beginObject

theorem faithful_echoJson (order : IterationOrder Bytes Bytes) (request : HttpRequest) :
    Faithful (echoJson order request) request.path request.params := by
  have hsplit : ∀ json : Bytes,
      appendJsonEscaped (ascii "\x7b\"status\":\"ok\",\"path\":\"") request.path ++
        ascii "\",\"params\":\x7b" ++ json =
      ascii "\x7b\"status\":\"ok\",\"path\":" ++
        ((ascii "\"" ++ escaped request.path ++ ascii "\"") ++
          (ascii ",\"params\":\x7b" ++ json)) := by
    intro json
    have hquote : ascii "\x7b\"status\":\"ok\",\"path\":\"" =
        ascii "\x7b\"status\":\"ok\",\"path\":" ++ ascii "\"" := rfl
    have hcomma : ascii "\",\"params\":\x7b" = ascii "\"" ++ ascii ",\"params\":\x7b" := rfl
    rw [appendJsonEscaped_eq, hquote, hcomma]
    simp only [List.append_assoc]
  obtain ⟨bytes, hbytes, hmembers⟩ := foldl_appendMember (request.params.iterate order)
    (appendJsonEscaped (ascii "\x7b\"status\":\"ok\",\"path\":\"") request.path ++
      ascii "\",\"params\":\x7b") true
  obtain ⟨text, htext, hread⟩ := written_head.append ((written_escaped request.path).append
    ((written_params.append hmembers).append written_endObject))
  refine ⟨text, (request.params.iterate order).map member, ?_, ?_, fun value => ?_⟩
  · have hclosed : ascii "\x7d\x7d" = ascii "\x7d" ++ ascii "\x7d" := rfl
    rw [echoJson_eq, hbytes, List.append_assoc, hsplit, ← htext, hclosed]
    simp only [List.append_assoc]
  · exact (FirstWinsMap.iterate_perm order request.params).map member
  · have hdenotes : Denotes text
        (document request.path ((request.params.iterate order).map member)) := by
      rw [Denotes, hread.tokenize]
      simp [document, tokensOf, memberTokens, moreMemberTokens]
    constructor
    · intro hvalue
      exact hvalue.unique hdenotes
    · intro hvalue
      rw [hvalue]
      exact hdenotes

section Routing

variable {ε : Type} {router : RouteTrie.Router (RouteHandler ε)}
  {forward : RouteTrie.ProxyTarget → HttpRequest → Except (MiddlewareChain.Exception ε) Bytes}
  {order : IterationOrder Bytes Bytes}

/-- The request as the handler sees it. -/
def routed (router : RouteTrie.Router (RouteHandler ε)) (x : Exchange) : Exchange :=
  { x with request := { x.request with
      params := (router.matchRoute x.request.method x.request.path).params } }

/-- The route of the request is an echo route, and its handler returns. -/
structure Echoes (router : RouteTrie.Router (RouteHandler ε)) (x : Exchange) : Prop where
  found : (router.matchRoute x.request.method x.request.path).found = true
  notProxy : (router.matchRoute x.request.method x.request.path).proxyTarget = none
  echo : (router.matchRoute x.request.method x.request.path).echoResponse = true
  returns : (callHandler (router.matchRoute x.request.method x.request.path).handler
    (routed router x)).1 = .ok ()

theorem body_echo (x : Exchange) :
    (echo (ε := ε) order x).2.response.1.body = echoJson order x.request := by
  rfl

theorem body_routeRequest {x : Exchange} (h : Echoes router x) :
    (routeRequest router forward order x).2.response.1.body =
      echoJson order (routed router x).request := by
  have hrequest := callHandler_request
    (router.matchRoute x.request.method x.request.path).handler (routed router x)
  have hreturns := h.returns
  rw [routeRequest, if_neg (by simp [h.found])]
  simp only [h.notProxy]
  rw [← routed]
  split
  · next hthrew =>
    rw [hthrew] at hreturns
    cases hreturns
  · next hreturned =>
    rw [hreturned] at hrequest
    rw [if_pos h.echo, body_echo, hrequest]

end Routing

/-- The body of an echo route denotes the document of the request's path and parameters,
for any of them and in any order. -/
theorem echo_document_faithful (order : IterationOrder Bytes Bytes) :
    (∀ request, Faithful (echoJson order request) request.path request.params) ∧
      ∀ {ε : Type} (router : RouteTrie.Router (RouteHandler ε))
        (forward : RouteTrie.ProxyTarget → HttpRequest →
          Except (MiddlewareChain.Exception ε) Bytes) (x : Exchange),
        Echoes router x →
          Faithful (routeRequest router forward order x).2.response.1.body x.request.path
            (router.matchRoute x.request.method x.request.path).params := by
  refine ⟨faithful_echoJson order, fun router forward x h => ?_⟩
  rw [body_routeRequest h]
  exact faithful_echoJson order (routed router x).request

def userRoutes : RouteTrie.Router (RouteHandler Unit) :=
  (RouteTrie.Router.empty.addParamsRoute .GET (ascii "/users/:id")
    (some fun _ response => (.ok (), response))).1

theorem echo_document_faithful_quote :
    let path := ascii "/users/4\"\x7d," ++ [0xFF]
    let x : Exchange := ⟨makeRequest (getTask path), ⟨.new, .new⟩, none⟩
    Faithful (routeRequest userRoutes (fun _ _ => .ok []) default x).2.response.1.body path
      (userRoutes.matchRoute .GET path).params :=
  (echo_document_faithful default).2 userRoutes (fun _ _ => .ok []) ⟨_, _, none⟩
    ⟨rfl, rfl, rfl, rfl⟩

end ApiGateway.EchoDocument
