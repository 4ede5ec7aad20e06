import ApiGateway.MessageHeaders

/-! `HttpResponse`, and the plain text responses the gateway makes of its own.
A setter that throws leaves no response. -/

namespace ApiGateway.ResponseBuilding
open ByteText HttpText CrlfLines

def isalnum (b : UInt8) : Bool :=
  isdigit b || (65 ≤ b && b ≤ 90) || (97 ≤ b && b ≤ 122)

def isTokenChar (b : UInt8) : Bool := isalnum b || (ascii "!#$%&'*+-.^_`|~").contains b

def isValidHeaderName (name : Bytes) : Bool := name ≠ [] && name.all isTokenChar

def isValidHeaderValue (value : Bytes) : Bool :=
  value.all fun b => b ≠ 13 && b ≠ 10 && b ≠ 0

structure HttpResponse where
  status : Nat
  reason : Bytes
  headers : List (Bytes × Bytes)
  body : Bytes
  deriving DecidableEq

def HttpResponse.new : HttpResponse := ⟨200, ascii "OK", [], []⟩

def HttpResponse.setStatus (response : HttpResponse) (statusCode : Int) (reasonPhrase : Bytes) :
    Except InvalidArgument HttpResponse :=
  if statusCode < 100 ∨ statusCode > 599 then
    .error ⟨ascii "HTTP status code must be between 100 and 599"⟩
  else if isValidHeaderValue reasonPhrase = false then
    .error ⟨ascii "HTTP reason phrase must not contain CR, LF or NUL"⟩
  else .ok { response with status := statusCode.toNat, reason := reasonPhrase }

def reasonPhrases : List (Int × Bytes) :=
  [(200, ascii "OK"), (201, ascii "Created"), (202, ascii "Accepted"), (204, ascii "No Content"),
    (301, ascii "Moved Permanently"), (302, ascii "Found"), (304, ascii "Not Modified"),
    (400, ascii "Bad Request"), (401, ascii "Unauthorized"), (403, ascii "Forbidden"),
    (404, ascii "Not Found"), (405, ascii "Method Not Allowed"), (408, ascii "Request Timeout"),
    (413, ascii "Payload Too Large"), (414, ascii "URI Too Long"),
    (429, ascii "Too Many Requests"), (431, ascii "Request Header Fields Too Large"),
    (500, ascii "Internal Server Error"), (502, ascii "Bad Gateway"),
    (503, ascii "Service Unavailable"), (504, ascii "Gateway Timeout")]

def defaultReasonPhrase (statusCode : Int) : Bytes :=
  (reasonPhrases.lookup statusCode).getD (ascii "Unknown")

def HttpResponse.setStatusCode (response : HttpResponse) (statusCode : Int) :
    Except InvalidArgument HttpResponse :=
  response.setStatus statusCode (defaultReasonPhrase statusCode)

def HttpResponse.ofStatus (statusCode : Int) : Except InvalidArgument HttpResponse :=
  HttpResponse.new.setStatusCode statusCode

theorem valid_defaultReasonPhrase (statusCode : Int) :
    isValidHeaderValue (defaultReasonPhrase statusCode) = true := by
  have hlisted : ∀ entry ∈ reasonPhrases, isValidHeaderValue entry.2 = true := by decide
  unfold defaultReasonPhrase
  cases hlookup : reasonPhrases.lookup statusCode with
  | none => decide
  | some phrase =>
      obtain ⟨before, after, hsplit, -⟩ := List.lookup_eq_some_iff.mp hlookup
      exact hlisted (statusCode, phrase) (by simp [hsplit])

theorem setStatusCode_ok (response : HttpResponse) {statusCode : Nat} (low : 100 ≤ statusCode)
    (high : statusCode ≤ 599) : response.setStatusCode statusCode =
      .ok { response with status := statusCode, reason := defaultReasonPhrase statusCode } := by
  have hrange : ¬ ((statusCode : Int) < 100 ∨ (statusCode : Int) > 599) := by omega
  rw [HttpResponse.setStatusCode, HttpResponse.setStatus, if_neg hrange,
    if_neg (by simp [valid_defaultReasonPhrase])]
  rfl

/-- The first header of that name gets the value; without one it is added last. -/
def setHeaderLoop (name value : Bytes) : List (Bytes × Bytes) → List (Bytes × Bytes)
  | [] => [(name, value)]
  | header :: rest =>
      if caseInsensitiveEquals header.1 name then (header.1, value) :: rest
      else header :: setHeaderLoop name value rest

def HttpResponse.setHeader (response : HttpResponse) (name value : Bytes) :
    Except InvalidArgument HttpResponse :=
  if isValidHeaderName name = false then .error ⟨ascii "invalid HTTP header name"⟩
  else if isValidHeaderValue value = false then
    .error ⟨ascii "HTTP header value must not contain CR, LF or NUL"⟩
  else .ok { response with headers := setHeaderLoop name value response.headers }

def HttpResponse.setBody (response : HttpResponse) (body : Bytes) : HttpResponse :=
  { response with body := body }

def HttpResponse.toBytes (response : HttpResponse) : Bytes :=
  let written := response.headers.filter fun header =>
    !caseInsensitiveEquals header.1 (ascii "Content-Length")
  let hasConnection := written.any fun header =>
    caseInsensitiveEquals header.1 (ascii "Connection")
  ascii "HTTP/1.1 " ++ toDecimal response.status ++ ascii " " ++ response.reason ++ crlf ++
    (written.flatMap fun header => header.1 ++ ascii ": " ++ header.2 ++ crlf) ++
    ascii "Content-Length: " ++ toDecimal response.body.length ++ crlf ++
    (if hasConnection then [] else ascii "Connection: close\r\n") ++
    crlf ++
    response.body

def fillTextResponse (response : HttpResponse) (statusCode : Int) (reasonPhrase body : Bytes) :
    Except InvalidArgument HttpResponse := do
  let response ← response.setStatus statusCode reasonPhrase
  let response ← response.setHeader (ascii "Content-Type") (ascii "text/plain; charset=utf-8")
  return response.setBody body

def textResponse (statusCode : Int) (reasonPhrase body : Bytes) :
    Except InvalidArgument HttpResponse :=
  fillTextResponse .new statusCode reasonPhrase body

theorem textResponse_ok {statusCode : Nat} {reasonPhrase : Bytes} (low : 100 ≤ statusCode)
    (high : statusCode ≤ 599) (valid : isValidHeaderValue reasonPhrase = true) (body : Bytes) :
    textResponse statusCode reasonPhrase body = .ok ⟨statusCode, reasonPhrase,
      [(ascii "Content-Type", ascii "text/plain; charset=utf-8")], body⟩ := by
  have hstatus : ¬ ((statusCode : Int) < 100 ∨ (statusCode : Int) > 599) := by omega
  have hset : HttpResponse.new.setStatus statusCode reasonPhrase =
      .ok ⟨statusCode, reasonPhrase, [], []⟩ := by
    rw [HttpResponse.setStatus, if_neg hstatus, if_neg (by simp [valid])]
    rfl
  rw [textResponse, fillTextResponse, hset]
  rfl

end ApiGateway.ResponseBuilding
