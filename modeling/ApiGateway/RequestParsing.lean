import ApiGateway.MessageHeaders

/-! `tryParseRequest` of `ApiGateway.cpp`. A `string_view` into the read buffer
is its offset there with the text it shows. The exception that carries a
status is told apart from a plain `std::invalid_argument`, as the two catch
clauses of the caller do. -/

namespace ApiGateway.RequestParsing
open ByteText HttpText CrlfLines MessageHeaders

def kMaxRequestLineLength : Nat := 8 * 1024
def kMaxHeaderSectionLength : Nat := 32 * 1024
def kMaxBodyLength : Nat := 10 * 1024 * 1024

structure RequestRejected where
  status : Nat
  phrase : Bytes
  body : Bytes
  reason : Bytes
  deriving DecidableEq

inductive ParseError where
  | requestRejected (ex : RequestRejected)
  | invalidArgument (ex : InvalidArgument)
  deriving DecidableEq

def requestLineTooLong : RequestRejected :=
  ⟨414, ascii "URI Too Long", ascii "Request line exceeds maximum allowed length",
    ascii "request line too long"⟩

def headerSectionTooLarge : RequestRejected :=
  ⟨431, ascii "Request Header Fields Too Large", ascii "Request headers exceed maximum allowed size",
    ascii "header section too large"⟩

def bodyTooLarge : RequestRejected :=
  ⟨413, ascii "Payload Too Large", ascii "Request exceeds maximum allowed size",
    ascii "Content-Length exceeds maximum allowed body size"⟩

structure View where
  offset : Nat
  text : Bytes
  deriving DecidableEq

def View.empty : View := ⟨0, []⟩

def View.substr (v : View) (pos count : Nat) : View :=
  ⟨v.offset + pos, (v.text.drop pos).take count⟩

def View.suffix (v : View) (pos : Nat) : View := ⟨v.offset + pos, v.text.drop pos⟩

structure RequestLine where
  method : HttpMethod
  path : View
  query : View
  version : View
  deriving DecidableEq

/-- The path and the query of a target, divided at its first question mark. -/
def splitTarget (target : View) : View × View :=
  match find [63] target.text with
  | none => (target, .empty)
  | some queryPos => (target.substr 0 queryPos, target.suffix (queryPos + 1))

def parseRequestLine (requestLine : View) : Except InvalidArgument RequestLine :=
  match find [32] requestLine.text with
  | none => .error ⟨ascii "Missing method/target separator in request line"⟩
  | some firstSpace =>
      match findFrom [32] requestLine.text (firstSpace + 1) with
      | none => .error ⟨ascii "Missing target/version separator in request line"⟩
      | some secondSpace =>
          let methodStr := requestLine.substr 0 firstSpace
          let target := requestLine.substr (firstSpace + 1) (secondSpace - firstSpace - 1)
          let versionStr := requestLine.suffix (secondSpace + 1)
          if target.text.head? ≠ some 47 then
            .error ⟨ascii "Request target must be an absolute path"⟩
          else
            match httpMethodFromString methodStr.text with
            | .error ex => .error ex
            | .ok method => .ok ⟨method, (splitTarget target).1, (splitTarget target).2, versionStr⟩

def parseHeaderLines : List Bytes → FirstWinsMap Bytes Bytes →
    Except InvalidArgument (FirstWinsMap Bytes Bytes) :=
  headerLoop (ascii "Malformed header line (missing colon)")
    (ascii "Malformed header line (empty key)")

/-- The body length the headers announce. -/
def contentLengthOf (order : IterationOrder Bytes Bytes) (headers : FirstWinsMap Bytes Bytes) :
    Except ParseError Nat :=
  let contentLengthHeader := findHeader order headers (ascii "content-length")
  if contentLengthHeader = [] then .ok 0
  else if contentLengthHeader.all isdigit = false then
    .error (.invalidArgument ⟨ascii "Invalid Content-Length value"⟩)
  else
    match stoul contentLengthHeader with
    | none => .error (.requestRejected bodyTooLarge)
    | some contentLength =>
        if contentLength > kMaxBodyLength then .error (.requestRejected bodyTooLarge)
        else .ok contentLength

structure Head where
  requestLine : RequestLine
  headers : FirstWinsMap Bytes Bytes
  contentLength : Nat
  deriving DecidableEq

/-- Everything that depends on the header section alone. -/
def parseHead (order : IterationOrder Bytes Bytes) (headerSection : Bytes) :
    Except ParseError Head :=
  let firstLineEnd := find crlf headerSection
  let requestLine := headerSection.take (firstLineEnd.getD headerSection.length)
  let lineStart := (firstLineEnd.map (· + 2)).getD headerSection.length
  if requestLine.length > kMaxRequestLineLength then .error (.requestRejected requestLineTooLong)
  else
    match parseRequestLine ⟨0, requestLine⟩ with
    | .error ex => .error (.invalidArgument ex)
    | .ok request =>
        match parseHeaderLines (lines (headerSection.drop lineStart)) .empty with
        | .error ex => .error (.invalidArgument ex)
        | .ok headers =>
            match contentLengthOf order headers with
            | .error ex => .error ex
            | .ok contentLength => .ok ⟨request, headers, contentLength⟩

structure ParsedRequestView where
  method : HttpMethod
  path : View
  query : View
  version : View
  headers : FirstWinsMap Bytes Bytes
  body : View
  deriving DecidableEq

/-- The request, when all of it is there, and `outRequestBytes`. -/
def tryParseRequest (order : IterationOrder Bytes Bytes) (raw : Bytes) :
    Except ParseError (Option ParsedRequestView × Nat) :=
  match find blankLine raw with
  | none => .ok (none, 0)
  | some headerEnd =>
      if headerEnd + 4 > kMaxHeaderSectionLength then
        .error (.requestRejected headerSectionTooLarge)
      else
        match parseHead order (raw.take headerEnd) with
        | .error ex => .error ex
        | .ok head =>
            let bodyStart := headerEnd + 4
            let requestBytes := bodyStart + head.contentLength
            if raw.length < requestBytes then .ok (none, requestBytes)
            else
              .ok (some ⟨head.requestLine.method, head.requestLine.path, head.requestLine.query,
                head.requestLine.version, head.headers,
                ⟨bodyStart, (raw.drop bodyStart).take head.contentLength⟩⟩, requestBytes)

theorem parseHead_eq (order : IterationOrder Bytes Bytes) (headerSection : Bytes) :
    parseHead order headerSection =
      if ((lines headerSection).headD []).length > kMaxRequestLineLength then
        .error (.requestRejected requestLineTooLong)
      else
        match parseRequestLine ⟨0, (lines headerSection).headD []⟩ with
        | .error ex => .error (.invalidArgument ex)
        | .ok request =>
            match parseHeaderLines (lines headerSection).tail .empty with
            | .error ex => .error (.invalidArgument ex)
            | .ok headers =>
                match contentLengthOf order headers with
                | .error ex => .error ex
                | .ok contentLength => .ok ⟨request, headers, contentLength⟩ := by
  by_cases hsection : headerSection = []
  · rw [hsection]
    rfl
  · rw [lines_eq hsection]
    rfl

/-- Two spaces, a method the gateway knows, and a target that is an absolute path. -/
structure IsRequestLine (line : Bytes) : Prop where
  first : 32 ∈ line
  second : 32 ∈ behind 32 line
  target : (secondPart line).head? = some 47
  method : ∃ method, httpMethodFromString (before 32 line) = .ok method

theorem parseRequestLine_isOk_iff {line : View} :
    (∃ request, parseRequestLine line = .ok request) ↔ IsRequestLine line.text := by
  constructor
  · rintro ⟨request, ok⟩
    unfold parseRequestLine at ok
    split at ok
    · cases ok
    · next firstSpace hfirst =>
      split at ok
      · cases ok
      · next secondSpace hsecond =>
        have ⟨htarget, _⟩ := secondPart_of_find hfirst hsecond
        simp only [View.substr, htarget, List.drop_zero, take_of_find hfirst] at ok
        split_ifs at ok with hpath
        split at ok
        · cases ok
        · next method hmethod =>
          refine ⟨?_, ?_, not_not.mp hpath, method, hmethod⟩
          · by_contra hnone
            rw [find_byte_eq_none.mpr hnone] at hfirst
            cases hfirst
          · by_contra hnone
            rw [findFrom_space hfirst, find_byte_eq_none.mpr hnone] at hsecond
            cases hsecond
  · rintro ⟨hfirst, hsecond, htarget, method, hmethod⟩
    cases hfind : find [32] line.text with
    | none => exact absurd hfirst (find_byte_eq_none.mp hfind)
    | some firstSpace =>
        cases hfind' : findFrom [32] line.text (firstSpace + 1) with
        | none =>
            rw [findFrom_space hfind, Option.map_eq_none_iff] at hfind'
            exact absurd hsecond (find_byte_eq_none.mp hfind')
        | some secondSpace =>
            have ⟨htext, _⟩ := secondPart_of_find hfind hfind'
            let target := line.substr (firstSpace + 1) (secondSpace - firstSpace - 1)
            refine ⟨⟨method, (splitTarget target).1, (splitTarget target).2,
              line.suffix (secondSpace + 1)⟩, ?_⟩
            simp only [target, parseRequestLine, hfind, hfind', View.substr, htext, List.drop_zero,
              take_of_find hfind, htarget, hmethod, ne_eq, not_true_eq_false, if_false]

theorem contentLengthOf_rejected {order : IterationOrder Bytes Bytes}
    {headers : FirstWinsMap Bytes Bytes} {ex : RequestRejected}
    (h : contentLengthOf order headers = .error (.requestRejected ex)) : ex = bodyTooLarge := by
  unfold contentLengthOf at h
  simp only at h
  split_ifs at h
  · cases h
  split at h
  · cases h
    rfl
  · split_ifs at h
    cases h
    rfl

theorem tryParseRequest_rejected {order : IterationOrder Bytes Bytes} {raw : Bytes}
    {ex : RequestRejected} (h : tryParseRequest order raw = .error (.requestRejected ex)) :
    ex ∈ [requestLineTooLong, headerSectionTooLarge, bodyTooLarge] := by
  unfold tryParseRequest at h
  split at h
  · cases h
  split_ifs at h
  · cases h
    simp
  split at h
  · next ex' hhead =>
    cases h
    unfold parseHead at hhead
    simp only at hhead
    split_ifs at hhead
    · cases hhead
      simp
    split at hhead
    · cases hhead
    split at hhead
    · cases hhead
    split at hhead
    · next hlength =>
      cases hhead
      simp [contentLengthOf_rejected hlength]
    · cases hhead
  · simp only at h
    split_ifs at h

def View.In (v : View) (raw : Bytes) : Prop := v.text <+: raw.drop v.offset

theorem View.In.read {v : View} {raw : Bytes} (h : v.In raw) :
    (raw.drop v.offset).take v.text.length = v.text :=
  (List.prefix_iff_eq_take.mp h).symm

theorem View.In.substr {v : View} {raw : Bytes} (h : v.In raw) (pos count : Nat) :
    (v.substr pos count).In raw := by
  have hdrop : v.text.drop pos <+: raw.drop (v.offset + pos) := by
    rw [← List.drop_drop]
    exact h.drop pos
  exact (List.take_prefix _ _).trans hdrop

theorem View.In.suffix {v : View} {raw : Bytes} (h : v.In raw) (pos : Nat) :
    (v.suffix pos).In raw := by
  rw [View.In, View.suffix, ← List.drop_drop]
  exact h.drop pos

theorem View.in_empty (raw : Bytes) : View.empty.In raw := List.nil_prefix

theorem View.In.extend {v : View} {raw raw' : Bytes} (h : v.In raw) (hp : raw <+: raw') :
    v.In raw' :=
  List.IsPrefix.trans h (hp.drop v.offset)

theorem splitTarget_in {target : View} {raw : Bytes} (h : target.In raw) :
    (splitTarget target).1.In raw ∧ (splitTarget target).2.In raw := by
  rw [splitTarget]
  split
  · exact ⟨h, View.in_empty raw⟩
  · exact ⟨h.substr _ _, h.suffix _⟩

theorem parseRequestLine_in {line : View} {raw : Bytes} {request : RequestLine} (h : line.In raw)
    (ok : parseRequestLine line = .ok request) :
    request.path.In raw ∧ request.query.In raw := by
  rw [parseRequestLine] at ok
  split at ok
  · cases ok
  · split at ok
    · cases ok
    · simp only at ok
      split_ifs at ok
      split at ok
      · cases ok
      · cases ok
        exact splitTarget_in (h.substr _ _)

theorem parseHead_in {order : IterationOrder Bytes Bytes} {headerSection : Bytes} {head : Head}
    (ok : parseHead order headerSection = .ok head) :
    head.requestLine.path.In headerSection ∧ head.requestLine.query.In headerSection := by
  simp only [parseHead] at ok
  split_ifs at ok
  split at ok
  · cases ok
  · next request hline =>
    split at ok
    · cases ok
    · split at ok
      · cases ok
      · cases ok
        have hin : ∀ n, View.In ⟨0, headerSection.take n⟩ headerSection := fun n =>
          List.take_prefix n headerSection
        exact parseRequestLine_in (hin _) hline

theorem parseRequestLine_ok {line : View} {request : RequestLine}
    (ok : parseRequestLine line = .ok request) :
    line.text ≠ [] ∧ ∃ target : View, target.text = secondPart line.text ∧
      splitTarget target = (request.path, request.query) := by
  unfold parseRequestLine at ok
  split at ok
  · cases ok
  · next firstSpace hfirst =>
    have hne : line.text ≠ [] := by
      intro hnil
      simp [hnil, find] at hfirst
    split at ok
    · cases ok
    · next secondSpace hsecond =>
      simp only at ok
      split_ifs at ok
      split at ok
      · cases ok
      · cases ok
        exact ⟨hne, _, (secondPart_of_find hfirst hsecond).1, rfl⟩

theorem parseRequestLine_method {line : View} {request : RequestLine}
    (ok : parseRequestLine line = .ok request) :
    httpMethodToString request.method = before 32 line.text := by
  unfold parseRequestLine at ok
  split at ok
  · cases ok
  · next firstSpace hfirst =>
    split at ok
    · cases ok
    · simp only [View.substr, List.drop_zero, take_of_find hfirst] at ok
      split_ifs at ok
      split at ok
      · cases ok
      · next method hmethod =>
        cases ok
        exact httpMethodToString_of_ok hmethod

theorem parseHead_ok {order : IterationOrder Bytes Bytes} {headerSection : Bytes} {head : Head}
    (ok : parseHead order headerSection = .ok head) :
    ∃ requestLine headerLines, lines headerSection = requestLine :: headerLines ∧
      head.headers = .ofList (fieldsOf headerLines) ∧
      ∃ target : View, target.text = secondPart requestLine ∧
        splitTarget target = (head.requestLine.path, head.requestLine.query) := by
  simp only [parseHead] at ok
  split_ifs at ok
  split at ok
  · cases ok
  · next request hline =>
    split at ok
    · cases ok
    · next headers hheaders =>
      split at ok
      · cases ok
      · cases ok
        obtain ⟨hne, target, htarget, hsplit⟩ := parseRequestLine_ok hline
        have hsection : headerSection ≠ [] := by
          intro hnil
          exact hne (by simp [hnil])
        exact ⟨_, _, lines_eq hsection, headerLoop_ok hheaders, target, htarget, hsplit⟩

theorem tryParseRequest_ok {order : IterationOrder Bytes Bytes} {raw : Bytes}
    {parsed : ParsedRequestView} {requestBytes : Nat}
    (ok : tryParseRequest order raw = .ok (some parsed, requestBytes)) :
    parsed.headers = .ofList (headerFields raw) ∧ headLines raw ≠ [] ∧
      ∃ target : View, target.text = secondPart (startLine raw) ∧
        splitTarget target = (parsed.path, parsed.query) := by
  unfold tryParseRequest at ok
  split at ok
  · cases ok
  · next headerEnd hend =>
    split_ifs at ok
    split at ok
    · cases ok
    · next head hhead =>
      simp only at ok
      split_ifs at ok
      · cases ok
      cases ok
      obtain ⟨requestLine, headerLines, hlines, hheaders, target, htarget, hsplit⟩ :=
        parseHead_ok hhead
      have hheadLines : headLines raw = requestLine :: headerLines := by
        simp only [headLines, hend, hlines]
      obtain ⟨hstart, hfields⟩ := startLine_headerFields hheadLines
      rw [hstart, hfields, hheadLines]
      exact ⟨hheaders, by simp, target, htarget, hsplit⟩

theorem tryParseRequest_of_head (order : IterationOrder Bytes Bytes) {raw : Bytes}
    {headerEnd : Nat} (h : find blankLine raw = some headerEnd) (later : Bytes) :
    tryParseRequest order (raw ++ later) =
      if headerEnd + 4 > kMaxHeaderSectionLength then
        .error (.requestRejected headerSectionTooLarge)
      else
        match parseHead order (raw.take headerEnd) with
        | .error ex => .error ex
        | .ok head =>
            if (raw ++ later).length < headerEnd + 4 + head.contentLength then
              .ok (none, headerEnd + 4 + head.contentLength)
            else
              .ok (some ⟨head.requestLine.method, head.requestLine.path, head.requestLine.query,
                head.requestLine.version, head.headers,
                ⟨headerEnd + 4, ((raw ++ later).drop (headerEnd + 4)).take head.contentLength⟩⟩,
                headerEnd + 4 + head.contentLength) := by
  have hlen := find_add_length_le h
  have htake : (raw ++ later).take headerEnd = raw.take headerEnd :=
    List.take_append_of_le_length (by omega)
  simp only [tryParseRequest, find_append h later, htake]

end ApiGateway.RequestParsing
