import ApiGateway.MessageHeaders

/-! `tryParseResponse` of `HttpClient.cpp`. -/

namespace ApiGateway.ResponseParsing
open ByteText HttpText CrlfLines MessageHeaders

def kMaxHeaderSectionLength : Nat := 32 * 1024
def kMaxBodySize : Nat := 10 * 1024 * 1024
def kMaxResponseSize : Nat := kMaxHeaderSectionLength + kMaxBodySize
def kReadChunkSize : Nat := 16 * 1024

structure HttpClientResponse where
  statusCode : Nat
  reasonPhrase : Bytes
  headers : FirstWinsMap Bytes Bytes
  body : Bytes
  deriving DecidableEq

def HttpClientResponse.empty : HttpClientResponse := ⟨0, [], .empty, []⟩

def parseStatusLine (statusLine : Bytes) : Except InvalidArgument (Nat × Bytes) :=
  match find [32] statusLine with
  | none => .error ⟨ascii "malformed status line (missing version/status separator)"⟩
  | some firstSpace =>
      let secondSpace := findFrom [32] statusLine (firstSpace + 1)
      let statusCodeStr :=
        match secondSpace with
        | none => statusLine.drop (firstSpace + 1)
        | some secondSpace => (statusLine.drop (firstSpace + 1)).take (secondSpace - firstSpace - 1)
      let reasonPhrase :=
        match secondSpace with
        | none => []
        | some secondSpace => statusLine.drop (secondSpace + 1)
      if statusCodeStr = [] ∨ statusCodeStr.all isdigit = false then
        .error ⟨ascii "malformed status code"⟩
      else
        match stoi statusCodeStr with
        | none => .error ⟨ascii "malformed status code"⟩
        | some statusCode => .ok (statusCode, reasonPhrase)

def parseHeaderLines : List Bytes → FirstWinsMap Bytes Bytes →
    Except InvalidArgument (FirstWinsMap Bytes Bytes) :=
  headerLoop (ascii "malformed response header line (missing colon)")
    (ascii "malformed response header line (empty key)")

def contentLengthOf (order : IterationOrder Bytes Bytes) (headers : FirstWinsMap Bytes Bytes) :
    Except InvalidArgument Nat :=
  match (headers.iterate order).find? fun e => caseInsensitiveEquals e.1 (ascii "content-length") with
  | none => .ok 0
  | some (_, value) =>
      if value = [] ∨ value.all isdigit = false then .error ⟨ascii "invalid Content-Length value"⟩
      else
        match stoul value with
        | none => .error ⟨ascii "invalid Content-Length value"⟩
        | some contentLength =>
            if contentLength > kMaxBodySize then
              .error ⟨ascii "Content-Length exceeds maximum allowed body size"⟩
            else .ok contentLength

structure ResponseHead where
  statusCode : Nat
  reasonPhrase : Bytes
  headers : FirstWinsMap Bytes Bytes
  contentLength : Nat
  deriving DecidableEq

/-- Everything that depends on the header section alone. -/
def parseHead (order : IterationOrder Bytes Bytes) (headerSection : Bytes) :
    Except InvalidArgument ResponseHead :=
  let firstLineEnd := find crlf headerSection
  let statusLine := headerSection.take (firstLineEnd.getD headerSection.length)
  let lineStart := (firstLineEnd.map (· + 2)).getD headerSection.length
  match parseStatusLine statusLine with
  | .error ex => .error ex
  | .ok (statusCode, reasonPhrase) =>
      match parseHeaderLines (lines (headerSection.drop lineStart)) .empty with
      | .error ex => .error ex
      | .ok headers =>
          match contentLengthOf order headers with
          | .error ex => .error ex
          | .ok contentLength => .ok ⟨statusCode, reasonPhrase, headers, contentLength⟩

/-- The response, when all of it is there. -/
def tryParseResponse (order : IterationOrder Bytes Bytes) (raw : Bytes) :
    Except InvalidArgument (Option HttpClientResponse) :=
  match find blankLine raw with
  | none =>
      if raw.length > kMaxHeaderSectionLength then
        .error ⟨ascii "response header section too large"⟩
      else .ok none
  | some headerEnd =>
      match parseHead order (raw.take headerEnd) with
      | .error ex => .error ex
      | .ok head =>
          let bodyStart := headerEnd + 4
          if raw.length - bodyStart < head.contentLength then .ok none
          else
            .ok (some ⟨head.statusCode, trimView head.reasonPhrase, head.headers,
              (raw.drop bodyStart).take head.contentLength⟩)

theorem parseHead_eq (order : IterationOrder Bytes Bytes) (headerSection : Bytes) :
    parseHead order headerSection =
      match parseStatusLine ((lines headerSection).headD []) with
      | .error ex => .error ex
      | .ok (statusCode, reasonPhrase) =>
          match parseHeaderLines (lines headerSection).tail .empty with
          | .error ex => .error ex
          | .ok headers =>
              match contentLengthOf order headers with
              | .error ex => .error ex
              | .ok contentLength => .ok ⟨statusCode, reasonPhrase, headers, contentLength⟩ := by
  by_cases hsection : headerSection = []
  · rw [hsection]
    rfl
  · rw [lines_eq hsection]
    rfl

theorem parseStatusLine_eq (statusLine : Bytes) :
    parseStatusLine statusLine =
      if 32 ∉ statusLine then
        .error ⟨ascii "malformed status line (missing version/status separator)"⟩
      else if secondPart statusLine = [] ∨ (secondPart statusLine).all isdigit = false then
        .error ⟨ascii "malformed status code"⟩
      else
        match stoi (secondPart statusLine) with
        | none => .error ⟨ascii "malformed status code"⟩
        | some statusCode => .ok (statusCode, thirdPart statusLine) := by
  cases hfirst : find [32] statusLine with
  | none =>
      have hnone := find_byte_eq_none.mp hfirst
      rw [parseStatusLine, hfirst, if_pos hnone]
  | some firstSpace =>
      have hspaced : ¬ 32 ∉ statusLine := by
        rw [← find_byte_eq_none, hfirst]
        simp
      rw [if_neg hspaced]
      cases hsecond : findFrom [32] statusLine (firstSpace + 1) with
      | none =>
          have hnone : 32 ∉ behind 32 statusLine := by
            rw [findFrom_space hfirst, Option.map_eq_none_iff] at hsecond
            exact find_byte_eq_none.mp hsecond
          have hcode : statusLine.drop (firstSpace + 1) = secondPart statusLine := by
            rw [secondPart, before_of_not_mem hnone, drop_of_find hfirst]
          have hreason : thirdPart statusLine = [] := behind_of_not_mem hnone
          simp only [parseStatusLine, hfirst, hsecond, hcode, hreason]
      | some secondSpace =>
          obtain ⟨hcode, hreason⟩ := secondPart_of_find hfirst hsecond
          simp only [parseStatusLine, hfirst, hsecond, hcode, hreason]

theorem tryParseResponse_of_parts {order : IterationOrder Bytes Bytes}
    {raw reasonPhrase : Bytes} {statusCode contentLength : Nat}
    {headers : FirstWinsMap Bytes Bytes} (ended : find blankLine raw ≠ none)
    (status : parseStatusLine (startLine raw) = .ok (statusCode, reasonPhrase))
    (fields : parseHeaderLines (headLines raw).tail .empty = .ok headers)
    (announced : contentLengthOf order headers = .ok contentLength) :
    tryParseResponse order raw =
      if (bodyOf raw).length < contentLength then .ok none
      else .ok (some ⟨statusCode, trimView reasonPhrase, headers,
        (bodyOf raw).take contentLength⟩) := by
  cases hend : find blankLine raw with
  | none => exact absurd hend ended
  | some headerEnd =>
      simp only [startLine, headLines, hend] at status fields
      have hhead : parseHead order (raw.take headerEnd) =
          .ok ⟨statusCode, reasonPhrase, headers, contentLength⟩ := by
        simp only [parseHead_eq, status, fields, announced]
      simp only [tryParseResponse, bodyOf, hend, hhead, List.length_drop]

theorem contentLengthOf_found {order : IterationOrder Bytes Bytes}
    {headers : FirstWinsMap Bytes Bytes} {field : Bytes × Bytes}
    (found : (headers.iterate order).find? (fun e =>
      caseInsensitiveEquals e.1 (ascii "content-length")) = some field) (length : Nat) :
    contentLengthOf order headers = .ok length ↔
      (field.2 ≠ [] ∧ field.2.all isdigit = true) ∧ digitsValue field.2 = length ∧
        length ≤ kMaxBodySize := by
  have hmax : kMaxBodySize < 2 ^ 64 := by decide
  simp only [contentLengthOf, found, stoul]
  constructor
  · intro ok
    split_ifs at ok with hwrong hfits
    rw [not_or, Bool.not_eq_false] at hwrong
    simp only at ok
    split_ifs at ok with hlarge
    cases ok
    exact ⟨hwrong, rfl, Nat.not_lt.mp hlarge⟩
  · rintro ⟨⟨hne, hdigits⟩, hvalue, hlarge⟩
    have hfits : length < 2 ^ 64 := by omega
    simp only [hne, hdigits, hvalue, Bool.true_eq_false, false_or, if_false, if_pos hfits,
      if_neg (Nat.not_lt.mpr hlarge)]

theorem contentLengthOf_cases (order : IterationOrder Bytes Bytes)
    (fields : List (Bytes × Bytes)) :
    (∃ field ∈ FirstWinsMap.firsts fields,
      caseInsensitiveEquals field.1 (ascii "content-length") = true ∧
      ∀ length, contentLengthOf order (.ofList fields) = .ok length ↔
        (field.2 ≠ [] ∧ field.2.all isdigit = true) ∧ digitsValue field.2 = length ∧
          length ≤ kMaxBodySize) ∨
    (∀ field ∈ fields, caseInsensitiveEquals field.1 (ascii "content-length") = false) ∧
      contentLengthOf order (.ofList fields) = .ok 0 := by
  have hentries : ∀ e, e ∈ (FirstWinsMap.ofList fields).iterate order ↔
      e ∈ FirstWinsMap.firsts fields := by
    intro e
    rw [FirstWinsMap.mem_iterate, FirstWinsMap.entries_ofList]
  cases hfind : ((FirstWinsMap.ofList fields).iterate order).find? fun e =>
      caseInsensitiveEquals e.1 (ascii "content-length") with
  | some field =>
      have hmem := (hentries field).mp (List.mem_of_find?_eq_some hfind)
      have hname := List.find?_some hfind
      exact .inl ⟨field, hmem, hname, contentLengthOf_found hfind⟩
  | none =>
      refine .inr ⟨fun field hfield => ?_, by simp only [contentLengthOf, hfind]⟩
      have ⟨first, hfirst, hkey⟩ := FirstWinsMap.exists_mem_firsts hfield
      have hnot := List.find?_eq_none.mp hfind first ((hentries first).mpr hfirst)
      rw [hkey] at hnot
      exact Bool.not_eq_true _ ▸ hnot

theorem parseStatusLine_ok {statusLine reasonPhrase : Bytes} {statusCode : Nat}
    (ok : parseStatusLine statusLine = .ok (statusCode, reasonPhrase)) :
    statusLine ≠ [] ∧ digitsValue (secondPart statusLine) = statusCode ∧
      reasonPhrase = thirdPart statusLine := by
  rw [parseStatusLine_eq] at ok
  split_ifs at ok with hspaced
  rw [stoi] at ok
  split_ifs at ok
  cases ok
  have hne : statusLine ≠ [] := List.ne_nil_of_mem hspaced
  exact ⟨hne, rfl, rfl⟩

theorem parseHead_ok {order : IterationOrder Bytes Bytes} {headerSection : Bytes}
    {head : ResponseHead} (ok : parseHead order headerSection = .ok head) :
    ∃ statusLine headerLines, lines headerSection = statusLine :: headerLines ∧
      digitsValue (secondPart statusLine) = head.statusCode ∧
      head.reasonPhrase = thirdPart statusLine ∧
      head.headers = .ofList (fieldsOf headerLines) ∧
      contentLengthOf order head.headers = .ok head.contentLength := by
  simp only [parseHead] at ok
  split at ok
  · cases ok
  · next statusCode reasonPhrase hstatus =>
    split at ok
    · cases ok
    · next headers hheaders =>
      split at ok
      · cases ok
      · next contentLength hlength =>
        cases ok
        obtain ⟨hne, hcode, hreason⟩ := parseStatusLine_ok hstatus
        have hsection : headerSection ≠ [] := by
          intro hnil
          exact hne (by simp [hnil])
        exact ⟨_, _, lines_eq hsection, hcode, hreason, headerLoop_ok hheaders, hlength⟩

theorem tryParseResponse_ok {order : IterationOrder Bytes Bytes} {raw : Bytes}
    {response : HttpClientResponse} (ok : tryParseResponse order raw = .ok (some response)) :
    ∃ headerEnd head, find blankLine raw = some headerEnd ∧
      parseHead order (raw.take headerEnd) = .ok head ∧
      headerEnd + 4 + head.contentLength ≤ raw.length ∧
      response = ⟨head.statusCode, trimView head.reasonPhrase, head.headers,
        (raw.drop (headerEnd + 4)).take head.contentLength⟩ := by
  unfold tryParseResponse at ok
  split at ok
  · split_ifs at ok
    cases ok
  · next headerEnd hend =>
    have hlen : headerEnd + 4 ≤ raw.length := find_add_length_le hend
    split at ok
    · cases ok
    · next head hhead =>
      simp only at ok
      split_ifs at ok with hshort
      · cases ok
      cases ok
      exact ⟨headerEnd, head, hend, hhead, by omega, rfl⟩

end ApiGateway.ResponseParsing
