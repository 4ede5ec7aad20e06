import ApiGateway.ChunkedReading
import ApiGateway.RequestParsing
import ApiGateway.RouteTrie

/-! How `onConnectionReadable` takes in one chunk, up to the request it hands
to the worker. The search for the end of the head resumes near the end of the
buffer and has early limits of its own; neither changes what a request comes
to, wherever the chunks are cut. -/

namespace ApiGateway.RequestReading
open ByteText HttpText CrlfLines RequestParsing ChunkedReading

def kReadChunkSize : Nat := 16 * 1024

/-- The fields of a `Connection` that reading uses. -/
structure Connection where
  readBuffer : Bytes
  headerScanOffset : Nat
  headerParsed : Bool
  expectedRequestBytes : Nat
  requestId : Bytes
  deriving DecidableEq

def Connection.fresh (requestId : Bytes) : Connection := ⟨[], 0, false, 0, requestId⟩

/-- The arguments of `dispatchToThreadPool`, without the descriptor. -/
structure Dispatch where
  requestId : Bytes
  method : HttpMethod
  pathOffset : Nat
  pathLen : Nat
  queryOffset : Nat
  queryLen : Nat
  bodyOffset : Nat
  bodyLen : Nat
  buffer : Bytes
  headers : FirstWinsMap Bytes Bytes
  deriving DecidableEq

/-- The arguments of `rejectRequest`, without the connection. -/
structure Rejection where
  statusCode : Nat
  statusText : Bytes
  body : Bytes
  reason : Bytes
  deriving DecidableEq

inductive Verdict where
  | dispatch (task : Dispatch)
  | reject (rejection : Rejection)
  deriving DecidableEq

def hasEnoughBytesToParse (conn : Connection) : Except RequestRejected (Connection × Bool) :=
  if conn.headerParsed then .ok (conn, conn.expectedRequestBytes ≤ conn.readBuffer.length)
  else
    let resumeFrom := if conn.headerScanOffset ≥ 3 then conn.headerScanOffset - 3 else 0
    if (findFrom blankLine conn.readBuffer resumeFrom).isSome then .ok (conn, true)
    else
      let scanned := { conn with headerScanOffset := conn.readBuffer.length }
      if conn.readBuffer.length > kMaxRequestLineLength + 1 ∧ find crlf conn.readBuffer = none then
        .error requestLineTooLong
      else if conn.readBuffer.length ≥ kMaxHeaderSectionLength then .error headerSectionTooLarge
      else .ok (scanned, false)

theorem hasEnoughBytesToParse_rejected {conn : Connection} {ex : RequestRejected}
    (h : hasEnoughBytesToParse conn = .error ex) :
    ex = requestLineTooLong ∨ ex = headerSectionTooLarge := by
  unfold hasEnoughBytesToParse at h
  generalize (if conn.headerScanOffset ≥ 3 then conn.headerScanOffset - 3 else 0) = resumeFrom at h
  simp only at h
  split_ifs at h
  · cases h
    exact .inl rfl
  · cases h
    exact .inr rfl

/-- The catch clauses around the parser. -/
def rejectionOf : ParseError → Rejection
  | .requestRejected ex => ⟨ex.status, ex.phrase, ex.body, ex.reason⟩
  | .invalidArgument ex =>
      ⟨400, ascii "Bad Request", ascii "Malformed HTTP request", ex.what⟩

def dispatchOf (order : IterationOrder Bytes Bytes) (conn : Connection)
    (parsed : ParsedRequestView) : Dispatch where
  requestId := conn.requestId
  method := parsed.method
  pathOffset := parsed.path.offset
  pathLen := parsed.path.text.length
  queryOffset := if parsed.query.text = [] then 0 else parsed.query.offset
  queryLen := parsed.query.text.length
  bodyOffset := if parsed.body.text = [] then conn.readBuffer.length else parsed.body.offset
  bodyLen := parsed.body.text.length
  buffer := conn.readBuffer
  headers := FirstWinsMap.ofList (parsed.headers.iterate order)

def onChunk (order : IterationOrder Bytes Bytes) (conn : Connection) (chunk : Bytes) :
    Reading Connection Verdict :=
  let appended := { conn with readBuffer := conn.readBuffer ++ chunk }
  match hasEnoughBytesToParse appended with
  | .error ex => .stop (.reject (rejectionOf (.requestRejected ex)))
  | .ok (scanned, false) => .more scanned
  | .ok (scanned, true) =>
      match tryParseRequest order scanned.readBuffer with
      | .error ex => .stop (.reject (rejectionOf ex))
      | .ok (some parsed, _) => .stop (.dispatch (dispatchOf order scanned parsed))
      | .ok (none, requestBytes) =>
          if requestBytes > 0 then
            .more { scanned with headerParsed := true, expectedRequestBytes := requestBytes }
          else .more scanned

structure HttpRequest where
  method : HttpMethod
  path : Bytes
  query : Bytes
  headers : FirstWinsMap Bytes Bytes
  params : RouteTrie.RouteParams
  body : Bytes
  requestId : Bytes
  deriving DecidableEq

def resize (s : Bytes) (n : Nat) : Bytes := s.take n ++ List.replicate (n - s.length) 0

def makeRequest (task : Dispatch) : HttpRequest where
  method := task.method
  path := (task.buffer.drop task.pathOffset).take task.pathLen
  query := (task.buffer.drop task.queryOffset).take task.queryLen
  headers := task.headers
  params := .empty
  body := if task.bodyLen > 0 then resize (task.buffer.drop task.bodyOffset) task.bodyLen else []
  requestId := task.requestId

section Reading

variable {order : IterationOrder Bytes Bytes} {requestId : Bytes}

def requestOf (order : IterationOrder Bytes Bytes) (requestId : Bytes)
    (parsed : ParsedRequestView) : HttpRequest where
  method := parsed.method
  path := parsed.path.text
  query := parsed.query.text
  headers := FirstWinsMap.ofList (parsed.headers.iterate order)
  params := .empty
  body := parsed.body.text
  requestId := requestId

theorem resize_of_prefix {s t : Bytes} (h : t <+: s) : resize s t.length = t := by
  rw [resize, ← List.prefix_iff_eq_take.mp h, Nat.sub_eq_zero_of_le h.length_le]
  simp

theorem makeRequest_dispatchOf {conn : Connection} {parsed : ParsedRequestView}
    (path : parsed.path.In conn.readBuffer) (query : parsed.query.In conn.readBuffer)
    (body : parsed.body.In conn.readBuffer) :
    makeRequest (dispatchOf order conn parsed) = requestOf order conn.requestId parsed := by
  have hquery : (conn.readBuffer.drop (if parsed.query.text = [] then 0 else
      parsed.query.offset)).take parsed.query.text.length = parsed.query.text := by
    split_ifs with hempty
    · simp [hempty]
    · exact query.read
  have hbody : (if 0 < parsed.body.text.length then
      resize (conn.readBuffer.drop (if parsed.body.text = [] then conn.readBuffer.length else
        parsed.body.offset)) parsed.body.text.length else []) = parsed.body.text := by
    split_ifs with hlen hempty
    · simp [hempty] at hlen
    · exact resize_of_prefix body
    · exact (List.eq_nil_of_length_eq_zero (by omega)).symm
  simp only [makeRequest, dispatchOf, requestOf, hquery, gt_iff_lt, hbody, path.read]

theorem parsed_in {raw : Bytes} {parsed : ParsedRequestView} {requestBytes : Nat}
    (ok : tryParseRequest order raw = .ok (some parsed, requestBytes)) :
    parsed.path.In raw ∧ parsed.query.In raw ∧ parsed.body.In raw := by
  rw [tryParseRequest] at ok
  split at ok
  · cases ok
  · next headerEnd _ =>
    split_ifs at ok
    split at ok
    · cases ok
    · next head hhead =>
      simp only at ok
      split_ifs at ok with hshort
      · cases ok
      cases ok
      have hin := parseHead_in hhead
      exact ⟨hin.1.extend (List.take_prefix _ _), hin.2.extend (List.take_prefix _ _),
        List.take_prefix _ _⟩

theorem expected_pos_iff {raw : Bytes} {requestBytes : Nat}
    (ok : tryParseRequest order raw = .ok (none, requestBytes)) :
    0 < requestBytes ↔ (find blankLine raw).isSome := by
  rw [tryParseRequest] at ok
  split at ok
  · next h =>
    cases ok
    simp [h]
  · next headerEnd h =>
    split_ifs at ok
    split at ok
    · cases ok
    · simp only at ok
      split_ifs at ok with hshort
      · cases ok
        simp [h]
      · cases ok

variable (order) in
theorem verdict_stands {raw : Bytes} (h : (find blankLine raw).isSome) (later : Bytes) :
    match tryParseRequest order raw with
    | .error ex => tryParseRequest order (raw ++ later) = .error ex
    | .ok (some parsed, requestBytes) =>
        tryParseRequest order (raw ++ later) = .ok (some parsed, requestBytes)
    | .ok (none, requestBytes) => (raw ++ later).length < requestBytes →
        tryParseRequest order (raw ++ later) = .ok (none, requestBytes) := by
  obtain ⟨headerEnd, hend⟩ := Option.isSome_iff_exists.mp h
  rw [tryParseRequest_of_head order hend later]
  have hraw := tryParseRequest_of_head order hend []
  rw [List.append_nil] at hraw
  rw [hraw]
  split_ifs with hlarge
  · rfl
  · cases hhead : parseHead order (raw.take headerEnd) with
    | error ex => rfl
    | ok head =>
        by_cases hshort : raw.length < headerEnd + 4 + head.contentLength
        · simp only [if_pos hshort]
          intro hstill
          rw [if_pos hstill]
        · have hlong : ¬ (raw ++ later).length < headerEnd + 4 + head.contentLength := by
            rw [List.length_append]
            omega
          have hbody : ((raw ++ later).drop (headerEnd + 4)).take head.contentLength =
              (raw.drop (headerEnd + 4)).take head.contentLength := by
            rw [List.drop_append_of_le_length (by omega),
              List.take_append_of_le_length (by rw [List.length_drop]; omega)]
          simp only [if_neg hshort, if_neg hlong, hbody]

theorem early_line_limit {raw later : Bytes} (hlong : raw.length > kMaxRequestLineLength + 1)
    (hnone : find crlf raw = none) (h : (find blankLine (raw ++ later)).isSome) :
    ∃ ex, tryParseRequest order (raw ++ later) = .error ex := by
  obtain ⟨headerEnd, hend⟩ := Option.isSome_iff_exists.mp h
  -- every CRLF of the stream ends behind the bytes seen
  have hfar : ∀ i, find crlf (raw ++ later) = some i → kMaxRequestLineLength < i := by
    intro i hi
    by_contra hle
    rw [find_of_append hi (by simp only [crlf, List.length_cons, List.length_nil]; omega)] at hnone
    cases hnone
  obtain ⟨hle, hat, -⟩ := find_eq_some_iff.mp hend
  have hcrlf : crlf <+: (raw ++ later).drop headerEnd := by
    exact (by decide : crlf <+: blankLine).trans hat
  obtain ⟨first, hfirst⟩ : ∃ first, find crlf (raw ++ later) = some first := by
    cases hf : find crlf (raw ++ later) with
    | none => exact absurd hcrlf (find_eq_none_iff.mp hf headerEnd hle)
    | some i => exact ⟨i, rfl⟩
  have hmin : first ≤ headerEnd := by
    by_contra hlt
    exact (find_eq_some_iff.mp hfirst).2.2 headerEnd (by omega) hcrlf
  have hsection := hfar first hfirst
  have hline : kMaxRequestLineLength < (((raw ++ later).take headerEnd).take
      ((find crlf ((raw ++ later).take headerEnd)).getD
        ((raw ++ later).take headerEnd).length)).length := by
    have hlength : ((raw ++ later).take headerEnd).length = headerEnd :=
      List.length_take_of_le hle
    cases hf : find crlf ((raw ++ later).take headerEnd) with
    | none =>
        rw [Option.getD_none, List.take_length, hlength]
        omega
    | some i =>
        have hi := find_append hf ((raw ++ later).drop headerEnd)
        rw [List.take_append_drop] at hi
        have hlen := find_add_length_le hf
        rw [Option.getD_some, List.length_take]
        have := hfar i hi
        omega
  rw [tryParseRequest, hend]
  simp only
  split_ifs
  · exact ⟨_, rfl⟩
  · rw [parseHead]
    simp only [gt_iff_lt, if_pos hline]
    exact ⟨_, rfl⟩

theorem early_section_limit {raw later : Bytes} (hlong : raw.length ≥ kMaxHeaderSectionLength)
    (hnone : find blankLine raw = none) (h : (find blankLine (raw ++ later)).isSome) :
    ∃ ex, tryParseRequest order (raw ++ later) = .error ex := by
  obtain ⟨headerEnd, hend⟩ := Option.isSome_iff_exists.mp h
  have hfar : headerEnd + 4 > kMaxHeaderSectionLength := by
    by_contra hle
    rw [find_of_append hend (by simp only [blankLine, List.length_cons, List.length_nil]; omega)]
      at hnone
    cases hnone
  rw [tryParseRequest, hend]
  simp only [if_pos hfar]
  exact ⟨_, rfl⟩

/-- A waiting connection has stored the bytes read so far, and either they hold
no complete head or the parser has asked for more. -/
structure Waiting (order : IterationOrder Bytes Bytes) (requestId : Bytes) (conn : Connection)
    (seen : Bytes) : Prop where
  buffered : conn.readBuffer = seen
  named : conn.requestId = requestId
  scanned : conn.headerParsed = false → conn.headerScanOffset = seen.length ∧
    find blankLine seen = none
  expected : conn.headerParsed = true → 0 < conn.expectedRequestBytes ∧
    tryParseRequest order seen = .ok (none, conn.expectedRequestBytes)

/-- What the parser makes of the whole stream, as a verdict. -/
def RightFor (order : IterationOrder Bytes Bytes) (requestId whole : Bytes) : Verdict → Prop
  | .dispatch task => ∃ parsed requestBytes,
      tryParseRequest order whole = .ok (some parsed, requestBytes) ∧
        makeRequest task = requestOf order requestId parsed
  | .reject _ => ∃ ex, tryParseRequest order whole = .error ex

theorem onChunk_parse {conn : Connection} {seen chunk : Bytes} (later : Bytes)
    (waiting : Waiting order requestId conn seen)
    (complete : (find blankLine (seen ++ chunk)).isSome)
    (enough : hasEnoughBytesToParse { conn with readBuffer := seen ++ chunk } =
      .ok ({ conn with readBuffer := seen ++ chunk }, true)) :
    (onChunk order conn chunk).Holds (Waiting order requestId · (seen ++ chunk))
      (RightFor order requestId (seen ++ chunk ++ later)) := by
  have hstands := verdict_stands order complete later
  rw [onChunk, waiting.buffered]
  simp only [enough]
  cases hparse : tryParseRequest order (seen ++ chunk) with
  | error ex =>
      rw [hparse] at hstands
      exact ⟨ex, hstands⟩
  | ok result =>
      obtain ⟨parsed, requestBytes⟩ := result
      cases parsed with
      | some parsed =>
          rw [hparse] at hstands
          obtain ⟨hpath, hquery, hbody⟩ := parsed_in hparse
          refine ⟨parsed, requestBytes, hstands, ?_⟩
          rw [makeRequest_dispatchOf hpath hquery hbody, waiting.named]
      | none =>
          have hpos := (expected_pos_iff hparse).mpr complete
          simp only [gt_iff_lt, if_pos hpos]
          exact ⟨rfl, waiting.named, by simp, fun _ => ⟨hpos, hparse⟩⟩

theorem findFrom_resumed {seen : Bytes} {offset : Nat} (searched : offset = seen.length)
    (h : find blankLine seen = none) (chunk : Bytes) :
    (findFrom blankLine (seen ++ chunk) (if offset ≥ 3 then offset - 3 else 0)).isSome =
      (find blankLine (seen ++ chunk)).isSome := by
  rw [findFrom, Option.isSome_map, ← find_resume h chunk, searched]
  congr 4
  split_ifs
  · rfl
  · simp only [blankLine, List.length_cons, List.length_nil]
    omega

variable (order requestId) in
theorem onChunk_sound {whole : Bytes} (complete : (find blankLine whole).isSome) :
    Sound (onChunk order) (Waiting order requestId) (RightFor order requestId whole) whole := by
  rintro conn seen chunk - waiting ⟨later, rfl⟩
  cases hparsed : conn.headerParsed with
  | true =>
      obtain ⟨hpos, hseen⟩ := waiting.expected hparsed
      have hhead := (expected_pos_iff hseen).mp hpos
      obtain ⟨headerEnd, hend⟩ := Option.isSome_iff_exists.mp hhead
      by_cases hlen : conn.expectedRequestBytes ≤ (seen ++ chunk).length
      · have hcomplete : (find blankLine (seen ++ chunk)).isSome := by
          rw [find_append hend chunk]
          rfl
        refine onChunk_parse later waiting hcomplete ?_
        simp only [hasEnoughBytesToParse, hparsed, if_true, decide_eq_true hlen]
      · have hstill := verdict_stands order hhead chunk
        rw [hseen] at hstill
        rw [onChunk, waiting.buffered]
        simp only [hasEnoughBytesToParse, hparsed, if_true, decide_eq_false hlen]
        exact ⟨rfl, waiting.named, by simp, fun _ => ⟨hpos, hstill (by omega)⟩⟩
  | false =>
      obtain ⟨hoffset, hseen⟩ := waiting.scanned hparsed
      have hresume := findFrom_resumed hoffset hseen chunk
      by_cases hcomplete : (find blankLine (seen ++ chunk)).isSome = true
      · refine onChunk_parse later waiting hcomplete ?_
        simp only [hasEnoughBytesToParse, hparsed, hresume, hcomplete, if_true, Bool.false_eq_true,
          if_false]
      · have hnone : find blankLine (seen ++ chunk) = none :=
          Option.not_isSome_iff_eq_none.mp hcomplete
        rw [onChunk, waiting.buffered]
        simp only [hasEnoughBytesToParse, hparsed, hresume, hcomplete, if_false,
          Bool.false_eq_true]
        by_cases hline : (seen ++ chunk).length > kMaxRequestLineLength + 1 ∧
            find crlf (seen ++ chunk) = none
        · simp only [if_pos hline]
          exact early_line_limit hline.1 hline.2 complete
        · by_cases hsection : (seen ++ chunk).length ≥ kMaxHeaderSectionLength
          · simp only [if_neg hline, if_pos hsection]
            exact early_section_limit hsection hnone complete
          · simp only [if_neg hline, if_neg hsection]
            exact ⟨rfl, waiting.named, fun _ => ⟨rfl, hnone⟩, by simp⟩

/-- What becomes of a connection: a request for the worker, an error response,
or waiting for a number of bytes. -/
inductive Outcome where
  | dispatched (request : HttpRequest)
  | rejected
  | waiting (expectedRequestBytes : Nat)
  deriving DecidableEq

def outcome : Reading Connection Verdict → Outcome
  | .stop (.dispatch task) => .dispatched (makeRequest task)
  | .stop (.reject _) => .rejected
  | .more conn => .waiting conn.expectedRequestBytes

def outcomeOf (order : IterationOrder Bytes Bytes) (requestId whole : Bytes) : Outcome :=
  match tryParseRequest order whole with
  | .error _ => .rejected
  | .ok (some parsed, _) => .dispatched (requestOf order requestId parsed)
  | .ok (none, requestBytes) => .waiting requestBytes

theorem outcome_feed {chunks : List Bytes} (nonempty : ∀ chunk ∈ chunks, chunk ≠ [])
    (complete : (find blankLine chunks.flatten).isSome) :
    outcome (feed (onChunk order) (.fresh requestId) chunks) =
      outcomeOf order requestId chunks.flatten := by
  have start : Waiting order requestId (.fresh requestId) [] :=
    ⟨rfl, rfl, fun _ => ⟨rfl, rfl⟩, by simp [Connection.fresh]⟩
  have hfeed := feed_sound (onChunk_sound order requestId complete)
    nonempty start (by simp)
  rw [List.nil_append] at hfeed
  cases h : feed (onChunk order) (.fresh requestId) chunks with
  | more conn =>
      rw [h] at hfeed
      cases hparsed : conn.headerParsed with
      | true => simp only [outcome, outcomeOf, (hfeed.expected hparsed).2]
      | false =>
          have hnone := (hfeed.scanned hparsed).2
          rw [hnone] at complete
          cases complete
  | stop verdict =>
      rw [h] at hfeed
      cases verdict with
      | dispatch task =>
          obtain ⟨parsed, requestBytes, hparse, hrequest⟩ := hfeed
          simp only [outcome, outcomeOf, hparse, hrequest]
      | reject rejection =>
          obtain ⟨ex, hparse⟩ := hfeed
          simp only [outcome, outcomeOf, hparse]

end Reading

/-- Two ways to cut a stream that holds a complete head come to the same. -/
theorem segmentation_independent (order : IterationOrder Bytes Bytes) (requestId stream : Bytes)
    (complete : blankLine <:+: stream) (chunks chunks' : List Bytes)
    (nonempty : ∀ chunk ∈ chunks, chunk ≠ []) (nonempty' : ∀ chunk ∈ chunks', chunk ≠ [])
    (cut : chunks.flatten = stream) (cut' : chunks'.flatten = stream) :
    outcome (feed (onChunk order) (.fresh requestId) chunks) =
      outcome (feed (onChunk order) (.fresh requestId) chunks') := by
  have hfind := find_isSome_iff.mpr complete
  rw [outcome_feed nonempty (by rw [cut]; exact hfind),
    outcome_feed nonempty' (by rw [cut']; exact hfind), cut, cut']

theorem segmentation_post :
    outcome (feed (onChunk default) (.fresh [])
        [ascii "POST /a HTTP/1.1\r\nContent-Length: 2\r\n\r\nhi"]) =
      outcome (feed (onChunk default) (.fresh [])
        [ascii "POST /a HTTP/1.1\r\nContent-Length: 2\r\n\r", ascii "\nh", ascii "i"]) :=
  segmentation_independent default []
    (ascii "POST /a HTTP/1.1\r\nContent-Length: 2\r\n\r\nhi") (by decide) _ _
    (by decide) (by decide) (by decide) (by decide)

end ApiGateway.RequestReading
