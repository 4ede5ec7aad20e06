import ApiGateway.ResponseForwarding

/-! What `forward` writes to the client, read by the parser that read the upstream's
response. -/

namespace ApiGateway.DownstreamRoundTrip
open ByteText HttpText CrlfLines MessageHeaders ResponseParsing ResponseForwarding

/-- What holds of every response that `tryParseResponse` returns. -/
structure Parsed (response : HttpClientResponse) : Prop where
  code : response.statusCode < 2 ^ 31
  trimmed : trimView response.reasonPhrase = response.reasonPhrase
  noCrlf : ¬ crlf <:+: response.reasonPhrase
  fields : ∀ field ∈ response.headers.entries,
    IsField field ∧ ¬ crlf <:+: field.1 ∧ ¬ crlf <:+: field.2
  short : response.body.length ≤ kMaxBodySize

theorem statusCode_lt {statusLine reasonPhrase : Bytes} {statusCode : Nat}
    (ok : parseStatusLine statusLine = .ok (statusCode, reasonPhrase)) : statusCode < 2 ^ 31 := by
  rw [parseStatusLine_eq] at ok
  split_ifs at ok
  rw [stoi] at ok
  split_ifs at ok with hfits
  cases ok
  exact hfits

theorem head_statusCode_lt {order : IterationOrder Bytes Bytes} {headerSection : Bytes}
    {head : ResponseHead} (ok : parseHead order headerSection = .ok head) :
    head.statusCode < 2 ^ 31 := by
  rw [parseHead_eq] at ok
  split at ok
  · cases ok
  · next statusCode reasonPhrase hstatus =>
    split at ok
    · cases ok
    · split at ok
      · cases ok
      · cases ok
        exact statusCode_lt hstatus

theorem contentLength_le {order : IterationOrder Bytes Bytes} {fields : List (Bytes × Bytes)}
    {contentLength : Nat} (ok : contentLengthOf order (.ofList fields) = .ok contentLength) :
    contentLength ≤ kMaxBodySize := by
  rcases contentLengthOf_cases order fields with ⟨field, _, _, hiff⟩ | ⟨_, hzero⟩
  · exact ((hiff contentLength).mp ok).2.2
  · rw [hzero] at ok
    cases ok
    exact Nat.zero_le _

theorem parsed_of_ok {order : IterationOrder Bytes Bytes} {raw : Bytes}
    {response : HttpClientResponse} (ok : tryParseResponse order raw = .ok (some response)) :
    Parsed response := by
  have ⟨_, hreason, hcrlf, hheaders, contentLength, hcontent, _, hbody⟩ :=
    accepted ok (List.prefix_refl raw)
  have hcode : response.statusCode < 2 ^ 31 := by
    have ⟨_, head, _, hhead, _, hresponse⟩ := tryParseResponse_ok ok
    rw [hresponse]
    exact head_statusCode_lt hhead
  have hshort : response.body.length ≤ kMaxBodySize := by
    rw [hheaders] at hcontent
    have hle := contentLength_le hcontent
    rw [hbody, List.length_take]
    omega
  refine ⟨hcode, by rw [hreason, trimView_idem], hcrlf, fun field hfield => ?_, hshort⟩
  rw [hheaders, FirstWinsMap.entries_ofList] at hfield
  exact mem_headerFields (FirstWinsMap.mem_of_mem_firsts hfield)

def writtenFields (order : IterationOrder Bytes Bytes) (response : HttpClientResponse) :
    List (Bytes × Bytes) :=
  passedOn (response.headers.iterate order) ++ ownFields response.body.length

theorem isField_writtenFields {order : IterationOrder Bytes Bytes}
    {response : HttpClientResponse} (h : Parsed response) {field : Bytes × Bytes}
    (hfield : field ∈ writtenFields order response) :
    IsField field ∧ ¬ crlf <:+: field.1 ∧ ¬ crlf <:+: field.2 := by
  cases List.mem_append.mp hfield with
  | inl hpassed =>
      exact h.fields field (FirstWinsMap.mem_iterate.mp (List.mem_of_mem_filter hpassed))
  | inr hown => exact isField_ownFields hown

theorem hopByHop_of_own {bodyLength : Nat} {field : Bytes × Bytes}
    (h : field ∈ ownFields bodyLength) : isHopByHopHeader field.1 = true := by
  rw [ownFields, List.mem_cons, List.mem_singleton] at h
  rcases h with rfl | rfl
  · change isHopByHopHeader (ascii "Content-Length") = true
    decide
  · change isHopByHopHeader (ascii "Connection") = true
    decide

theorem writtenFields_nodup (order : IterationOrder Bytes Bytes)
    (response : HttpClientResponse) :
    ((writtenFields order response).map Prod.fst).Nodup := by
  have hown : ((ownFields response.body.length).map Prod.fst).Nodup := by
    change [ascii "Content-Length", ascii "Connection"].Nodup
    decide
  exact passedOn_append_nodup (FirstWinsMap.iterate_nodup order response.headers) hown
    fun field hfield => hopByHop_of_own hfield

theorem writtenFields_perm (order : IterationOrder Bytes Bytes)
    (response : HttpClientResponse) :
    (writtenFields order response).Perm
      (passedOn response.headers.entries ++ ownFields response.body.length) :=
  ((FirstWinsMap.iterate_perm order response.headers).filter _).append_right _

theorem contentLengthOf_written (writeOrder readOrder : IterationOrder Bytes Bytes)
    {response : HttpClientResponse} (short : response.body.length ≤ kMaxBodySize) :
    contentLengthOf readOrder (.ofList (writtenFields writeOrder response)) =
      .ok response.body.length := by
  have hown : (ascii "Content-Length", toDecimal response.body.length) ∈
      writtenFields writeOrder response := List.mem_append_right _ (List.mem_cons_self ..)
  rcases contentLengthOf_cases readOrder (writtenFields writeOrder response) with
    ⟨found, hfirst, hname, hiff⟩ | ⟨hnone, _⟩
  · have hvalue : found.2 = toDecimal response.body.length := by
      cases List.mem_append.mp (FirstWinsMap.mem_of_mem_firsts hfirst) with
      | inl hpassed =>
          have hkept := List.of_mem_filter hpassed
          simp [isHopByHopHeader, hname] at hkept
      | inr hadded =>
          rw [ownFields, List.mem_cons, List.mem_singleton] at hadded
          rcases hadded with rfl | rfl
          · rfl
          · cases hname
    rw [hiff, hvalue]
    exact ⟨⟨toDecimal_ne_nil _, all_isdigit_toDecimal _⟩, digitsValue_toDecimal _, short⟩
  · have hnot := hnone _ hown
    cases hnot

theorem parseStatusLine_statusText {response : HttpClientResponse}
    (code : response.statusCode < 2 ^ 31) :
    parseStatusLine (statusText response) = .ok (response.statusCode,
      if response.reasonPhrase = [] then ascii "OK" else response.reasonPhrase) := by
  have ⟨hcode, hreason⟩ := statusText_parts response
  have hspaced : ¬ 32 ∉ statusText response := by simp [statusText, ascii]
  have hdigits : ¬ (toDecimal response.statusCode = [] ∨
      (toDecimal response.statusCode).all isdigit = false) := by
    simp [toDecimal_ne_nil, all_isdigit_toDecimal]
  rw [parseStatusLine_eq, if_neg hspaced, hcode, hreason, if_neg hdigits, stoi,
    digitsValue_toDecimal, if_pos code]

theorem isLine_written (order : IterationOrder Bytes Bytes) {response : HttpClientResponse}
    (h : Parsed response) :
    ∀ line ∈ statusText response :: (writtenFields order response).map renderField,
      IsLine line ∧ line ≠ [] := by
  intro line hline
  cases List.mem_cons.mp hline with
  | inl hstatus =>
      rw [hstatus]
      exact isLine_statusText h.trimmed h.noCrlf
  | inr hrest =>
      have ⟨field, hfield, hrender⟩ := List.mem_map.mp hrest
      have ⟨hisField, hname, hvalue⟩ := isField_writtenFields h hfield
      rw [← hrender]
      exact isLine_renderField hisField hname hvalue

theorem ended_responseText (order : IterationOrder Bytes Bytes) {response : HttpClientResponse}
    (h : Parsed response) :
    find blankLine (responseText order response) ≠ none ∧
      headLines (responseText order response) =
        statusText response :: (writtenFields order response).map renderField := by
  have hlines := isLine_written order h
  have ⟨headEnd, hend, _, _⟩ := read_written (by simp) hlines response.body
  have hhead := headLines_written (by simp) hlines response.body
  rw [writtenFields, ← responseText_eq] at hend hhead
  exact ⟨by simp [hend], hhead⟩

theorem fields_read (order : IterationOrder Bytes Bytes) {response : HttpClientResponse}
    (h : Parsed response) :
    parseHeaderLines (headLines (responseText order response)).tail .empty =
      .ok (.ofList (writtenFields order response)) := by
  have hisField : ∀ field ∈ writtenFields order response, IsField field := fun field hfield =>
    (isField_writtenFields h hfield).1
  rw [(ended_responseText order h).2, List.tail_cons, parseHeaderLines, headerLoop_read,
    fieldsOf_map_renderField hisField]
  · rfl
  · intro line hline _
    have ⟨field, hfield, hrender⟩ := List.mem_map.mp hline
    have ⟨hnamed, hcolon, htrimmed, _⟩ := hisField field hfield
    rw [← hrender, fieldOf_written ⟨hnamed, hcolon, htrimmed⟩]
    simp

theorem trimView_reason {response : HttpClientResponse} (h : Parsed response) :
    trimView (if response.reasonPhrase = [] then ascii "OK" else response.reasonPhrase) =
      if response.reasonPhrase = [] then ascii "OK" else response.reasonPhrase := by
  split_ifs
  · decide
  · exact h.trimmed

/-- The parser reads from the gateway's text the response that the text was made of, but for
the reason phrase that is filled in and the framing lines, which are the gateway's. -/
theorem response_reread {parseOrder : IterationOrder Bytes Bytes} {raw : Bytes}
    {response : HttpClientResponse}
    (accepted : tryParseResponse parseOrder raw = .ok (some response))
    (writeOrder readOrder : IterationOrder Bytes Bytes) :
    ∃ reread, tryParseResponse readOrder (responseText writeOrder response) =
        .ok (some reread) ∧
      reread.statusCode = response.statusCode ∧
      reread.reasonPhrase =
        (if response.reasonPhrase = [] then ascii "OK" else response.reasonPhrase) ∧
      reread.body = response.body ∧
      reread.headers.entries.Perm (passedOn response.headers.entries ++
        [(ascii "Content-Length", toDecimal response.body.length),
          (ascii "Connection", ascii "close")]) := by
  have h := parsed_of_ok accepted
  have ⟨hended, hhead⟩ := ended_responseText writeOrder h
  have hstatus := parseStatusLine_statusText h.code
  rw [← (startLine_headerFields hhead).1] at hstatus
  have hbody := (read_responseText writeOrder h.trimmed h.noCrlf h.fields).2.2
  have hparse := tryParseResponse_of_parts hended hstatus (fields_read writeOrder h)
    (contentLengthOf_written writeOrder readOrder h.short)
  rw [hbody, if_neg (Nat.lt_irrefl _), List.take_length, trimView_reason h] at hparse
  refine ⟨_, hparse, rfl, rfl, rfl, ?_⟩
  change (FirstWinsMap.ofList (writtenFields writeOrder response)).entries.Perm _
  rw [FirstWinsMap.entries_ofList, FirstWinsMap.firsts_of_nodup (writtenFields_nodup _ _)]
  exact writtenFields_perm writeOrder response

theorem response_reread_chunked :
    let response : HttpClientResponse := ⟨200, [], .ofList [
      (ascii "Transfer-Encoding", ascii "chunked"), (ascii "X\ra", ascii "1")], []⟩
    ∃ reread, tryParseResponse default (responseText default response) = .ok (some reread) ∧
      reread.statusCode = response.statusCode ∧
      reread.reasonPhrase =
        (if response.reasonPhrase = [] then ascii "OK" else response.reasonPhrase) ∧
      reread.body = response.body ∧
      reread.headers.entries.Perm (passedOn response.headers.entries ++
        [(ascii "Content-Length", toDecimal response.body.length),
          (ascii "Connection", ascii "close")]) :=
  @response_reread default (ascii
    "HTTP/1.1 0200\r\nTransfer-Encoding: chunked\r\nX\ra: 1\r\n\r\n0\r\n\r\n") _ (by decide)
    default default

end ApiGateway.DownstreamRoundTrip
