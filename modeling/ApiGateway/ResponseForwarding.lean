import ApiGateway.UpstreamClient

/-! The response `forward` builds from the upstream's. -/

namespace ApiGateway.ResponseForwarding
open ByteText HttpText CrlfLines MessageHeaders ResponseParsing UpstreamClient

def responseText (order : IterationOrder Bytes Bytes) (response : HttpClientResponse) : Bytes :=
  ascii "HTTP/1.1 " ++ toDecimal response.statusCode ++ ascii " " ++
    (if response.reasonPhrase = [] then ascii "OK" else response.reasonPhrase) ++ ascii "\r\n" ++
    ((response.headers.iterate order).flatMap fun e =>
      if isHopByHopHeader e.1 then [] else e.1 ++ ascii ": " ++ e.2 ++ ascii "\r\n") ++
    ascii "Content-Length: " ++ toDecimal response.body.length ++ ascii "\r\n" ++
    ascii "Connection: close\r\n" ++
    ascii "\r\n" ++
    response.body

/-- The body has the length that every `Content-Length` line gives, and there is one. -/
structure FramedByLength (message : Bytes) : Prop where
  announced : ∃ field ∈ headerFields message,
    caseInsensitiveEquals field.1 (ascii "content-length") = true
  agreed : ∀ field ∈ headerFields message,
    caseInsensitiveEquals field.1 (ascii "content-length") = true →
      digitsValue field.2 = (bodyOf message).length

def statusText (response : HttpClientResponse) : Bytes :=
  ascii "HTTP/1.1 " ++ toDecimal response.statusCode ++ ascii " " ++
    (if response.reasonPhrase = [] then ascii "OK" else response.reasonPhrase)

def ownFields (bodyLength : Nat) : List (Bytes × Bytes) :=
  [(ascii "Content-Length", toDecimal bodyLength), (ascii "Connection", ascii "close")]

theorem flatMap_passedOn (fields : List (Bytes × Bytes)) :
    (fields.flatMap fun e =>
      if isHopByHopHeader e.1 then [] else e.1 ++ ascii ": " ++ e.2 ++ ascii "\r\n") =
      joinLines ((passedOn fields).map renderField) := by
  induction fields with
  | nil => rfl
  | cons e rest ih =>
      simp only [List.flatMap_cons, ih, passedOn, List.filter_cons]
      cases isHopByHopHeader e.1 with
      | true => rfl
      | false =>
          rw [Bool.not_false, if_pos rfl, List.map_cons, joinLines_cons]
          rfl

theorem responseText_eq (order : IterationOrder Bytes Bytes) (response : HttpClientResponse) :
    responseText order response =
      joinLines (statusText response :: (passedOn (response.headers.iterate order) ++
        ownFields response.body.length).map renderField) ++ crlf ++ response.body := by
  have hcrlf : ascii "\r\n" = crlf := rfl
  have hclose : ascii "Connection: close\r\n" =
      renderField (ascii "Connection", ascii "close") ++ crlf := rfl
  have hlength : ascii "Content-Length: " = ascii "Content-Length" ++ ascii ": " := rfl
  rw [responseText, flatMap_passedOn, joinLines_cons, List.map_append, joinLines_append, ownFields,
    hclose, hlength, hcrlf]
  simp [statusText, joinLines, renderField]

theorem isField_ownFields {bodyLength : Nat} {field : Bytes × Bytes}
    (h : field ∈ ownFields bodyLength) :
    IsField field ∧ ¬ crlf <:+: field.1 ∧ ¬ crlf <:+: field.2 := by
  rw [ownFields, List.mem_cons, List.mem_singleton] at h
  cases h with
  | inl hlength =>
      have hnamed : ascii "Content-Length" ≠ [] := by decide
      have hcolon : 58 ∉ ascii "Content-Length" := by decide
      have hname : trimView (ascii "Content-Length") = ascii "Content-Length" := by decide
      have hcrlf : ¬ crlf <:+: ascii "Content-Length" := by decide
      rw [hlength]
      exact ⟨⟨hnamed, hcolon, hname, trimView_toDecimal bodyLength⟩, hcrlf,
        noCrlf_of_noCr (not_mem_toDecimal (by decide) bodyLength)⟩
  | inr hconnection =>
      rw [hconnection]
      exact ⟨⟨by decide, by decide, by decide, by decide⟩, by decide, by decide⟩

theorem passedOn_ownFields (bodyLength : Nat) : passedOn (ownFields bodyLength) = [] := by
  rfl

theorem statusText_parts (response : HttpClientResponse) :
    secondPart (statusText response) = toDecimal response.statusCode ∧
      thirdPart (statusText response) =
        if response.reasonPhrase = [] then ascii "OK" else response.reasonPhrase :=
  statusLine_parts _ _

theorem isLine_statusText {response : HttpClientResponse}
    (trimmed : trimView response.reasonPhrase = response.reasonPhrase)
    (noCrlf : ¬ crlf <:+: response.reasonPhrase) :
    IsLine (statusText response) ∧ statusText response ≠ [] := by
  have hfront : 13 ∉ ascii "HTTP/1.1 " ++ toDecimal response.statusCode ++ ascii " " := by
    have hcode : 13 ∉ toDecimal response.statusCode := not_mem_toDecimal (by decide) _
    have hversion : 13 ∉ ascii "HTTP/1.1 " := by decide
    have hspace : 13 ∉ ascii " " := by decide
    simp only [List.mem_append, hcode, hversion, hspace, or_self, not_false_eq_true]
  refine ⟨⟨?_, ?_⟩, by simp [statusText, ascii]⟩
  · refine noCrlf_append hfront ?_
    split_ifs with hempty
    · decide
    · exact noCrlf
  · rw [statusText]
    split_ifs with hempty
    · rw [List.getLast?_append_of_ne_nil _ (by decide)]
      decide
    · rw [List.getLast?_append_of_ne_nil _ hempty]
      exact getLast_of_trimmed trimmed rfl

theorem read_responseText (order : IterationOrder Bytes Bytes) {response : HttpClientResponse}
    (trimmed : trimView response.reasonPhrase = response.reasonPhrase)
    (noCrlf : ¬ crlf <:+: response.reasonPhrase)
    (fields : ∀ field ∈ response.headers.entries,
      IsField field ∧ ¬ crlf <:+: field.1 ∧ ¬ crlf <:+: field.2) :
    startLine (responseText order response) = statusText response ∧
      headerFields (responseText order response) =
        passedOn (response.headers.iterate order) ++ ownFields response.body.length ∧
      bodyOf (responseText order response) = response.body := by
  have hfields : ∀ field ∈ passedOn (response.headers.iterate order) ++
      ownFields response.body.length,
      IsField field ∧ ¬ crlf <:+: field.1 ∧ ¬ crlf <:+: field.2 := by
    intro field hfield
    cases List.mem_append.mp hfield with
    | inl hpassed => exact fields _ (FirstWinsMap.mem_iterate.mp (List.mem_of_mem_filter hpassed))
    | inr hown => exact isField_ownFields hown
  have hlines : ∀ line ∈ statusText response :: (passedOn (response.headers.iterate order) ++
      ownFields response.body.length).map renderField, IsLine line ∧ line ≠ [] := by
    intro line hline
    cases List.mem_cons.mp hline with
    | inl hstatus =>
        rw [hstatus]
        exact isLine_statusText trimmed noCrlf
    | inr hrest =>
        have ⟨field, hfield, hrender⟩ := List.mem_map.mp hrest
        have ⟨hisField, hname, hvalue⟩ := hfields field hfield
        rw [← hrender]
        exact isLine_renderField hisField hname hvalue
  have hhead := headLines_written (by simp) hlines response.body
  have hbody := bodyOf_written (by simp) hlines response.body
  rw [← responseText_eq] at hhead hbody
  have ⟨hstart, hrest⟩ := startLine_headerFields hhead
  exact ⟨hstart, hrest.trans (fieldsOf_map_renderField fun field h => (hfields field h).1), hbody⟩

theorem accepted {order : IterationOrder Bytes Bytes} {taken raw : Bytes}
    {response : HttpClientResponse} (ok : tryParseResponse order taken = .ok (some response))
    (sent : taken <+: raw) :
    response.statusCode = digitsValue (secondPart (startLine raw)) ∧
      response.reasonPhrase = trimView (thirdPart (startLine raw)) ∧
      ¬ crlf <:+: response.reasonPhrase ∧
      response.headers = .ofList (headerFields raw) ∧
      ∃ contentLength, contentLengthOf order response.headers = .ok contentLength ∧
        contentLength ≤ (bodyOf taken).length ∧
        response.body = (bodyOf raw).take contentLength := by
  obtain ⟨headerEnd, head, hend, hhead, hlength, hresponse⟩ := tryParseResponse_ok ok
  obtain ⟨later, hraw⟩ := sent
  have hendRaw : find blankLine raw = some headerEnd := by
    rw [← hraw]
    exact find_append hend later
  have hend4 : headerEnd + 4 ≤ taken.length := find_add_length_le hend
  have htake : raw.take headerEnd = taken.take headerEnd := by
    rw [← hraw, List.take_append_of_le_length (by omega)]
  obtain ⟨statusLine, headerLines, hlines, hcode, hreason, hheaders, hcontent⟩ := parseHead_ok hhead
  have hheadLines : headLines raw = statusLine :: headerLines := by
    simp only [headLines, hendRaw, htake, hlines]
  obtain ⟨hstart, hfields⟩ := startLine_headerFields hheadLines
  have hcrlf : ¬ crlf <:+: thirdPart statusLine := fun hin =>
    noCrlf_of_mem_lines (s := taken.take headerEnd) (by simp [hlines])
      (hin.trans ((behind_inside 32 _).trans (behind_inside 32 statusLine)))
  have hbody : (taken.drop (headerEnd + 4)).take head.contentLength =
      (bodyOf raw).take head.contentLength := by
    simp only [bodyOf, hendRaw]
    rw [← hraw, List.drop_append_of_le_length (by omega),
      List.take_append_of_le_length (by rw [List.length_drop]; omega)]
  have hbodyLength : head.contentLength ≤ (bodyOf taken).length := by
    simp only [bodyOf, hend, List.length_drop]
    omega
  rw [hresponse, hstart, hfields]
  exact ⟨hcode.symm, by rw [hreason], fun hin => hcrlf (hreason ▸ hin.trans (trimView_inside _)),
    hheaders, head.contentLength, hcontent, hbodyLength, hbody⟩

theorem contentLengthOf_agreed {order : IterationOrder Bytes Bytes}
    {fields : List (Bytes × Bytes)} {value contentLength : Nat}
    (announced : ∃ field ∈ fields, caseInsensitiveEquals field.1 (ascii "content-length") = true)
    (agreed : ∀ field ∈ fields, caseInsensitiveEquals field.1 (ascii "content-length") = true →
      digitsValue field.2 = value)
    (ok : contentLengthOf order (.ofList fields) = .ok contentLength) : contentLength = value := by
  rcases contentLengthOf_cases order fields with ⟨field, hfield, hname, hiff⟩ | ⟨hnone, _⟩
  · obtain ⟨_, hvalue, _⟩ := (hiff contentLength).mp ok
    rw [← hvalue, agreed field (FirstWinsMap.mem_of_mem_firsts hfield) hname]
  · obtain ⟨field, hfield, hname⟩ := announced
    rw [hnone field hfield] at hname
    cases hname

/-- Of every header name that is passed on, the client gets the first line with
its trimmed value, once, and no other line. -/
theorem response_passed_on {parseOrder : IterationOrder Bytes Bytes} {raw : Bytes}
    {results : List RecvResult} {client : HttpClient} (receiving : client.state = .Receiving)
    (unread : client.readBuffer = []) (sent : receivedBytes results <+: raw)
    (framed : FramedByLength raw)
    (complete : (client.receive parseOrder results).state = .Complete)
    (order : IterationOrder Bytes Bytes) :
    let out := responseText order (client.receive parseOrder results).response
    digitsValue (secondPart (startLine out)) = digitsValue (secondPart (startLine raw)) ∧
      thirdPart (startLine out) =
        (if trimView (thirdPart (startLine raw)) = [] then ascii "OK"
          else trimView (thirdPart (startLine raw))) ∧
      (passedOn (headerFields out)).Perm
        (passedOn (FirstWinsMap.firsts (headerFields raw))) ∧
      bodyOf out = bodyOf raw := by
  intro out
  have ⟨taken, htaken, hparse⟩ := receive_complete receiving complete
  rw [unread, List.nil_append] at htaken
  have ⟨hcode, hreason, hcrlf, hheaders, contentLength, hcontent, hshort, hbody⟩ :=
    accepted hparse (htaken.trans sent)
  have hlength : contentLength = (bodyOf raw).length := by
    rw [hheaders] at hcontent
    exact contentLengthOf_agreed framed.announced framed.agreed hcontent
  have hfields : ∀ field ∈ (client.receive parseOrder results).response.headers.entries,
      IsField field ∧ ¬ crlf <:+: field.1 ∧ ¬ crlf <:+: field.2 := by
    intro field hfield
    rw [hheaders, FirstWinsMap.entries_ofList] at hfield
    exact mem_headerFields (FirstWinsMap.mem_of_mem_firsts hfield)
  have ⟨hstart, hrest, hread⟩ := read_responseText order (by rw [hreason, trimView_idem])
    hcrlf hfields
  have ⟨hsecond, hthird⟩ := statusText_parts (client.receive parseOrder results).response
  refine ⟨?_, ?_, ?_, ?_⟩
  · rw [hstart, hsecond, digitsValue_toDecimal, hcode]
  · rw [hstart, hthird, hreason]
  · rw [hrest, passedOn, List.filter_append, ← passedOn, ← passedOn, passedOn_ownFields,
      List.append_nil, passedOn, passedOn, List.filter_filter]
    simp only [Bool.and_self]
    rw [← FirstWinsMap.entries_ofList, ← hheaders]
    exact (FirstWinsMap.iterate_perm order _).filter _
  · rw [hread, hbody, hlength, List.take_length]

theorem response_passed_on_example :
    let raw := ascii "HTTP/1.1 404\r\nX-a: 1\r\nx-A:  2 \r\ncontent-length: 2\r\n\r\nhi"
    let out := responseText default
      (({ HttpClient.new with state := .Receiving } : HttpClient).receive default [.bytes raw]).response
    digitsValue (secondPart (startLine out)) = digitsValue (secondPart (startLine raw)) ∧
      thirdPart (startLine out) =
        (if trimView (thirdPart (startLine raw)) = [] then ascii "OK"
          else trimView (thirdPart (startLine raw))) ∧
      (passedOn (headerFields out)).Perm
        (passedOn (FirstWinsMap.firsts (headerFields raw))) ∧
      bodyOf out = bodyOf raw :=
  response_passed_on rfl rfl (by simp [receivedBytes])
    ⟨by decide, by decide⟩ (by decide) default

theorem second_set_cookie_lost :
    let raw := ascii
      "HTTP/1.1 200\r\nSet-Cookie: a=1\r\nSet-Cookie: b=2\r\nContent-Length: 0\r\n\r\n"
    let client := ({ HttpClient.new with state := .Receiving } : HttpClient).receive default
      [.bytes raw]
    let out := responseText default client.response
    FramedByLength raw ∧ client.state = .Complete ∧
      ¬ (passedOn (headerFields out)).Perm (passedOn (headerFields raw)) ∧
      thirdPart (startLine out) ≠ thirdPart (startLine raw) := by
  exact ⟨⟨by decide, by decide⟩, by decide, by decide, by decide⟩

end ApiGateway.ResponseForwarding
