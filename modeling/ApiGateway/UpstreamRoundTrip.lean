import ApiGateway.RequestFraming
import ApiGateway.RequestTransparency

/-! The request `forward` writes to the upstream, read by the gateway's own parser. -/

namespace ApiGateway.UpstreamRoundTrip
open ByteText HttpText CrlfLines MessageHeaders RequestParsing UpstreamClient RequestForwarding
open RequestReading (Connection HttpRequest dispatchOf makeRequest parsed_in requestOf
  makeRequest_dispatchOf)
open RequestFraming (IsContentLength IsDigits tryParseRequest_eq lines_head accepted_length
  contentLengthOf_oneLength)

/-- What the parser makes of a request again. -/
structure Reread (parsed reread : ParsedRequestView) (ownFields : List (Bytes × Bytes)) :
    Prop where
  method : reread.method = parsed.method
  path : reread.path.text = parsed.path.text
  query : reread.query.text = parsed.query.text
  body : reread.body.text = parsed.body.text
  headers : reread.headers.entries.Perm (passedOn parsed.headers.entries ++ ownFields)

section Accepted

variable {order : IterationOrder Bytes Bytes} {raw : Bytes} {parsed : ParsedRequestView}
  {requestBytes : Nat}

theorem accepted_requestLine
    (ok : tryParseRequest order raw = .ok (some parsed, requestBytes)) :
    IsRequestLine (startLine raw) := by
  unfold tryParseRequest at ok
  split at ok
  · cases ok
  · next headerEnd hend =>
    split_ifs at ok
    split at ok
    · cases ok
    · next head hhead =>
      rw [parseHead_eq, lines_head hend, ← startLine] at hhead
      split_ifs at hhead
      split at hhead
      · cases hhead
      · next request hline => exact parseRequestLine_isOk_iff.mp ⟨request, hline⟩

theorem accepted_target (ok : tryParseRequest order raw = .ok (some parsed, requestBytes)) :
    63 ∉ parsed.path.text ∧ parsed.path.text.head? = some 47 ∧
      32 ∉ buildUpstreamTarget parsed.path.text parsed.query.text := by
  have ⟨_, _, target, htarget, hsplit⟩ := tryParseRequest_ok ok
  have ⟨hpath, _⟩ := splitTarget_text target
  have hbuild := buildUpstreamTarget_splitTarget target
  rw [hsplit, htarget] at hpath hbuild
  have hslash := (accepted_requestLine ok).target
  refine ⟨?_, ?_, ?_⟩
  · rw [hpath]
    intro hmem
    simpa using List.mem_takeWhile_imp hmem
  · rw [hpath]
    cases hsecond : secondPart (startLine raw) with
    | nil =>
        rw [hsecond] at hslash
        cases hslash
    | cons b rest =>
        rw [hsecond, List.head?_cons, Option.some.injEq] at hslash
        rw [hslash]
        rfl
  · rw [hbuild]
    exact RequestTransparency.space_not_mem_rejoined (startLine raw)

theorem accepted_short (ok : tryParseRequest order raw = .ok (some parsed, requestBytes)) :
    parsed.body.text.length ≤ kMaxBodyLength := by
  have hlength := accepted_length ok
  unfold contentLengthOf at hlength
  simp only at hlength
  split_ifs at hlength
  · rw [← Except.ok.inj hlength]
    exact Nat.zero_le _
  split at hlength
  · cases hlength
  · split_ifs at hlength with hlarge
    rw [← Except.ok.inj hlength]
    omega

end Accepted

theorem before_buildUpstreamTarget {path query : Bytes} (h : 63 ∉ path) :
    before 63 (buildUpstreamTarget path query) = path ∧
      behind 63 (buildUpstreamTarget path query) = query := by
  unfold buildUpstreamTarget
  split_ifs with hempty
  · rw [before_of_not_mem h, behind_of_not_mem h, hempty]
    exact ⟨rfl, rfl⟩
  · have hmark : ascii "?" = [63] := rfl
    rw [hmark, List.append_assoc, List.singleton_append, before_append h, behind_append h]
    exact ⟨rfl, rfl⟩

theorem parseRequestLine_written (method : HttpMethod) {path query : Bytes} (marked : 63 ∉ path)
    (absolute : path.head? = some 47) (spaced : 32 ∉ buildUpstreamTarget path query) :
    ∃ request, parseRequestLine ⟨0, httpMethodToString method ++ ascii " " ++
        buildUpstreamTarget path query ++ ascii " HTTP/1.1"⟩ = .ok request ∧
      request.method = method ∧ request.path.text = path ∧ request.query.text = query := by
  let line := httpMethodToString method ++ ascii " " ++ buildUpstreamTarget path query ++
    ascii " HTTP/1.1"
  have ⟨hmethod, htarget⟩ := RequestTransparency.startLine_parts method spaced
  have hslash : (buildUpstreamTarget path query).head? = some 47 := by
    unfold buildUpstreamTarget
    split_ifs
    · exact absolute
    · rw [List.append_assoc, List.head?_append, absolute]
      rfl
  have hspaces : 32 ∈ line ∧ 32 ∈ behind 32 line := by
    have hfirst : 32 ∉ httpMethodToString method := by cases method <;> decide
    have hspace : ascii " " = [32] := rfl
    have hversion : ascii " HTTP/1.1" = 32 :: ascii "HTTP/1.1" := rfl
    have hline : line = httpMethodToString method ++ 32 :: (buildUpstreamTarget path query ++
        32 :: ascii "HTTP/1.1") := by
      simp only [line, hspace, hversion, List.append_assoc, List.singleton_append]
    rw [hline, behind_append hfirst]
    simp
  have hwell : IsRequestLine line := by
    refine ⟨hspaces.1, hspaces.2, ?_, method, ?_⟩
    · rw [htarget, hslash]
    · rw [hmethod, httpMethodFromString_toString]
  have hwell' : IsRequestLine (View.mk 0 line).text := hwell
  have ⟨request, hrequest⟩ := parseRequestLine_isOk_iff.mpr hwell'
  have ⟨_, target, htext, hsplit⟩ := parseRequestLine_ok hrequest
  have hread := parseRequestLine_method hrequest
  have ⟨hpath, hquery⟩ := splitTarget_text target
  have ⟨hbefore, hbehind⟩ := @before_buildUpstreamTarget path query marked
  rw [hsplit, htext, htarget] at hpath hquery
  rw [hmethod] at hread
  exact ⟨request, hrequest, httpMethodToString_injective hread, hpath.trans hbefore,
    hquery.trans hbehind⟩

section Written

variable {raw : Bytes} {request : HttpRequest} {target : RouteTrie.ProxyTarget}

theorem writtenFields_nodup (order order' : IterationOrder Bytes Bytes) (h : From raw request)
    (address : isIPv4Address target.host = true) :
    ((writtenFields order order' target request).map Prod.fst).Nodup := by
  have hnames : ((FirstWinsMap.firsts (headerFields raw)).map Prod.fst).Nodup := by
    rw [← FirstWinsMap.entries_ofList]
    exact (FirstWinsMap.ofList (headerFields raw)).nodup
  have hown : ((ownFields (hostKeyFor target) request.body).map Prod.fst).Nodup := by
    unfold ownFields
    split_ifs
    · change [ascii "Connection", ascii "Host"].Nodup
      decide
    · change [ascii "Connection", ascii "Host", ascii "Content-Length"].Nodup
      decide
  refine ((writtenFields_perm order order' target h).map Prod.fst).nodup_iff.mpr ?_
  refine passedOn_append_nodup hnames hown fun field hfield => ?_
  have ⟨_, _, _, hhop⟩ := isField_ownFields address hfield
  exact hhop

theorem fields_read (order order' : IterationOrder Bytes Bytes) (h : From raw request)
    (address : isIPv4Address target.host = true) :
    parseHeaderLines (headLines (upstreamRequest order order' target request)).tail .empty =
      .ok (.ofList (writtenFields order order' target request)) := by
  have hisField : ∀ field ∈ writtenFields order order' target request, IsField field :=
    fun field hfield => (isLine_writtenFields order order' h address hfield).1
  rw [upstreamRequest_eq, headLines_written (by simp) (isLine_written order order' h address),
    List.tail_cons, parseHeaderLines, headerLoop_read, fieldsOf_map_renderField hisField]
  · rfl
  · intro line hline _
    obtain ⟨field, hfield, hrender⟩ := List.mem_map.mp hline
    obtain ⟨hnamed, hcolon, htrimmed, _⟩ := hisField field hfield
    rw [← hrender, fieldOf_written ⟨hnamed, hcolon, htrimmed⟩]
    simp

theorem contentLength_written {order order' : IterationOrder Bytes Bytes} (h : From raw request)
    {field : Bytes × Bytes} (hfield : field ∈ writtenFields order order' target request)
    (name : IsContentLength field) :
    field = (ascii "Content-Length", toDecimal request.body.length) ∧ request.body ≠ [] := by
  rw [(writtenFields_perm order order' target h).mem_iff, List.mem_append] at hfield
  cases hfield with
  | inl hpassed =>
      have hkept := List.of_mem_filter hpassed
      have hnamed : caseInsensitiveEquals field.1 (ascii "content-length") = true := name
      simp [isHopByHopHeader, hnamed] at hkept
  | inr hown =>
      rw [ownFields, List.mem_cons, List.mem_cons] at hown
      rcases hown with rfl | rfl | hlength
      · cases name
      · cases name
      · split_ifs at hlength with hbody
        · cases hlength
        · exact ⟨List.mem_singleton.mp hlength, hbody⟩

theorem contentLengthOf_written (order order' readOrder : IterationOrder Bytes Bytes)
    (h : From raw request) (short : request.body.length ≤ kMaxBodyLength) :
    contentLengthOf readOrder (.ofList (writtenFields order order' target request)) =
      .ok request.body.length := by
  have hlengths : ∀ field ∈ writtenFields order order' target request, IsContentLength field →
      IsDigits field.2 ∧ digitsValue field.2 = request.body.length := by
    intro field hfield hname
    rw [(contentLength_written h hfield hname).1]
    exact ⟨⟨toDecimal_ne_nil _, all_isdigit_toDecimal _⟩, digitsValue_toDecimal _⟩
  rw [contentLengthOf_oneLength readOrder hlengths]
  split_ifs with hany hlarge
  · omega
  · rfl
  · have hempty : request.body = [] := by
      by_contra hbody
      refine hany ⟨(ascii "Content-Length", toDecimal request.body.length), ?_, by
        change caseInsensitiveEquals (ascii "Content-Length") (ascii "content-length") = true
        decide⟩
      rw [(writtenFields_perm order order' target h).mem_iff, ownFields, if_neg hbody]
      simp
    rw [hempty]
    rfl

theorem ended_upstreamRequest (order order' : IterationOrder Bytes Bytes) (h : From raw request)
    (address : isIPv4Address target.host = true) :
    ∃ headerEnd, find blankLine (upstreamRequest order order' target request) = some headerEnd ∧
      headerEnd + 4 + request.body.length =
        (upstreamRequest order order' target request).length ∧
      (upstreamRequest order order' target request).drop (headerEnd + 4) = request.body := by
  have ⟨headerEnd, hend, _, hbody⟩ :=
    read_written (by simp) (isLine_written order order' h address) request.body
  rw [← upstreamRequest_eq] at hend hbody
  have hinside : headerEnd + 4 ≤ (upstreamRequest order order' target request).length :=
    find_add_length_le hend
  have hlength := congrArg List.length hbody
  rw [List.length_drop] at hlength
  exact ⟨headerEnd, hend, by omega, hbody⟩

theorem tryParseRequest_written (order order' readOrder : IterationOrder Bytes Bytes)
    (h : From raw request) (address : isIPv4Address target.host = true)
    (marked : 63 ∉ request.path) (absolute : request.path.head? = some 47)
    (spaced : 32 ∉ buildUpstreamTarget request.path request.query)
    (short : request.body.length ≤ kMaxBodyLength)
    (line : (startText request).length ≤ kMaxRequestLineLength)
    (head : (upstreamRequest order order' target request).length ≤
      kMaxHeaderSectionLength + request.body.length) :
    ∃ reread, tryParseRequest readOrder (upstreamRequest order order' target request) =
        .ok (some reread, (upstreamRequest order order' target request).length) ∧
      reread.method = request.method ∧ reread.path.text = request.path ∧
      reread.query.text = request.query ∧ reread.body.text = request.body ∧
      reread.headers.entries = writtenFields order order' target request := by
  have ⟨headerEnd, hend, hlength, hbody⟩ := ended_upstreamRequest order order' h address
  have ⟨hstart, _⟩ := RequestTransparency.read_upstreamRequest order order' h address
  have ⟨requestLine, hline, hmethod, hpath, hquery⟩ :=
    parseRequestLine_written request.method marked absolute spaced
  rw [← startText, ← hstart] at hline
  rw [← hstart] at line
  have hwhole := tryParseRequest_eq readOrder hend (by omega) line
  rw [hline, fields_read order order' h address] at hwhole
  simp only [contentLengthOf_written order order' readOrder h short, hlength, hbody,
    Nat.lt_irrefl, if_false, List.take_length] at hwhole
  refine ⟨_, hwhole, hmethod, hpath, hquery, rfl, ?_⟩
  change (FirstWinsMap.ofList (writtenFields order order' target request)).entries = _
  rw [FirstWinsMap.entries_ofList,
    FirstWinsMap.firsts_of_nodup (writtenFields_nodup order order' h address)]

end Written

/-- Every request the gateway accepts is read from the upstream's bytes as it was accepted,
within the limits of a head, with the fields of the hop replaced by the gateway's own. -/
theorem request_reread {parseOrder : IterationOrder Bytes Bytes} {conn : Connection}
    {parsed : ParsedRequestView} {requestBytes : Nat}
    (ok : tryParseRequest parseOrder conn.readBuffer = .ok (some parsed, requestBytes))
    {target : RouteTrie.ProxyTarget} (address : isIPv4Address target.host = true)
    (dispatchOrder order order' readOrder : IterationOrder Bytes Bytes)
    (line : (startText (makeRequest (dispatchOf dispatchOrder conn parsed))).length ≤
      kMaxRequestLineLength)
    (head : (upstreamRequest order order' target
        (makeRequest (dispatchOf dispatchOrder conn parsed))).length ≤
      kMaxHeaderSectionLength + parsed.body.text.length) :
    ∃ reread, tryParseRequest readOrder (upstreamRequest order order' target
          (makeRequest (dispatchOf dispatchOrder conn parsed))) =
        .ok (some reread, (upstreamRequest order order' target
          (makeRequest (dispatchOf dispatchOrder conn parsed))).length) ∧
      Reread parsed reread
        ((ascii "Connection", ascii "keep-alive") ::
          (ascii "Host", target.host ++ ascii ":" ++ toDecimal target.port.toNat) ::
          if parsed.body.text = [] then []
          else [(ascii "Content-Length", toDecimal parsed.body.text.length)]) := by
  have hfrom := from_dispatched dispatchOrder ok
  have ⟨hpath, hquery, hbody⟩ := parsed_in ok
  rw [makeRequest_dispatchOf hpath hquery hbody] at hfrom line head ⊢
  have ⟨hmarked, habsolute, hspaced⟩ := accepted_target ok
  have ⟨reread, hreread, hmethod, hsamePath, hsameQuery, hsameBody, hentries⟩ :=
    tryParseRequest_written order order' readOrder hfrom address hmarked habsolute hspaced
      (accepted_short ok) line head
  refine ⟨reread, hreread, hmethod, hsamePath, hsameQuery, hsameBody, ?_⟩
  have hperm := writtenFields_perm order order' target hfrom
  rw [← FirstWinsMap.entries_ofList, ← (tryParseRequest_ok ok).1, ← hentries] at hperm
  exact hperm

theorem request_reread_controls :
    let conn : Connection := { Connection.fresh [] with
      readBuffer := ascii
        "PUT /a\r?b?\t HTTP/1.0 x\r\nX\ny: 1\r2\r\nTransfer-Encoding: z\r\ncontent-length: 2\r\n\r\nhi" }
    let target : RouteTrie.ProxyTarget := ⟨ascii "10.0.0.1", 80⟩
    ∃ parsed requestBytes,
      tryParseRequest default conn.readBuffer = .ok (some parsed, requestBytes) ∧
      ∃ reread, tryParseRequest default (upstreamRequest default default target
          (makeRequest (dispatchOf default conn parsed))) =
        .ok (some reread, (upstreamRequest default default target
          (makeRequest (dispatchOf default conn parsed))).length) ∧
      Reread parsed reread
        ((ascii "Connection", ascii "keep-alive") ::
          (ascii "Host", target.host ++ ascii ":" ++ toDecimal target.port.toNat) ::
          if parsed.body.text = [] then []
          else [(ascii "Content-Length", toDecimal parsed.body.text.length)]) := by
  refine ⟨_, _, rfl, ?_⟩
  exact @request_reread default _ _ _ rfl _ (by decide) default default default default
    (by decide) (by decide)

end ApiGateway.UpstreamRoundTrip
