import ApiGateway.RequestForwarding

/-! The request the upstream reads, against the one the client sent. The query
is divided from the path and joined to it again, and the header lines pass
through two maps and a filter. -/

namespace ApiGateway.RequestTransparency
open ByteText HttpText CrlfLines MessageHeaders RequestParsing UpstreamClient RequestForwarding
open RequestReading (Connection HttpRequest dispatchOf makeRequest parsed_in requestOf
  makeRequest_dispatchOf)

/-- The message is the request that was sent, but for the header lines of the hop. -/
structure Transparent (sent message : Bytes) : Prop where
  method : before 32 (startLine message) = before 32 (startLine sent)
  target : secondPart (startLine message) = secondPart (startLine sent)
  body : bodyOf message = bodyOf sent
  fields : (passedOn (headerFields message)).Perm (passedOn (headerFields sent))

def rejoined (target : Bytes) : Bytes :=
  if behind 63 target = [] then before 63 target else target

/-- The message is the request that was sent, with its target rejoined and the
first line of each name. -/
structure Carried (sent message : Bytes) : Prop where
  method : before 32 (startLine message) = before 32 (startLine sent)
  target : secondPart (startLine message) = rejoined (secondPart (startLine sent))
  body : bodyOf message = bodyOf sent
  fields : (passedOn (headerFields message)).Perm
    (passedOn (FirstWinsMap.firsts (headerFields sent)))

theorem rejoined_eq_self_iff {target : Bytes} :
    rejoined target = target ↔ behind 63 target ≠ [] ∨ 63 ∉ target := by
  unfold rejoined
  split_ifs with hempty
  · have hiff : before 63 target = target ↔ 63 ∉ target := by
      constructor
      · intro hsame hmem
        rw [before, List.takeWhile_eq_self_iff] at hsame
        simpa using hsame 63 hmem
      · exact before_of_not_mem
    rw [hiff]
    simp [hempty]
  · simp [hempty]

theorem space_not_mem_rejoined (line : Bytes) : 32 ∉ rejoined (secondPart line) := by
  have hpart : 32 ∉ secondPart line := fun hmem => by
    have hne := List.mem_takeWhile_imp hmem
    simp at hne
  unfold rejoined
  split_ifs
  · exact fun hmem => hpart ((before_inside _ _).subset hmem)
  · exact hpart

section Sent

variable {order : IterationOrder Bytes Bytes} {raw : Bytes} {parsed : ParsedRequestView}
  {requestBytes : Nat}

theorem accepted_bytes
    (ok : tryParseRequest order raw = .ok (some parsed, requestBytes)) :
    httpMethodToString parsed.method = before 32 (startLine raw) ∧
      ∃ headerEnd, find blankLine raw = some headerEnd ∧ headerEnd + 4 ≤ requestBytes ∧
        parsed.body.text = (raw.drop (headerEnd + 4)).take (requestBytes - (headerEnd + 4)) := by
  unfold tryParseRequest at ok
  split at ok
  · cases ok
  · next headerEnd hend =>
    split_ifs at ok
    split at ok
    · cases ok
    · next head hhead =>
      simp only at ok
      split_ifs at ok
      · cases ok
      cases ok
      have hmethod : httpMethodToString head.requestLine.method = before 32 (startLine raw) := by
        rw [parseHead_eq] at hhead
        split_ifs at hhead
        split at hhead
        · cases hhead
        · next request hline =>
          split at hhead
          · cases hhead
          · split at hhead
            · cases hhead
            · cases hhead
              have hhead : startLine raw = (lines (raw.take headerEnd)).headD [] := by
                simp only [startLine, headLines, hend]
              rw [hhead]
              exact parseRequestLine_method hline
      refine ⟨hmethod, headerEnd, hend, by omega, ?_⟩
      rw [Nat.add_sub_cancel_left]

theorem read_sent {headerEnd : Nat} (ended : find blankLine raw = some headerEnd)
    (inside : headerEnd + 4 ≤ requestBytes) :
    headLines (raw.take requestBytes) = headLines raw ∧
      bodyOf (raw.take requestBytes) =
        (raw.drop (headerEnd + 4)).take (requestBytes - (headerEnd + 4)) := by
  have hlength := find_add_length_le ended
  have hsent : find blankLine (raw.take requestBytes) = some headerEnd := by
    rw [← List.take_append_drop requestBytes raw] at ended
    refine find_of_append ended ?_
    have hblank : blankLine.length = 4 := rfl
    rw [List.length_take]
    omega
  constructor
  · simp only [headLines, hsent, ended]
    rw [List.take_take, Nat.min_eq_left (by omega)]
  · simp only [bodyOf, hsent, List.drop_take]

end Sent

theorem startLine_parts (method : HttpMethod) {target : Bytes} (h : 32 ∉ target) :
    before 32 (httpMethodToString method ++ ascii " " ++ target ++ ascii " HTTP/1.1") =
        httpMethodToString method ∧
      secondPart (httpMethodToString method ++ ascii " " ++ target ++ ascii " HTTP/1.1") =
        target := by
  have hline : httpMethodToString method ++ ascii " " ++ target ++ ascii " HTTP/1.1" =
      httpMethodToString method ++ 32 :: (target ++ 32 :: ascii "HTTP/1.1") := by
    have hspace : ascii " " = [32] := rfl
    have hversion : ascii " HTTP/1.1" = 32 :: ascii "HTTP/1.1" := rfl
    rw [hspace, hversion]
    simp
  have hmethod : 32 ∉ httpMethodToString method := by cases method <;> decide
  rw [hline, secondPart, before_append hmethod, behind_append hmethod, before_append h]
  exact ⟨rfl, rfl⟩

theorem passedOn_ownFields {target : RouteTrie.ProxyTarget}
    (address : isIPv4Address target.host = true) (body : Bytes) :
    passedOn (ownFields (hostKeyFor target) body) = [] := by
  refine List.filter_eq_nil_iff.mpr fun field hfield => ?_
  have ⟨_, _, _, hhop⟩ := isField_ownFields address hfield
  simp [hhop]

theorem passedOn_idem (fields : List (Bytes × Bytes)) :
    passedOn (passedOn fields) = passedOn fields := by
  rw [passedOn, passedOn, List.filter_filter]
  simp

theorem read_upstreamRequest (order order' : IterationOrder Bytes Bytes) {raw : Bytes}
    {request : HttpRequest} {target : RouteTrie.ProxyTarget} (h : From raw request)
    (address : isIPv4Address target.host = true) :
    startLine (upstreamRequest order order' target request) = startText request ∧
      bodyOf (upstreamRequest order order' target request) = request.body ∧
      (passedOn (headerFields (upstreamRequest order order' target request))).Perm
        (passedOn (FirstWinsMap.firsts (headerFields raw))) := by
  have hlines := isLine_written order order' h address
  rw [upstreamRequest_eq]
  have ⟨hstart, hfields⟩ := startLine_headerFields
    (headLines_written (by simp) hlines request.body)
  refine ⟨hstart, bodyOf_written (by simp) hlines _, ?_⟩
  rw [hfields, fieldsOf_map_renderField fun field hfield =>
    (isLine_writtenFields order order' h address hfield).1]
  have hperm := (writtenFields_perm order order' target h).filter
    fun field => !isHopByHopHeader field.1
  rwa [List.filter_append, ← passedOn, ← passedOn, ← passedOn, passedOn_ownFields address,
    List.append_nil, passedOn_idem] at hperm

/-- A request the gateway accepts reaches the upstream with its method and its
body, its target but for the question mark of an empty query, and of the header lines
that are not filtered the first of each name. -/
theorem request_carried (parseOrder dispatchOrder order order' : IterationOrder Bytes Bytes)
    (conn : Connection) (parsed : ParsedRequestView) (requestBytes : Nat)
    (ok : tryParseRequest parseOrder conn.readBuffer = .ok (some parsed, requestBytes))
    (target : RouteTrie.ProxyTarget) (address : isIPv4Address target.host = true) :
    Carried (conn.readBuffer.take requestBytes)
      (upstreamRequest order order' target
        (makeRequest (dispatchOf dispatchOrder conn parsed))) := by
  obtain ⟨hmethod, headerEnd, hend, hinside, hbody⟩ := accepted_bytes ok
  obtain ⟨hheadLines, hsentBody⟩ := read_sent hend hinside
  obtain ⟨_, _, requested, hrequested, hsplit⟩ := tryParseRequest_ok ok
  obtain ⟨hstart, hmessageBody, hfields⟩ := read_upstreamRequest order order'
    (from_dispatched dispatchOrder ok) address
  have hsentStart : startLine (conn.readBuffer.take requestBytes) = startLine conn.readBuffer := by
    rw [startLine, startLine, hheadLines]
  obtain ⟨hpath, hquery, hview⟩ := parsed_in ok
  have htarget : buildUpstreamTarget parsed.path.text parsed.query.text =
      rejoined (secondPart (startLine conn.readBuffer)) := by
    have hbuild := buildUpstreamTarget_splitTarget requested
    rw [hsplit, hrequested] at hbuild
    exact hbuild
  have hstartText : startText (requestOf dispatchOrder conn.requestId parsed) =
      httpMethodToString parsed.method ++ ascii " " ++
        rejoined (secondPart (startLine conn.readBuffer)) ++ ascii " HTTP/1.1" := by
    rw [← htarget]
    rfl
  obtain ⟨hwrittenMethod, hwrittenTarget⟩ := startLine_parts parsed.method
    (space_not_mem_rejoined (startLine conn.readBuffer))
  rw [makeRequest_dispatchOf hpath hquery hview] at hstart hmessageBody hfields ⊢
  rw [hstartText] at hstart
  refine ⟨?_, ?_, ?_, ?_⟩
  · rw [hsentStart, hstart, hwrittenMethod, hmethod]
  · rw [hsentStart, hstart, hwrittenTarget]
  · rw [hmessageBody, hsentBody, ← hbody]
    rfl
  · rwa [headerFields.eq_1 (conn.readBuffer.take requestBytes), hheadLines, ← headerFields]

theorem request_carried_post :
    let conn : Connection := { Connection.fresh [] with
      readBuffer := ascii "POST /a?b HTTP/1.1\r\nTE: x\r\nKeep-Alive: 5\r\nContent-Length: 2\r\n\r\nhi" }
    ∃ parsed requestBytes,
      tryParseRequest default conn.readBuffer = .ok (some parsed, requestBytes) ∧
        Carried (conn.readBuffer.take requestBytes)
          (upstreamRequest default default ⟨ascii "10.0.0.1", 80⟩
            (makeRequest (dispatchOf default conn parsed))) := by
  refine ⟨_, _, rfl, ?_⟩
  exact request_carried default default default default _ _ _ rfl _ (by decide)

theorem transparent_iff {sent message : Bytes} (h : Carried sent message) :
    Transparent sent message ↔
      (behind 63 (secondPart (startLine sent)) ≠ [] ∨ 63 ∉ secondPart (startLine sent)) ∧
        ((passedOn (headerFields sent)).map Prod.fst).Nodup := by
  have hfirsts : passedOn (FirstWinsMap.firsts (headerFields sent)) =
      FirstWinsMap.firsts (passedOn (headerFields sent)) :=
    (FirstWinsMap.firsts_filter (fun name => !isHopByHopHeader name) _).symm
  have hfields := h.fields
  rw [hfirsts] at hfields
  constructor
  · intro transparent
    refine ⟨rejoined_eq_self_iff.mp (h.target.symm.trans transparent.target), ?_⟩
    have hsame := transparent.fields.symm.trans hfields
    have hnodup := (FirstWinsMap.ofList (passedOn (headerFields sent))).nodup
    rw [FirstWinsMap.entries_ofList] at hnodup
    exact (hsame.map Prod.fst).nodup_iff.mpr hnodup
  · rintro ⟨htarget, hnames⟩
    refine ⟨h.method, ?_, h.body, ?_⟩
    · rw [h.target, rejoined_eq_self_iff.mpr htarget]
    · rwa [FirstWinsMap.firsts_of_nodup hnames] at hfields

theorem question_mark_and_cookie_lost :
    let conn : Connection := { Connection.fresh [] with
      readBuffer := ascii "GET /a? HTTP/1.1\r\nCookie: a=1\r\nCookie: b=2\r\n\r\n" }
    ∃ parsed requestBytes,
      tryParseRequest default conn.readBuffer = .ok (some parsed, requestBytes) ∧
        secondPart (startLine (upstreamRequest default default ⟨ascii "10.0.0.1", 80⟩
          (makeRequest (dispatchOf default conn parsed)))) = ascii "/a" ∧
        (ascii "Cookie", ascii "b=2") ∉ headerFields (upstreamRequest default default
          ⟨ascii "10.0.0.1", 80⟩ (makeRequest (dispatchOf default conn parsed))) ∧
        ¬ Transparent (conn.readBuffer.take requestBytes)
          (upstreamRequest default default ⟨ascii "10.0.0.1", 80⟩
            (makeRequest (dispatchOf default conn parsed))) := by
  refine ⟨_, _, rfl, by decide, by decide, fun transparent => ?_⟩
  have hsame := transparent.target
  exact absurd hsame (by decide)

end ApiGateway.RequestTransparency
