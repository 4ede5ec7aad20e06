import ApiGateway.RequestReading
import ApiGateway.UpstreamClient

/-! The request `forward` sends to the upstream, and what a client can put into
its head. A line of the client ends at CRLF alone, so that a bare CR or LF
stays inside a target, a name or a value and is written out with it. -/

namespace ApiGateway.RequestForwarding
open ByteText HttpText CrlfLines MessageHeaders RequestParsing RequestReading UpstreamClient

def buildUpstreamTarget (path query : Bytes) : Bytes :=
  if query = [] then path else path ++ ascii "?" ++ query

def upstreamHeaders (order : IterationOrder Bytes Bytes) (headers : FirstWinsMap Bytes Bytes) :
    FirstWinsMap Bytes Bytes :=
  (FirstWinsMap.ofList ((headers.iterate order).filter fun e => !isHopByHopHeader e.1)).assign
    (ascii "Connection") (ascii "keep-alive")

/-- The write buffer of a client connected to the target. The two orders are
those of the request's headers and of the upstream headers. -/
def upstreamRequest (order order' : IterationOrder Bytes Bytes) (target : RouteTrie.ProxyTarget)
    (request : HttpRequest) : Bytes :=
  requestText order' request.method (buildUpstreamTarget request.path request.query)
    (hostKeyFor target) (upstreamHeaders order request.headers) request.body

def ownFields (remoteHostHeader body : Bytes) : List (Bytes × Bytes) :=
  (ascii "Connection", ascii "keep-alive") :: (ascii "Host", remoteHostHeader) ::
    if body = [] then [] else [(ascii "Content-Length", toDecimal body.length)]

/-- CR and LF stand in the head only in its line ends, and a reader that ends
lines at a bare LF sees no hop-by-hop field but the gateway's own. -/
structure Uninjected (message remoteHostHeader body : Bytes) : Prop where
  unbroken : ∃ written, message = joinLines written ++ crlf ++ body ∧
    ∀ line ∈ written, Unbroken line ∧ line ≠ []
  hopByHop : ((fieldsOf (lenientLines message).tail).filter fun field =>
    isHopByHopHeader field.1).Perm (ownFields remoteHostHeader body)

/-- No bare CR or LF in the target of a request, nor in the name or value of a
field that is passed on: one with the first line of its name. -/
structure Unbreakable (raw : Bytes) : Prop where
  target : Unbroken (secondPart (startLine raw))
  fields : ∀ field ∈ passedOn (FirstWinsMap.firsts (headerFields raw)),
    Unbroken field.1 ∧ Unbroken field.2

theorem upstreamHeaders_entries (order : IterationOrder Bytes Bytes)
    (headers : FirstWinsMap Bytes Bytes) :
    (upstreamHeaders order headers).entries =
      passedOn (headers.iterate order) ++ [(ascii "Connection", ascii "keep-alive")] := by
  have hnodup : ((passedOn (headers.iterate order)).map Prod.fst).Nodup :=
    (List.filter_sublist.map Prod.fst).nodup (headers.iterate_nodup order)
  have hentries : (FirstWinsMap.ofList (passedOn (headers.iterate order))).entries =
      passedOn (headers.iterate order) := by
    rw [FirstWinsMap.entries_ofList, FirstWinsMap.firsts_of_nodup hnodup]
  have hnew : ascii "Connection" ∉
      (FirstWinsMap.ofList (passedOn (headers.iterate order))).entries.map Prod.fst := by
    rw [hentries]
    intro hmem
    have ⟨e, he, hkey⟩ := List.mem_map.mp hmem
    have hpassed : (!isHopByHopHeader e.1) = true := (List.mem_filter.mp he).2
    rw [hkey] at hpassed
    exact absurd hpassed (by decide)
  rw [upstreamHeaders, ← passedOn, FirstWinsMap.assign, if_neg hnew,
    FirstWinsMap.emplace_entries_of_not_mem hnew, hentries]

/-- All fields of the upstream head. -/
def writtenFields (order order' : IterationOrder Bytes Bytes) (target : RouteTrie.ProxyTarget)
    (request : HttpRequest) : List (Bytes × Bytes) :=
  (upstreamHeaders order request.headers).iterate order' ++
    (ascii "Host", hostKeyFor target) ::
      if request.body = [] then [] else [(ascii "Content-Length", toDecimal request.body.length)]

def startText (request : HttpRequest) : Bytes :=
  httpMethodToString request.method ++ ascii " " ++
    buildUpstreamTarget request.path request.query ++ ascii " HTTP/1.1"

theorem any_upstreamHeaders (order order' : IterationOrder Bytes Bytes)
    (headers : FirstWinsMap Bytes Bytes) (name : Bytes)
    (hop : ∀ key, caseInsensitiveEquals key name = true → isHopByHopHeader key = true) :
    (((upstreamHeaders order headers).iterate order').any fun e => caseInsensitiveEquals e.1 name) =
      caseInsensitiveEquals (ascii "Connection") name := by
  rw [Bool.eq_iff_iff, List.any_eq_true]
  constructor
  · intro h
    have ⟨e, he, hname⟩ := h
    rw [FirstWinsMap.mem_iterate, upstreamHeaders_entries, List.mem_append,
      List.mem_singleton] at he
    cases he with
    | inl hpassed =>
        have hnot : (!isHopByHopHeader e.1) = true := (List.mem_filter.mp hpassed).2
        rw [hop e.1 hname] at hnot
        cases hnot
    | inr hconnection =>
        rw [hconnection] at hname
        exact hname
  · intro hname
    refine ⟨(ascii "Connection", ascii "keep-alive"), ?_, hname⟩
    rw [FirstWinsMap.mem_iterate, upstreamHeaders_entries]
    simp

theorem upstreamRequest_eq (order order' : IterationOrder Bytes Bytes)
    (target : RouteTrie.ProxyTarget) (request : HttpRequest) :
    upstreamRequest order order' target request =
      joinLines (startText request :: (writtenFields order order' target request).map renderField)
        ++ crlf ++ request.body := by
  have hhost : (((upstreamHeaders order request.headers).iterate order').any fun e =>
      caseInsensitiveEquals e.1 (ascii "host")) = false := by
    rw [any_upstreamHeaders order order' _ (ascii "host") fun key h => by simp [isHopByHopHeader, h]]
    decide
  have hlength : (((upstreamHeaders order request.headers).iterate order').any fun e =>
      caseInsensitiveEquals e.1 (ascii "content-length")) = false := by
    rw [any_upstreamHeaders order order' _ (ascii "content-length") fun key h => by
      simp [isHopByHopHeader, h]]
    decide
  have hconnection : (((upstreamHeaders order request.headers).iterate order').any fun e =>
      caseInsensitiveEquals e.1 (ascii "connection")) = true := by
    rw [any_upstreamHeaders order order' _ (ascii "connection") fun key h => by
      simp [isHopByHopHeader, h]]
    decide
  have hcrlf : ascii "\r\n" = crlf := rfl
  have hversion : ascii " HTTP/1.1\r\n" = ascii " HTTP/1.1" ++ crlf := rfl
  have hostLine : ascii "Host: " ++ hostKeyFor target ++ crlf =
      joinLines [renderField (ascii "Host", hostKeyFor target)] := by
    simp [joinLines, renderField, show ascii "Host: " = ascii "Host" ++ ascii ": " from rfl]
  have lengthLine : ascii "Content-Length: " ++ toDecimal request.body.length ++ crlf =
      joinLines [renderField (ascii "Content-Length", toDecimal request.body.length)] := by
    simp [joinLines, renderField,
      show ascii "Content-Length: " = ascii "Content-Length" ++ ascii ": " from rfl]
  rw [upstreamRequest, requestText]
  simp only [hhost, hlength, hconnection, Bool.false_eq_true, if_false, if_true, not_false_eq_true,
    and_true, hcrlf, hostLine, lengthLine]
  rw [← hcrlf, ← joinLines_map_renderField, hcrlf, hversion]
  by_cases hbody : request.body = []
  · simp [writtenFields, startText, hbody, joinLines]
  · simp [writtenFields, startText, hbody, joinLines]

structure From (raw : Bytes) (request : HttpRequest) : Prop where
  read : headLines raw ≠ []
  target : buildUpstreamTarget request.path request.query = secondPart (startLine raw) ∨
    buildUpstreamTarget request.path request.query ++ [63] = secondPart (startLine raw)
  headers : request.headers.entries.Perm (FirstWinsMap.firsts (headerFields raw))

theorem splitTarget_text (target : View) :
    (splitTarget target).1.text = before 63 target.text ∧
      (splitTarget target).2.text = behind 63 target.text := by
  unfold splitTarget
  split
  · next hnone =>
    have hquery := find_byte_eq_none.mp hnone
    rw [before_of_not_mem hquery, behind_of_not_mem hquery]
    exact ⟨rfl, rfl⟩
  · next queryPos hquery =>
    rw [← take_of_find hquery, ← drop_of_find hquery]
    exact ⟨rfl, rfl⟩

theorem buildUpstreamTarget_splitTarget (target : View) :
    buildUpstreamTarget (splitTarget target).1.text (splitTarget target).2.text =
      if behind 63 target.text = [] then before 63 target.text else target.text := by
  rw [(splitTarget_text target).1, (splitTarget_text target).2]
  unfold buildUpstreamTarget
  split_ifs with hempty
  · rfl
  · have hquery : 63 ∈ target.text := by
      by_contra hnone
      exact hempty (behind_of_not_mem hnone)
    rw [show ascii "?" = [63] from rfl, List.append_assoc, List.singleton_append]
    exact (before_behind hquery).symm

theorem from_dispatched {order : IterationOrder Bytes Bytes} (order' : IterationOrder Bytes Bytes)
    {conn : Connection}
    {parsed : ParsedRequestView} {requestBytes : Nat}
    (ok : tryParseRequest order conn.readBuffer = .ok (some parsed, requestBytes)) :
    From conn.readBuffer (makeRequest (dispatchOf order' conn parsed)) := by
  have ⟨hpath, hquery, hbody⟩ := parsed_in ok
  have ⟨hheaders, hread, target, htarget, hsplit⟩ := tryParseRequest_ok ok
  rw [makeRequest_dispatchOf hpath hquery hbody]
  refine ⟨hread, ?_, ?_⟩
  · have hbuild := buildUpstreamTarget_splitTarget target
    rw [hsplit, htarget] at hbuild
    change buildUpstreamTarget parsed.path.text parsed.query.text = _ ∨
      buildUpstreamTarget parsed.path.text parsed.query.text ++ [63] = _
    rw [hbuild]
    split_ifs with hempty
    · by_cases hquery : 63 ∈ secondPart (startLine conn.readBuffer)
      · have hwhole := before_behind hquery
        rw [hempty] at hwhole
        exact .inr hwhole.symm
      · exact .inl (before_of_not_mem hquery)
    · exact .inl rfl
  · have hentries : (requestOf order' conn.requestId parsed).headers.entries =
        parsed.headers.iterate order' := by
      rw [requestOf, FirstWinsMap.entries_ofList,
        FirstWinsMap.firsts_of_nodup (parsed.headers.iterate_nodup order')]
    rw [hentries, ← FirstWinsMap.entries_ofList, ← hheaders]
    exact FirstWinsMap.iterate_perm order' parsed.headers

section Written

variable {raw : Bytes} {request : HttpRequest} {target : RouteTrie.ProxyTarget}

theorem writtenFields_perm (order order' : IterationOrder Bytes Bytes)
    (target : RouteTrie.ProxyTarget) (h : From raw request) :
    (writtenFields order order' target request).Perm
      (passedOn (FirstWinsMap.firsts (headerFields raw)) ++
        ownFields (hostKeyFor target) request.body) := by
  have hpassed : (passedOn (request.headers.iterate order)).Perm
      (passedOn (FirstWinsMap.firsts (headerFields raw))) :=
    ((FirstWinsMap.iterate_perm order request.headers).trans h.headers).filter _
  have hupstream := FirstWinsMap.iterate_perm order' (upstreamHeaders order request.headers)
  rw [upstreamHeaders_entries] at hupstream
  have hall := (hupstream.trans (hpassed.append_right _)).append_right
    ((ascii "Host", hostKeyFor target) ::
      if request.body = [] then [] else [(ascii "Content-Length", toDecimal request.body.length)])
  rw [List.append_assoc] at hall
  exact hall

theorem unbroken_hostKeyFor (address : isIPv4Address target.host = true) :
    Unbroken (hostKeyFor target) ∧ trimView (hostKeyFor target) = hostKeyFor target := by
  have hbytes : ∀ b ∈ hostKeyFor target, b = 46 ∨ b = 58 ∨ isdigit b = true := by
    intro b hb
    rw [hostKeyFor, List.mem_append, List.mem_append, show ascii ":" = [58] from rfl,
      List.mem_singleton] at hb
    rcases hb with (hb | hb) | hb
    · cases mem_of_isIPv4Address address hb with
      | inl hdot => exact .inl hdot
      | inr hdigit => exact .inr (.inr hdigit)
    · exact .inr (.inl hb)
    · exact .inr (.inr (isdigit_of_mem_toDecimal hb))
  have hspace : ∀ b ∈ hostKeyFor target, isspace b = false := by
    intro b hb
    rcases hbytes b hb with hdot | hcolon | hdigit
    · rw [hdot]
      rfl
    · rw [hcolon]
      rfl
    · exact isspace_of_isdigit hdigit
  refine ⟨⟨fun hcr => ?_, fun hlf => ?_⟩, trimView_of_not_space hspace⟩
  · exact absurd (hspace 13 hcr) (by decide)
  · exact absurd (hspace 10 hlf) (by decide)

theorem isField_ownFields (address : isIPv4Address target.host = true) {body : Bytes}
    {field : Bytes × Bytes} (h : field ∈ ownFields (hostKeyFor target) body) :
    IsField field ∧ Unbroken field.1 ∧ Unbroken field.2 ∧ isHopByHopHeader field.1 = true := by
  have hnamed : ∀ name value : Bytes, name ≠ [] ∧ 58 ∉ name ∧ trimView name = name ∧
      Unbroken name ∧ isHopByHopHeader name = true → trimView value = value → Unbroken value →
      IsField (name, value) ∧ Unbroken name ∧ Unbroken value ∧ isHopByHopHeader name = true := by
    intro name value hname htrim hvalue
    have ⟨hne, hcolon, htrimmed, hunbroken, hhop⟩ := hname
    exact ⟨⟨hne, hcolon, htrimmed, htrim⟩, hunbroken, hvalue, hhop⟩
  have ⟨hhost, htrim⟩ := unbroken_hostKeyFor address
  rw [ownFields, List.mem_cons, List.mem_cons] at h
  rcases h with h | h | h
  · rw [h]
    exact hnamed _ _ (by decide) (by decide) (by decide)
  · rw [h]
    exact hnamed _ _ (by decide) htrim hhost
  · split_ifs at h
    · simp at h
    · rw [List.mem_singleton.mp h]
      exact hnamed _ _ (by decide) (trimView_toDecimal _)
        ⟨not_mem_toDecimal (by decide) _, not_mem_toDecimal (by decide) _⟩

theorem startLine_mem (h : headLines raw ≠ []) : startLine raw ∈ headLines raw := by
  cases hlines : headLines raw with
  | nil => exact absurd hlines h
  | cons line rest => simp [startLine, hlines]

theorem isLine_startText (h : From raw request) :
    IsLine (startText request) ∧ startText request ≠ [] := by
  have hbuild : buildUpstreamTarget request.path request.query <:+: startLine raw := by
    have hsecond : secondPart (startLine raw) <:+: startLine raw :=
      (before_inside 32 _).trans (behind_inside 32 _)
    cases h.target with
    | inl hsame => rwa [hsame]
    | inr hshort =>
        rw [← hshort] at hsecond
        exact (List.prefix_append _ _).isInfix.trans hsecond
  have hcrlf : ¬ crlf <:+: buildUpstreamTarget request.path request.query ++ ascii " HTTP/1.1" := by
    intro hin
    rcases crlf_infix_append hin with hin | hin | ⟨-, hhead⟩
    · exact noCrlf_of_mem_headLines (startLine_mem h.read) (hin.trans hbuild)
    · exact absurd hin (by decide)
    · exact absurd hhead (by decide)
  have hmethod : 13 ∉ httpMethodToString request.method ++ ascii " " := by
    cases request.method <;> decide
  refine ⟨⟨?_, ?_⟩, by simp [startText, show ascii " " = [32] from rfl]⟩
  · rw [startText, List.append_assoc]
    exact noCrlf_append hmethod hcrlf
  · rw [startText, List.getLast?_append_of_ne_nil _ (by decide)]
    decide

theorem isLine_writtenFields (order order' : IterationOrder Bytes Bytes) (h : From raw request)
    (address : isIPv4Address target.host = true) {field : Bytes × Bytes}
    (hfield : field ∈ writtenFields order order' target request) :
    IsField field ∧ IsLine (renderField field) ∧ renderField field ≠ [] := by
  rw [(writtenFields_perm order order' target h).mem_iff, List.mem_append] at hfield
  cases hfield with
  | inl hpassed =>
      have ⟨hisField, hname, hvalue⟩ :=
        mem_headerFields (FirstWinsMap.mem_of_mem_firsts (List.mem_of_mem_filter hpassed))
      exact ⟨hisField, isLine_renderField hisField hname hvalue⟩
  | inr hown =>
      have ⟨hisField, hname, hvalue, _⟩ := isField_ownFields address hown
      exact ⟨hisField, isLine_renderField hisField (noCrlf_of_noCr hname.1)
        (noCrlf_of_noCr hvalue.1)⟩

theorem isLine_written (order order' : IterationOrder Bytes Bytes) (h : From raw request)
    (address : isIPv4Address target.host = true) :
    ∀ line ∈ startText request :: (writtenFields order order' target request).map renderField,
      IsLine line ∧ line ≠ [] := by
  intro line hline
  cases List.mem_cons.mp hline with
  | inl hstart =>
      rw [hstart]
      exact isLine_startText h
  | inr hrest =>
      have ⟨field, hfield, hrender⟩ := List.mem_map.mp hrest
      rw [← hrender]
      exact (isLine_writtenFields order order' h address hfield).2

theorem unbroken_startText (h : From raw request) :
    Unbroken (startText request) ↔ Unbroken (secondPart (startLine raw)) := by
  have hmethod : Unbroken (httpMethodToString request.method ++ ascii " ") := by
    cases request.method <;> decide
  have hversion : Unbroken (ascii " HTTP/1.1") := by decide
  have hmark : Unbroken [63] := by decide
  have hstart : Unbroken (startText request) ↔
      Unbroken (buildUpstreamTarget request.path request.query) := by
    rw [startText, unbroken_append, unbroken_append, and_iff_left hversion, and_iff_right hmethod]
  rw [hstart]
  cases h.target with
  | inl hsame => rw [hsame]
  | inr hshort => rw [← hshort, unbroken_append, and_iff_left hmark]

theorem unbroken_renderField {field : Bytes × Bytes} :
    Unbroken (renderField field) ↔ Unbroken field.1 ∧ Unbroken field.2 := by
  have hcolon : Unbroken (ascii ": ") := by decide
  simp only [renderField, unbroken_append, hcolon, and_true]

theorem unbroken_written (order order' : IterationOrder Bytes Bytes) (h : From raw request)
    (address : isIPv4Address target.host = true) :
    (∀ line ∈ startText request :: (writtenFields order order' target request).map renderField,
      Unbroken line) ↔ Unbreakable raw := by
  rw [List.forall_mem_cons, unbroken_startText h, List.forall_mem_map]
  simp only [unbroken_renderField, (writtenFields_perm order order' target h).mem_iff, List.mem_append]
  constructor
  · intro hall
    exact ⟨hall.1, fun field hfield => hall.2 field (.inl hfield)⟩
  · intro hraw
    refine ⟨hraw.target, fun field hfield => ?_⟩
    cases hfield with
    | inl hpassed => exact hraw.fields field hpassed
    | inr hown =>
        have ⟨_, hname, hvalue, _⟩ := isField_ownFields address hown
        exact ⟨hname, hvalue⟩

theorem uninjected_of_unbreakable (order order' : IterationOrder Bytes Bytes) (h : From raw request)
    (address : isIPv4Address target.host = true) (unbreakable : Unbreakable raw) :
    Uninjected (upstreamRequest order order' target request) (hostKeyFor target) request.body := by
  have hlines := isLine_written order order' h address
  have hunbroken := (unbroken_written order order' h address).mpr unbreakable
  have hclean : ∀ line ∈ startText request ::
      (writtenFields order order' target request).map renderField, Unbroken line ∧ line ≠ [] :=
    fun line hline => ⟨hunbroken line hline, (hlines line hline).2⟩
  refine ⟨⟨_, upstreamRequest_eq order order' target request, hclean⟩, ?_⟩
  have hown : (ownFields (hostKeyFor target) request.body).filter
      (fun field => isHopByHopHeader field.1) = ownFields (hostKeyFor target) request.body := by
    apply List.filter_eq_self.mpr
    intro field hfield
    have ⟨_, _, _, hhop⟩ := isField_ownFields address hfield
    exact hhop
  have hpassed : (passedOn (FirstWinsMap.firsts (headerFields raw))).filter
      (fun field => isHopByHopHeader field.1) = [] := by
    apply List.filter_eq_nil_iff.mpr
    intro field hfield
    simpa using (List.mem_filter.mp hfield).2
  have hperm := (writtenFields_perm order order' target h).filter
    fun field => isHopByHopHeader field.1
  rw [List.filter_append, hpassed, hown, List.nil_append] at hperm
  rw [upstreamRequest_eq, lenientLines_written hclean, List.tail_cons, fieldsOf_map_renderField
    fun field hfield => (isLine_writtenFields order order' h address hfield).1]
  exact hperm

theorem unbreakable_of_uninjected (order order' : IterationOrder Bytes Bytes) (h : From raw request)
    (address : isIPv4Address target.host = true)
    (uninjected : Uninjected (upstreamRequest order order' target request) (hostKeyFor target)
      request.body) : Unbreakable raw := by
  have hlines := isLine_written order order' h address
  have ⟨written, hwritten, hclean⟩ := uninjected.unbroken
  rw [upstreamRequest_eq] at hwritten
  have hne : written ≠ [] := by
    intro hnil
    have hstart := isLine_startText h
    rw [hnil, joinLines_cons, List.append_assoc, List.append_assoc] at hwritten
    exact crlf_not_at hstart.1 hstart.2 _ ⟨request.body, hwritten.symm⟩
  have hsame := head_unique (by simp) hne hlines
    (fun line hline => ⟨(hclean line hline).1.isLine, (hclean line hline).2⟩) hwritten
  refine (unbroken_written order order' h address).mp fun line hline => ?_
  rw [hsame] at hline
  exact (hclean line hline).1

end Written

/-- A request that the gateway accepts is sent on without injected lines exactly
when its target and the fields passed on hold no bare CR or LF. An address that
`connect` takes has none. -/
theorem uninjected_iff (parseOrder dispatchOrder order order' : IterationOrder Bytes Bytes)
    (conn : Connection) (parsed : ParsedRequestView) (requestBytes : Nat)
    (ok : tryParseRequest parseOrder conn.readBuffer = .ok (some parsed, requestBytes))
    (target : RouteTrie.ProxyTarget) (address : isIPv4Address target.host = true) :
    Uninjected
        (upstreamRequest order order' target (makeRequest (dispatchOf dispatchOrder conn parsed)))
        (hostKeyFor target) (makeRequest (dispatchOf dispatchOrder conn parsed)).body ↔
      Unbreakable conn.readBuffer := by
  have hfrom := from_dispatched dispatchOrder ok
  constructor
  · exact unbreakable_of_uninjected order order' hfrom address
  · exact uninjected_of_unbreakable order order' hfrom address

theorem uninjected_get :
    let conn : Connection := { Connection.fresh [] with
      readBuffer := ascii "GET /a?b HTTP/1.1\r\nHost: x\r\nTransfer-Encoding: y\r\nX: 1\r\n\r\n" }
    ∃ parsed requestBytes,
      tryParseRequest default conn.readBuffer = .ok (some parsed, requestBytes) ∧
        Uninjected (upstreamRequest default default ⟨ascii "10.0.0.1", 80⟩
          (makeRequest (dispatchOf default conn parsed))) (hostKeyFor ⟨ascii "10.0.0.1", 80⟩)
          (makeRequest (dispatchOf default conn parsed)).body := by
  refine ⟨_, _, rfl, ?_⟩
  exact (uninjected_iff default default default default _ _ _ rfl _ (by decide)).mpr
    ⟨by decide, by decide⟩

theorem bare_newline_injects :
    let conn : Connection := { Connection.fresh [] with
      readBuffer := ascii "GET / HTTP/1.1\r\nX: a\nTransfer-Encoding: chunked\r\n\r\n" }
    ∃ parsed requestBytes,
      tryParseRequest default conn.readBuffer = .ok (some parsed, requestBytes) ∧
        (ascii "Transfer-Encoding", ascii "chunked") ∈
          fieldsOf (lenientLines (upstreamRequest default default ⟨ascii "10.0.0.1", 80⟩
            (makeRequest (dispatchOf default conn parsed)))).tail ∧
        ¬ Uninjected (upstreamRequest default default ⟨ascii "10.0.0.1", 80⟩
          (makeRequest (dispatchOf default conn parsed))) (hostKeyFor ⟨ascii "10.0.0.1", 80⟩)
          (makeRequest (dispatchOf default conn parsed)).body := by
  refine ⟨_, _, rfl, by decide, fun uninjected => ?_⟩
  have hseen := (uninjected.hopByHop.mem_iff
    (a := (ascii "Transfer-Encoding", ascii "chunked"))).mp (by decide)
  exact absurd hseen (by decide)

end ApiGateway.RequestForwarding
