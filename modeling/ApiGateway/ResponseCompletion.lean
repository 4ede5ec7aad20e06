import ApiGateway.ResponseFraming
import ApiGateway.UpstreamReads

/-! When `HttpClient::receive` reports a response, over all the ways in which the
upstream's bytes can be cut into reads, against the rule for where a response ends. -/

namespace ApiGateway.ResponseCompletion
open ByteText HttpText CrlfLines MessageHeaders ResponseParsing ResponseFraming UpstreamClient
open UpstreamReads
open RequestFraming (IsContentLength IsDigits frontOrder find?_frontOrder)

/-- What is complete is the final response, and the final response is complete, except
that one in chunks may be given up. -/
structure Reports (method : HttpMethod) (stream : Bytes) (closed : Bool) (client : HttpClient) :
    Prop where
  sound : client.state = .Complete →
    received method stream closed = some (client.response.statusCode, client.response.body)
  complete : received method stream closed ≠ none → client.state = .Complete ∨
    (finalMessage stream).map (framingOf method) = some .chunked ∧ client.state = .Failed

def CompletesExactly (method : HttpMethod) (stream : Bytes) : Prop :=
  ∀ order client results, Asked order method client → Delivers stream results →
    Reports method (receivedBytes results) (decide (.closed ∈ results))
      (client.receive order results)

/-- In some order the headers give this length. -/
def Announces (fields : List (Bytes × Bytes)) (length : Nat) : Prop :=
  (∃ field ∈ FirstWinsMap.firsts fields, IsContentLength field ∧ IsDigits field.2 ∧
    digitsValue field.2 = length ∧ length ≤ kMaxBodySize) ∨
  (∀ field ∈ fields, ¬ IsContentLength field) ∧ length = 0

/-- In some order and by some reads the parser gets a response of this length. -/
structure Answers (stream : Bytes) (headerEnd length : Nat) : Prop where
  ended : find blankLine stream = some headerEnd
  head : IsHead stream
  announced : Announces (headerFields stream) length
  headFits : headerEnd + 4 ≤ kMaxHeaderSectionLength + kReadChunkSize
  arrived : headerEnd + 4 + length ≤ stream.length
  fits : headerEnd + 4 + length ≤ kMaxResponseSize

/-- The first head is that of the final response, which has no body or a length, and
every order gives that length; and whichever reads bring it, the limits are kept. -/
structure PlainlyFramed (method : HttpMethod) (stream : Bytes) (headerEnd length : Nat) :
    Prop where
  ended : find blankLine stream = some headerEnd
  head : IsHead stream
  final : ¬ IsInterim (statusOf stream)
  framed : framingOf method stream = .bodiless ∧ length = 0 ∧
      (∀ field ∈ FirstWinsMap.firsts (headerFields stream), IsContentLength field →
        IsDigits field.2 ∧ digitsValue field.2 = 0) ∨
    framingOf method stream = .length length ∧ length ≤ kMaxBodySize
  headFits : headerEnd + 4 ≤ kMaxHeaderSectionLength + 1
  fits : min stream.length (headerEnd + 4 + length - 1 + kReadChunkSize) ≤ kMaxResponseSize

/-- After this many bytes, however they are read, the client has failed. -/
def GivenUp (stream : Bytes) (n : Nat) : Prop :=
  kMaxResponseSize < n ∨ ∀ headerEnd, find blankLine stream = some headerEnd →
    kMaxHeaderSectionLength + kReadChunkSize < headerEnd + 4 ∨
      ∀ length, ¬ Announces (headerFields stream) length

/-- The parser never gets a response, and there is none, or one in chunks that the client
has given up by then. -/
structure Unanswered (method : HttpMethod) (stream : Bytes) : Prop where
  unanswered : ¬ ∃ headerEnd length, Answers stream headerEnd length
  opened : ∀ n ≤ stream.length, received method (stream.take n) false ≠ none →
    (finalMessage (stream.take n)).map (framingOf method) = some .chunked ∧ GivenUp stream n
  closed : received method stream true ≠ none →
    (finalMessage stream).map (framingOf method) = some .chunked

theorem contentLengthOf_front {fields : List (Bytes × Bytes)} {field : Bytes × Bytes}
    (h : field ∈ FirstWinsMap.firsts fields) (name : IsContentLength field) (length : Nat) :
    contentLengthOf (frontOrder field) (.ofList fields) = .ok length ↔
      IsDigits field.2 ∧ digitsValue field.2 = length ∧ length ≤ kMaxBodySize :=
  contentLengthOf_found (find?_frontOrder h name) length

theorem announces_iff {fields : List (Bytes × Bytes)} {length : Nat} :
    Announces fields length ↔ ∃ order, contentLengthOf order (.ofList fields) = .ok length := by
  constructor
  · rintro (⟨field, hfield, hname, hdigits, hvalue, hlarge⟩ | ⟨hnone, hzero⟩)
    · exact ⟨frontOrder field, (contentLengthOf_front hfield hname length).mpr
        ⟨hdigits, hvalue, hlarge⟩⟩
    · rcases contentLengthOf_cases default fields with ⟨field, hfield, hname, _⟩ | ⟨_, hlength⟩
      · exact absurd hname (hnone field (FirstWinsMap.mem_of_mem_firsts hfield))
      · exact ⟨default, hzero ▸ hlength⟩
  · rintro ⟨order, hlength⟩
    rcases contentLengthOf_cases order fields with ⟨field, hfield, hname, hiff⟩ | ⟨hnone, hzero⟩
    · have ⟨hdigits, hvalue, hlarge⟩ := (hiff length).mp hlength
      exact .inl ⟨field, hfield, hname, hdigits, hvalue, hlarge⟩
    · rw [hzero] at hlength
      cases hlength
      refine .inr ⟨fun field hfield hname => ?_, rfl⟩
      rw [IsContentLength, hnone field hfield] at hname
      cases hname

theorem framing_length {method : HttpMethod} {message : Bytes} {length : Nat}
    (framed : framingOf method message = .length length) :
    (∃ field ∈ headerFields message, IsContentLength field) ∧
      ∀ field ∈ headerFields message, IsContentLength field →
        IsDigits field.2 ∧ digitsValue field.2 = length := by
  unfold framingOf framing at framed
  split_ifs at framed
  split at framed
  · cases framed
  · next first rest hlines =>
    have hmem : ∀ field, field ∈ first :: rest ↔
        field ∈ headerFields message ∧ IsContentLength field := by
      intro field
      rw [← hlines, List.mem_filter, decide_eq_true_eq]
    split_ifs at framed with hagree
    cases framed
    have ⟨hfirst, hname⟩ := (hmem first).mp (by simp)
    exact ⟨⟨first, hfirst, hname⟩, fun field hfield hname' =>
      hagree field ((hmem field).mpr ⟨hfield, hname'⟩)⟩

theorem PlainlyFramed.announced {method : HttpMethod} {stream : Bytes} {headerEnd length : Nat}
    (plain : PlainlyFramed method stream headerEnd length) (order : IterationOrder Bytes Bytes) :
    contentLengthOf order (.ofList (headerFields stream)) = .ok length := by
  rcases contentLengthOf_cases order (headerFields stream) with
    ⟨field, hfield, hname, hiff⟩ | ⟨hnone, hzero⟩
  · rw [hiff]
    rcases plain.framed with ⟨_, hlength, hvalues⟩ | ⟨hframing, hlarge⟩
    · have ⟨hdigits, hvalue⟩ := hvalues field hfield hname
      exact ⟨hdigits, hvalue.trans hlength.symm, by omega⟩
    · have ⟨hdigits, hvalue⟩ :=
        (framing_length hframing).2 field (FirstWinsMap.mem_of_mem_firsts hfield) hname
      exact ⟨hdigits, hvalue, hlarge⟩
  · rw [hzero]
    rcases plain.framed with ⟨_, hlength, _⟩ | ⟨hframing, _⟩
    · rw [hlength]
    · have ⟨field, hfield, hname⟩ := (framing_length hframing).1
      rw [IsContentLength, hnone field hfield] at hname
      cases hname

def responseOf (stream : Bytes) (length : Nat) : HttpClientResponse :=
  ⟨statusOf stream, trimView (thirdPart (startLine stream)), .ofList (headerFields stream),
    (bodyOf stream).take length⟩

section Parsing

variable {order : IterationOrder Bytes Bytes} {method : HttpMethod} {client : HttpClient}
  {stream : Bytes} {headerEnd length n : Nat} (ended : find blankLine stream = some headerEnd)
include ended

theorem parse_unended (order : IterationOrder Bytes Bytes) (h : n < headerEnd + 4)
    (short : n ≤ kMaxHeaderSectionLength) :
    tryParseResponse order (stream.take n) = .ok none := by
  have hlength : ¬ (stream.take n).length > kMaxHeaderSectionLength := by
    rw [List.length_take]
    omega
  simp only [tryParseResponse, beginning_unended ended h, if_neg hlength]

theorem parse_beginning_eq (head : IsHead stream)
    (announced : contentLengthOf order (.ofList (headerFields stream)) = .ok length)
    (h : headerEnd + 4 ≤ n) (arrived : n ≤ stream.length) :
    tryParseResponse order (stream.take n) =
      .ok (if n < headerEnd + 4 + length then none else some (responseOf stream length)) := by
  obtain ⟨hstart, hfields, hstatus, hhead, _⟩ := same_head (beginning_head ended h)
  have hbody := beginning_body ended h
  have hlength : (bodyOf (stream.take n)).length = n - (headerEnd + 4) := by
    rw [hbody, List.length_take, bodyOf_length ended]
    omega
  have hannounced : contentLengthOf order (.ofList (headerFields (stream.take n))) =
      .ok length := by
    rw [hfields]
    exact announced
  refine (tryParseResponse_ok_iff (beginning_ended ended h)).mpr
    ⟨hhead.mpr head, length, hannounced, ?_⟩
  by_cases hshort : n < headerEnd + 4 + length
  · rw [if_pos hshort, if_pos (by omega)]
  · rw [if_neg hshort, if_neg (by omega), responseOf, hstatus, hstart, hfields, hbody,
      List.take_take, Nat.min_eq_left (by omega)]

theorem parse_beginning (head : IsHead stream)
    (announced : contentLengthOf order (.ofList (headerFields stream)) = .ok length)
    (h : headerEnd + 4 ≤ n) (arrived : n ≤ stream.length) :
    (n < headerEnd + 4 + length → tryParseResponse order (stream.take n) = .ok none) ∧
    (headerEnd + 4 + length ≤ n → ∃ response, tryParseResponse order (stream.take n) =
      .ok (some response) ∧ response.statusCode = statusOf stream ∧
        response.body = (bodyOf stream).take length) := by
  have hparse := parse_beginning_eq ended head announced h arrived
  constructor
  · intro hshort
    rw [hparse, if_pos hshort]
  · intro hfull
    refine ⟨responseOf stream length, ?_, rfl, rfl⟩
    rw [hparse, if_neg (by omega)]

theorem announced_of_parsed {result : Option HttpClientResponse} (h : headerEnd + 4 ≤ n)
    (ok : tryParseResponse order (stream.take n) = .ok result) :
    IsHead stream ∧ ∃ length,
      contentLengthOf order (.ofList (headerFields stream)) = .ok length := by
  obtain ⟨_, hfields, _, hhead, _⟩ := same_head (beginning_head ended h)
  have ⟨hhead', length, hlength, _⟩ := (tryParseResponse_ok_iff (beginning_ended ended h)).mp ok
  exact ⟨hhead.mp hhead', length, hfields ▸ hlength⟩

theorem reaches_unended (asked : Asked order method client) (h : n < headerEnd + 4)
    (short : n ≤ kMaxHeaderSectionLength) (arrived : n ≤ stream.length) :
    Reaches order client stream n := by
  have hmax : kMaxHeaderSectionLength ≤ kMaxResponseSize := by decide
  refine (reaches_zero asked).walk asked (Nat.zero_le n) arrived (by omega) fun k _ hk => ?_
  exact parse_unended ended order (by omega) (by omega)

theorem reaches_pending (asked : Asked order method client) (head : IsHead stream)
    (announced : contentLengthOf order (.ofList (headerFields stream)) = .ok length)
    (headFits : headerEnd + 4 ≤ kMaxHeaderSectionLength + kReadChunkSize)
    (pending : n < headerEnd + 4 + length)
    (place : n < headerEnd + 4 → n ≤ kMaxHeaderSectionLength)
    (arrived : n ≤ stream.length) (size : n ≤ kMaxResponseSize) :
    Reaches order client stream n := by
  have hmax : kMaxHeaderSectionLength + kReadChunkSize ≤ kMaxResponseSize := by decide
  have hincomplete : ∀ k, headerEnd + 4 ≤ k → k ≤ n →
      tryParseResponse order (stream.take k) = .ok none := by
    intro k hk hkn
    exact (parse_beginning ended head announced hk (by omega)).1 (by omega)
  by_cases hplace : n < headerEnd + 4
  · exact reaches_unended ended asked hplace (place hplace) arrived
  · -- the blank line comes with one read
    have hbefore : Reaches order client stream (min (headerEnd + 3) kMaxHeaderSectionLength) :=
      reaches_unended ended asked (by omega) (by omega) (by omega)
    have hchunk : 1 ≤ kReadChunkSize := by decide
    have hended : Reaches order client stream (headerEnd + 4) :=
      hbefore.step asked (by omega) (by omega) (by omega) (by omega)
        (hincomplete (headerEnd + 4) le_rfl (by omega))
    exact hended.walk asked (by omega) arrived size fun k hk hkn => hincomplete k (by omega) hkn

end Parsing

theorem received_not_interim {method : HttpMethod} {stream body : Bytes} {closed : Bool}
    {statusCode : Nat} (h : received method stream closed = some (statusCode, body)) :
    ¬ IsInterim statusCode := by
  rw [received] at h
  obtain ⟨message, hmessage, hbody⟩ := Option.bind_eq_some_iff.mp h
  obtain ⟨_, _, hsame⟩ := Option.map_eq_some_iff.mp hbody
  cases hsame
  exact finalMessage_not_interim hmessage

theorem framing_of_whole {framing : Framing} {behindHead : Bytes}
    (whole : framing.body behindHead false = some behindHead) :
    framing = .bodiless ∧ behindHead = [] ∨ framing = .length behindHead.length := by
  cases framing with
  | bodiless =>
      cases whole
      exact .inl ⟨rfl, rfl⟩
  | chunked =>
      have hlength := dechunk_length whole
      omega
  | length count =>
      simp only [Framing.body] at whole
      split_ifs at whole with hshort
      have hlength := congrArg List.length (Option.some.inj whole)
      rw [List.length_take] at hlength
      refine .inr ?_
      rw [show count = behindHead.length by omega]
  | untilClose => cases whole
  | invalid => cases whole

section Answering

variable {order : IterationOrder Bytes Bytes} {method : HttpMethod} {client : HttpClient}
  {stream : Bytes} {results : List RecvResult} {headerEnd length n q m : Nat}

theorem CompletesExactly.reports (completes : CompletesExactly method stream)
    (asked : Asked order method client) (brings : Brings stream results n) :
    Reports method (stream.take n) false (client.receive order results) := by
  have hreports := completes order client results asked brings.delivers
  rwa [brings.bytes, decide_eq_false brings.opened.1] at hreports

theorem CompletesExactly.failed (completes : CompletesExactly method stream)
    (asked : Asked order method client) (reaches : Reaches order client stream n)
    (later : n < q) (arrived : q ≤ m) (whole : m ≤ stream.length) (short : q ≤ n + kReadChunkSize)
    (failed : (client.onReceived order (stream.take q)).state = .Failed)
    (owed : received method (stream.take m) false ≠ none) :
    (finalMessage (stream.take m)).map (framingOf method) = some .chunked := by
  have ⟨results, hbrings, hreceive⟩ := reaches.read asked later (by omega) short
  have ⟨more, hmore⟩ := hbrings.extend arrived whole
  have hreports := completes.reports asked hmore
  rw [receive_append, hreceive, receive_of_not_receiving order (by simp [failed])] at hreports
  rcases hreports.complete owed with hcomplete | ⟨hchunked, _⟩
  · rw [failed] at hcomplete
    cases hcomplete
  · exact hchunked

theorem Answers.received_eq (answers : Answers stream headerEnd length)
    (completes : CompletesExactly method stream)
    (announced : contentLengthOf order (.ofList (headerFields stream)) = .ok length)
    (asked : Asked order method client) :
    received method (stream.take (headerEnd + 4 + length)) false =
      some (statusOf stream, (bodyOf stream).take length) := by
  have hchunk : 1 ≤ kReadChunkSize := by decide
  have hfits := answers.headFits
  have hreaches : ∃ n, Reaches order client stream n ∧ n < headerEnd + 4 + length ∧
      headerEnd + 4 + length ≤ n + kReadChunkSize := by
    by_cases hlength : length = 0
    · refine ⟨min (headerEnd + 3) kMaxHeaderSectionLength, ?_, by omega, by omega⟩
      have harrived := answers.arrived
      exact reaches_unended answers.ended asked (by omega) (by omega) (by omega)
    · have harrived := answers.arrived
      have hsize := answers.fits
      refine ⟨headerEnd + 4 + length - 1, ?_, by omega, by omega⟩
      exact reaches_pending answers.ended asked answers.head announced hfits (by omega) (by omega)
        (by omega) (by omega)
  have ⟨n, hn, hlater, hshort⟩ := hreaches
  have ⟨results, hbrings, hreceive⟩ := hn.read asked hlater answers.arrived hshort
  have hreports := completes.reports asked hbrings
  have ⟨response, hparse, hstatus, hbody⟩ := (parse_beginning answers.ended answers.head announced
    (by omega) answers.arrived).2 le_rfl
  have hlength : ¬ (stream.take (headerEnd + 4 + length)).length > kMaxResponseSize := by
    have hsize := answers.fits
    rw [List.length_take]
    omega
  have hdone : client.onReceived order (stream.take (headerEnd + 4 + length)) =
      { client with readBuffer := [], state := .Complete, response := response } := by
    simp only [HttpClient.onReceived, asked.receiving.2, List.nil_append, if_neg hlength, hparse]
  rw [hreceive, hdone] at hreports
  have hsound := hreports.sound rfl
  simp only [hstatus, hbody] at hsound
  exact hsound

theorem Answers.framed (answers : Answers stream headerEnd length)
    (completes : CompletesExactly method stream) :
    ¬ IsInterim (statusOf stream) ∧
      (framingOf method stream = .bodiless ∧ length = 0 ∨
        framingOf method stream = .length length) := by
  have ⟨order, hannounced⟩ := announces_iff.mp answers.announced
  have ⟨client, hasked⟩ := exists_asked order method
  have whole := answers.received_eq completes hannounced hasked
  have hfinal := received_not_interim whole
  refine ⟨hfinal, ?_⟩
  rw [received_beginning answers.ended method false answers.head hfinal (by omega),
    show headerEnd + 4 + length - (headerEnd + 4) = length by omega] at whole
  have ⟨body, hbody, hsame⟩ := Option.map_eq_some_iff.mp whole
  cases hsame
  have hlength : ((bodyOf stream).take length).length = length := by
    have harrived := answers.arrived
    rw [List.length_take, bodyOf_length answers.ended]
    omega
  rcases framing_of_whole hbody with ⟨hbodiless, hnil⟩ | hframing
  · rw [hnil] at hlength
    exact .inl ⟨hbodiless, hlength.symm⟩
  · rw [hlength] at hframing
    exact .inr hframing

theorem owed_after (ended : find blankLine stream = some headerEnd) (head : IsHead stream)
    (final : ¬ IsInterim (statusOf stream))
    (framed : framingOf method stream = .bodiless ∧ length = 0 ∨
      framingOf method stream = .length length)
    (whole : headerEnd + 4 + length ≤ n) (arrived : n ≤ stream.length) (closed : Bool) :
    received method (stream.take n) closed = some (statusOf stream, (bodyOf stream).take length) ∧
      (finalMessage (stream.take n)).map (framingOf method) ≠ some .chunked := by
  obtain ⟨_, _, hstatus, hhead, hframing⟩ := same_head (beginning_head ended (n := n) (by omega))
  constructor
  · rw [received_beginning ended method closed head final (by omega)]
    rcases framed with ⟨hbodiless, hlength⟩ | hlength
    · rw [hbodiless, hlength]
      rfl
    · have hthere : ((bodyOf stream).take (n - (headerEnd + 4))).length = n - (headerEnd + 4) := by
        rw [List.length_take, bodyOf_length ended]
        omega
      simp only [hlength, Framing.body]
      rw [if_neg (by omega), List.take_take, Nat.min_eq_left (by omega)]
      rfl
  · rw [finalMessage_eq (beginning_ended ended (by omega)), if_pos (hhead.mpr head),
      if_neg (by rw [hstatus]; exact final), Option.map_some, hframing]
    rcases framed with ⟨hbodiless, _⟩ | hlength
    · rw [hbodiless]
      simp
    · rw [hlength]
      simp

theorem Answers.owed (answers : Answers stream headerEnd length)
    (completes : CompletesExactly method stream) (whole : headerEnd + 4 + length ≤ n)
    (arrived : n ≤ stream.length) :
    received method (stream.take n) false ≠ none ∧
      (finalMessage (stream.take n)).map (framingOf method) ≠ some .chunked := by
  have ⟨hfinal, hframed⟩ := answers.framed completes
  have ⟨hreceived, hnot⟩ :=
    owed_after answers.ended answers.head hfinal hframed whole arrived false
  exact ⟨by rw [hreceived]; simp, hnot⟩

theorem Answers.headSection (answers : Answers stream headerEnd length)
    (completes : CompletesExactly method stream) :
    headerEnd + 4 ≤ kMaxHeaderSectionLength + 1 := by
  by_contra hlong
  obtain ⟨client, hasked⟩ := exists_asked default method
  have harrived := answers.arrived
  have hmax : kMaxHeaderSectionLength + 1 ≤ kMaxResponseSize := by decide
  have hchunk : 1 ≤ kReadChunkSize := by decide
  have hreaches : Reaches default client stream kMaxHeaderSectionLength :=
    reaches_unended answers.ended hasked (by omega) le_rfl (by omega)
  have hlength : (stream.take (kMaxHeaderSectionLength + 1)).length =
      kMaxHeaderSectionLength + 1 := by
    rw [List.length_take]
    omega
  have hparse : tryParseResponse default (stream.take (kMaxHeaderSectionLength + 1)) =
      .error ⟨ascii "response header section too large"⟩ := by
    have hunended : find blankLine (stream.take (kMaxHeaderSectionLength + 1)) = none :=
      beginning_unended answers.ended (by omega)
    simp only [tryParseResponse, hunended]
    rw [if_pos (by omega)]
  have hfailed : (client.onReceived default
      (stream.take (kMaxHeaderSectionLength + 1))).state = .Failed := by
    have hsize : ¬ (stream.take (kMaxHeaderSectionLength + 1)).length > kMaxResponseSize := by
      omega
    simp only [HttpClient.onReceived, hasked.receiving.2, List.nil_append, hparse, if_neg hsize]
  obtain ⟨hthere, hnot⟩ := answers.owed completes le_rfl harrived
  exact hnot (completes.failed hasked hreaches (by omega) (by omega) harrived (by omega) hfailed
    hthere)

theorem Answers.room (answers : Answers stream headerEnd length)
    (completes : CompletesExactly method stream) :
    min stream.length (headerEnd + 4 + length - 1 + kReadChunkSize) ≤ kMaxResponseSize := by
  by_contra hlong
  obtain ⟨order, hannounced⟩ := announces_iff.mp answers.announced
  obtain ⟨client, hasked⟩ := exists_asked order method
  have harrived := answers.arrived
  have hsize := answers.fits
  have hsection := answers.headSection completes
  have hreaches : Reaches order client stream (headerEnd + 4 + length - 1) :=
    reaches_pending answers.ended hasked answers.head hannounced answers.headFits (by omega)
      (by omega) (by omega) (by omega)
  have hfailed : (client.onReceived order (stream.take (min stream.length
      (headerEnd + 4 + length - 1 + kReadChunkSize)))).state = .Failed := by
    have hlarge : (stream.take (min stream.length
        (headerEnd + 4 + length - 1 + kReadChunkSize))).length > kMaxResponseSize := by
      rw [List.length_take]
      omega
    simp only [HttpClient.onReceived, hasked.receiving.2, List.nil_append, if_pos hlarge]
  have hall : min stream.length (headerEnd + 4 + length - 1 + kReadChunkSize) ≤
      stream.length := Nat.min_le_left _ _
  obtain ⟨hthere, hnot⟩ := answers.owed completes (by omega) hall
  exact hnot (completes.failed hasked hreaches (by omega) le_rfl hall (by omega) hfailed hthere)

theorem Answers.bodiless_line (answers : Answers stream headerEnd length)
    (completes : CompletesExactly method stream) (zero : length = 0) {field : Bytes × Bytes}
    (h : field ∈ FirstWinsMap.firsts (headerFields stream)) (name : IsContentLength field) :
    IsDigits field.2 ∧ digitsValue field.2 = 0 := by
  have ⟨client, hasked⟩ := exists_asked (frontOrder field) method
  have harrived := answers.arrived
  have hsection := answers.headSection completes
  have hchunk : 1 ≤ kReadChunkSize := by decide
  have hreaches : Reaches (frontOrder field) client stream (headerEnd + 3) :=
    reaches_unended answers.ended hasked (by omega) (by omega) (by omega)
  have ⟨results, hbrings, hreceive⟩ :=
    hreaches.read hasked (show headerEnd + 3 < headerEnd + 4 by omega) (by omega) (by omega)
  have ⟨hthere, hnot⟩ := answers.owed completes (show _ ≤ headerEnd + 4 by omega) (by omega)
  rcases (completes.reports hasked hbrings).complete hthere with hcomplete | ⟨hchunked, _⟩
  · rw [hreceive] at hcomplete
    have ⟨response, hparse⟩ := onReceived_complete hcomplete hasked.receiving.1
    rw [hasked.receiving.2, List.nil_append] at hparse
    have ⟨_, given, hgiven⟩ := announced_of_parsed answers.ended le_rfl hparse
    have hzero : given = 0 := by
      by_contra hne
      rw [(parse_beginning answers.ended answers.head hgiven le_rfl (by omega)).1 (by omega)]
        at hparse
      cases hparse
    have ⟨hdigits, hvalue, _⟩ := (contentLengthOf_front h name given).mp hgiven
    exact ⟨hdigits, hvalue.trans hzero⟩
  · exact absurd hchunked hnot

theorem Answers.plain (answers : Answers stream headerEnd length)
    (completes : CompletesExactly method stream) :
    PlainlyFramed method stream headerEnd length := by
  have ⟨hfinal, hframed⟩ := answers.framed completes
  refine ⟨answers.ended, answers.head, hfinal, ?_, answers.headSection completes,
    answers.room completes⟩
  rcases hframed with ⟨hbodiless, hzero⟩ | hlength
  · exact .inl ⟨hbodiless, hzero, fun _ h name => answers.bodiless_line completes hzero h name⟩
  · refine .inr ⟨hlength, ?_⟩
    rcases answers.announced with ⟨_, _, _, _, _, hlarge⟩ | ⟨_, hzero⟩
    · exact hlarge
    · omega

theorem answers_of_parsed {response : HttpClientResponse}
    (parsed : Parsed order (stream.take n) (some response)) (arrived : n ≤ stream.length) :
    ∃ headerEnd length, Answers stream headerEnd length ∧
      contentLengthOf order (.ofList (headerFields stream)) = .ok length ∧
      headerEnd + 4 + length ≤ n ∧ response.statusCode = statusOf stream ∧
      response.body = (bodyOf stream).take length := by
  obtain ⟨headerEnd, _, hend, _, _, _⟩ := tryParseResponse_ok parsed.parsed
  have hwhole := find_append hend (stream.drop n)
  rw [List.take_append_drop] at hwhole
  have hplace : headerEnd + 4 ≤ (stream.take n).length := find_add_length_le hend
  rw [List.length_take, Nat.min_eq_left arrived] at hplace
  have ⟨hhead, length, hlength⟩ := announced_of_parsed hwhole hplace parsed.parsed
  have ⟨hshort, hfull⟩ := parse_beginning hwhole hhead hlength hplace arrived
  have hthere : headerEnd + 4 + length ≤ n := by
    by_contra hless
    have hparse := hshort (by omega)
    rw [parsed.parsed] at hparse
    cases hparse
  have ⟨response', hparse, hstatus, hbody⟩ := hfull hthere
  rw [parsed.parsed] at hparse
  cases hparse
  have hsize := parsed.size
  rw [List.length_take, Nat.min_eq_left arrived] at hsize
  exact ⟨headerEnd, length, ⟨hwhole, hhead, announces_iff.mpr ⟨order, hlength⟩,
    parsed.headFits headerEnd hend, by omega, by omega⟩, hlength, hthere, hstatus, hbody⟩

end Answering

section Plain

variable {order : IterationOrder Bytes Bytes} {method : HttpMethod} {client : HttpClient}
  {stream : Bytes} {headerEnd length n : Nat}

theorem PlainlyFramed.framing (plain : PlainlyFramed method stream headerEnd length) :
    framingOf method stream = .bodiless ∧ length = 0 ∨ framingOf method stream = .length length := by
  rcases plain.framed with ⟨hbodiless, hlength, _⟩ | ⟨hlength, _⟩
  · exact .inl ⟨hbodiless, hlength⟩
  · exact .inr hlength

theorem PlainlyFramed.not_owed (plain : PlainlyFramed method stream headerEnd length)
    (h : n < headerEnd + 4 + length) (closed : Bool) :
    received method (stream.take n) closed = none := by
  by_cases hplace : n < headerEnd + 4
  · exact received_unended plain.ended method closed hplace
  · rw [received_beginning plain.ended method closed plain.head plain.final (by omega)]
    rcases plain.framing with ⟨_, hlength⟩ | hlength
    · omega
    · have htake := List.length_take_le (n - (headerEnd + 4)) (bodyOf stream)
      simp only [hlength, Framing.body]
      rw [if_pos (by omega), Option.map_none]

theorem PlainlyFramed.onReceived (plain : PlainlyFramed method stream headerEnd length)
    (order : IterationOrder Bytes Bytes) {chunk : Bytes} (buffer : client.readBuffer = stream.take n)
    (before : n < headerEnd + 4 + length) (short : chunk.length ≤ kReadChunkSize)
    (now : stream.take n ++ chunk = stream.take (n + chunk.length))
    (arrived : n + chunk.length ≤ stream.length) :
    (headerEnd + 4 + length ≤ n + chunk.length →
      (client.onReceived order chunk).state = .Complete) ∧
    (n + chunk.length < headerEnd + 4 + length → client.onReceived order chunk =
      { client with readBuffer := stream.take (n + chunk.length) }) := by
  have hsize : ¬ (stream.take (n + chunk.length)).length > kMaxResponseSize := by
    have hfits := plain.fits
    rw [List.length_take]
    omega
  constructor
  · intro hwhole
    have ⟨response, hparse, _⟩ := (parse_beginning plain.ended plain.head (plain.announced order)
      (by omega) arrived).2 hwhole
    simp only [HttpClient.onReceived, buffer, now, if_neg hsize, hparse]
  · intro hless
    have hparse : tryParseResponse order (stream.take (n + chunk.length)) = .ok none := by
      by_cases hplace : n + chunk.length < headerEnd + 4
      · have hhead := plain.headFits
        exact parse_unended plain.ended order hplace (by omega)
      · exact (parse_beginning plain.ended plain.head (plain.announced order) (by omega)
          arrived).1 hless
    simp only [HttpClient.onReceived, buffer, now, if_neg hsize, hparse]

theorem PlainlyFramed.completes (plain : PlainlyFramed method stream headerEnd length)
    {results : List RecvResult} {client : HttpClient} (receiving : client.state = .Receiving)
    (buffer : client.readBuffer = stream.take n) (before : n < headerEnd + 4 + length)
    (arrived : n ≤ stream.length)
    (chunks : ∀ chunk, .bytes chunk ∈ results → chunk.length ≤ kReadChunkSize)
    (last : ∀ result ∈ results.dropLast, result ≠ .closed ∧ result ≠ .failed)
    (inOrder : stream.take n ++ receivedBytes results <+: stream)
    (there : headerEnd + 4 + length ≤ n + (receivedBytes results).length) :
    (client.receive order results).state = .Complete := by
  induction results generalizing client n with
  | nil =>
      rw [show receivedBytes [] = [] from rfl, List.length_nil] at there
      omega
  | cons result rest ih =>
      have hchunks : ∀ chunk, .bytes chunk ∈ rest → chunk.length ≤ kReadChunkSize :=
        fun chunk hchunk => chunks chunk (by simp [hchunk])
      obtain ⟨hlast, hends⟩ := last_cons last
      -- the connection cannot end before the response is there
      have hgoes : receivedBytes (result :: rest) = receivedBytes rest → rest ≠ [] := by
        rintro hsame rfl
        rw [hsame, show receivedBytes [] = [] from rfl, List.length_nil] at there
        omega
      rw [HttpClient.receive, if_neg (not_not.mpr receiving)]
      cases result with
      | bytes chunk =>
          have hbytes : receivedBytes (.bytes chunk :: rest) = chunk ++ receivedBytes rest := rfl
          rw [hbytes, ← List.append_assoc] at inOrder
          rw [hbytes, List.length_append] at there
          obtain ⟨hthere, hnow⟩ := take_append_of_prefix arrived
            ((List.prefix_append _ _).trans inOrder)
          obtain ⟨hdone, hmore⟩ := plain.onReceived order buffer before
            (chunks chunk (by simp)) hnow hthere
          change (HttpClient.receive order (client.onReceived order chunk) rest).state = _
          by_cases hwhole : headerEnd + 4 + length ≤ n + chunk.length
          · have hcomplete := hdone hwhole
            rw [receive_of_not_receiving order (by simp [hcomplete])]
            exact hcomplete
          · rw [hmore (by omega)]
            rw [hnow] at inOrder
            exact ih receiving rfl (by omega) hthere hchunks hlast inOrder (by omega)
      | closed => exact absurd rfl (hends (hgoes rfl)).1
      | wouldBlock => exact ih receiving buffer before arrived hchunks hlast inOrder there
      | failed => exact absurd rfl (hends (hgoes rfl)).2

theorem PlainlyFramed.completesExactly (plain : PlainlyFramed method stream headerEnd length) :
    CompletesExactly method stream := by
  intro order client results asked delivers
  have ⟨harrived, hbytes⟩ := delivers.bytes
  have hwhole : headerEnd + 4 + length ≤ (receivedBytes results).length → ∀ closed,
      received method (receivedBytes results) closed =
        some (statusOf stream, (bodyOf stream).take length) := by
    intro h closed
    rw [hbytes]
    exact (owed_after plain.ended plain.head plain.final plain.framing h harrived closed).1
  constructor
  · intro complete
    have ⟨n, hn, hparsed⟩ := delivers.completed asked complete
    have ⟨headerEnd', length', hanswers, hlength', hthere, hstatus, hbody⟩ :=
      answers_of_parsed hparsed (by omega)
    have hend := hanswers.ended
    rw [plain.ended] at hend
    cases hend
    rw [plain.announced order] at hlength'
    cases hlength'
    rw [hwhole (by omega), hstatus, hbody]
  · intro owed
    refine .inl ?_
    have hthere : headerEnd + 4 + length ≤ (receivedBytes results).length := by
      by_contra hless
      rw [hbytes, plain.not_owed (by omega)] at owed
      exact owed rfl
    refine plain.completes asked.receiving.1 (n := 0) asked.receiving.2 (by omega) (by omega)
      (fun chunk h => (delivers.chunks chunk h).2) delivers.last ?_ (by omega)
    exact delivers.inOrder

end Plain

section Silent

variable {method : HttpMethod} {stream : Bytes}

theorem Unanswered.completesExactly (silent : Unanswered method stream) :
    CompletesExactly method stream := by
  intro order client results asked delivers
  have ⟨harrived, hbytes⟩ := delivers.bytes
  have hnever : (client.receive order results).state ≠ .Complete := by
    intro complete
    have ⟨n, hn, hparsed⟩ := delivers.completed asked complete
    have ⟨headerEnd, length, hanswers, _⟩ := answers_of_parsed hparsed (by omega)
    exact silent.unanswered ⟨headerEnd, length, hanswers⟩
  refine ⟨fun complete => absurd complete hnever, fun owed => .inr ?_⟩
  have hchunked : (finalMessage (receivedBytes results)).map (framingOf method) =
      some .chunked := by
    by_cases hclosed : .closed ∈ results
    · rw [delivers.closed hclosed, decide_eq_true hclosed] at owed
      rw [delivers.closed hclosed]
      exact silent.closed owed
    · rw [decide_eq_false hclosed, hbytes] at owed
      rw [hbytes]
      exact (silent.opened _ harrived owed).1
  refine ⟨hchunked, ?_⟩
  have houtcome := delivers.outcome asked
  generalize client.receive order results = after at houtcome hnever ⊢
  cases houtcome with
  | waiting hopened hpending =>
      exfalso
      rw [asked.receiving.2, List.nil_append, hbytes] at hpending
      rw [decide_eq_false hopened.1, hbytes] at owed
      have ⟨⟨headerEnd, hend⟩, _⟩ := received_head owed
      have hwhole := find_append hend (stream.drop (receivedBytes results).length)
      rw [List.take_append_drop] at hwhole
      have hplace : headerEnd + 4 ≤ (stream.take (receivedBytes results).length).length :=
        find_add_length_le hend
      rw [List.length_take, Nat.min_eq_left harrived] at hplace
      rcases (silent.opened _ harrived owed).2 with hlarge | hrefused
      · have hsize := hpending.size
        rw [List.length_take] at hsize
        omega
      · rcases hrefused headerEnd hwhole with hlong | hnone
        · have hfits := hpending.headFits headerEnd hend
          omega
        · have ⟨_, length, hlength⟩ := announced_of_parsed hwhole hplace hpending.parsed
          exact hnone length (announces_iff.mpr ⟨order, hlength⟩)
  | failed hstate => exact hstate
  | complete hstate => exact absurd hstate hnever

theorem reaches_of_kept (none' : ¬ ∃ headerEnd length, Answers stream headerEnd length) {n : Nat}
    (arrived : n ≤ stream.length) (owed : received method (stream.take n) false ≠ none)
    (kept : ¬ GivenUp stream n) :
    ∃ order client, Asked order method client ∧ Reaches order client stream n := by
  rw [GivenUp, not_or, not_lt] at kept
  obtain ⟨hsize, hkept⟩ := kept
  simp only [not_forall, not_or, not_lt, not_not] at hkept
  obtain ⟨headerEnd, hend, hfits, length, hannounces⟩ := hkept
  obtain ⟨⟨headerEnd', hend'⟩, hhead'⟩ := received_head owed
  have hplace : headerEnd + 4 ≤ n := by
    by_contra hless
    rw [beginning_unended hend (by omega)] at hend'
    cases hend'
  have hhead : IsHead stream := (same_head (beginning_head hend hplace)).2.2.2.1.mp hhead'
  have hpending : n < headerEnd + 4 + length := by
    by_contra hwhole
    exact none' ⟨headerEnd, length, hend, hhead, hannounces, hfits, by omega, by omega⟩
  obtain ⟨order, hlength⟩ := announces_iff.mp hannounces
  obtain ⟨client, hasked⟩ := exists_asked order method
  exact ⟨order, client, hasked,
    reaches_pending hend hasked hhead hlength hfits hpending (by omega) arrived hsize⟩

theorem CompletesExactly.unanswered (completes : CompletesExactly method stream)
    (none' : ¬ ∃ headerEnd length, Answers stream headerEnd length) :
    Unanswered method stream := by
  obtain ⟨client, hasked⟩ := exists_asked default method
  have hnever : ∀ results, Delivers stream results →
      (client.receive default results).state ≠ .Complete := by
    intro results delivers complete
    obtain ⟨n, hn, hparsed⟩ := delivers.completed hasked complete
    have harrived := delivers.bytes.1
    obtain ⟨headerEnd, length, hanswers, _⟩ := answers_of_parsed hparsed (by omega)
    exact none' ⟨headerEnd, length, hanswers⟩
  refine ⟨none', fun n hn owed => ?_, fun owed => ?_⟩
  · obtain ⟨results, hbrings⟩ := (brings_nil stream).extend (Nat.zero_le n) hn
    rw [List.nil_append] at hbrings
    rcases (completes.reports hasked hbrings).complete owed with hcomplete | ⟨hchunked, _⟩
    · exact absurd hcomplete (hnever results hbrings.delivers)
    · refine ⟨hchunked, ?_⟩
      by_contra hkept
      obtain ⟨order, client', hasked', results', hbrings', hwaits⟩ :=
        reaches_of_kept none' hn owed hkept
      have hstate : (client'.receive order results').state = .Receiving := by
        rw [hwaits]
        exact hasked'.receiving.1
      rcases (completes.reports hasked' hbrings').complete owed with hcomplete | ⟨_, hfailed⟩
      · rw [hstate] at hcomplete
        cases hcomplete
      · rw [hstate] at hfailed
        cases hfailed
  · obtain ⟨results, hbrings⟩ := (brings_nil stream).extend (Nat.zero_le _) le_rfl
    rw [List.nil_append] at hbrings
    obtain ⟨hdelivers, hwhole⟩ := hbrings.delivers_closed
    have hreports := completes default client _ hasked hdelivers
    rw [hwhole, decide_eq_true (by simp)] at hreports
    rcases hreports.complete owed with hcomplete | ⟨hchunked, _⟩
    · exact absurd hcomplete (hnever _ hdelivers)
    · exact hchunked

end Silent

/-- The client completes exactly with the final response, whichever way it is read, when
that response is framed plainly, or when it gets none and there is none. -/
theorem completesExactly_iff (method : HttpMethod) (stream : Bytes) :
    CompletesExactly method stream ↔
      (∃ headerEnd length, PlainlyFramed method stream headerEnd length) ∨
        Unanswered method stream := by
  constructor
  · intro completes
    by_cases hanswers : ∃ headerEnd length, Answers stream headerEnd length
    · have ⟨headerEnd, length, answers⟩ := hanswers
      exact .inl ⟨headerEnd, length, answers.plain completes⟩
    · exact .inr (completes.unanswered hanswers)
  · rintro (⟨headerEnd, length, plain⟩ | silent)
    · exact plain.completesExactly
    · exact silent.completesExactly

theorem CompletesExactly.whole {method : HttpMethod} {stream : Bytes}
    (completes : CompletesExactly method stream) (ne : stream ≠ [])
    (short : stream.length ≤ kReadChunkSize) :
    Reports method stream false ((asking default method).receive default [.bytes stream]) := by
  have hbrings := (brings_nil stream).more (List.length_pos_iff.mpr ne) le_rfl (by omega)
  rw [List.take_length, List.drop_zero, List.nil_append] at hbrings
  have hreports := completes.reports (asked_asking default method) hbrings
  rwa [List.take_length] at hreports

def untilClosed : Bytes := ascii "HTTP/1.1 200 OK\r\n\r\nhello"

def inChunks : Bytes :=
  ascii "HTTP/1.1 200 OK\r\nTransfer-Encoding: chunked\r\n\r\n5\r\nhello\r\n0\r\n\r\n"

def continued : Bytes :=
  ascii "HTTP/1.1 100 Continue\r\n\r\nHTTP/1.1 200 OK\r\nContent-Length: 2\r\n\r\nok"

def headOnly : Bytes := ascii "HTTP/1.1 200 OK\r\nContent-Length: 5\r\n\r\n"

theorem responses_misframed :
    ¬ CompletesExactly .GET untilClosed ∧ ¬ CompletesExactly .GET inChunks ∧
      ¬ CompletesExactly .GET continued ∧ ¬ CompletesExactly .HEAD headOnly := by
  refine ⟨fun completes => ?_, fun completes => ?_, fun completes => ?_, fun completes => ?_⟩
  · have hsound := (completes.whole (by decide) (by decide)).sound (by decide)
    have hnone : (framingOf .GET untilClosed).body (bodyOf untilClosed) false = none := by decide
    rw [received_final .GET false (show find blankLine untilClosed = some 15 by decide) (by decide)
      (by decide), hnone] at hsound
    cases hsound
  · have hsound := (completes.whole (by decide) (by decide)).sound (by decide)
    have hhello : (framingOf .GET inChunks).body (bodyOf inChunks) false =
        some (ascii "hello") := by
      decide
    rw [received_final .GET false (show find blankLine inChunks = some 43 by decide) (by decide)
      (by decide), hhello, Option.map_some, Option.some.injEq, Prod.mk.injEq] at hsound
    exact absurd hsound.2 (by decide)
  · have hsound := (completes.whole (by decide) (by decide)).sound (by decide)
    exact received_not_interim hsound (by decide)
  · have hcomplete := (completes.whole (by decide) (by decide)).complete
    have hthere : (framingOf .HEAD headOnly).body (bodyOf headOnly) false = some [] := by decide
    rw [received_final .HEAD false (show find blankLine headOnly = some 34 by decide) (by decide)
      (by decide), hthere, Option.map_some] at hcomplete
    rcases hcomplete (by simp) with hstate | ⟨_, hstate⟩
    · exact absurd hstate (by decide)
    · exact absurd hstate (by decide)

end ApiGateway.ResponseCompletion
