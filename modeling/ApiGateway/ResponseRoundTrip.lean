import ApiGateway.ResponseBuilding
import ApiGateway.ResponseParsing

/-! A response as its setters leave it, and its bytes as `tryParseResponse`
reads them. -/

namespace ApiGateway.ResponseRoundTrip
open ByteText HttpText CrlfLines MessageHeaders ResponseParsing ResponseBuilding

inductive SetterCall where
  | setStatus (statusCode : Int)
  | setStatusReason (statusCode : Int) (reasonPhrase : Bytes)
  | setHeader (name value : Bytes)
  | setBody (body : Bytes)
  deriving DecidableEq

def SetterCall.result (response : HttpResponse) :
    SetterCall → Except InvalidArgument HttpResponse
  | .setStatus statusCode => response.setStatusCode statusCode
  | .setStatusReason statusCode reasonPhrase => response.setStatus statusCode reasonPhrase
  | .setHeader name value => response.setHeader name value
  | .setBody body => .ok (response.setBody body)

/-- A call that throws leaves the object as it was. -/
def SetterCall.apply (response : HttpResponse) (call : SetterCall) : HttpResponse :=
  match call.result response with
  | .ok changed => changed
  | .error _ => response

/-- What the constructors and the setters can make. -/
inductive Reached : HttpResponse → Prop where
  | new : Reached .new
  | ofStatus {statusCode : Int} {response : HttpResponse}
      (ok : HttpResponse.ofStatus statusCode = .ok response) : Reached response
  | called {response : HttpResponse} (reached : Reached response) (call : SetterCall) :
      Reached (call.apply response)

theorem Reached.calls {response : HttpResponse} (reached : Reached response)
    (calls : List SetterCall) : Reached (calls.foldl SetterCall.apply response) := by
  induction calls generalizing response with
  | nil => exact reached
  | cons call rest ih => exact ih (reached.called call)

def Distinct (headers : List (Bytes × Bytes)) : Prop :=
  headers.Pairwise fun first second => caseInsensitiveEquals first.1 second.1 = false

structure WellFormed (response : HttpResponse) : Prop where
  low : 100 ≤ response.status
  high : response.status ≤ 599
  reason : isValidHeaderValue response.reason = true
  named : ∀ header ∈ response.headers, isValidHeaderName header.1 = true
  valued : ∀ header ∈ response.headers, isValidHeaderValue header.2 = true
  distinct : Distinct response.headers

theorem mem_setHeaderLoop {name value : Bytes} {headers : List (Bytes × Bytes)}
    {header : Bytes × Bytes} (h : header ∈ setHeaderLoop name value headers) :
    header ∈ headers ∨
      header.2 = value ∧ (header.1 = name ∨ ∃ old ∈ headers, old.1 = header.1) := by
  induction headers with
  | nil =>
      rw [setHeaderLoop, List.mem_singleton] at h
      rw [h]
      exact .inr ⟨rfl, .inl rfl⟩
  | cons first rest ih =>
      rw [setHeaderLoop] at h
      split_ifs at h with hsame
      · cases List.mem_cons.mp h with
        | inl hfirst =>
            rw [hfirst]
            exact .inr ⟨rfl, .inr ⟨first, by simp, rfl⟩⟩
        | inr hrest => exact .inl (List.mem_cons_of_mem _ hrest)
      · cases List.mem_cons.mp h with
        | inl hfirst => exact .inl (by simp [hfirst])
        | inr hrest =>
            rcases ih hrest with hmem | ⟨hvalue, hname | ⟨old, hold, hkey⟩⟩
            · exact .inl (List.mem_cons_of_mem _ hmem)
            · exact .inr ⟨hvalue, .inl hname⟩
            · exact .inr ⟨hvalue, .inr ⟨old, List.mem_cons_of_mem _ hold, hkey⟩⟩

theorem caseInsensitiveEquals_comm (a b : Bytes) :
    caseInsensitiveEquals a b = caseInsensitiveEquals b a := Bool.beq_comm

theorem distinct_setHeaderLoop {name value : Bytes} {headers : List (Bytes × Bytes)}
    (h : Distinct headers) : Distinct (setHeaderLoop name value headers) := by
  induction headers with
  | nil => exact List.pairwise_singleton _ _
  | cons first rest ih =>
      have ⟨hfirst, hrest⟩ := List.pairwise_cons.mp h
      rw [setHeaderLoop]
      split_ifs with hsame
      · exact List.pairwise_cons.mpr ⟨hfirst, hrest⟩
      · refine List.pairwise_cons.mpr ⟨fun header hheader => ?_, ih hrest⟩
        rcases mem_setHeaderLoop hheader with hmem | ⟨_, hname | ⟨old, hold, hkey⟩⟩
        · exact hfirst header hmem
        · rw [hname]
          exact Bool.eq_false_iff.mpr hsame
        · rw [← hkey]
          exact hfirst old hold

theorem WellFormed.setStatus {response changed : HttpResponse} (h : WellFormed response)
    {statusCode : Int} {reasonPhrase : Bytes}
    (ok : response.setStatus statusCode reasonPhrase = .ok changed) : WellFormed changed := by
  unfold HttpResponse.setStatus at ok
  split_ifs at ok with hrange hvalid
  cases ok
  have hlow : 100 ≤ statusCode.toNat := by omega
  have hhigh : statusCode.toNat ≤ 599 := by omega
  exact ⟨hlow, hhigh, by simpa using hvalid, h.named, h.valued, h.distinct⟩

theorem WellFormed.setHeader {response changed : HttpResponse} (h : WellFormed response)
    {name value : Bytes} (ok : response.setHeader name value = .ok changed) :
    WellFormed changed := by
  unfold HttpResponse.setHeader at ok
  split_ifs at ok with hname hvalue
  cases ok
  have hname' : isValidHeaderName name = true := by simpa using hname
  have hvalue' : isValidHeaderValue value = true := by simpa using hvalue
  refine ⟨h.low, h.high, h.reason, fun header hheader => ?_, fun header hheader => ?_,
    distinct_setHeaderLoop h.distinct⟩
  · rcases mem_setHeaderLoop hheader with hmem | ⟨_, hnew | ⟨old, hold, hkey⟩⟩
    · exact h.named header hmem
    · rw [hnew]
      exact hname'
    · rw [← hkey]
      exact h.named old hold
  · rcases mem_setHeaderLoop hheader with hmem | ⟨hset, _⟩
    · exact h.valued header hmem
    · rw [hset]
      exact hvalue'

theorem WellFormed.new : WellFormed .new :=
  ⟨by decide, by decide, by decide, by simp [HttpResponse.new], by simp [HttpResponse.new],
    List.Pairwise.nil⟩

theorem WellFormed.apply {response : HttpResponse} (h : WellFormed response)
    (call : SetterCall) : WellFormed (call.apply response) := by
  unfold SetterCall.apply
  split
  · next changed hresult =>
    cases call with
    | setStatus statusCode => exact h.setStatus hresult
    | setStatusReason statusCode reasonPhrase => exact h.setStatus hresult
    | setHeader name value => exact h.setHeader hresult
    | setBody body =>
        cases hresult
        exact ⟨h.low, h.high, h.reason, h.named, h.valued, h.distinct⟩
  · exact h

theorem Reached.wellFormed {response : HttpResponse} (reached : Reached response) :
    WellFormed response := by
  induction reached with
  | new => exact .new
  | ofStatus ok => exact WellFormed.new.setStatus ok
  | called _ call ih => exact ih.apply call

def sentHeaders (response : HttpResponse) : List (Bytes × Bytes) :=
  response.headers.filter fun header =>
    !caseInsensitiveEquals header.1 (ascii "Content-Length")

def closeHeader (response : HttpResponse) : List (Bytes × Bytes) :=
  if (sentHeaders response).any fun header =>
    caseInsensitiveEquals header.1 (ascii "Connection") then []
  else [(ascii "Connection", ascii "close")]

def writtenHeaders (response : HttpResponse) : List (Bytes × Bytes) :=
  sentHeaders response ++ (ascii "Content-Length", toDecimal response.body.length) ::
    closeHeader response

def statusLine (response : HttpResponse) : Bytes :=
  ascii "HTTP/1.1 " ++ toDecimal response.status ++ ascii " " ++ response.reason

theorem toBytes_eq (response : HttpResponse) :
    response.toBytes =
      joinLines (statusLine response :: (writtenHeaders response).map renderField) ++ crlf ++
        response.body := by
  have hclose : joinLines ((closeHeader response).map renderField) =
      if (sentHeaders response).any fun header =>
        caseInsensitiveEquals header.1 (ascii "Connection") then []
      else ascii "Connection: close\r\n" := by
    rw [closeHeader]
    split_ifs
    · rfl
    · rfl
  have hsent : joinLines ((sentHeaders response).map renderField) =
      (sentHeaders response).flatMap fun header =>
        header.1 ++ ascii ": " ++ header.2 ++ crlf := joinLines_map_renderField _
  have hlength : ascii "Content-Length: " = ascii "Content-Length" ++ ascii ": " := rfl
  rw [HttpResponse.toBytes, joinLines_cons, writtenHeaders, List.map_append, joinLines_append,
    List.map_cons, joinLines_cons, hclose, hsent, hlength]
  simp only [statusLine, renderField, sentHeaders, List.append_assoc]
  rfl

theorem isTokenChar_plain {b : UInt8} (h : isTokenChar b = true) :
    isspace b = false ∧ b ≠ 58 ∧ b ≠ 13 ∧ b ≠ 10 := by
  revert b
  decide +kernel

theorem isName_of_valid {name : Bytes} (valid : isValidHeaderName name = true) :
    IsName name ∧ Unbroken name := by
  simp only [isValidHeaderName, Bool.and_eq_true, decide_eq_true_eq,
    List.all_eq_true] at valid
  have hplain := fun b hb => isTokenChar_plain (valid.2 b hb)
  refine ⟨⟨valid.1, fun hmem => (hplain 58 hmem).2.1 rfl, ?_⟩, fun hmem => ?_, fun hmem => ?_⟩
  · exact trimView_of_not_space fun b hb => (hplain b hb).1
  · exact (hplain 13 hmem).2.2.1 rfl
  · exact (hplain 10 hmem).2.2.2 rfl

theorem unbroken_of_valid {value : Bytes} (valid : isValidHeaderValue value = true) :
    Unbroken value := by
  simp only [isValidHeaderValue, List.all_eq_true, Bool.and_eq_true, decide_eq_true_eq] at valid
  exact ⟨fun hmem => (valid 13 hmem).1.1 rfl, fun hmem => (valid 10 hmem).1.2 rfl⟩

theorem unbroken_toDecimal (n : Nat) : Unbroken (toDecimal n) :=
  ⟨not_mem_toDecimal (by decide) n, not_mem_toDecimal (by decide) n⟩

theorem mem_writtenHeaders {response : HttpResponse} (h : WellFormed response)
    {header : Bytes × Bytes} (hmem : header ∈ writtenHeaders response) :
    IsName header.1 ∧ Unbroken header.1 ∧ Unbroken header.2 := by
  rcases List.mem_append.mp hmem with hsent | hown
  · have hheader := List.mem_of_mem_filter hsent
    have ⟨hname, hunbroken⟩ := isName_of_valid (h.named header hheader)
    exact ⟨hname, hunbroken, unbroken_of_valid (h.valued header hheader)⟩
  · cases List.mem_cons.mp hown with
    | inl hlength =>
        have hvalid : isValidHeaderName (ascii "Content-Length") = true := by decide
        have ⟨hname, hunbroken⟩ := isName_of_valid hvalid
        rw [hlength]
        exact ⟨hname, hunbroken, unbroken_toDecimal _⟩
    | inr hclose =>
        rw [closeHeader] at hclose
        split_ifs at hclose
        · cases hclose
        · rw [List.mem_singleton.mp hclose]
          exact ⟨⟨by decide, by decide, by decide⟩, by decide, by decide⟩

theorem unbroken_statusLine {response : HttpResponse} (h : WellFormed response) :
    Unbroken (statusLine response) := by
  have hversion : Unbroken (ascii "HTTP/1.1 ") := by decide
  have hspace : Unbroken (ascii " ") := by decide
  simp only [statusLine, unbroken_append]
  exact ⟨⟨⟨hversion, unbroken_toDecimal _⟩, hspace⟩, unbroken_of_valid h.reason⟩

theorem written_lines {response : HttpResponse} (h : WellFormed response) :
    ∀ line ∈ statusLine response :: (writtenHeaders response).map renderField,
      IsLine line ∧ line ≠ [] := by
  intro line hline
  cases List.mem_cons.mp hline with
  | inl hstatus =>
      rw [hstatus]
      exact ⟨(unbroken_statusLine h).isLine, by simp [statusLine, ascii]⟩
  | inr hrest =>
      have ⟨header, hheader, hrender⟩ := List.mem_map.mp hrest
      have ⟨_, hname, hvalue⟩ := mem_writtenHeaders h hheader
      have hseparator : Unbroken (ascii ": ") := by decide
      rw [← hrender]
      refine ⟨Unbroken.isLine ?_, by simp [renderField_eq]⟩
      simp only [renderField, unbroken_append]
      exact ⟨⟨hname, hseparator⟩, hvalue⟩

def announcedHeaders (response : HttpResponse) : List (Bytes × Bytes) :=
  (sentHeaders response).map (fun header => (header.1, trimView header.2)) ++
    (ascii "Content-Length", toDecimal response.body.length) :: closeHeader response

theorem read_toBytes {response : HttpResponse} (h : WellFormed response) :
    find blankLine response.toBytes ≠ none ∧
      headLines response.toBytes =
        statusLine response :: (writtenHeaders response).map renderField ∧
      headerFields response.toBytes = announcedHeaders response ∧
      bodyOf response.toBytes = response.body := by
  have hlines := written_lines h
  have ⟨headEnd, hend, _, _⟩ := read_written (by simp) hlines response.body
  have hhead := headLines_written (by simp) hlines response.body
  have hbody := bodyOf_written (by simp) hlines response.body
  rw [← toBytes_eq] at hend hhead hbody
  have hclose : (closeHeader response).map (fun header => (header.1, trimView header.2)) =
      closeHeader response := by
    rw [closeHeader]
    split_ifs
    · rfl
    · rfl
  have hfields : headerFields response.toBytes = announcedHeaders response := by
    rw [(startLine_headerFields hhead).2,
      fieldsOf_map_written fun header hheader => (mem_writtenHeaders h hheader).1,
      writtenHeaders, List.map_append, List.map_cons, hclose, trimView_toDecimal]
    rfl
  exact ⟨by simp [hend], hhead, hfields, hbody⟩

theorem parseStatusLine_statusLine {response : HttpResponse} (h : WellFormed response) :
    parseStatusLine (statusLine response) = .ok (response.status, response.reason) := by
  have ⟨hcode, hreason⟩ := statusLine_parts response.status response.reason
  rw [← statusLine] at hcode hreason
  have hspaced : ¬ 32 ∉ statusLine response := by simp [statusLine, ascii]
  have hdigits : ¬ (toDecimal response.status = [] ∨
      (toDecimal response.status).all isdigit = false) := by
    simp [toDecimal_ne_nil, all_isdigit_toDecimal]
  have hsmall : response.status < 2 ^ 31 := by
    have hhigh := h.high
    omega
  rw [parseStatusLine_eq, if_neg hspaced, hcode, hreason, if_neg hdigits, stoi,
    digitsValue_toDecimal, if_pos hsmall]

theorem Distinct.differ {headers : List (Bytes × Bytes)} (h : Distinct headers)
    {first second : Bytes × Bytes} (hfirst : first ∈ headers) (hsecond : second ∈ headers)
    (different : first ≠ second) : caseInsensitiveEquals first.1 second.1 = false := by
  have hsymm : Std.Symm fun first second : Bytes × Bytes =>
      caseInsensitiveEquals first.1 second.1 = false :=
    ⟨fun first second hdiffer => by rwa [caseInsensitiveEquals_comm]⟩
  exact List.Pairwise.forall h hfirst hsecond different

theorem distinct_keys {headers : List (Bytes × Bytes)} (h : Distinct headers) :
    (headers.map Prod.fst).Nodup := by
  rw [List.nodup_iff_pairwise_ne, List.pairwise_map]
  refine h.imp fun {first second} hdiffer hsame => ?_
  rw [hsame, caseInsensitiveEquals, beq_self_eq_true] at hdiffer
  cases hdiffer

theorem contentLength_spelling (name : Bytes) :
    caseInsensitiveEquals name (ascii "Content-Length") =
      caseInsensitiveEquals name (ascii "content-length") := by
  have hlower : (ascii "Content-Length").map tolower = (ascii "content-length").map tolower := by
    decide
  rw [caseInsensitiveEquals, caseInsensitiveEquals, hlower]

theorem closeHeader_spec {response : HttpResponse} {header : Bytes × Bytes}
    (h : header ∈ closeHeader response) :
    header = (ascii "Connection", ascii "close") ∧ ∀ sent ∈ sentHeaders response,
      caseInsensitiveEquals sent.1 (ascii "Connection") = false := by
  rw [closeHeader] at h
  split_ifs at h with hany
  · cases h
  · refine ⟨List.mem_singleton.mp h, fun sent hsent => Bool.eq_false_iff.mpr fun hsame => ?_⟩
    exact hany (List.any_eq_true.mpr ⟨sent, hsent, hsame⟩)

theorem distinct_announcedHeaders {response : HttpResponse} (h : WellFormed response) :
    Distinct (announcedHeaders response) := by
  have hsent : ∀ header ∈ sentHeaders response,
      caseInsensitiveEquals header.1 (ascii "Content-Length") = false := by
    intro header hheader
    simpa using List.of_mem_filter hheader
  have hown : Distinct ((ascii "Content-Length", toDecimal response.body.length) ::
      closeHeader response) := by
    refine List.pairwise_cons.mpr ⟨fun header hheader => ?_, ?_⟩
    · rw [(closeHeader_spec hheader).1]
      rfl
    · rw [closeHeader]
      split_ifs
      · exact List.Pairwise.nil
      · exact List.pairwise_singleton _ _
  refine List.pairwise_append.mpr ⟨?_, hown, fun header hheader added hadded => ?_⟩
  · rw [List.pairwise_map]
    exact h.distinct.filter _
  · have ⟨sent, hmem, hsame⟩ := List.mem_map.mp hheader
    rw [← hsame]
    cases List.mem_cons.mp hadded with
    | inl hlength =>
        rw [hlength]
        exact hsent sent hmem
    | inr hclose =>
        have ⟨hconnection, hnone⟩ := closeHeader_spec hclose
        rw [hconnection]
        exact hnone sent hmem

theorem contentLengthOf_announced (order : IterationOrder Bytes Bytes) {response : HttpResponse}
    (h : WellFormed response) (short : response.body.length ≤ kMaxBodySize) :
    contentLengthOf order (.ofList (announcedHeaders response)) = .ok response.body.length := by
  have hdistinct := distinct_announcedHeaders h
  have hmem : (ascii "Content-Length", toDecimal response.body.length) ∈
      announcedHeaders response := List.mem_append_right _ (List.mem_cons_self ..)
  rcases contentLengthOf_cases order (announcedHeaders response) with
    ⟨found, hfirst, hname, hiff⟩ | ⟨hnone, _⟩
  · have hin := FirstWinsMap.mem_of_mem_firsts hfirst
    have hfound : found = (ascii "Content-Length", toDecimal response.body.length) := by
      by_contra hother
      have hdiffer := hdistinct.differ hin hmem hother
      rw [contentLength_spelling, hname] at hdiffer
      cases hdiffer
    rw [hiff, hfound]
    exact ⟨⟨toDecimal_ne_nil _, all_isdigit_toDecimal _⟩, digitsValue_toDecimal _, short⟩
  · have hspelled : caseInsensitiveEquals (ascii "Content-Length") (ascii "content-length") =
        true := by
      decide
    rw [hnone _ hmem] at hspelled
    cases hspelled

/-- The parser gives back what the setters put in: the status, the trimmed
reason, the body and the headers with their values trimmed, besides the two
lines that `toBytes` adds. -/
theorem response_round_trip (order : IterationOrder Bytes Bytes) {response : HttpResponse}
    (reached : Reached response) :
    Distinct response.headers ∧ (response.body.length ≤ kMaxBodySize →
      ∃ parsed, tryParseResponse order response.toBytes = .ok (some parsed) ∧
        parsed.statusCode = response.status ∧
        parsed.reasonPhrase = trimView response.reason ∧
        parsed.body = response.body ∧
        parsed.headers.entries = announcedHeaders response) := by
  have h := reached.wellFormed
  refine ⟨h.distinct, fun short => ?_⟩
  have ⟨hended, hhead, hfields, hbody⟩ := read_toBytes h
  have ⟨hstart, hrest⟩ := startLine_headerFields hhead
  have hread : ∀ line ∈ (headLines response.toBytes).tail, line ≠ [] → fieldOf line ≠ none := by
    rw [hhead, List.tail_cons]
    intro line hline _
    have ⟨header, hheader, hrender⟩ := List.mem_map.mp hline
    rw [← hrender, fieldOf_written (mem_writtenHeaders h hheader).1]
    simp
  have hstatus := parseStatusLine_statusLine h
  rw [← hstart] at hstatus
  have hheaders : parseHeaderLines (headLines response.toBytes).tail .empty =
      .ok (.ofList (announcedHeaders response)) := by
    rw [← hfields]
    exact headerLoop_read hread _
  have hparse := tryParseResponse_of_parts hended hstatus hheaders
    (contentLengthOf_announced order h short)
  rw [hbody, if_neg (by omega), List.take_length] at hparse
  refine ⟨_, hparse, rfl, rfl, rfl, ?_⟩
  rw [FirstWinsMap.entries_ofList,
    FirstWinsMap.firsts_of_nodup (distinct_keys (distinct_announcedHeaders h))]

theorem response_round_trip_example :
    let calls : List SetterCall := [.setStatusReason 404 (ascii " Gone "),
      .setHeader (ascii "X-a") (ascii " 1 "), .setHeader (ascii "x-A") (ascii "2 "),
      .setHeader (ascii "a b") (ascii "3"), .setHeader (ascii "content-length") (ascii "9"),
      .setBody (ascii "\r\n\r\n")]
    let response := calls.foldl SetterCall.apply .new
    Distinct response.headers ∧ (response.body.length ≤ kMaxBodySize →
      ∃ parsed, tryParseResponse default response.toBytes = .ok (some parsed) ∧
        parsed.statusCode = response.status ∧
        parsed.reasonPhrase = trimView response.reason ∧
        parsed.body = response.body ∧
        parsed.headers.entries = announcedHeaders response) :=
  response_round_trip default (Reached.new.calls _)

end ApiGateway.ResponseRoundTrip
