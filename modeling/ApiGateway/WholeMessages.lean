import ApiGateway.DownstreamRoundTrip
import ApiGateway.ProxyForwarding
import ApiGateway.ResponseFraming
import ApiGateway.ResponseRoundTrip

/-! Messages that say themselves where they end, so that none is the beginning of another. All
writers of responses write such messages: `toBytes`, `buildErrorResponse`, and `forward` for
the response of an upstream. -/

namespace ApiGateway.WholeMessages
open ByteText HttpText CrlfLines MessageHeaders ResponseFraming

def isContentLength (field : Bytes × Bytes) : Bool :=
  caseInsensitiveEquals field.1 (ascii "content-length")

def announcedLengths (message : Bytes) : List Nat :=
  ((headerFields message).filter isContentLength).map fun field => digitsValue field.2

/-- One length is announced, and it is the length of what stands behind the head. -/
structure Whole (message : Bytes) : Prop where
  ended : find blankLine message ≠ none
  version : ascii "HTTP/1.1 " <+: message
  announced : announcedLengths message = [(bodyOf message).length]

instance (message : Bytes) : Decidable (Whole message) :=
  decidable_of_iff (find blankLine message ≠ none ∧ ascii "HTTP/1.1 " <+: message ∧
      announcedLengths message = [(bodyOf message).length])
    ⟨fun h => ⟨h.1, h.2.1, h.2.2⟩, fun h => ⟨h.ended, h.version, h.announced⟩⟩

theorem Whole.eq_of_prefix {taken message : Bytes} (whole : Whole taken) (h : Whole message)
    (begins : taken <+: message) : taken = message := by
  obtain ⟨headerEnd, hend⟩ := Option.ne_none_iff_exists'.mp whole.ended
  have hmessage : find blankLine message = some headerEnd := by
    obtain ⟨rest, rfl⟩ := begins
    exact find_append hend rest
  have hinside : headerEnd + 4 ≤ taken.length := find_add_length_le hend
  have htaken := List.prefix_iff_eq_take.mp begins
  have hlines : headLines taken = headLines message := by
    rw [htaken]
    exact beginning_head hmessage hinside
  have hlengths : (bodyOf taken).length = (bodyOf message).length := by
    have hsame : announcedLengths taken = announcedLengths message := by
      simp only [announcedLengths, headerFields, hlines]
    rw [whole.announced, h.announced] at hsame
    exact List.singleton_inj.mp hsame
  rw [bodyOf_length hend, bodyOf_length hmessage] at hlengths
  have hle := begins.length_le
  refine begins.eq_of_length ?_
  omega

theorem whole_written {line body : Bytes} {fields : List (Bytes × Bytes)}
    (version : ascii "HTTP/1.1 " <+: line)
    (lines : ∀ written ∈ line :: fields.map renderField, IsLine written ∧ written ≠ [])
    (names : ∀ field ∈ fields, IsName field.1)
    (announced : (fields.filter isContentLength).map (fun field => digitsValue (trimView field.2)) =
      [body.length]) :
    Whole (joinLines (line :: fields.map renderField) ++ crlf ++ body) := by
  obtain ⟨headEnd, hend, -, -⟩ := read_written (by simp) lines body
  have hhead := headLines_written (by simp) lines body
  refine ⟨by rw [hend]; nofun, ?_, ?_⟩
  · refine version.trans ?_
    rw [joinLines_cons, List.append_assoc, List.append_assoc, List.append_assoc]
    exact List.prefix_append _ _
  · rw [announcedLengths, bodyOf_written (by simp) lines, (startLine_headerFields hhead).2,
      fieldsOf_map_written names, List.filter_map, List.map_map]
    exact announced

theorem whole_toBytes {response : ResponseBuilding.HttpResponse}
    (h : ResponseRoundTrip.WellFormed response) : Whole response.toBytes := by
  rw [ResponseRoundTrip.toBytes_eq]
  refine whole_written ?_ (ResponseRoundTrip.written_lines h)
    (fun header hheader => (ResponseRoundTrip.mem_writtenHeaders h hheader).1) ?_
  · rw [ResponseRoundTrip.statusLine, List.append_assoc, List.append_assoc]
    exact List.prefix_append _ _
  · have hsent : (ResponseRoundTrip.sentHeaders response).filter isContentLength = [] := by
      refine List.filter_eq_nil_iff.mpr fun header hheader hlength => ?_
      have hother := List.of_mem_filter hheader
      rw [ResponseRoundTrip.contentLength_spelling] at hother
      rw [isContentLength] at hlength
      rw [hlength] at hother
      cases hother
    have hclose : (ResponseRoundTrip.closeHeader response).filter isContentLength = [] := by
      rw [ResponseRoundTrip.closeHeader]
      split_ifs
      · rfl
      · rfl
    have hown : isContentLength
        (ascii "Content-Length", toDecimal response.body.length) = true := by
      rfl
    rw [ResponseRoundTrip.writtenHeaders, List.filter_append, hsent, List.nil_append,
      List.filter_cons_of_pos hown, hclose, List.map_singleton, trimView_toDecimal,
      digitsValue_toDecimal]

theorem whole_responseText (order : IterationOrder Bytes Bytes)
    {response : ResponseParsing.HttpClientResponse} (h : DownstreamRoundTrip.Parsed response) :
    Whole (ResponseForwarding.responseText order response) := by
  have hfields : ∀ field ∈ passedOn (response.headers.iterate order) ++
      ResponseForwarding.ownFields response.body.length,
      IsField field ∧ ¬ crlf <:+: field.1 ∧ ¬ crlf <:+: field.2 := by
    intro field hfield
    cases List.mem_append.mp hfield with
    | inl hpassed =>
        exact h.fields _ (FirstWinsMap.mem_iterate.mp (List.mem_of_mem_filter hpassed))
    | inr hown => exact ResponseForwarding.isField_ownFields hown
  rw [ResponseForwarding.responseText_eq]
  refine whole_written ?_ (fun line hline => ?_) (fun field hfield => ?_) ?_
  · rw [ResponseForwarding.statusText, List.append_assoc, List.append_assoc]
    exact List.prefix_append _ _
  · cases List.mem_cons.mp hline with
    | inl hstatus =>
        rw [hstatus]
        exact ResponseForwarding.isLine_statusText h.trimmed h.noCrlf
    | inr hrest =>
        obtain ⟨field, hfield, hrender⟩ := List.mem_map.mp hrest
        obtain ⟨hisField, hname, hvalue⟩ := hfields field hfield
        rw [← hrender]
        exact isLine_renderField hisField hname hvalue
  · obtain ⟨hisField, -, -⟩ := hfields field hfield
    exact ⟨hisField.named, hisField.noColon, hisField.trimmed⟩
  · have hpassed : (passedOn (response.headers.iterate order)).filter isContentLength = [] := by
      refine List.filter_eq_nil_iff.mpr fun field hfield hlength => ?_
      have hkept := List.of_mem_filter hfield
      rw [isContentLength] at hlength
      simp [isHopByHopHeader, hlength] at hkept
    rw [List.filter_append, hpassed, List.nil_append]
    change [digitsValue (trimView (toDecimal response.body.length))] = _
    rw [trimView_toDecimal, digitsValue_toDecimal]

theorem whole_buildErrorResponse {statusCode : Nat} {statusText : Bytes}
    (unbroken : Unbroken statusText) (body : Bytes) :
    Whole (ProxyForwarding.buildErrorResponse statusCode statusText body) := by
  let fields : List (Bytes × Bytes) :=
    [(ascii "Content-Type", ascii "text/plain; charset=utf-8"),
      (ascii "Content-Length", toDecimal body.length), (ascii "Connection", ascii "close")]
  have hwritten : ProxyForwarding.buildErrorResponse statusCode statusText body =
      joinLines ((ascii "HTTP/1.1 " ++ toDecimal statusCode ++ ascii " " ++ statusText) ::
        fields.map renderField) ++ crlf ++ body := by
    have hcrlf : ascii "\r\n" = crlf := rfl
    have htype : ascii "Content-Type: text/plain; charset=utf-8\r\n" =
      renderField (ascii "Content-Type", ascii "text/plain; charset=utf-8") ++ crlf := rfl
    have hclose : ascii "Connection: close\r\n" =
      renderField (ascii "Connection", ascii "close") ++ crlf := rfl
    have hlength : ascii "Content-Length: " = ascii "Content-Length" ++ ascii ": " := rfl
    rw [ProxyForwarding.buildErrorResponse, htype, hclose, hlength, hcrlf]
    simp [fields, joinLines, renderField]
  have hline : Unbroken (ascii "HTTP/1.1 " ++ toDecimal statusCode ++ ascii " " ++ statusText) := by
    have hversion : Unbroken (ascii "HTTP/1.1 ") := by decide
    have hspace : Unbroken (ascii " ") := by decide
    simp only [unbroken_append]
    exact ⟨⟨⟨hversion, ResponseRoundTrip.unbroken_toDecimal _⟩, hspace⟩, unbroken⟩
  have hnames : ∀ field ∈ fields, IsName field.1 ∧ Unbroken field.1 ∧ Unbroken field.2 := by
    intro field hfield
    simp only [fields, List.mem_cons, List.not_mem_nil, or_false] at hfield
    have hlength : IsName (ascii "Content-Length") ∧ Unbroken (ascii "Content-Length") :=
      ⟨⟨by decide, by decide, by decide⟩, by decide⟩
    rcases hfield with rfl | rfl | rfl
    · exact ⟨⟨by decide, by decide, by decide⟩, by decide, by decide⟩
    · exact ⟨hlength.1, hlength.2, ResponseRoundTrip.unbroken_toDecimal _⟩
    · exact ⟨⟨by decide, by decide, by decide⟩, by decide, by decide⟩
  rw [hwritten]
  refine whole_written ?_ (fun line hmem => ?_) (fun field hfield => (hnames field hfield).1) ?_
  · rw [List.append_assoc, List.append_assoc]
    exact List.prefix_append _ _
  · cases List.mem_cons.mp hmem with
    | inl hstatus =>
        rw [hstatus]
        exact ⟨hline.isLine, by simp [ascii]⟩
    | inr hrest =>
        obtain ⟨field, hfield, hrender⟩ := List.mem_map.mp hrest
        obtain ⟨-, hname, hvalue⟩ := hnames field hfield
        have hseparator : Unbroken (ascii ": ") := by decide
        rw [← hrender]
        refine ⟨Unbroken.isLine ?_, by simp [renderField_eq]⟩
        simp only [renderField, unbroken_append]
        exact ⟨⟨hname, hseparator⟩, hvalue⟩
  · change [digitsValue (trimView (toDecimal body.length))] = _
    rw [trimView_toDecimal, digitsValue_toDecimal]

end ApiGateway.WholeMessages
