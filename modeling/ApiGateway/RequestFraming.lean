import ApiGateway.RequestParsing

/-! Where a request ends, when its header section says it more than once, in several
spellings, or not by a length. -/

namespace ApiGateway.RequestFraming
open ByteText HttpText CrlfLines MessageHeaders RequestParsing

def IsContentLength (field : Bytes × Bytes) : Prop :=
  caseInsensitiveEquals field.1 (ascii "content-length") = true

instance (field : Bytes × Bytes) : Decidable (IsContentLength field) :=
  inferInstanceAs (Decidable (_ = true))

def IsDigits (value : Bytes) : Prop := value ≠ [] ∧ value.all isdigit = true

/-- All that the header section says of the body is that it has this length. -/
structure OneLength (raw : Bytes) (length : Nat) : Prop where
  lengths : ∀ field ∈ headerFields raw, IsContentLength field →
    IsDigits field.2 ∧ digitsValue field.2 = length
  uncoded : ∀ field ∈ headerFields raw,
    caseInsensitiveEquals field.1 (ascii "transfer-encoding") = false

/-- What an accepted request says of its body is clear, and what is not clear is refused:
both exceptions of the parser are a `std::invalid_argument`. -/
structure ClearlyFramed (raw : Bytes) : Prop where
  accepted : ∀ order parsed requestBytes,
    tryParseRequest order raw = .ok (some parsed, requestBytes) →
      (∀ order', tryParseRequest order' raw = .ok (some parsed, requestBytes)) ∧
      OneLength raw parsed.body.text.length
  refused : (¬ ∃ length, OneLength raw length) → ∀ order, ∃ ex,
    tryParseRequest order raw = .error ex

/-- A value that is neither empty nor the length of a body within the limit. -/
def Unusable (value : Bytes) : Prop :=
  value ≠ [] ∧ (value.all isdigit = true → kMaxBodyLength < digitsValue value)

/-- The header section or the request line is too long, the request line or a header line
is malformed, or the first line of every spelling of `Content-Length` is unusable. -/
structure Refused (raw : Bytes) : Prop where
  wrong : ∃ headerEnd, find blankLine raw = some headerEnd ∧
    (kMaxHeaderSectionLength < headerEnd + 4 ∨
      kMaxRequestLineLength < (startLine raw).length ∨
      ¬ IsRequestLine (startLine raw) ∨
      (∃ line ∈ (headLines raw).tail, line ≠ [] ∧ fieldOf line = none) ∨
      (∃ field ∈ headerFields raw, IsContentLength field) ∧
        ∀ field ∈ FirstWinsMap.firsts (headerFields raw), IsContentLength field →
          Unusable field.2)

theorem mem_headers {order : IterationOrder Bytes Bytes} {fields : List (Bytes × Bytes)}
    {field : Bytes × Bytes} :
    field ∈ (FirstWinsMap.ofList fields).iterate order ↔ field ∈ FirstWinsMap.firsts fields := by
  rw [FirstWinsMap.mem_iterate, FirstWinsMap.entries_ofList]

theorem findHeader_contentLength (order : IterationOrder Bytes Bytes)
    (fields : List (Bytes × Bytes)) :
    (∃ field ∈ FirstWinsMap.firsts fields, IsContentLength field ∧
      findHeader order (.ofList fields) (ascii "content-length") = field.2) ∨
    (∀ field ∈ fields, ¬ IsContentLength field) ∧
      findHeader order (.ofList fields) (ascii "content-length") = [] := by
  unfold findHeader
  split
  · next field hfind =>
    have hmem := mem_headers.mp (List.mem_of_find?_eq_some hfind)
    have hname := List.find?_some hfind
    exact .inl ⟨field, hmem, hname, rfl⟩
  · next hnone =>
    refine .inr ⟨fun field hfield hname => ?_, rfl⟩
    have ⟨first, hfirst, hkey⟩ := FirstWinsMap.exists_mem_firsts hfield
    refine List.find?_eq_none.mp hnone first (mem_headers.mpr hfirst) ?_
    rw [hkey]
    exact hname

theorem contentLengthOf_oneLength (order : IterationOrder Bytes Bytes)
    {fields : List (Bytes × Bytes)} {length : Nat}
    (lengths : ∀ field ∈ fields, IsContentLength field →
      IsDigits field.2 ∧ digitsValue field.2 = length) :
    contentLengthOf order (.ofList fields) =
      if ∃ field ∈ fields, IsContentLength field then
        if length > kMaxBodyLength then .error (.requestRejected bodyTooLarge) else .ok length
      else .ok 0 := by
  rcases findHeader_contentLength order fields with ⟨field, hfield, hname, hvalue⟩ | ⟨hnone, hvalue⟩
  · have hmem := FirstWinsMap.mem_of_mem_firsts hfield
    have ⟨⟨hne, hdigits⟩, hlength⟩ := lengths field hmem hname
    rw [if_pos ⟨field, hmem, hname⟩, contentLengthOf, hvalue]
    simp only [hne, hdigits, Bool.true_eq_false, if_false, stoul, hlength]
    by_cases hfits : length < 2 ^ 64
    · rw [if_pos hfits]
    · have hlarge : length > kMaxBodyLength := by
        have hmax : kMaxBodyLength < 2 ^ 64 := by decide
        omega
      rw [if_neg hfits, if_pos hlarge]
  · have hno : ¬ ∃ field ∈ fields, IsContentLength field := by
      rintro ⟨field, hfield, hname⟩
      exact hnone field hfield hname
    rw [if_neg hno, contentLengthOf, hvalue]
    rfl

def frontOrder (entry : Bytes × Bytes) : IterationOrder Bytes Bytes where
  order entries := if entry ∈ entries then entry :: entries.erase entry else entries
  perm entries := by
    split_ifs with h
    · exact (List.perm_cons_erase h).symm
    · exact .refl _

theorem find?_frontOrder {fields : List (Bytes × Bytes)} {field : Bytes × Bytes}
    (h : field ∈ FirstWinsMap.firsts fields) (name : IsContentLength field) :
    ((FirstWinsMap.ofList fields).iterate (frontOrder field)).find? (fun e =>
      caseInsensitiveEquals e.1 (ascii "content-length")) = some field := by
  have hentries : field ∈ (FirstWinsMap.ofList fields).entries := by
    rw [FirstWinsMap.entries_ofList]
    exact h
  have hiterate : (FirstWinsMap.ofList fields).iterate (frontOrder field) =
      field :: (FirstWinsMap.ofList fields).entries.erase field := if_pos hentries
  rw [hiterate]
  exact List.find?_cons_of_pos name

theorem findHeader_frontOrder {fields : List (Bytes × Bytes)} {field : Bytes × Bytes}
    (h : field ∈ FirstWinsMap.firsts fields) (name : IsContentLength field) :
    findHeader (frontOrder field) (.ofList fields) (ascii "content-length") = field.2 := by
  rw [findHeader, find?_frontOrder h name]

theorem unusable_iff {order : IterationOrder Bytes Bytes} {headers : FirstWinsMap Bytes Bytes} :
    (∃ ex, contentLengthOf order headers = .error ex) ↔
      Unusable (findHeader order headers (ascii "content-length")) := by
  unfold contentLengthOf Unusable
  simp only
  constructor
  · rintro ⟨ex, h⟩
    split_ifs at h with hempty hdigits
    · refine ⟨hempty, fun hall => ?_⟩
      rw [hdigits] at hall
      cases hall
    · refine ⟨hempty, fun _ => ?_⟩
      split at h
      · next hnone =>
        unfold stoul at hnone
        split_ifs at hnone with hfits
        have hmax : kMaxBodyLength < 2 ^ 64 := by decide
        omega
      · next contentLength hsome =>
        unfold stoul at hsome
        split_ifs at hsome
        cases hsome
        split_ifs at h with hlarge
        exact hlarge
  · rintro ⟨hne, hlarge⟩
    rw [if_neg hne]
    by_cases hdigits : (findHeader order headers (ascii "content-length")).all isdigit = false
    · rw [if_pos hdigits]
      exact ⟨_, rfl⟩
    · have hvalue := hlarge (Bool.not_eq_false _ ▸ hdigits)
      rw [if_neg hdigits, stoul]
      split_ifs
      · simp only [if_pos hvalue]
        exact ⟨_, rfl⟩
      · exact ⟨_, rfl⟩

theorem unusable_in_every_order_iff (fields : List (Bytes × Bytes)) :
    (∀ order, ∃ ex, contentLengthOf order (.ofList fields) = .error ex) ↔
      (∃ field ∈ fields, IsContentLength field) ∧
        ∀ field ∈ FirstWinsMap.firsts fields, IsContentLength field → Unusable field.2 := by
  simp only [unusable_iff]
  constructor
  · intro h
    refine ⟨?_, fun field hfield hname => ?_⟩
    · by_contra hno
      rcases findHeader_contentLength default fields with ⟨field, hfield, hname, _⟩ | ⟨_, hvalue⟩
      · exact hno ⟨field, FirstWinsMap.mem_of_mem_firsts hfield, hname⟩
      · exact (h default).1 hvalue
    · have hvalue := h (frontOrder field)
      rwa [findHeader_frontOrder hfield hname] at hvalue
  · rintro ⟨⟨field, hfield, hname⟩, hall⟩ order
    rcases findHeader_contentLength order fields with ⟨first, hfirst, hname', hvalue⟩ | ⟨hnone, _⟩
    · rw [hvalue]
      exact hall first hfirst hname'
    · exact absurd hname (hnone field hfield)

theorem lines_head {raw : Bytes} {headerEnd : Nat} (h : find blankLine raw = some headerEnd) :
    lines (raw.take headerEnd) = headLines raw := by
  simp only [headLines, h]

theorem parseHeaderLines_ok {raw : Bytes} {headers : FirstWinsMap Bytes Bytes}
    (ok : parseHeaderLines (headLines raw).tail .empty = .ok headers) :
    headers = .ofList (headerFields raw) :=
  headerLoop_ok ok

theorem tryParseRequest_congr {order order' : IterationOrder Bytes Bytes} {raw : Bytes}
    (same : contentLengthOf order' (.ofList (headerFields raw)) =
      contentLengthOf order (.ofList (headerFields raw))) :
    tryParseRequest order' raw = tryParseRequest order raw := by
  cases hend : find blankLine raw with
  | none => simp only [tryParseRequest, hend]
  | some headerEnd =>
      have hhead : parseHead order' (raw.take headerEnd) = parseHead order (raw.take headerEnd) := by
        rw [parseHead_eq, parseHead_eq, lines_head hend]
        cases hheaders : parseHeaderLines (headLines raw).tail .empty with
        | error ex => rfl
        | ok headers => simp only [parseHeaderLines_ok hheaders, same]
      simp only [tryParseRequest, hend, hhead]

theorem tryParseRequest_eq {raw : Bytes} {headerEnd : Nat} (order : IterationOrder Bytes Bytes)
    (ended : find blankLine raw = some headerEnd)
    (size : headerEnd + 4 ≤ kMaxHeaderSectionLength)
    (line : (startLine raw).length ≤ kMaxRequestLineLength) :
    tryParseRequest order raw =
      match parseRequestLine ⟨0, startLine raw⟩ with
      | .error ex => .error (.invalidArgument ex)
      | .ok request =>
          match parseHeaderLines (headLines raw).tail .empty with
          | .error ex => .error (.invalidArgument ex)
          | .ok headers =>
              match contentLengthOf order headers with
              | .error ex => .error ex
              | .ok contentLength =>
                  if raw.length < headerEnd + 4 + contentLength then
                    .ok (none, headerEnd + 4 + contentLength)
                  else
                    .ok (some ⟨request.method, request.path, request.query, request.version,
                      headers, ⟨headerEnd + 4, (raw.drop (headerEnd + 4)).take contentLength⟩⟩,
                      headerEnd + 4 + contentLength) := by
  have hsize : ¬ headerEnd + 4 > kMaxHeaderSectionLength := by omega
  have hline : ¬ ((headLines raw).headD []).length > kMaxRequestLineLength := by
    rw [startLine] at line
    omega
  simp only [tryParseRequest, ended, if_neg hsize, parseHead_eq, lines_head ended, if_neg hline]
  rw [startLine]
  cases parseRequestLine ⟨0, (headLines raw).headD []⟩ with
  | error ex => rfl
  | ok request =>
      cases parseHeaderLines (headLines raw).tail .empty with
      | error ex => rfl
      | ok headers =>
          simp only
          cases contentLengthOf order headers with
          | error ex => rfl
          | ok contentLength => rfl

theorem unread_of_error {raw : Bytes} {ex : InvalidArgument}
    (h : parseHeaderLines (headLines raw).tail .empty = .error ex) :
    ∃ line ∈ (headLines raw).tail, line ≠ [] ∧ fieldOf line = none := by
  by_contra hnone
  have hread : ∀ line ∈ (headLines raw).tail, line ≠ [] → fieldOf line ≠ none :=
    fun line hline hne hfield => hnone ⟨line, hline, hne, hfield⟩
  rw [parseHeaderLines, headerLoop_read hread] at h
  cases h

theorem error_within_iff {order : IterationOrder Bytes Bytes} {raw : Bytes}
    {headerEnd : Nat} (ended : find blankLine raw = some headerEnd)
    (size : headerEnd + 4 ≤ kMaxHeaderSectionLength)
    (line : (startLine raw).length ≤ kMaxRequestLineLength) :
    (∃ ex, tryParseRequest order raw = .error ex) ↔
      ¬ IsRequestLine (startLine raw) ∨
        (∃ line ∈ (headLines raw).tail, line ≠ [] ∧ fieldOf line = none) ∨
        ∃ ex, contentLengthOf order (.ofList (headerFields raw)) = .error ex := by
  rw [tryParseRequest_eq order ended size line]
  have hrequest : (∃ request, parseRequestLine ⟨0, startLine raw⟩ = .ok request) ↔
      IsRequestLine (startLine raw) := parseRequestLine_isOk_iff
  cases hparsed : parseRequestLine ⟨0, startLine raw⟩ with
  | error ex =>
      rw [hparsed] at hrequest
      have hnot : ¬ IsRequestLine (startLine raw) := fun h => by
        obtain ⟨_, hok⟩ := hrequest.mpr h
        cases hok
      exact iff_of_true ⟨.invalidArgument ex, rfl⟩ (.inl hnot)
  | ok request =>
      have hwell := hrequest.mp ⟨request, hparsed⟩
      cases hheaders : parseHeaderLines (headLines raw).tail .empty with
      | error ex =>
          exact iff_of_true ⟨.invalidArgument ex, rfl⟩ (.inr (.inl (unread_of_error hheaders)))
      | ok headers =>
          have hread := read_of_headerLoop_ok hheaders
          simp only [parseHeaderLines_ok hheaders]
          cases hlength : contentLengthOf order (.ofList (headerFields raw)) with
          | error ex => exact iff_of_true ⟨ex, rfl⟩ (.inr (.inr ⟨ex, rfl⟩))
          | ok contentLength =>
              constructor
              · rintro ⟨ex', h⟩
                simp only at h
                split_ifs at h
              · rintro (hnot | ⟨line, hmem, hne, hnone⟩ | ⟨ex', h⟩)
                · exact absurd hwell hnot
                · exact absurd hnone (hread line hmem hne)
                · cases h

theorem error_iff {order : IterationOrder Bytes Bytes} {raw : Bytes} :
    (∃ ex, tryParseRequest order raw = .error ex) ↔
      ∃ headerEnd, find blankLine raw = some headerEnd ∧
        (kMaxHeaderSectionLength < headerEnd + 4 ∨
          kMaxRequestLineLength < (startLine raw).length ∨
          ¬ IsRequestLine (startLine raw) ∨
          (∃ line ∈ (headLines raw).tail, line ≠ [] ∧ fieldOf line = none) ∨
          ∃ ex, contentLengthOf order (.ofList (headerFields raw)) = .error ex) := by
  cases hend : find blankLine raw with
  | none => simp [tryParseRequest, hend]
  | some headerEnd =>
      simp only [Option.some.injEq, exists_eq_left']
      by_cases hsize : headerEnd + 4 > kMaxHeaderSectionLength
      · simp only [tryParseRequest, hend, if_pos hsize]
        exact iff_of_true ⟨_, rfl⟩ (.inl hsize)
      by_cases hline : (startLine raw).length > kMaxRequestLineLength
      · have hlong : ((headLines raw).headD []).length > kMaxRequestLineLength := hline
        simp only [tryParseRequest, hend, if_neg hsize, parseHead_eq, lines_head hend,
          if_pos hlong]
        exact iff_of_true ⟨_, rfl⟩ (.inr (.inl hline))
      rw [error_within_iff hend (by omega) (by omega), or_iff_right hsize, or_iff_right hline]

theorem refused_iff (raw : Bytes) :
    (∀ order, ∃ ex, tryParseRequest order raw = .error ex) ↔ Refused raw := by
  constructor
  · intro h
    obtain ⟨headerEnd, hend, _⟩ := error_iff.mp (h default)
    refine ⟨headerEnd, hend, ?_⟩
    -- What does not depend on the order is at fault in all of them, or the value is.
    by_cases hvalue : ∀ order, ∃ ex, contentLengthOf order (.ofList (headerFields raw)) = .error ex
    · exact .inr (.inr (.inr (.inr ((unusable_in_every_order_iff _).mp hvalue))))
    · obtain ⟨order, hok⟩ := not_forall.mp hvalue
      obtain ⟨headerEnd', hend', hwrong⟩ := error_iff.mp (h order)
      cases hend.symm.trans hend'
      rcases hwrong with hsize | hline | hnot | hread | herror
      · exact .inl hsize
      · exact .inr (.inl hline)
      · exact .inr (.inr (.inl hnot))
      · exact .inr (.inr (.inr (.inl hread)))
      · exact absurd herror hok
  · rintro ⟨headerEnd, hend, hwrong⟩ order
    refine error_iff.mpr ⟨headerEnd, hend, ?_⟩
    rcases hwrong with hsize | hline | hnot | hread | hvalues
    · exact .inl hsize
    · exact .inr (.inl hline)
    · exact .inr (.inr (.inl hnot))
    · exact .inr (.inr (.inr (.inl hread)))
    · exact .inr (.inr (.inr (.inr ((unusable_in_every_order_iff _).mpr hvalues order))))

theorem accepted_length {order : IterationOrder Bytes Bytes} {raw : Bytes}
    {parsed : ParsedRequestView} {requestBytes : Nat}
    (ok : tryParseRequest order raw = .ok (some parsed, requestBytes)) :
    contentLengthOf order (.ofList (headerFields raw)) = .ok parsed.body.text.length := by
  unfold tryParseRequest at ok
  split at ok
  · cases ok
  · next headerEnd hend =>
    split_ifs at ok
    split at ok
    · cases ok
    · next head hhead =>
      simp only at ok
      split_ifs at ok with hshort
      · cases ok
      cases ok
      rw [parseHead_eq, lines_head hend] at hhead
      split_ifs at hhead
      split at hhead
      · cases hhead
      · split at hhead
        · cases hhead
        · next headers hheaders =>
          split at hhead
          · cases hhead
          · next contentLength hlength =>
            cases hhead
            have hlen : ((raw.drop (headerEnd + 4)).take contentLength).length =
                contentLength := by
              rw [List.length_take, List.length_drop]
              simp only at hshort
              omega
            rw [← parseHeaderLines_ok hheaders, hlength, hlen]

/-- A request is framed clearly exactly when its header section gives one length and no
transfer coding, or the parser refuses it in any case. -/
theorem clearlyFramed_iff (raw : Bytes) :
    ClearlyFramed raw ↔ (∃ length, OneLength raw length) ∨ Refused raw := by
  constructor
  · intro h
    by_cases hone : ∃ length, OneLength raw length
    · exact .inl hone
    · exact .inr ((refused_iff raw).mp (h.refused hone))
  · rintro (⟨length, hone⟩ | hrefusal)
    · refine ⟨fun order parsed requestBytes ok => ⟨fun order' => ?_, ?_⟩, fun hnone =>
        absurd ⟨length, hone⟩ hnone⟩
      · rw [← ok]
        refine tryParseRequest_congr ?_
        rw [contentLengthOf_oneLength order' hone.lengths,
          contentLengthOf_oneLength order hone.lengths]
      · refine ⟨fun field hfield hname => ?_, hone.uncoded⟩
        have hlength := accepted_length ok
        rw [contentLengthOf_oneLength order hone.lengths, if_pos ⟨field, hfield, hname⟩] at hlength
        split_ifs at hlength
        rw [← Except.ok.inj hlength]
        exact hone.lengths field hfield hname
    · have hrefused := (refused_iff raw).mpr hrefusal
      refine ⟨fun order parsed requestBytes ok => ?_, fun _ => hrefused⟩
      have ⟨ex, hex⟩ := hrefused order
      rw [ok] at hex
      cases hex

def twoSpellings : Bytes :=
  ascii "POST / HTTP/1.1\r\nContent-Length: 1\r\ncontent-length: 2\r\n\r\nab"

def reversed : IterationOrder Bytes Bytes := ⟨List.reverse, List.reverse_perm⟩

theorem twoSpellings_not_clear :
    ¬ ClearlyFramed twoSpellings ∧
      (tryParseRequest default twoSpellings).toOption.map Prod.snd = some 58 ∧
      (tryParseRequest reversed twoSpellings).toOption.map Prod.snd = some 59 := by
  have hdefault : (tryParseRequest default twoSpellings).toOption.map Prod.snd = some 58 := by
    decide
  have hno : ¬ ∃ length, OneLength twoSpellings length := by
    rintro ⟨length, hone⟩
    have hfirst := (hone.lengths (ascii "Content-Length", ascii "1") (by decide) (by decide)).2
    have hsecond := (hone.lengths (ascii "content-length", ascii "2") (by decide) (by decide)).2
    have hdiffer : digitsValue (ascii "1") ≠ digitsValue (ascii "2") := by decide
    exact hdiffer (hfirst.trans hsecond.symm)
  refine ⟨fun h => ?_, hdefault, by decide⟩
  have ⟨ex, hex⟩ := h.refused hno default
  rw [hex] at hdefault
  cases hdefault

end ApiGateway.RequestFraming
