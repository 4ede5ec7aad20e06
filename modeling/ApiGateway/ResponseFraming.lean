import ApiGateway.RequestFraming
import ApiGateway.ResponseParsing

/-! Where a response ends: by the method it answers, its status, its header section, and
the close of the connection. The rule is stated apart from the client, whose parser is
then set against it on every beginning of a stream. -/

namespace ApiGateway.ResponseFraming
open ByteText HttpText CrlfLines MessageHeaders ResponseParsing
open RequestFraming (IsContentLength IsDigits lines_head frontOrder)

def hexValue (b : UInt8) : Option Nat :=
  if isdigit b then some (b.toNat - 48)
  else if 97 ≤ tolower b ∧ tolower b ≤ 102 then some ((tolower b).toNat - 87)
  else none

/-- A chunk's first line; what follows a semicolon is an extension. -/
def chunkSize (line : Bytes) : Option Nat :=
  let digits := trimView (before 59 line)
  if digits = [] then none
  else digits.foldlM (fun n b => (hexValue b).map fun digit => 16 * n + digit) 0

def dechunkLoop : Nat → Bytes → Option Bytes
  | 0, _ => none
  | fuel + 1, coded =>
      match find crlf coded with
      | none => none
      | some lineEnd =>
          match chunkSize (coded.take lineEnd) with
          | none => none
          | some 0 => if (find blankLine (coded.drop lineEnd)).isSome then some [] else none
          | some (size + 1) =>
              let chunk := coded.drop (lineEnd + 2)
              if (chunk.drop (size + 1)).take 2 = crlf then
                (dechunkLoop fuel (chunk.drop (size + 3))).map (chunk.take (size + 1) ++ ·)
              else none

def dechunk (coded : Bytes) : Option Bytes := dechunkLoop coded.length coded

inductive Framing where
  | bodiless
  | chunked
  | length (count : Nat)
  | untilClose
  | invalid
  deriving DecidableEq

/-- The body, if all of it is among the bytes behind the head. -/
def Framing.body (behindHead : Bytes) (closed : Bool) : Framing → Option Bytes
  | .bodiless => some []
  | .chunked => dechunk behindHead
  | .length count => if behindHead.length < count then none else some (behindHead.take count)
  | .untilClose => if closed then some behindHead else none
  | .invalid => none

instance (value : Bytes) : Decidable (IsDigits value) := inferInstanceAs (Decidable (_ ∧ _))

def IsChunked (field : Bytes × Bytes) : Prop :=
  caseInsensitiveEquals field.1 (ascii "transfer-encoding") = true ∧
    ∃ coding ∈ field.2.splitOn 44, caseInsensitiveEquals (trimView coding) (ascii "chunked") = true

instance (field : Bytes × Bytes) : Decidable (IsChunked field) :=
  inferInstanceAs (Decidable (_ ∧ _))

def framing (method : HttpMethod) (statusCode : Nat) (fields : List (Bytes × Bytes)) : Framing :=
  if method = .HEAD ∨ statusCode = 204 ∨ statusCode = 304 then .bodiless
  else if ∃ field ∈ fields, IsChunked field then .chunked
  else
    match fields.filter fun field => IsContentLength field with
    | [] => .untilClose
    | first :: rest =>
        if ∀ field ∈ first :: rest, IsDigits field.2 ∧ digitsValue field.2 = digitsValue first.2
        then .length (digitsValue first.2)
        else .invalid

def statusOf (message : Bytes) : Nat := digitsValue (secondPart (startLine message))

def framingOf (method : HttpMethod) (message : Bytes) : Framing :=
  framing method (statusOf message) (headerFields message)

def IsInterim (statusCode : Nat) : Prop := 100 ≤ statusCode ∧ statusCode < 200

instance (statusCode : Nat) : Decidable (IsInterim statusCode) :=
  inferInstanceAs (Decidable (_ ∧ _))

def IsHead (message : Bytes) : Prop :=
  (32 ∈ startLine message ∧ IsDigits (secondPart (startLine message)) ∧
    statusOf message < 2 ^ 31) ∧
  ∀ line ∈ (headLines message).tail, line ≠ [] → fieldOf line ≠ none

instance (message : Bytes) : Decidable (IsHead message) := inferInstanceAs (Decidable (_ ∧ _))

/-- The stream from the final response on, once its head is there. -/
def finalMessage (stream : Bytes) : Option Bytes :=
  match hend : find blankLine stream with
  | none => none
  | some headerEnd =>
      if IsHead stream then
        if IsInterim (statusOf stream) then finalMessage (stream.drop (headerEnd + 4))
        else some stream
      else none
termination_by stream.length
decreasing_by
  have hlength : headerEnd + 4 ≤ stream.length := find_add_length_le hend
  rw [List.length_drop]
  omega

/-- The status and the body of the final response, once it is fully received. -/
def received (method : HttpMethod) (stream : Bytes) (closed : Bool) : Option (Nat × Bytes) :=
  (finalMessage stream).bind fun message =>
    ((framingOf method message).body (bodyOf message) closed).map fun body =>
      (statusOf message, body)

theorem dechunkLoop_length {fuel : Nat} {coded body : Bytes}
    (h : dechunkLoop fuel coded = some body) : body.length < coded.length := by
  induction fuel generalizing coded body with
  | zero => cases h
  | succ fuel ih =>
      rw [dechunkLoop] at h
      split at h
      · cases h
      · next lineEnd hline =>
        have hcrlf : lineEnd + 2 ≤ coded.length := find_add_length_le hline
        split at h
        · cases h
        · split_ifs at h
          cases h
          rw [List.length_nil]
          omega
        · next size hsize =>
          simp only at h
          split_ifs at h with hend
          have ⟨later, hlater, hbody⟩ := Option.map_eq_some_iff.mp h
          have hshort := ih hlater
          rw [← hbody, List.length_append]
          rw [List.length_drop, List.length_drop] at hshort
          have htake := List.length_take_le (size + 1) (coded.drop (lineEnd + 2))
          omega

theorem dechunk_length {coded body : Bytes} (h : dechunk coded = some body) :
    body.length < coded.length :=
  dechunkLoop_length h

example : dechunk (ascii "5;a=b\r\nhello\r\n1\r\n!\r\n0\r\nX-a: 1\r\n\r\n") =
    some (ascii "hello!") := by
  decide

theorem finalMessage_eq {stream : Bytes} {headerEnd : Nat}
    (ended : find blankLine stream = some headerEnd) :
    finalMessage stream =
      if IsHead stream then
        if IsInterim (statusOf stream) then finalMessage (stream.drop (headerEnd + 4))
        else some stream
      else none := by
  rw [finalMessage]
  split
  · next hnone =>
    rw [ended] at hnone
    cases hnone
  · next headerEnd' hend =>
    rw [ended] at hend
    cases hend
    rfl

theorem finalMessage_of_not_ended {stream : Bytes} (h : find blankLine stream = none) :
    finalMessage stream = none := by
  rw [finalMessage]
  split
  · rfl
  · next hend =>
    rw [h] at hend
    cases hend

theorem finalMessage_not_interim {stream message : Bytes} (h : finalMessage stream = some message) :
    ¬ IsInterim (statusOf message) := by
  induction stream using finalMessage.induct with
  | case1 stream hnone =>
      rw [finalMessage_of_not_ended hnone] at h
      cases h
  | case2 stream headerEnd hend hhead hinterim ih =>
      rw [finalMessage_eq hend, if_pos hhead, if_pos hinterim] at h
      exact ih h
  | case3 stream headerEnd hend hhead hfinal =>
      rw [finalMessage_eq hend, if_pos hhead, if_neg hfinal] at h
      cases h
      exact hfinal
  | case4 stream headerEnd hend hhead =>
      rw [finalMessage_eq hend, if_neg hhead] at h
      cases h

theorem received_head {method : HttpMethod} {stream : Bytes} {closed : Bool}
    (h : received method stream closed ≠ none) :
    (∃ headerEnd, find blankLine stream = some headerEnd) ∧ IsHead stream := by
  rw [received] at h
  cases hend : find blankLine stream with
  | none =>
      rw [finalMessage_of_not_ended hend] at h
      exact absurd rfl h
  | some headerEnd =>
      rw [finalMessage_eq hend] at h
      split_ifs at h with hhead
      · exact ⟨⟨_, rfl⟩, hhead⟩
      · exact ⟨⟨_, rfl⟩, hhead⟩
      · exact absurd rfl h

theorem received_final (method : HttpMethod) {stream : Bytes} (closed : Bool) {headerEnd : Nat}
    (ended : find blankLine stream = some headerEnd) (head : IsHead stream)
    (final : ¬ IsInterim (statusOf stream)) :
    received method stream closed =
      ((framingOf method stream).body (bodyOf stream) closed).map fun body =>
        (statusOf stream, body) := by
  rw [received, finalMessage_eq ended, if_pos head, if_neg final, Option.bind_some]

theorem same_head {message message' : Bytes} (same : headLines message = headLines message') :
    startLine message = startLine message' ∧ headerFields message = headerFields message' ∧
      statusOf message = statusOf message' ∧ (IsHead message ↔ IsHead message') ∧
      ∀ method, framingOf method message = framingOf method message' := by
  have hstart : startLine message = startLine message' := by rw [startLine, startLine, same]
  have hfields : headerFields message = headerFields message' := by
    rw [headerFields, headerFields, same]
  have hstatus : statusOf message = statusOf message' := by rw [statusOf, statusOf, hstart]
  refine ⟨hstart, hfields, hstatus, ?_, fun method => ?_⟩
  · rw [IsHead, IsHead, hstart, hstatus, same]
  · rw [framingOf, framingOf, hstatus, hfields]

section Beginnings

variable {stream : Bytes} {headerEnd n : Nat} (ended : find blankLine stream = some headerEnd)
include ended

theorem beginning_unended (h : n < headerEnd + 4) : find blankLine (stream.take n) = none := by
  cases hend : find blankLine (stream.take n) with
  | none => rfl
  | some headerEnd' =>
      have hlength : headerEnd' + 4 ≤ (stream.take n).length := find_add_length_le hend
      have hwhole := find_append hend (stream.drop n)
      rw [List.take_append_drop, ended] at hwhole
      cases hwhole
      rw [List.length_take] at hlength
      omega

theorem beginning_ended (h : headerEnd + 4 ≤ n) :
    find blankLine (stream.take n) = some headerEnd := by
  have hlength : headerEnd + 4 ≤ stream.length := find_add_length_le ended
  refine find_of_append (t := stream.drop n) (by rw [List.take_append_drop, ended]) ?_
  rw [List.length_take]
  exact le_min h hlength

theorem beginning_head (h : headerEnd + 4 ≤ n) : headLines (stream.take n) = headLines stream := by
  simp only [headLines, ended, beginning_ended ended h]
  rw [List.take_take, Nat.min_eq_left (by omega)]

theorem beginning_body (h : headerEnd + 4 ≤ n) :
    bodyOf (stream.take n) = (bodyOf stream).take (n - (headerEnd + 4)) := by
  simp only [bodyOf, ended, beginning_ended ended h]
  rw [List.drop_take]

theorem bodyOf_length : (bodyOf stream).length = stream.length - (headerEnd + 4) := by
  simp only [bodyOf, ended, List.length_drop]

theorem received_unended (method : HttpMethod) (closed : Bool) (h : n < headerEnd + 4) :
    received method (stream.take n) closed = none := by
  rw [received, finalMessage_of_not_ended (beginning_unended ended h), Option.bind_none]

theorem received_beginning (method : HttpMethod) (closed : Bool) (head : IsHead stream)
    (final : ¬ IsInterim (statusOf stream)) (h : headerEnd + 4 ≤ n) :
    received method (stream.take n) closed =
      ((framingOf method stream).body ((bodyOf stream).take (n - (headerEnd + 4))) closed).map
        fun body => (statusOf stream, body) := by
  obtain ⟨_, _, hstatus, hhead, hframing⟩ := same_head (beginning_head ended h)
  rw [received_final method closed (beginning_ended ended h) (hhead.mpr head)
    (by rw [hstatus]; exact final), hframing, hstatus, beginning_body ended h]

end Beginnings

theorem parseStatusLine_iff {message : Bytes} {result : Nat × Bytes} :
    parseStatusLine (startLine message) = .ok result ↔
      (32 ∈ startLine message ∧ IsDigits (secondPart (startLine message)) ∧
        statusOf message < 2 ^ 31) ∧ result = (statusOf message, thirdPart (startLine message)) := by
  rw [parseStatusLine_eq, IsDigits, statusOf, stoi]
  constructor
  · intro ok
    split_ifs at ok with hspaced hcode hfits
    rw [not_or, Bool.not_eq_false] at hcode
    cases ok
    exact ⟨⟨hspaced, hcode, hfits⟩, rfl⟩
  · rintro ⟨⟨hspaced, ⟨hne, hdigits⟩, hfits⟩, rfl⟩
    simp only [hspaced, hne, hdigits, hfits, not_true, Bool.true_eq_false, false_or, if_false,
      if_true]

theorem tryParseResponse_ok_iff {order : IterationOrder Bytes Bytes} {raw : Bytes}
    {headerEnd : Nat} (ended : find blankLine raw = some headerEnd)
    {result : Option HttpClientResponse} :
    tryParseResponse order raw = .ok result ↔
      IsHead raw ∧ ∃ length, contentLengthOf order (.ofList (headerFields raw)) = .ok length ∧
        result = if (bodyOf raw).length < length then none
          else some ⟨statusOf raw, trimView (thirdPart (startLine raw)),
            .ofList (headerFields raw), (bodyOf raw).take length⟩ := by
  constructor
  · intro ok
    simp only [tryParseResponse, ended, parseHead_eq, lines_head ended] at ok
    cases hstatus : parseStatusLine (startLine raw) with
    | error ex =>
        rw [startLine] at hstatus
        simp only [hstatus] at ok
        cases ok
    | ok status =>
        cases hfields : parseHeaderLines (headLines raw).tail .empty with
        | error ex =>
            rw [startLine] at hstatus
            simp only [hstatus, hfields] at ok
            cases ok
        | ok headers =>
            have hheaders : headers = .ofList (headerFields raw) := headerLoop_ok hfields
            cases hlength : contentLengthOf order headers with
            | error ex =>
                rw [startLine] at hstatus
                simp only [hstatus, hfields, hlength] at ok
                cases ok
            | ok length =>
                obtain ⟨hline, hparts⟩ := parseStatusLine_iff.mp hstatus
                refine ⟨⟨hline, read_of_headerLoop_ok hfields⟩, length, hheaders ▸ hlength, ?_⟩
                rw [startLine] at hstatus
                simp only [hstatus, hfields, hlength, hparts] at ok
                simp only [bodyOf, ended, List.length_drop, ← hheaders]
                split_ifs at ok ⊢
                · cases ok
                  rfl
                · cases ok
                  rfl
  · rintro ⟨⟨hline, hread⟩, length, hlength, hresult⟩
    have hnot : find blankLine raw ≠ none := by
      rw [ended]
      simp
    rw [tryParseResponse_of_parts hnot (parseStatusLine_iff.mpr ⟨hline, rfl⟩)
      (headerLoop_read hread .empty) hlength, hresult]
    split_ifs
    · rfl
    · rfl

end ApiGateway.ResponseFraming
