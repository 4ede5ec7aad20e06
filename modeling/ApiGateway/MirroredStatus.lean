import ApiGateway.ProxyForwarding
import ApiGateway.RequestDispatching

/-! The status that middleware sees of a proxied response. It is read back from three places
of the bytes that `forward` has written. -/

namespace ApiGateway.MirroredStatus
open ByteText HttpText MessageHeaders ResponseParsing ResponseForwarding RequestDispatching
open ProxyForwarding (badGateway gatewayTimeout buildErrorResponse)
open RequestReading (HttpRequest makeRequest)
open MiddlewareChain (Outcome)
open ResponseBuilding (setStatusCode_ok defaultReasonPhrase)
open ResponseRoundTrip (SetterCall)

def writtenStatus (wire : Bytes) : Nat := digitsValue (secondPart wire)

/-- The status code is read as it is, or as 0 where it is none that a response of the gateway
may have. -/
def ReadFaithfully (wire : Bytes) : Prop :=
  statusFromWire wire =
    if 100 ≤ writtenStatus wire ∧ writtenStatus wire ≤ 599 then writtenStatus wire else 0

/-- The status is read back, and once a proxy route has had this reply, the response that the
middleware sees has the status of the reply that the client is sent. -/
structure Faithful (wire : Bytes) : Prop where
  read : ReadFaithfully wire
  seen : ∀ {ε : Type} (router : RouteTrie.Router (RouteHandler ε))
    (forward : RouteTrie.ProxyTarget → HttpRequest → Except (MiddlewareChain.Exception ε) Bytes)
    (order : IterationOrder Bytes Bytes) (x : Exchange), Forwards router forward x.request wire →
      (routeRequest router forward order x).2.proxiedBytes = some wire ∧
      (routeRequest router forward order x).2.response.1.status = writtenStatus wire

def firstDigits (statusCode : Nat) : Nat := digitsValue ((toDecimal statusCode).take 3)

theorem toDecimal_of_ten_le {n : Nat} (h : 10 ≤ n) :
    ∃ digit, toDecimal n = toDecimal (n / 10) ++ [digit] := by
  refine ⟨UInt8.ofNat (n % 10).digitChar.toNat, ?_⟩
  rw [toDecimal, Nat.toDigits_of_base_le (by decide) h, List.map_append]
  rfl

theorem three_le_length {n : Nat} (h : 100 ≤ n) : 3 ≤ (toDecimal n).length := by
  by_contra hless
  have hsmall : n < 10 ^ 2 := (length_toDecimal_le_iff (by decide)).mp (by omega)
  omega

theorem take_toDecimal {n : Nat} (h : 100 ≤ n) :
    ∃ front, 100 ≤ front ∧ front ≤ 999 ∧ (toDecimal n).take 3 = toDecimal front := by
  induction n using Nat.strong_induction_on with
  | _ n ih =>
      by_cases hshort : n < 1000
      · have hlength : (toDecimal n).length ≤ 3 :=
          (length_toDecimal_le_iff (by decide)).mpr (by omega)
        exact ⟨n, h, by omega, List.take_of_length_le hlength⟩
      · obtain ⟨digit, hdigits⟩ := toDecimal_of_ten_le (by omega : 10 ≤ n)
        obtain ⟨front, hlow, hhigh, hfront⟩ := ih (n / 10) (by omega) (by omega)
        have hlong : 3 ≤ (toDecimal (n / 10)).length := three_le_length (by omega)
        refine ⟨front, hlow, hhigh, ?_⟩
        rw [hdigits, List.take_append_of_le_length hlong, hfront]

theorem firstDigits_low {n : Nat} (h : 100 ≤ n) : 100 ≤ firstDigits n := by
  obtain ⟨front, hlow, -, hfront⟩ := take_toDecimal h
  rw [firstDigits, hfront, digitsValue_toDecimal]
  exact hlow

theorem firstDigits_self {n : Nat} (h : n < 1000) : firstDigits n = n := by
  have hlength : (toDecimal n).length ≤ 3 := (length_toDecimal_le_iff (by decide)).mpr (by omega)
  rw [firstDigits, List.take_of_length_le hlength, digitsValue_toDecimal]

theorem take_three_not_digits {digits : Bytes} (h : digits.length ≤ 2) (rest : Bytes) :
    ((digits ++ 32 :: rest).take 3).all isdigit = false := by
  obtain ⟨more, hmore⟩ := Nat.exists_eq_add_of_le h
  have htake : (digits ++ 32 :: rest).take 3 = digits ++ 32 :: rest.take more := by
    rw [List.take_append, List.take_of_length_le (by omega),
      show 3 - digits.length = more + 1 by omega, List.take_succ_cons]
  rw [htake, List.all_eq_false]
  exact ⟨32, by simp, by decide⟩

theorem statusFromWire_written (statusCode : Nat) {rest : Bytes} (h : rest ≠ []) :
    statusFromWire (ascii "HTTP/1.1 " ++ toDecimal statusCode ++ ascii " " ++ rest) =
      if 100 ≤ statusCode ∧ firstDigits statusCode ≤ 599 then firstDigits statusCode else 0 := by
  have hwire : ascii "HTTP/1.1 " ++ toDecimal statusCode ++ ascii " " ++ rest =
      ascii "HTTP/1.1 " ++ (toDecimal statusCode ++ 32 :: rest) := by
    have hspace : ascii " " = [32] := rfl
    rw [hspace]
    simp
  have hdigits : 0 < (toDecimal statusCode).length :=
    List.length_pos_of_ne_nil (toDecimal_ne_nil statusCode)
  have hrest : 0 < rest.length := List.length_pos_of_ne_nil h
  have hlength : ¬ (ascii "HTTP/1.1 " ++ (toDecimal statusCode ++ 32 :: rest)).length < 12 := by
    have hfront : (ascii "HTTP/1.1 ").length = 9 := by decide
    rw [List.length_append, List.length_append, List.length_cons, hfront]
    omega
  have hversion : (ascii "HTTP/1.1 " ++ (toDecimal statusCode ++ 32 :: rest)).take 5 =
      ascii "HTTP/" := rfl
  have hspace : (ascii "HTTP/1.1 " ++ (toDecimal statusCode ++ 32 :: rest))[8]? = some 32 := rfl
  have hdrop : (ascii "HTTP/1.1 " ++ (toDecimal statusCode ++ 32 :: rest)).drop 9 =
      toDecimal statusCode ++ 32 :: rest := rfl
  have hread : ¬ ((ascii "HTTP/1.1 " ++ (toDecimal statusCode ++ 32 :: rest)).length < 12 ∨
      ascii "HTTP/" ≠ ascii "HTTP/" ∨ some (32 : UInt8) ≠ some 32) := by
    rintro (hshort | hother | hother)
    · exact hlength hshort
    · exact hother rfl
    · exact hother rfl
  rw [hwire, statusFromWire, hversion, hspace, hdrop, if_neg hread]
  by_cases hlong : 100 ≤ statusCode
  · have hall : ((toDecimal statusCode).take 3).all isdigit = true :=
      List.all_eq_true.mpr fun b hb => isdigit_of_mem_toDecimal (List.mem_of_mem_take hb)
    have hlow : 100 ≤ firstDigits statusCode := firstDigits_low hlong
    rw [List.take_append_of_le_length (three_le_length hlong), if_neg (by simp [hall])]
    change (if 100 ≤ firstDigits statusCode ∧ firstDigits statusCode ≤ 599 then
      firstDigits statusCode else 0) = _
    simp only [hlow, hlong, true_and]
  · have hless : (toDecimal statusCode).length ≤ 2 :=
      (length_toDecimal_le_iff (by decide)).mpr (by omega)
    have hnot := take_three_not_digits hless rest
    rw [if_pos hnot, if_neg fun hcode => hlong hcode.1]

theorem writtenStatus_written (statusCode : Nat) (rest : Bytes) :
    writtenStatus (ascii "HTTP/1.1 " ++ toDecimal statusCode ++ ascii " " ++ rest) =
      statusCode := by
  rw [writtenStatus, (statusLine_parts statusCode rest).1, digitsValue_toDecimal]

theorem readFaithfully_written_iff (statusCode : Nat) {rest : Bytes} (h : rest ≠ []) :
    ReadFaithfully (ascii "HTTP/1.1 " ++ toDecimal statusCode ++ ascii " " ++ rest) ↔
      statusCode < 1000 ∨ 600 ≤ firstDigits statusCode := by
  unfold ReadFaithfully
  rw [statusFromWire_written statusCode h, writtenStatus_written]
  by_cases hshort : statusCode < 1000
  · simp only [firstDigits_self hshort, hshort, true_or]
  · have hlow : 100 ≤ firstDigits statusCode := firstDigits_low (by omega)
    have hlong : 100 ≤ statusCode := by omega
    have hout : ¬ (100 ≤ statusCode ∧ statusCode ≤ 599) := by omega
    simp only [hlong, true_and, hshort, false_or]
    rw [if_neg (by omega : ¬ statusCode ≤ 599)]
    constructor
    · intro hzero
      by_contra hcut
      rw [if_pos (by omega)] at hzero
      omega
    · exact fun hhigh => if_neg (by omega)

theorem statusFromWire_range {wire : Bytes} (read : statusFromWire wire ≠ 0) :
    100 ≤ statusFromWire wire ∧ statusFromWire wire ≤ 599 := by
  unfold statusFromWire at read ⊢
  simp only at read ⊢
  split_ifs at read ⊢ with hshort hdigits hcode
  · exact absurd rfl read
  · exact absurd rfl read
  · exact hcode
  · exact absurd rfl read

theorem callAll_setStatus {ε : Type} (x : Exchange) {statusCode : Nat} (low : 100 ≤ statusCode)
    (high : statusCode ≤ 599) :
    (x.callAll [.setStatus statusCode] : Outcome ε × Exchange).2.response.1.status =
      statusCode := by
  have hset : (SetterCall.setStatus statusCode).result x.response.1 = .ok { x.response.1 with
      status := statusCode, reason := defaultReasonPhrase statusCode } :=
    setStatusCode_ok x.response.1 low high
  simp only [Exchange.callAll, RequestDispatching.callAll, hset, SetterCall.apply]

theorem status_of_forwards {ε : Type} {router : RouteTrie.Router (RouteHandler ε)}
    {forward : RouteTrie.ProxyTarget → HttpRequest → Except (MiddlewareChain.Exception ε) Bytes}
    {order : IterationOrder Bytes Bytes} {x : Exchange} {wire : Bytes}
    (forwards : Forwards router forward x.request wire) (read : statusFromWire wire ≠ 0) :
    (routeRequest router forward order x).2.response.1.status = statusFromWire wire := by
  obtain ⟨target, htarget, hforward⟩ := forwards
  obtain ⟨hlow, hhigh⟩ := statusFromWire_range read
  rw [routeRequest, if_neg (found_of_proxyTarget htarget)]
  simp only [htarget, proxy, hforward, if_pos read]
  exact callAll_setStatus _ hlow hhigh

theorem Faithful.range {wire : Bytes} (faithful : Faithful wire) :
    100 ≤ writtenStatus wire ∧ writtenStatus wire ≤ 599 := by
  let x : Exchange := ⟨makeRequest (getTask (ascii "/p")), ⟨.new, .new⟩, none⟩
  have hforwards : Forwards proxyRoutes (fun _ _ => .ok wire) x.request wire :=
    ⟨⟨ascii "10.0.0.1", 80⟩, by decide, rfl⟩
  have hseen := (faithful.seen proxyRoutes (fun _ _ => .ok wire) default x hforwards).2
  have hformed := (routeRequest proxyRoutes (fun _ _ => .ok wire) default x).2.response.2.wellFormed
  rw [← hseen]
  exact ⟨hformed.low, hformed.high⟩

theorem faithful_written_iff (statusCode : Nat) {rest : Bytes} (h : rest ≠ []) :
    Faithful (ascii "HTTP/1.1 " ++ toDecimal statusCode ++ ascii " " ++ rest) ↔
      100 ≤ statusCode ∧ statusCode ≤ 599 := by
  have hwritten := writtenStatus_written statusCode rest
  constructor
  · intro faithful
    have hrange := faithful.range
    rwa [hwritten] at hrange
  · rintro ⟨hlow, hhigh⟩
    have hread := statusFromWire_written statusCode h
    rw [firstDigits_self (by omega), if_pos ⟨hlow, hhigh⟩] at hread
    refine ⟨(readFaithfully_written_iff statusCode h).mpr (.inl (by omega)),
      fun router forward order x forwards => ⟨routeRequest_of_forwards forwards, ?_⟩⟩
    rw [status_of_forwards forwards (by omega), hread, hwritten]

theorem faithful_buildErrorResponse {statusCode : Nat} (low : 100 ≤ statusCode)
    (high : statusCode ≤ 599) (statusText body : Bytes) :
    Faithful (buildErrorResponse statusCode statusText body) := by
  have hrest : statusText ++ (ascii "\r\n" ++
      (ascii "Content-Type: text/plain; charset=utf-8\r\n" ++
        (ascii "Content-Length: " ++ (toDecimal body.length ++ (ascii "\r\n" ++
          (ascii "Connection: close\r\n" ++ (ascii "\r\n" ++ body))))))) ≠ [] := by
    simp [ascii]
  have hwritten := (faithful_written_iff statusCode hrest).mpr ⟨low, high⟩
  simpa only [buildErrorResponse, List.append_assoc] using hwritten

/-- For every response of an upstream, and every response that `forward` makes of its own. -/
theorem mirrored_status_iff (order : IterationOrder Bytes Bytes) (response : HttpClientResponse)
    (body : Bytes) :
    (Faithful (responseText order response) ↔
        100 ≤ response.statusCode ∧ response.statusCode ≤ 599) ∧
      Faithful (badGateway body) ∧ Faithful (gatewayTimeout body) := by
  refine ⟨?_, faithful_buildErrorResponse (by decide) (by decide) _ _,
    faithful_buildErrorResponse (by decide) (by decide) _ _⟩
  have hrest : (if response.reasonPhrase = [] then ascii "OK" else response.reasonPhrase) ++
      (ascii "\r\n" ++ (((response.headers.iterate order).flatMap fun e =>
        if isHopByHopHeader e.1 then [] else e.1 ++ ascii ": " ++ e.2 ++ ascii "\r\n") ++
          (ascii "Content-Length: " ++ (toDecimal response.body.length ++ (ascii "\r\n" ++
            (ascii "Connection: close\r\n" ++ (ascii "\r\n" ++ response.body))))))) ≠ [] := by
    simp [ascii]
  have hwritten := faithful_written_iff response.statusCode hrest
  simpa only [responseText, List.append_assoc] using hwritten

theorem mirrored_status_cut :
    (¬ ∀ (parseOrder order : IterationOrder Bytes Bytes) (raw : Bytes)
      (response : HttpClientResponse), tryParseResponse parseOrder raw = .ok (some response) →
        Faithful (responseText order response)) ∧
    ∀ code ∈ [999, 2000], ∃ response,
      tryParseResponse default (ascii "HTTP/1.1 " ++ toDecimal code ++
        ascii " Odd\r\nContent-Length: 0\r\n\r\n") = .ok (some response) ∧
      response.statusCode = code ∧
      (routeRequest proxyRoutes (fun _ _ => .ok (responseText default response)) default
        ⟨makeRequest (getTask (ascii "/p")), ⟨.new, .new⟩, none⟩).2.response.1.status = 200 := by
  let answer : Nat → HttpClientResponse := fun code =>
    ⟨code, ascii "Odd", .ofList [(ascii "Content-Length", ascii "0")], []⟩
  refine ⟨fun h => ?_, fun code hcode => ⟨answer code, ?_, rfl, ?_⟩⟩
  · have hfaithful := (h default default
      (ascii "HTTP/1.1 2000 Odd\r\nContent-Length: 0\r\n\r\n") (answer 2000) (by decide)).read
    revert hfaithful
    unfold ReadFaithfully
    decide
  · simp only [List.mem_cons, List.not_mem_nil, or_false] at hcode
    rcases hcode with rfl | rfl
    · decide
    · decide
  · simp only [List.mem_cons, List.not_mem_nil, or_false] at hcode
    rcases hcode with rfl | rfl
    · decide
    · decide

end ApiGateway.MirroredStatus
