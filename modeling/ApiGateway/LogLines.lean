import ApiGateway.AsyncLogging
import ApiGateway.RequestDispatching
import ApiGateway.RequestForwarding

/-! What `writeRecords` makes of the records of served requests. A message of
`routeRequest` shows the path of its request as the client sent it, and a reader ends
a line at every LF. -/

namespace ApiGateway.LogLines
open ByteText HttpText CrlfLines MessageHeaders RequestParsing RequestReading
open RequestDispatching RequestForwarding AsyncLogging

structure Date where
  year : Nat
  month : Nat
  day : Nat
  deriving DecidableEq

def isLeap (year : Nat) : Bool := year % 4 = 0 && (year % 100 ≠ 0 || year % 400 = 0)

def daysIn (year month : Nat) : Nat :=
  if month = 2 then if isLeap year then 29 else 28
  else if month ∈ [4, 6, 9, 11] then 30
  else 31

def Date.next (date : Date) : Date :=
  if date.day < daysIn date.year date.month then { date with day := date.day + 1 }
  else if date.month < 12 then ⟨date.year, date.month + 1, 1⟩
  else ⟨date.year + 1, 1, 1⟩

/-- `std::tm`, its year and month as they are printed. -/
structure Tm where
  date : Date
  hour : Nat
  minute : Nat
  second : Nat
  deriving DecidableEq

/-- `gmtime_r`, day by day from the epoch. -/
def gmtime (timeT : Nat) : Tm :=
  ⟨Date.next^[timeT / 86400] ⟨1970, 1, 1⟩, timeT % 86400 / 3600, timeT % 3600 / 60, timeT % 60⟩

def filled (width n : Nat) : Bytes :=
  List.replicate (width - (toDecimal n).length) 48 ++ toDecimal n

/-- `std::put_time` with `"%Y-%m-%d %H:%M:%S"`. -/
def putTime (tm : Tm) : Bytes :=
  toDecimal tm.date.year ++ ascii "-" ++ filled 2 tm.date.month ++ ascii "-" ++
    filled 2 tm.date.day ++ ascii " " ++ filled 2 tm.hour ++ ascii ":" ++ filled 2 tm.minute ++
    ascii ":" ++ filled 2 tm.second

def formatTimestamp (timestamp : Nat) : Bytes :=
  let seconds := timestamp / 1000000
  let micros := timestamp % 1000000
  putTime (gmtime seconds) ++ ascii "." ++ filled 6 micros

example : formatTimestamp 5097600000042 = ascii "1970-03-01 00:00:00.000042" := by decide +kernel

def logLevelToString : LogLevel → Bytes
  | .INFO => ascii "INFO"
  | .WARN => ascii "WARN"
  | .ERROR => ascii "ERROR"

def stamp (record : LogRecord) : Bytes :=
  ascii "[" ++ formatTimestamp record.timestamp ++ ascii "] " ++
    ascii "[" ++ logLevelToString record.level ++ ascii "] "

def recordText (record : LogRecord) : Bytes :=
  stamp record ++
    (if record.requestId = [] then [] else ascii "[req_" ++ record.requestId ++ ascii "] ") ++
    record.message

def writeRecords (records : List LogRecord) : Bytes :=
  records.flatMap fun record => recordText record ++ ascii "\n"

def kRequestIdLength : Nat := 8

/-- `dist i` is what the generator draws for the digit at `i`. -/
def generateRequestId (dist : Nat → Fin 16) : Bytes :=
  (List.range kRequestIdLength).map fun i => JsonEscape.kHexDigits.getD (dist i) 0

section Routing

variable {ε : Type} (router : RouteTrie.Router (RouteHandler ε))
  (forward : RouteTrie.ProxyTarget → HttpRequest → Except (MiddlewareChain.Exception ε) Bytes)
  (order : IterationOrder Bytes Bytes)

/-- What `routeRequest` logs itself; nothing when it throws before. -/
def routeRequestMessage (x : Exchange) : Option Bytes :=
  let found := router.matchRoute x.request.method x.request.path
  if found.found = false then some (ascii "no route matched, path=" ++ x.request.path)
  else
    match routeRequest router forward order x with
    | (.error _, _) => none
    | (.ok _, after) =>
        if found.proxyTarget.isSome then
          some (ascii "response ready (proxied), path=" ++ after.request.path)
        else
          some (ascii "response ready, path=" ++ after.request.path ++ ascii " status=" ++
            toDecimal after.response.1.status)

end Routing

/-- The record that `routeRequest` leaves of a request read from these bytes. Whatever the
middleware does to the exchange, the path stays the parser's. -/
inductive Served : Bytes → LogRecord → Prop
  | of {ε : Type} {router : RouteTrie.Router (RouteHandler ε)}
      {forward : RouteTrie.ProxyTarget → HttpRequest → Except (MiddlewareChain.Exception ε) Bytes}
      {order parseOrder dispatchOrder : IterationOrder Bytes Bytes}
      {dist : Nat → Fin 16} {conn : Connection} {parsed : ParsedRequestView} {requestBytes : Nat}
      {x : Exchange} {message : Bytes} (timestamp : Nat)
      (identified : conn.requestId = generateRequestId dist)
      (accepted : tryParseRequest parseOrder conn.readBuffer = .ok (some parsed, requestBytes))
      (passed : x.request.path = (makeRequest (dispatchOf dispatchOrder conn parsed)).path)
      (logged : routeRequestMessage router forward order x = some message) :
      Served conn.readBuffer ⟨timestamp, .INFO, conn.requestId, message⟩

/-- Divided at LF, the batch has a line for each record, which begins with the record's own
timestamp and level, and nothing else. -/
def OneLineEach (batch : Bytes) (records : List LogRecord) : Prop :=
  ∃ lines, batch.splitOn 10 = lines ++ [[]] ∧
    List.Forall₂ (fun line record => stamp record <+: line) lines records

theorem not_mem_filled (width n : Nat) : 10 ∉ filled width n := by
  rw [filled, List.mem_append, not_or]
  refine ⟨fun hpad => ?_, not_mem_toDecimal (by decide) n⟩
  exact absurd (List.eq_of_mem_replicate hpad) (by decide)

theorem not_mem_stamp (record : LogRecord) : 10 ∉ stamp record := by
  have hyear := fun n => not_mem_toDecimal (b := 10) (by decide) n
  have hlevel : 10 ∉ logLevelToString record.level := by
    cases record.level <;> decide
  have hpunctuation : 10 ∉ ascii "[" ∧ 10 ∉ ascii "] " ∧ 10 ∉ ascii "-" ∧ 10 ∉ ascii " " ∧
      10 ∉ ascii ":" ∧ 10 ∉ ascii "." := by decide
  simp only [stamp, formatTimestamp, putTime, List.mem_append, not_or, hpunctuation, hlevel,
    hyear, not_mem_filled, not_false_eq_true, and_self]

theorem not_mem_generateRequestId (dist : Nat → Fin 16) : 10 ∉ generateRequestId dist := by
  intro hmem
  have ⟨i, _, hi⟩ := List.mem_map.mp hmem
  have hdigits : ∀ digit : Fin 16, JsonEscape.kHexDigits.getD digit 0 ≠ 10 := by decide
  exact hdigits (dist i) hi

theorem mem_recordText {record : LogRecord} {dist : Nat → Fin 16}
    (identified : record.requestId = generateRequestId dist) :
    10 ∈ recordText record ↔ 10 ∈ record.message := by
  have hid : 10 ∉ record.requestId := by
    rw [identified]
    exact not_mem_generateRequestId dist
  have hshown : 10 ∉ (if record.requestId = [] then [] else
      ascii "[req_" ++ record.requestId ++ ascii "] ") := by
    have hpunctuation : 10 ∉ ascii "[req_" ∧ 10 ∉ ascii "] " := by decide
    split_ifs
    · simp
    · simp only [List.mem_append, hpunctuation, hid, or_self, not_false_eq_true]
  simp only [recordText, List.mem_append, not_mem_stamp, hshown, false_or]

section Routing

variable {ε : Type} {router : RouteTrie.Router (RouteHandler ε)}
  {forward : RouteTrie.ProxyTarget → HttpRequest → Except (MiddlewareChain.Exception ε) Bytes}
  {order : IterationOrder Bytes Bytes}

theorem proxy_request (target : RouteTrie.ProxyTarget) (x : Exchange) :
    (proxy forward target x).2.request = x.request := by
  unfold proxy
  split
  · rfl
  · simp only
    split_ifs <;> rfl

theorem routeRequest_path (x : Exchange) :
    (routeRequest router forward order x).2.request.path = x.request.path := by
  by_cases hfound : (router.matchRoute x.request.method x.request.path).found = false
  · rw [routeRequest, if_pos hfound]
    rfl
  · have hhandled := congrArg HttpRequest.path (callHandler_request
      (router.matchRoute x.request.method x.request.path).handler { x with
        request := { x.request with
          params := (router.matchRoute x.request.method x.request.path).params } })
    rw [routeRequest, if_neg hfound]
    cases htarget : (router.matchRoute x.request.method x.request.path).proxyTarget with
    | some target => simp only [proxy_request]
    | none =>
        simp only
        split
        · next hhandler =>
          rw [hhandler] at hhandled
          exact hhandled
        · next hhandler =>
          rw [hhandler] at hhandled
          split_ifs
          · exact hhandled
          · exact hhandled

theorem mem_routeRequestMessage {x : Exchange} {message : Bytes}
    (logged : routeRequestMessage router forward order x = some message) :
    10 ∈ message ↔ 10 ∈ x.request.path := by
  have hpath := @routeRequest_path ε router forward order x
  by_cases hfound : (router.matchRoute x.request.method x.request.path).found = false
  · rw [routeRequestMessage, if_pos hfound, Option.some.injEq] at logged
    rw [← logged, List.mem_append, or_iff_right (by decide)]
  · rw [routeRequestMessage, if_neg hfound] at logged
    split at logged
    · cases logged
    · next after hrouted =>
      rw [hrouted] at hpath
      split_ifs at logged
      · rw [Option.some.injEq] at logged
        rw [← logged, ← hpath, List.mem_append, or_iff_right (by decide)]
      · rw [Option.some.injEq] at logged
        have hstatus := not_mem_toDecimal (b := 10) (by decide) after.response.1.status
        rw [← logged, ← hpath, List.mem_append, List.mem_append, List.mem_append,
          or_iff_left hstatus, or_iff_left (by decide), or_iff_right (by decide)]

end Routing

def pathOf (raw : Bytes) : Bytes := before 63 (secondPart (startLine raw))

theorem makeRequest_path {parseOrder dispatchOrder : IterationOrder Bytes Bytes} {conn : Connection}
    {parsed : ParsedRequestView} {requestBytes : Nat}
    (accepted : tryParseRequest parseOrder conn.readBuffer = .ok (some parsed, requestBytes)) :
    (makeRequest (dispatchOf dispatchOrder conn parsed)).path = pathOf conn.readBuffer := by
  have ⟨hpath, hquery, hbody⟩ := parsed_in accepted
  have ⟨_, _, target, htarget, hsplit⟩ := tryParseRequest_ok accepted
  have ⟨htext, _⟩ := splitTarget_text target
  rw [hsplit] at htext
  rw [makeRequest_dispatchOf hpath hquery hbody, pathOf, ← htarget, ← htext]
  rfl

theorem Served.mem {raw : Bytes} {record : LogRecord} (h : Served raw record) :
    10 ∈ recordText record ↔ 10 ∈ pathOf raw := by
  cases h with
  | of timestamp identified accepted passed logged =>
      rw [mem_recordText identified, mem_routeRequestMessage logged, passed,
        makeRequest_path accepted]

theorem mem_recordText_iff {raws : List Bytes} {records : List LogRecord}
    (served : List.Forall₂ Served raws records) :
    (∀ record ∈ records, 10 ∉ recordText record) ↔ ∀ raw ∈ raws, 10 ∉ pathOf raw := by
  induction served with
  | nil => simp
  | cons hserved _ ih => rw [List.forall_mem_cons, List.forall_mem_cons, hserved.mem, ih]

/-- The batch of the records of served requests has a line for each of them, with its own
timestamp and level, exactly when no path holds a line feed. -/
theorem one_line_each_iff (raws : List Bytes) (records : List LogRecord)
    (served : List.Forall₂ Served raws records) :
    OneLineEach (writeRecords records) records ↔ ∀ raw ∈ raws, 10 ∉ pathOf raw := by
  have hwritten : writeRecords records = endEach 10 (records.map recordText) := by
    rw [writeRecords, endEach, List.flatMap_map]
    rfl
  rw [← mem_recordText_iff served, hwritten]
  constructor
  · intro hlines
    obtain ⟨lines, hsplit, hstamped⟩ := hlines
    have hlength : ((endEach 10 (records.map recordText)).splitOn 10).length =
        (records.map recordText).length + 1 := by
      rw [hsplit, List.length_append, hstamped.length_eq, List.length_map]
      rfl
    exact fun record hrecord =>
      not_mem_of_length_splitOn hlength _ (List.mem_map_of_mem hrecord)
  · intro hclean
    refine ⟨records.map recordText, splitOn_endEach ?_, ?_⟩
    · exact List.forall_mem_map.mpr hclean
    rw [List.forall₂_map_left_iff, List.forall₂_same]
    intro record _
    rw [recordText, List.append_assoc]
    exact List.prefix_append _ _

theorem one_line_each_unmatched :
    let record : LogRecord :=
      ⟨0, .INFO, ascii "00000000", ascii "no route matched, path=/a"⟩
    OneLineEach (writeRecords [record]) [record] := by
  let conn : Connection := { Connection.fresh (ascii "00000000") with
    readBuffer := ascii "GET /a?b HTTP/1.1\r\n\r\n" }
  have hserved : ∃ parsed requestBytes,
      tryParseRequest default conn.readBuffer = .ok (some parsed, requestBytes) ∧
        routeRequestMessage (ε := Unit) .empty (fun _ _ => .ok []) default
          ⟨makeRequest (dispatchOf default conn parsed), ⟨.new, .new⟩, none⟩ =
            some (ascii "no route matched, path=/a") := ⟨_, _, rfl, rfl⟩
  obtain ⟨parsed, requestBytes, accepted, logged⟩ := hserved
  have hidentified : conn.requestId = generateRequestId fun _ => 0 := rfl
  exact (one_line_each_iff [conn.readBuffer] _
    (.cons (.of 0 hidentified accepted rfl logged) .nil)).mpr (by decide)

theorem path_forges_line :
    let conn : Connection := { Connection.fresh (ascii "00000000") with
      readBuffer := ascii "GET /\n[1970-01-01\t00:00:00.000001]\t[INFO]\tok HTTP/1.1\r\n\r\n" }
    let record : LogRecord := ⟨0, .INFO, ascii "00000000",
      ascii "no route matched, path=/\n[1970-01-01\t00:00:00.000001]\t[INFO]\tok"⟩
    Served conn.readBuffer record ∧
      (writeRecords [record]).splitOn 10 =
        [ascii "[1970-01-01 00:00:00.000000] [INFO] [req_00000000] no route matched, path=/",
          ascii "[1970-01-01\t00:00:00.000001]\t[INFO]\tok", []] ∧
      ¬ OneLineEach (writeRecords [record]) [record] := by
  intro conn record
  have hserved : ∃ parsed requestBytes,
      tryParseRequest default conn.readBuffer = .ok (some parsed, requestBytes) ∧
        routeRequestMessage (ε := Unit) .empty (fun _ _ => .ok []) default
          ⟨makeRequest (dispatchOf default conn parsed), ⟨.new, .new⟩, none⟩ =
            some record.message := ⟨_, _, rfl, rfl⟩
  obtain ⟨parsed, requestBytes, accepted, logged⟩ := hserved
  have hidentified : conn.requestId = generateRequestId fun _ => 0 := rfl
  have hsplit : (writeRecords [record]).splitOn 10 =
      [ascii "[1970-01-01 00:00:00.000000] [INFO] [req_00000000] no route matched, path=/",
        ascii "[1970-01-01\t00:00:00.000001]\t[INFO]\tok", []] := by decide +kernel
  refine ⟨.of 0 hidentified accepted rfl logged, hsplit, ?_⟩
  rintro ⟨lines, hlines, hstamped⟩
  have hlength := congrArg List.length hlines
  rw [hsplit, List.length_append, hstamped.length_eq] at hlength
  cases hlength

end ApiGateway.LogLines
