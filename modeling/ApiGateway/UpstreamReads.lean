import ApiGateway.UpstreamClient

/-! The calls of `receive` over reads of an upstream's bytes: how they end, and what the
client has when it waits for more. -/

namespace ApiGateway.UpstreamReads
open ByteText HttpText CrlfLines ResponseParsing UpstreamClient

def Asked (order : IterationOrder Bytes Bytes) (method : HttpMethod) (client : HttpClient) : Prop :=
  ∃ connected path headers body prepared, connected.readBuffer = [] ∧
    HttpClient.prepareRequest order connected method path headers body = some prepared ∧
    client = prepared.onSent prepared.writeBuffer.length

/-- Reads of an upstream's bytes, up to some point or to the end of the connection. -/
structure Delivers (stream : Bytes) (results : List RecvResult) : Prop where
  chunks : ∀ chunk, .bytes chunk ∈ results → chunk ≠ [] ∧ chunk.length ≤ kReadChunkSize
  inOrder : receivedBytes results <+: stream
  closed : .closed ∈ results → receivedBytes results = stream
  last : ∀ result ∈ results.dropLast, result ≠ .closed ∧ result ≠ .failed

theorem Asked.receiving {order : IterationOrder Bytes Bytes} {method : HttpMethod}
    {client : HttpClient} (asked : Asked order method client) :
    client.state = .Receiving ∧ client.readBuffer = [] := by
  obtain ⟨connected, path, headers, body, prepared, hempty, hprepared, rfl⟩ := asked
  unfold HttpClient.prepareRequest at hprepared
  split_ifs at hprepared
  cases hprepared
  unfold HttpClient.onSent
  rw [if_neg (by simp)]
  exact ⟨rfl, hempty⟩

def asking (order : IterationOrder Bytes Bytes) (method : HttpMethod) : HttpClient :=
  ⟨some 0, .Receiving, [], [], (requestText order method [] [] .empty []).length, [], .empty⟩

theorem asked_asking (order : IterationOrder Bytes Bytes) (method : HttpMethod) :
    Asked order method (asking order method) := by
  refine ⟨⟨some 0, .Connected, [], [], 0, [], .empty⟩, [], .empty, [], _, rfl, rfl, ?_⟩
  simp [asking, HttpClient.onSent]

theorem exists_asked (order : IterationOrder Bytes Bytes) (method : HttpMethod) :
    ∃ client, Asked order method client :=
  ⟨_, asked_asking order method⟩

/-- What was read has been parsed with this result. -/
structure Parsed (order : IterationOrder Bytes Bytes) (buffer : Bytes)
    (result : Option HttpClientResponse) : Prop where
  size : buffer.length ≤ kMaxResponseSize
  headFits : ∀ headerEnd, find blankLine buffer = some headerEnd →
    headerEnd + 4 ≤ kMaxHeaderSectionLength + kReadChunkSize
  parsed : tryParseResponse order buffer = .ok result

inductive Outcome (order : IterationOrder Bytes Bytes) (client : HttpClient)
    (results : List RecvResult) : HttpClient → Prop where
  | waiting (opened : .closed ∉ results ∧ .failed ∉ results)
      (pending : Parsed order (client.readBuffer ++ receivedBytes results) none) :
      Outcome order client results
        { client with readBuffer := client.readBuffer ++ receivedBytes results }
  | failed {after : HttpClient} (state : after.state = .Failed) :
      Outcome order client results after
  | complete {after : HttpClient} {taken : Bytes} (state : after.state = .Complete)
      (inOrder : taken <+: client.readBuffer ++ receivedBytes results)
      (parsed : Parsed order taken (some after.response)) : Outcome order client results after

theorem parsed_nil (order : IterationOrder Bytes Bytes) : Parsed order [] none := by
  refine ⟨Nat.zero_le _, fun headerEnd h => ?_, rfl⟩
  cases h

theorem onReceived_spec (order : IterationOrder Bytes Bytes) {client : HttpClient} {chunk : Bytes}
    (pending : Parsed order client.readBuffer none) (short : chunk.length ≤ kReadChunkSize) :
    client.onReceived order chunk =
        { client with readBuffer := client.readBuffer ++ chunk, state := .Failed } ∨
      (Parsed order (client.readBuffer ++ chunk) none ∧
        client.onReceived order chunk = { client with readBuffer := client.readBuffer ++ chunk }) ∨
      ∃ response, Parsed order (client.readBuffer ++ chunk) (some response) ∧
        client.onReceived order chunk =
          { client with readBuffer := [], state := .Complete, response := response } := by
  have hhead : ∀ headerEnd, find blankLine (client.readBuffer ++ chunk) = some headerEnd →
      headerEnd + 4 ≤ kMaxHeaderSectionLength + kReadChunkSize := by
    intro headerEnd hend
    cases hbefore : find blankLine client.readBuffer with
    | none =>
        -- a header section that has not ended is short
        have hparsed := pending.parsed
        simp only [tryParseResponse, hbefore] at hparsed
        split_ifs at hparsed with hlarge
        have hlength : headerEnd + 4 ≤ (client.readBuffer ++ chunk).length :=
          find_add_length_le hend
        rw [List.length_append] at hlength
        omega
    | some headerEnd' =>
        rw [find_append hbefore chunk] at hend
        cases hend
        exact pending.headFits _ hbefore
  unfold HttpClient.onReceived
  simp only
  split_ifs with hlarge
  · exact .inl rfl
  · have hsize : (client.readBuffer ++ chunk).length ≤ kMaxResponseSize := Nat.not_lt.mp hlarge
    cases hparse : tryParseResponse order (client.readBuffer ++ chunk) with
    | error ex => exact .inl rfl
    | ok result =>
        cases result with
        | none => exact .inr (.inl ⟨⟨hsize, hhead, hparse⟩, rfl⟩)
        | some response => exact .inr (.inr ⟨response, ⟨hsize, hhead, hparse⟩, rfl⟩)

theorem onReceived_complete {order : IterationOrder Bytes Bytes} {client : HttpClient}
    {chunk : Bytes} (complete : (client.onReceived order chunk).state = .Complete)
    (receiving : client.state = .Receiving) :
    ∃ response, tryParseResponse order (client.readBuffer ++ chunk) = .ok (some response) := by
  rcases onReceived_cases order client chunk with hfail | hmore | ⟨response, hparse, _⟩
  · rw [hfail] at complete
    cases complete
  · rw [hmore] at complete
    simp [receiving] at complete
  · exact ⟨response, hparse⟩

theorem Outcome.prepend {order : IterationOrder Bytes Bytes} {client after : HttpClient}
    {result : RecvResult} {rest : List RecvResult} (chunk : Bytes)
    (goesOn : result ≠ .closed ∧ result ≠ .failed)
    (bytes : receivedBytes (result :: rest) = chunk ++ receivedBytes rest)
    (h : Outcome order { client with readBuffer := client.readBuffer ++ chunk } rest after) :
    Outcome order client (result :: rest) after := by
  have hbytes : client.readBuffer ++ receivedBytes (result :: rest) =
      client.readBuffer ++ chunk ++ receivedBytes rest := by
    rw [bytes, List.append_assoc]
  cases h with
  | waiting hopened hpending =>
      simp only at hpending ⊢
      rw [← hbytes] at hpending ⊢
      refine .waiting ⟨?_, ?_⟩ hpending
      · exact List.not_mem_cons_of_ne_of_not_mem goesOn.1.symm hopened.1
      · exact List.not_mem_cons_of_ne_of_not_mem goesOn.2.symm hopened.2
  | failed hstate => exact .failed hstate
  | complete hstate hin hparsed =>
      refine .complete hstate ?_ hparsed
      rw [hbytes]
      exact hin

theorem receive_outcome {order : IterationOrder Bytes Bytes} {client : HttpClient}
    {results : List RecvResult}
    (chunks : ∀ chunk, .bytes chunk ∈ results → chunk.length ≤ kReadChunkSize)
    (receiving : client.state = .Receiving) (pending : Parsed order client.readBuffer none) :
    Outcome order client results (client.receive order results) := by
  induction results generalizing client with
  | nil =>
      have hsame : client = { client with readBuffer := client.readBuffer ++ receivedBytes [] } := by
        rw [show receivedBytes [] = [] from rfl, List.append_nil]
      change Outcome order client [] client
      nth_rewrite 2 [hsame]
      refine .waiting ⟨by simp, by simp⟩ ?_
      rw [show receivedBytes [] = [] from rfl, List.append_nil]
      exact pending
  | cons result rest ih =>
      have hrest : ∀ chunk, .bytes chunk ∈ rest → chunk.length ≤ kReadChunkSize :=
        fun chunk hchunk => chunks chunk (by simp [hchunk])
      rw [HttpClient.receive, if_neg (not_not.mpr receiving)]
      cases result with
      | bytes chunk =>
          change Outcome _ _ _ (HttpClient.receive order (client.onReceived order chunk) rest)
          rcases onReceived_spec order pending (chunks chunk (by simp)) with
            hfail | ⟨hpending, hmore⟩ | ⟨response, hparsed, hdone⟩
          · rw [hfail, receive_of_not_receiving order (by simp)]
            exact .failed rfl
          · rw [hmore]
            have houtcome := @ih { client with readBuffer := client.readBuffer ++ chunk }
              hrest receiving hpending
            exact houtcome.prepend chunk (by simp) rfl
          · rw [hdone, receive_of_not_receiving order (by simp)]
            refine .complete rfl ?_ hparsed
            change client.readBuffer ++ chunk <+: client.readBuffer ++ (chunk ++ receivedBytes rest)
            rw [← List.append_assoc]
            exact List.prefix_append _ _
      | closed =>
          rw [receive_of_not_receiving order (by simp [HttpClient.onRecv])]
          exact .failed rfl
      | wouldBlock =>
          have houtcome := ih hrest receiving pending
          refine .prepend [] (by simp) rfl ?_
          rw [List.append_nil]
          exact houtcome
      | failed =>
          rw [receive_of_not_receiving order (by simp [HttpClient.onRecv])]
          exact .failed rfl

theorem receive_append (order : IterationOrder Bytes Bytes) (client : HttpClient)
    (results more : List RecvResult) :
    client.receive order (results ++ more) = (client.receive order results).receive order more := by
  induction results generalizing client with
  | nil => rfl
  | cons result rest ih =>
      by_cases hreceiving : client.state = .Receiving
      · have hgo : ∀ later, client.receive order (result :: later) =
            (client.onRecv order result).receive order later := by
          intro later
          rw [HttpClient.receive, if_neg (not_not.mpr hreceiving)]
        rw [List.cons_append, hgo, hgo, ih]
      · rw [receive_of_not_receiving order hreceiving, receive_of_not_receiving order hreceiving,
          receive_of_not_receiving order hreceiving]

structure Brings (stream : Bytes) (results : List RecvResult) (n : Nat) : Prop where
  chunks : ∀ chunk, .bytes chunk ∈ results → chunk ≠ [] ∧ chunk.length ≤ kReadChunkSize
  opened : .closed ∉ results ∧ .failed ∉ results
  bytes : receivedBytes results = stream.take n

theorem brings_nil (stream : Bytes) : Brings stream [] 0 :=
  ⟨fun _ h => absurd h List.not_mem_nil, by simp, rfl⟩

section Reading

variable {order : IterationOrder Bytes Bytes} {method : HttpMethod} {client : HttpClient}
  {stream : Bytes} {results : List RecvResult} {n q : Nat}

theorem Brings.more (brings : Brings stream results n) (later : n < q)
    (arrived : q ≤ stream.length) (short : q ≤ n + kReadChunkSize) :
    Brings stream (results ++ [.bytes ((stream.take q).drop n)]) q := by
  have hlength : ((stream.take q).drop n).length = q - n := by
    rw [List.length_drop, List.length_take, Nat.min_eq_left arrived]
  refine ⟨fun chunk hchunk => ?_, by simpa using brings.opened, ?_⟩
  · rcases List.mem_append.mp hchunk with hchunk | hchunk
    · exact brings.chunks chunk hchunk
    · have hsame : chunk = (stream.take q).drop n := by simpa using hchunk
      rw [hsame]
      refine ⟨fun hnil => ?_, by omega⟩
      rw [hnil, List.length_nil] at hlength
      omega
  · have hfirst : (stream.take q).take n = stream.take n := by
      rw [List.take_take, Nat.min_eq_left later.le]
    rw [receivedBytes, List.flatMap_append, ← receivedBytes, brings.bytes, ← hfirst]
    simp

theorem Brings.extend (brings : Brings stream results n) (later : n ≤ q)
    (arrived : q ≤ stream.length) : ∃ more, Brings stream (results ++ more) q := by
  induction q, later using Nat.le_induction with
  | base => exact ⟨[], by rwa [List.append_nil]⟩
  | succ q hle ih =>
      have ⟨more, hbrings⟩ := ih (by omega)
      refine ⟨more ++ [.bytes ((stream.take (q + 1)).drop q)], ?_⟩
      rw [← List.append_assoc]
      exact hbrings.more (by omega) arrived (by unfold kReadChunkSize; omega)

theorem Brings.delivers (brings : Brings stream results n) : Delivers stream results := by
  refine ⟨brings.chunks, ?_, fun h => absurd h brings.opened.1, fun result hresult => ?_⟩
  · rw [brings.bytes]
    exact List.take_prefix _ _
  · have hmem := List.mem_of_mem_dropLast hresult
    exact ⟨fun h => brings.opened.1 (h ▸ hmem), fun h => brings.opened.2 (h ▸ hmem)⟩

theorem Brings.delivers_closed (brings : Brings stream results stream.length) :
    Delivers stream (results ++ [.closed]) ∧ receivedBytes (results ++ [.closed]) = stream := by
  have hbytes : receivedBytes (results ++ [.closed]) = stream := by
    rw [receivedBytes, List.flatMap_append, ← receivedBytes, brings.bytes]
    simp
  refine ⟨⟨fun chunk hchunk => brings.chunks chunk (by simpa using hchunk), ?_, fun _ => hbytes,
    fun result hresult => ?_⟩, hbytes⟩
  · rw [hbytes]
  · rw [List.dropLast_concat] at hresult
    exact ⟨fun h => brings.opened.1 (h ▸ hresult), fun h => brings.opened.2 (h ▸ hresult)⟩

theorem take_append_of_prefix {chunk : Bytes} (arrived : n ≤ stream.length)
    (inOrder : stream.take n ++ chunk <+: stream) :
    n + chunk.length ≤ stream.length ∧
      stream.take n ++ chunk = stream.take (n + chunk.length) := by
  have hlength : (stream.take n ++ chunk).length = n + chunk.length := by
    rw [List.length_append, List.length_take, Nat.min_eq_left arrived]
  rw [← hlength]
  exact ⟨inOrder.length_le, List.prefix_iff_eq_take.mp inOrder⟩

theorem last_cons {result : RecvResult} {rest : List RecvResult}
    (last : ∀ r ∈ (result :: rest).dropLast, r ≠ .closed ∧ r ≠ .failed) :
    (∀ r ∈ rest.dropLast, r ≠ .closed ∧ r ≠ .failed) ∧
      (rest ≠ [] → result ≠ .closed ∧ result ≠ .failed) := by
  by_cases hrest : rest = []
  · rw [hrest]
    simp
  · rw [List.dropLast_cons_of_ne_nil hrest] at last
    exact ⟨fun r hr => last r (List.mem_cons_of_mem _ hr), fun _ => last result (by simp)⟩

theorem Delivers.bytes {results : List RecvResult} (delivers : Delivers stream results) :
    (receivedBytes results).length ≤ stream.length ∧
      receivedBytes results = stream.take (receivedBytes results).length :=
  ⟨delivers.inOrder.length_le, List.prefix_iff_eq_take.mp delivers.inOrder⟩

theorem Delivers.outcome {results : List RecvResult} (delivers : Delivers stream results)
    (asked : Asked order method client) :
    Outcome order client results (client.receive order results) := by
  refine receive_outcome (fun chunk h => (delivers.chunks chunk h).2) asked.receiving.1 ?_
  rw [asked.receiving.2]
  exact parsed_nil order

theorem Delivers.completed {results : List RecvResult} (delivers : Delivers stream results)
    (asked : Asked order method client)
    (complete : (client.receive order results).state = .Complete) :
    ∃ n ≤ (receivedBytes results).length,
      Parsed order (stream.take n) (some (client.receive order results).response) := by
  have houtcome := delivers.outcome asked
  generalize client.receive order results = after at houtcome complete ⊢
  cases houtcome with
  | waiting =>
      rw [show _ = HttpClientState.Receiving from asked.receiving.1] at complete
      cases complete
  | failed hstate =>
      rw [hstate] at complete
      cases complete
  | @complete _ taken _ hin hparsed =>
      rw [asked.receiving.2, List.nil_append] at hin
      have htaken := List.prefix_iff_eq_take.mp (hin.trans delivers.inOrder)
      exact ⟨taken.length, hin.length_le, htaken ▸ hparsed⟩

/-- By some reads the client has these bytes and waits for more. -/
def Reaches (order : IterationOrder Bytes Bytes) (client : HttpClient) (stream : Bytes) (n : Nat) :
    Prop :=
  ∃ results, Brings stream results n ∧
    client.receive order results = { client with readBuffer := stream.take n }

theorem reaches_zero (asked : Asked order method client) : Reaches order client stream 0 := by
  refine ⟨[], brings_nil stream, ?_⟩
  have hempty := asked.receiving.2
  cases client
  simp only at hempty
  rw [hempty]
  rfl

theorem Reaches.read (reaches : Reaches order client stream n) (asked : Asked order method client)
    (later : n < q) (arrived : q ≤ stream.length) (short : q ≤ n + kReadChunkSize) :
    ∃ results, Brings stream results q ∧
      client.receive order results = client.onReceived order (stream.take q) := by
  have ⟨results, hbrings, hreceive⟩ := reaches
  have ⟨hreceiving, hempty⟩ := asked.receiving
  refine ⟨_, hbrings.more later arrived short, ?_⟩
  have hfirst : stream.take n ++ (stream.take q).drop n = stream.take q := by
    have htake : (stream.take q).take n = stream.take n := by
      rw [List.take_take, Nat.min_eq_left later.le]
    rw [← htake, List.take_append_drop]
  rw [receive_append, hreceive, HttpClient.receive, if_neg (not_not.mpr hreceiving)]
  simp only [HttpClient.receive, HttpClient.onRecv, HttpClient.onReceived, hfirst, hempty,
    List.nil_append]

theorem Reaches.step (reaches : Reaches order client stream n) (asked : Asked order method client)
    (later : n < q) (arrived : q ≤ stream.length) (short : q ≤ n + kReadChunkSize)
    (size : q ≤ kMaxResponseSize)
    (incomplete : tryParseResponse order (stream.take q) = .ok none) :
    Reaches order client stream q := by
  have ⟨results, hbrings, hreceive⟩ := reaches.read asked later arrived short
  refine ⟨results, hbrings, ?_⟩
  have hlength : ¬ (stream.take q).length > kMaxResponseSize := by
    rw [List.length_take]
    omega
  rw [hreceive]
  simp only [HttpClient.onReceived, asked.receiving.2, List.nil_append, if_neg hlength, incomplete]

theorem Reaches.walk (reaches : Reaches order client stream n) (asked : Asked order method client)
    (later : n ≤ q) (arrived : q ≤ stream.length) (size : q ≤ kMaxResponseSize)
    (incomplete : ∀ k, n < k → k ≤ q → tryParseResponse order (stream.take k) = .ok none) :
    Reaches order client stream q := by
  induction q, later using Nat.le_induction with
  | base => exact reaches
  | succ q hle ih =>
      have hreaches := ih (by omega) (by omega) fun k hk hkq => incomplete k hk (by omega)
      exact hreaches.step asked (by omega) arrived (by unfold kReadChunkSize; omega) size
        (incomplete (q + 1) (by omega) le_rfl)

end Reading

end ApiGateway.UpstreamReads
