import ApiGateway.CutPositions
import ApiGateway.ResponseCompletion

/-! Whether it matters to `HttpClient::receive` how the upstream's bytes are cut into
reads. Two limits are looked at after each read: that of the header section while the blank
line has not come, and that of the whole response. -/

namespace ApiGateway.ResponseSegmentation
open ByteText HttpText CrlfLines MessageHeaders ResponseParsing ResponseFraming UpstreamClient
open CutPositions
open ResponseCompletion (Announces announces_iff announced_of_parsed parse_beginning_eq responseOf)

def outcome (client : HttpClient) : HttpClientState × Option HttpClientResponse :=
  (client.state, if client.state = .Complete then some client.response else none)

/-- The cuts do not matter, and a header section beyond the limit is always refused. -/
structure Uniform (order : IterationOrder Bytes Bytes) (client : HttpClient) (stream : Bytes) :
    Prop where
  alike : ∀ chunks chunks', Partition kReadChunkSize stream chunks →
    Partition kReadChunkSize stream chunks' →
      outcome (client.receive order (chunks.map .bytes)) =
        outcome (client.receive order (chunks'.map .bytes))
  refused : kMaxHeaderSectionLength < (find blankLine stream).getD stream.length →
    ∀ chunks, Partition kReadChunkSize stream chunks →
      (client.receive order (chunks.map .bytes)).state = .Failed

/-- Neither limit can be met by some reads and missed by others: the blank line comes before
the first can be met, or too late for one read to skip the limit, or the response and the
stream are both too large; and no read that completes the response can bring too much. -/
structure OutOfReach (stream : Bytes) (headerEnd length : Nat) : Prop where
  headSection : headerEnd + 4 ≤ kMaxHeaderSectionLength + 1 ∨
    kMaxHeaderSectionLength + kReadChunkSize < headerEnd + 4 ∨
    kMaxResponseSize < min stream.length (headerEnd + 4 + length)
  lastRead : headerEnd + 4 ≤ kMaxHeaderSectionLength + 1 →
    headerEnd + 4 + length ≤ kMaxResponseSize →
      min stream.length (headerEnd + 4 + length - 1 + kReadChunkSize) ≤ kMaxResponseSize

theorem state_of_outcome {client : HttpClient}
    {ending : HttpClientState × Option HttpClientResponse} (h : outcome client = ending) :
    client.state = ending.1 :=
  congrArg Prod.fst h

def failed : HttpClientState × Option HttpClientResponse := (.Failed, none)

def complete (response : HttpClientResponse) : HttpClientState × Option HttpClientResponse :=
  (.Complete, some response)

def judge (order : IterationOrder Bytes Bytes) (buffer : Bytes) :
    Option (HttpClientState × Option HttpClientResponse) :=
  if buffer.length > kMaxResponseSize then some failed
  else
    match tryParseResponse order buffer with
    | .error _ => some failed
    | .ok none => none
    | .ok (some response) => some (complete response)

theorem onReceived_judge (order : IterationOrder Bytes Bytes) (client : HttpClient)
    (chunk : Bytes) :
    (judge order (client.readBuffer ++ chunk) = none →
      client.onReceived order chunk = { client with readBuffer := client.readBuffer ++ chunk }) ∧
    ∀ ending, judge order (client.readBuffer ++ chunk) = some ending →
      outcome (client.onReceived order chunk) = ending ∧
        (client.onReceived order chunk).state ≠ .Receiving := by
  unfold judge HttpClient.onReceived
  simp only
  split_ifs with hlarge
  · refine ⟨fun h => absurd h (by simp), fun ending h => ?_⟩
    cases h
    exact ⟨rfl, by simp⟩
  · cases tryParseResponse order (client.readBuffer ++ chunk) with
    | error ex =>
        refine ⟨fun h => absurd h (by simp), fun ending h => ?_⟩
        cases h
        exact ⟨rfl, by simp⟩
    | ok result =>
        cases result with
        | none => exact ⟨fun _ => rfl, fun ending h => absurd h (by simp)⟩
        | some response =>
            refine ⟨fun h => absurd h (by simp), fun ending h => ?_⟩
            cases h
            exact ⟨rfl, by simp⟩

theorem outcome_receive (order : IterationOrder Bytes Bytes) {client : HttpClient}
    {stream : Bytes} {n : Nat} {chunks : List Bytes} (receiving : client.state = .Receiving)
    (buffer : client.readBuffer = stream.take n) (arrived : n ≤ stream.length)
    (whole : stream.take n ++ chunks.flatten = stream) :
    outcome (client.receive order (chunks.map .bytes)) =
      (firstVerdict (fun k => judge order (stream.take k)) n
        (chunks.map List.length)).getD (.Receiving, none) := by
  induction chunks generalizing client n with
  | nil => simp [HttpClient.receive, firstVerdict, outcome, receiving]
  | cons chunk rest ih =>
      rw [List.flatten_cons, ← List.append_assoc] at whole
      obtain ⟨hlater, hnow⟩ := UpstreamReads.take_append_of_prefix arrived ⟨_, whole⟩
      obtain ⟨hmore, hends⟩ := onReceived_judge order client chunk
      rw [buffer, hnow] at hmore hends
      rw [List.map_cons, List.map_cons, firstVerdict, HttpClient.receive,
        if_neg (not_not.mpr receiving)]
      change outcome (HttpClient.receive order (client.onReceived order chunk) _) = _
      cases hjudge : judge order (stream.take (n + chunk.length)) with
      | none =>
          rw [hnow] at whole
          rw [hmore hjudge, Option.none_or]
          exact ih receiving rfl hlater whole
      | some ending =>
          obtain ⟨hending, hstopped⟩ := hends ending hjudge
          rw [receive_of_not_receiving order hstopped, hending]
          rfl

section Positions

variable {order : IterationOrder Bytes Bytes} {client : HttpClient} {stream : Bytes}

theorem outcome_partition (receiving : client.state = .Receiving)
    (unread : client.readBuffer = []) {chunks : List Bytes}
    (partition : Partition kReadChunkSize stream chunks) :
    outcome (client.receive order (chunks.map .bytes)) =
      (firstVerdict (fun k => judge order (stream.take k)) 0
        (chunks.map List.length)).getD (.Receiving, none) := by
  have hwhole : stream.take 0 ++ chunks.flatten = stream := by
    rw [List.take_zero, List.nil_append, partition.whole]
  exact outcome_receive order receiving unread (Nat.zero_le _) hwhole

def Possible (order : IterationOrder Bytes Bytes) (stream : Bytes)
    (verdict : Option (HttpClientState × Option HttpClientResponse)) : Prop :=
  ∃ gaps, Gaps kReadChunkSize gaps stream.length ∧
    firstVerdict (fun k => judge order (stream.take k)) 0 gaps = verdict

theorem outcome_splitLengths (receiving : client.state = .Receiving)
    (unread : client.readBuffer = []) {gaps : List Nat}
    (h : Gaps kReadChunkSize gaps stream.length) :
    outcome (client.receive order ((gaps.splitLengths stream).map .bytes)) =
      (firstVerdict (fun k => judge order (stream.take k)) 0 gaps).getD (.Receiving, none) := by
  rw [outcome_partition receiving unread h.partition,
    List.map_splitLengths_length stream gaps h.sum.le]

theorem Possible.outcome_eq {verdict : Option (HttpClientState × Option HttpClientResponse)}
    (possible : Possible order stream verdict) (receiving : client.state = .Receiving)
    (unread : client.readBuffer = []) :
    ∃ chunks, Partition kReadChunkSize stream chunks ∧
      outcome (client.receive order (chunks.map .bytes)) = verdict.getD (.Receiving, none) := by
  have ⟨gaps, hgaps, hverdict⟩ := possible
  refine ⟨gaps.splitLengths stream, hgaps.partition, ?_⟩
  rw [outcome_splitLengths receiving unread hgaps, hverdict]

def Constant (order : IterationOrder Bytes Bytes) (stream : Bytes)
    (verdict : Option (HttpClientState × Option HttpClientResponse)) : Prop :=
  ∀ gaps, Gaps kReadChunkSize gaps stream.length →
    firstVerdict (fun k => judge order (stream.take k)) 0 gaps = verdict

theorem Constant.outcome_eq {verdict : Option (HttpClientState × Option HttpClientResponse)}
    (constant : Constant order stream verdict) (receiving : client.state = .Receiving)
    (unread : client.readBuffer = []) {chunks : List Bytes}
    (partition : Partition kReadChunkSize stream chunks) :
    outcome (client.receive order (chunks.map .bytes)) = verdict.getD (.Receiving, none) := by
  rw [outcome_partition receiving unread partition, constant _ partition.gaps]

theorem limits : 0 < kReadChunkSize ∧ kMaxHeaderSectionLength + kReadChunkSize ≤
    kMaxResponseSize := by
  decide

theorem judge_unended {n : Nat} (unended : find blankLine (stream.take n) = none)
    (arrived : n ≤ stream.length) :
    judge order (stream.take n) = if kMaxHeaderSectionLength < n then some failed else none := by
  have hlength : (stream.take n).length = n := by
    rw [List.length_take, Nat.min_eq_left arrived]
  have hlimits := limits
  simp only [judge, tryParseResponse, unended, hlength]
  by_cases hlong : n > kMaxHeaderSectionLength
  · simp only [if_pos hlong]
    split_ifs
    · rfl
    · rfl
  · have hsmall : ¬ n > kMaxResponseSize := by omega
    simp only [if_neg hlong, if_neg hsmall]

section Ended

variable {headerEnd length n : Nat} (ended : find blankLine stream = some headerEnd)
include ended

theorem judge_malformed (h : headerEnd + 4 ≤ n)
    (malformed : ¬ (IsHead stream ∧ ∃ length,
      contentLengthOf order (.ofList (headerFields stream)) = .ok length)) :
    judge order (stream.take n) = some failed := by
  unfold judge
  split_ifs
  · rfl
  · cases hparse : tryParseResponse order (stream.take n) with
    | error ex => rfl
    | ok result => exact absurd (announced_of_parsed ended h hparse) malformed

theorem judge_headed (head : IsHead stream)
    (announced : contentLengthOf order (.ofList (headerFields stream)) = .ok length)
    (h : headerEnd + 4 ≤ n) (arrived : n ≤ stream.length) :
    judge order (stream.take n) =
      if kMaxResponseSize < n then some failed
      else if n < headerEnd + 4 + length then none
      else some (complete (responseOf stream length)) := by
  have hlength : (stream.take n).length = n := by
    rw [List.length_take, Nat.min_eq_left arrived]
  simp only [judge, hlength, parse_beginning_eq ended head announced h arrived]
  by_cases hlarge : n > kMaxResponseSize
  · rw [if_pos hlarge, if_pos hlarge]
  · rw [if_neg hlarge, if_neg hlarge]
    by_cases hshort : n < headerEnd + 4 + length
    · simp only [if_pos hshort]
    · simp only [if_neg hshort]

theorem judge_before (h : n < headerEnd + 4) :
    judge order (stream.take n) = if kMaxHeaderSectionLength < n then some failed else none := by
  have hend : headerEnd + 4 ≤ stream.length := find_add_length_le ended
  exact judge_unended (beginning_unended ended h) (by omega)

end Ended

theorem possible_refused {headerEnd : Nat} (ended : find blankLine stream = some headerEnd)
    (reached : kMaxHeaderSectionLength + 1 < headerEnd + 4) :
    Possible order stream (some failed) := by
  have hend : headerEnd + 4 ≤ stream.length := find_add_length_le ended
  have ⟨hpositive, _⟩ := limits
  have hbefore : Reachable kReadChunkSize (fun k => judge order (stream.take k))
      kMaxHeaderSectionLength := by
    refine (reachable_zero _ _).walk hpositive (Nat.zero_le _) fun k _ hk => ?_
    rw [judge_before ended (by omega), if_neg (by omega)]
  refine hbefore.stop (Nat.lt_succ_self _) (by omega) (by omega) ?_
  rw [judge_before ended reached, if_pos (by omega)]

theorem constant_unended (unended : find blankLine stream = none) :
    Constant order stream
      (if kMaxHeaderSectionLength < stream.length then some failed else none) := by
  have hunended : ∀ k, find blankLine (stream.take k) = none := by
    intro k
    cases hfind : find blankLine (stream.take k) with
    | none => rfl
    | some headerEnd =>
        have hwhole := find_append hfind (stream.drop k)
        rw [List.take_append_drop, unended] at hwhole
        cases hwhole
  intro gaps hgaps
  have hsizes : ∀ gap ∈ gaps, 0 < gap := fun gap hgap => (hgaps.sizes gap hgap).1
  by_cases hlong : kMaxHeaderSectionLength < stream.length
  · rw [if_pos hlong]
    refine firstVerdict_settled hsizes (fun k hk hkend => ?_) ?_ (by rw [hgaps.sum]; omega)
    · rw [hgaps.sum, Nat.zero_add] at hkend
      rw [judge_unended (hunended k) hkend]
      split_ifs
      · exact .inr rfl
      · exact .inl rfl
    · rw [hgaps.sum, Nat.zero_add, judge_unended (hunended _) le_rfl, if_pos hlong]
  · rw [if_neg hlong]
    refine firstVerdict_none hsizes fun k hk hkend => ?_
    rw [hgaps.sum, Nat.zero_add] at hkend
    rw [judge_unended (hunended k) hkend, if_neg (by omega)]

theorem constant_malformed {headerEnd : Nat} (ended : find blankLine stream = some headerEnd)
    (malformed : ¬ (IsHead stream ∧ ∃ length,
      contentLengthOf order (.ofList (headerFields stream)) = .ok length)) :
    Constant order stream (some failed) := by
  have hend : headerEnd + 4 ≤ stream.length := find_add_length_le ended
  intro gaps hgaps
  refine firstVerdict_settled (fun gap hgap => (hgaps.sizes gap hgap).1) (fun k hk hkend => ?_)
    ?_ (by rw [hgaps.sum]; omega)
  · rw [hgaps.sum, Nat.zero_add] at hkend
    by_cases hplace : k < headerEnd + 4
    · rw [judge_before ended hplace]
      split_ifs
      · exact .inr rfl
      · exact .inl rfl
    · exact .inr (judge_malformed ended (by omega) malformed)
  · rw [hgaps.sum, Nat.zero_add, judge_malformed ended hend malformed]

section Headed

variable {headerEnd length : Nat} (ended : find blankLine stream = some headerEnd)
  (head : IsHead stream)
  (announced : contentLengthOf order (.ofList (headerFields stream)) = .ok length)
include ended head announced

theorem pending_inside {k : Nat} (arrived : k ≤ stream.length)
    (short : k < headerEnd + 4 → k ≤ kMaxHeaderSectionLength) (size : k ≤ kMaxResponseSize)
    (pending : k < headerEnd + 4 + length) : judge order (stream.take k) = none := by
  by_cases hplace : k < headerEnd + 4
  · have hshort := short hplace
    rw [judge_before ended hplace, if_neg (by omega)]
  · rw [judge_headed ended head announced (by omega) arrived, if_neg (by omega), if_pos pending]

theorem complete_inside {k : Nat} (arrived : k ≤ stream.length) (size : k ≤ kMaxResponseSize)
    (whole : headerEnd + 4 + length ≤ k) :
    judge order (stream.take k) = some (complete (responseOf stream length)) := by
  rw [judge_headed ended head announced (by omega) arrived, if_neg (by omega), if_neg (by omega)]

theorem constant_of_outOfReach (out : OutOfReach stream headerEnd length) :
    ∃ verdict, Constant order stream verdict := by
  have hend : headerEnd + 4 ≤ stream.length := find_add_length_le ended
  have hlimits := limits
  by_cases hlarge : kMaxResponseSize < min stream.length (headerEnd + 4 + length)
  · -- the stream outgrows the limit before the response is there
    refine ⟨some failed, fun gaps hgaps => ?_⟩
    refine firstVerdict_settled (fun gap hgap => (hgaps.sizes gap hgap).1) (fun k hk hkend => ?_)
      ?_ (by rw [hgaps.sum]; omega)
    · rw [hgaps.sum, Nat.zero_add] at hkend
      by_cases hplace : k < headerEnd + 4
      · rw [judge_before ended hplace]
        split_ifs
        · exact .inr rfl
        · exact .inl rfl
      · rw [judge_headed ended head announced (by omega) hkend]
        by_cases hsize : kMaxResponseSize < k
        · rw [if_pos hsize]
          exact .inr rfl
        · rw [if_neg hsize, if_pos (by omega)]
          exact .inl rfl
    · rw [hgaps.sum, Nat.zero_add, judge_headed ended head announced hend le_rfl,
        if_pos (by omega)]
  rcases out.headSection with hshort | hlong | hboth
  · by_cases hwhole : headerEnd + 4 + length ≤ stream.length
    · -- the first read that reaches the end of the response keeps the limit
      have hlast := out.lastRead hshort (by omega)
      refine ⟨some (complete (responseOf stream length)), fun gaps hgaps => ?_⟩
      refine firstVerdict_crossing hgaps.sizes (fun k _ hk => ?_) (fun k hk hnear hkend => ?_)
        (show 0 < headerEnd + 4 + length by omega) (by rw [hgaps.sum]; omega)
      · exact pending_inside ended head announced (by omega) (by omega) (by omega) hk
      · rw [hgaps.sum] at hkend
        exact complete_inside ended head announced (by omega) (by omega) hk
    · refine ⟨none, fun gaps hgaps => ?_⟩
      refine firstVerdict_none (fun gap hgap => (hgaps.sizes gap hgap).1) fun k _ hkend => ?_
      rw [hgaps.sum] at hkend
      exact pending_inside ended head announced (by omega) (by omega) (by omega) (by omega)
  · -- some read ends behind the limit and before the blank line
    refine ⟨some failed, fun gaps hgaps => ?_⟩
    refine firstVerdict_crossing hgaps.sizes (fun k _ hk => ?_) (fun k hk hnear _ => ?_)
      (Nat.succ_pos kMaxHeaderSectionLength) (by rw [hgaps.sum]; omega)
    · rw [judge_before ended (by omega), if_neg (by omega)]
    · rw [judge_before ended (by omega), if_pos (by omega)]
  · exact absurd hboth hlarge

theorem possible_skipped (reached : kMaxHeaderSectionLength + 1 < headerEnd + 4)
    (skipped : headerEnd + 4 ≤ kMaxHeaderSectionLength + kReadChunkSize)
    (size : min stream.length (headerEnd + 4 + length) ≤ kMaxResponseSize) :
    ∃ verdict, Possible order stream verdict ∧ verdict.getD (.Receiving, none) ≠ failed := by
  have hend : headerEnd + 4 ≤ stream.length := find_add_length_le ended
  have ⟨hpositive, hroom⟩ := limits
  let judged := fun k => judge order (stream.take k)
  have hbefore : Reachable kReadChunkSize judged kMaxHeaderSectionLength :=
    (reachable_zero _ _).walk hpositive (Nat.zero_le _) fun k _ hk =>
      pending_inside ended head announced (by omega) (by omega) (by omega) (by omega)
  have hwalk : ∀ k, headerEnd + 4 ≤ k → k ≤ stream.length → k < headerEnd + 4 + length →
      Reachable kReadChunkSize judged k := by
    intro k hk hkend hpending
    have hended : Reachable kReadChunkSize judged (headerEnd + 4) :=
      hbefore.step (by omega) skipped
        (pending_inside ended head announced hend (by omega) (by omega) (by omega))
    exact hended.walk hpositive hk fun k' _ hk' =>
      pending_inside ended head announced (by omega) (by omega) (by omega) (by omega)
  by_cases hwhole : headerEnd + 4 + length ≤ stream.length
  · have hdone : judged (headerEnd + 4 + length) = some (complete (responseOf stream length)) :=
      complete_inside ended head announced hwhole (by omega) le_rfl
    refine ⟨some (complete (responseOf stream length)), ?_, by simp [failed, complete]⟩
    by_cases hbodiless : length = 0
    · exact hbefore.stop (by omega) (by omega) hwhole hdone
    · exact (hwalk (headerEnd + 4 + length - 1) (by omega) (by omega) (by omega)).stop (by omega)
        (by omega) hwhole hdone
  · exact ⟨none, hwalk stream.length hend le_rfl (by omega), by simp [failed]⟩

theorem possible_over (early : headerEnd + 4 ≤ kMaxHeaderSectionLength + 1)
    (fits : headerEnd + 4 + length ≤ kMaxResponseSize)
    (overfull : kMaxResponseSize < min stream.length (headerEnd + 4 + length - 1 + kReadChunkSize)) :
    Possible order stream (some failed) ∧
      Possible order stream (some (complete (responseOf stream length))) := by
  have ⟨hpositive, hroom⟩ := limits
  let judged := fun k => judge order (stream.take k)
  have hwalked : Reachable kReadChunkSize judged (headerEnd + 4 + length - 1) :=
    (reachable_zero _ _).walk hpositive (Nat.zero_le _) fun k _ hk =>
      pending_inside ended head announced (by omega) (by omega) (by omega) (by omega)
  have hdone : judged (headerEnd + 4 + length) = some (complete (responseOf stream length)) :=
    complete_inside ended head announced (by omega) fits le_rfl
  have hlarge : judged (kMaxResponseSize + 1) = some failed := by
    change judge order (stream.take (kMaxResponseSize + 1)) = some failed
    rw [judge_headed ended head announced (by omega) (by omega), if_pos (by omega)]
  exact ⟨hwalked.stop (by omega) (by omega) (by omega) hlarge,
    hwalked.stop (by omega) (by omega) (by omega) hdone⟩

end Headed

theorem refused_of_constant {verdict : Option (HttpClientState × Option HttpClientResponse)}
    (constant : Constant order stream verdict)
    (long : kMaxHeaderSectionLength < (find blankLine stream).getD stream.length) :
    verdict = some failed := by
  have ⟨hpositive, _⟩ := limits
  cases hend : find blankLine stream with
  | none =>
      rw [hend, Option.getD_none] at long
      have hones := Gaps.ones hpositive stream.length
      rw [← constant _ hones, constant_unended hend _ hones, if_pos long]
  | some headerEnd =>
      rw [hend, Option.getD_some] at long
      have ⟨gaps, hgaps, hfailed⟩ := @possible_refused order stream headerEnd hend (by omega)
      rw [← constant gaps hgaps, hfailed]

theorem uniform_of_constant {verdict : Option (HttpClientState × Option HttpClientResponse)}
    (constant : Constant order stream verdict) (receiving : client.state = .Receiving)
    (unread : client.readBuffer = []) : Uniform order client stream := by
  refine ⟨fun chunks chunks' first second => ?_, fun long chunks partition => ?_⟩
  · rw [constant.outcome_eq receiving unread first, constant.outcome_eq receiving unread second]
  · have houtcome := constant.outcome_eq receiving unread partition
    rw [refused_of_constant constant long] at houtcome
    exact state_of_outcome houtcome

theorem not_uniform {verdict verdict' : Option (HttpClientState × Option HttpClientResponse)}
    (first : Possible order stream verdict) (second : Possible order stream verdict')
    (differ : verdict.getD (.Receiving, none) ≠ verdict'.getD (.Receiving, none))
    (receiving : client.state = .Receiving) (unread : client.readBuffer = []) :
    ¬ Uniform order client stream := by
  intro uniform
  have ⟨chunks, hpartition, houtcome⟩ := first.outcome_eq receiving unread
  have ⟨chunks', hpartition', houtcome'⟩ := second.outcome_eq receiving unread
  have hsame := uniform.alike chunks chunks' hpartition hpartition'
  rw [houtcome, houtcome'] at hsame
  exact differ hsame

theorem outOfReach_of_uniform {headerEnd length : Nat}
    (ended : find blankLine stream = some headerEnd) (head : IsHead stream)
    (announced : contentLengthOf order (.ofList (headerFields stream)) = .ok length)
    (receiving : client.state = .Receiving) (unread : client.readBuffer = [])
    (uniform : Uniform order client stream) : OutOfReach stream headerEnd length := by
  constructor
  · by_contra hnot
    simp only [not_or, Nat.not_le, Nat.not_lt] at hnot
    have ⟨hreached, hskipped, hsize⟩ := hnot
    have ⟨verdict, hpossible, hdiffer⟩ :=
      possible_skipped ended head announced hreached hskipped hsize
    exact not_uniform hpossible (possible_refused ended hreached) hdiffer receiving unread uniform
  · intro early fits
    by_contra hover
    have ⟨hfailed, hcomplete⟩ :=
      possible_over ended head announced early fits (Nat.not_le.mp hover)
    exact not_uniform hfailed hcomplete (by simp [failed, complete]) receiving unread uniform

theorem uniform_iff_of_order (receiving : client.state = .Receiving)
    (unread : client.readBuffer = []) :
    Uniform order client stream ↔ ∀ headerEnd length, find blankLine stream = some headerEnd →
      IsHead stream → contentLengthOf order (.ofList (headerFields stream)) = .ok length →
        OutOfReach stream headerEnd length := by
  constructor
  · intro uniform headerEnd length ended head announced
    exact outOfReach_of_uniform ended head announced receiving unread uniform
  · intro out
    have hconstant : ∃ verdict, Constant order stream verdict := by
      cases hend : find blankLine stream with
      | none => exact ⟨_, constant_unended hend⟩
      | some headerEnd =>
          by_cases hwell : IsHead stream ∧ ∃ length,
              contentLengthOf order (.ofList (headerFields stream)) = .ok length
          · have ⟨hhead, length, hannounced⟩ := hwell
            exact constant_of_outOfReach hend hhead hannounced
              (out headerEnd length hend hhead hannounced)
          · exact ⟨_, constant_malformed hend hwell⟩
    have ⟨verdict, hverdict⟩ := hconstant
    exact uniform_of_constant hverdict receiving unread

end Positions

/-- However its headers are iterated, a stream ends the calls in one way exactly when no limit
is within reach of some reads and not of others, for every length it announces. -/
theorem uniform_iff {client : HttpClient} (receiving : client.state = .Receiving)
    (unread : client.readBuffer = []) (stream : Bytes) :
    (∀ order, Uniform order client stream) ↔
      ∀ headerEnd length, find blankLine stream = some headerEnd → IsHead stream →
        Announces (headerFields stream) length → OutOfReach stream headerEnd length := by
  constructor
  · intro uniform headerEnd length ended head announces
    have ⟨order, hannounced⟩ := announces_iff.mp announces
    exact (uniform_iff_of_order receiving unread).mp (uniform order) headerEnd length ended head
      hannounced
  · intro out order
    refine (uniform_iff_of_order receiving unread).mpr fun headerEnd length ended head hlength => ?_
    exact out headerEnd length ended head (announces_iff.mpr ⟨order, hlength⟩)

theorem uniform_short :
    Uniform default (UpstreamReads.asking default .GET) (ascii
      "HTTP/1.1 200 OK\r\nContent-Length: 2\r\ncontent-length: 9\r\n\r\nhi") := by
  refine (uniform_iff rfl rfl _).mpr (fun headerEnd length ended _ _ => ?_) default
  have hend := find_add_length_le ended
  have hsmall : (ascii
      "HTTP/1.1 200 OK\r\nContent-Length: 2\r\ncontent-length: 9\r\n\r\nhi").length +
        1 ≤ kMaxHeaderSectionLength := by
    decide
  have hlimits := limits
  have hblank : blankLine.length = 4 := rfl
  exact ⟨.inl (by omega), fun _ _ => by omega⟩

def longField : Bytes × Bytes := (ascii "A", List.replicate 33000 120)

def longResponse : Bytes :=
  ascii "HTTP/1.1 200 OK\r\n" ++ renderField longField ++ ascii "\r\n\r\n"

theorem isField_longField : IsField longField ∧ ¬ crlf <:+: longField.2 := by
  have hvalue : ∀ b ∈ longField.2, b = 120 := fun b hb => List.eq_of_mem_replicate hb
  refine ⟨⟨by decide, by decide, by decide, ?_⟩, noCrlf_of_noCr fun hmem => ?_⟩
  · refine trimView_of_not_space fun b hb => ?_
    rw [hvalue b hb]
    rfl
  · exact absurd (hvalue 13 hmem) (by decide)

theorem longResponse_eq : longResponse =
    joinLines [ascii "HTTP/1.1 200 OK", renderField longField] ++ crlf ++ [] := by
  have hstatus : ascii "HTTP/1.1 200 OK\r\n" = ascii "HTTP/1.1 200 OK" ++ crlf := rfl
  have hblank : ascii "\r\n\r\n" = crlf ++ crlf := rfl
  simp [longResponse, hstatus, hblank, joinLines]

theorem longResponse_length : longResponse.length = 33024 := by
  have hstatus : (ascii "HTTP/1.1 200 OK\r\n").length = 17 := rfl
  have hname : longField.1.length = 1 := rfl
  have hvalue : longField.2.length = 33000 := List.length_replicate
  have hfield : (renderField longField).length = 33003 := by
    rw [renderField_eq, List.length_append, List.length_cons, List.length_cons, hname, hvalue]
  have hblank : (ascii "\r\n\r\n").length = 4 := rfl
  rw [longResponse, List.length_append, List.length_append, hstatus, hfield, hblank]

theorem longResponse_lines :
    ∀ line ∈ [ascii "HTTP/1.1 200 OK", renderField longField], IsLine line ∧ line ≠ [] := by
  intro line hline
  cases List.mem_cons.mp hline with
  | inl hstatus =>
      rw [hstatus]
      exact ⟨Unbroken.isLine (by decide), by decide⟩
  | inr hfield =>
      have ⟨hisField, hvalue⟩ := isField_longField
      rw [List.mem_singleton.mp hfield]
      exact isLine_renderField hisField (by decide) hvalue

theorem longResponse_ended : find blankLine longResponse = some 33020 := by
  have ⟨headerEnd, hend, _, hbody⟩ := read_written (by simp) longResponse_lines []
  rw [← longResponse_eq] at hend hbody
  have hinside := find_add_length_le hend
  have hdrop := congrArg List.length hbody
  have hblank : blankLine.length = 4 := rfl
  rw [List.length_drop, List.length_nil, longResponse_length] at hdrop
  rw [longResponse_length] at hinside
  rw [hend, show headerEnd = 33020 by omega]

theorem longResponse_head : IsHead longResponse ∧
    contentLengthOf default (.ofList (headerFields longResponse)) = .ok 0 := by
  have hhead := headLines_written (by simp) longResponse_lines []
  rw [← longResponse_eq] at hhead
  have ⟨hstart, hrest⟩ := startLine_headerFields hhead
  have ⟨hisField, _⟩ := isField_longField
  have hname : IsName longField.1 := ⟨hisField.named, hisField.noColon, hisField.trimmed⟩
  refine ⟨⟨?_, fun line hline _ => ?_⟩, ?_⟩
  · rw [statusOf, hstart]
    decide
  · rw [hhead, List.tail_cons, List.mem_singleton] at hline
    rw [hline, fieldOf_written hname]
    simp
  · rw [hrest]
    have hfields : fieldsOf [renderField longField] = [longField] :=
      fieldsOf_map_renderField fun field hfield => (List.mem_singleton.mp hfield) ▸ hisField
    rw [hfields]
    rcases contentLengthOf_cases default [longField] with ⟨field, hfield, hlength, _⟩ | ⟨_, hzero⟩
    · have hsame : field = longField :=
        List.mem_singleton.mp (FirstWinsMap.mem_of_mem_firsts hfield)
      rw [hsame] at hlength
      cases hlength
    · exact hzero

theorem long_header_by_cuts :
    let client := UpstreamReads.asking default .GET
    let chunks := [16384, 16384, 256].splitLengths longResponse
    let chunks' := [16384, 16383, 2, 255].splitLengths longResponse
    Partition kReadChunkSize longResponse chunks ∧ Partition kReadChunkSize longResponse chunks' ∧
      (client.receive default (chunks.map .bytes)).state = .Complete ∧
      (client.receive default (chunks'.map .bytes)).state = .Failed ∧
      ¬ Uniform default client longResponse := by
  intro client chunks chunks'
  have hgaps : Gaps kReadChunkSize [16384, 16384, 256] longResponse.length := by
    rw [longResponse_length]
    exact ⟨by decide, by decide⟩
  have hgaps' : Gaps kReadChunkSize [16384, 16383, 2, 255] longResponse.length := by
    rw [longResponse_length]
    exact ⟨by decide, by decide⟩
  have ⟨hhead, hlength⟩ := longResponse_head
  have hpending : ∀ k, k ≤ 32768 → judge default (longResponse.take k) = none := by
    intro k hk
    rw [judge_before longResponse_ended (by omega), if_neg (by unfold kMaxHeaderSectionLength; omega)]
  have hrefused : judge default (longResponse.take 32769) = some failed := by
    rw [judge_before longResponse_ended (by omega), if_pos (by decide)]
  have hwhole : judge default (longResponse.take 33024) =
      some (complete (responseOf longResponse 0)) :=
    complete_inside longResponse_ended hhead hlength longResponse_length.ge (by decide) le_rfl
  have hcomplete := @outcome_splitLengths default client longResponse rfl rfl _ hgaps
  have hfailed := @outcome_splitLengths default client longResponse rfl rfl _ hgaps'
  simp only [firstVerdict, Nat.reduceAdd, hpending 16384 (by omega), hpending 32768 le_rfl,
    hwhole, Option.none_or, Option.some_or, Option.getD_some] at hcomplete
  simp only [firstVerdict, Nat.reduceAdd, hpending 16384 (by omega), hpending 32767 (by omega),
    hrefused, Option.none_or, Option.some_or, Option.getD_some] at hfailed
  refine ⟨hgaps.partition, hgaps'.partition, state_of_outcome hcomplete,
    state_of_outcome hfailed, fun uniform => ?_⟩
  have hsame := uniform.alike _ _ hgaps.partition hgaps'.partition
  rw [hcomplete, hfailed] at hsame
  cases hsame

end ApiGateway.ResponseSegmentation
