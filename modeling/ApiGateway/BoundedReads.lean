import ApiGateway.ReactorRuns

/-! How much of a request a connection may hold, whatever its peer sends: the gate stops a
header section, the announced length a body, and the last chunk may run past either. -/

namespace ApiGateway.BoundedReads
open ByteText CrlfLines ChunkedReading RequestParsing Reactor ReactorPhases ReactorRuns StepRuns
open RequestReading (kReadChunkSize hasEnoughBytesToParse onChunk Verdict findFrom_resumed
  expected_pos_iff)

/-- A message that the parser can still wait for. -/
def kMaxRequestLength : Nat := kMaxHeaderSectionLength + kMaxBodyLength

structure Unfinished (conn : RequestReading.Connection) : Prop where
  head : conn.headerParsed = false → conn.headerScanOffset = conn.readBuffer.length ∧
    find blankLine conn.readBuffer = none ∧ conn.readBuffer.length < kMaxHeaderSectionLength
  message : conn.headerParsed = true → (find blankLine conn.readBuffer).isSome ∧
    conn.readBuffer.length < conn.expectedRequestBytes ∧
    conn.expectedRequestBytes ≤ kMaxRequestLength

theorem unfinished_fresh (requestId : Bytes) : Unfinished (.fresh requestId) where
  head _ := ⟨rfl, rfl, (by decide : 0 < kMaxHeaderSectionLength)⟩
  message h := by cases h

theorem contentLengthOf_le {order : IterationOrder Bytes Bytes}
    {headers : FirstWinsMap Bytes Bytes} {contentLength : Nat}
    (ok : contentLengthOf order headers = .ok contentLength) : contentLength ≤ kMaxBodyLength := by
  unfold contentLengthOf at ok
  simp only at ok
  split_ifs at ok
  · cases ok
    exact Nat.zero_le _
  · split at ok
    · cases ok
    · split_ifs at ok with hlarge
      cases ok
      exact Nat.not_lt.mp hlarge

theorem parseHead_contentLength_le {order : IterationOrder Bytes Bytes} {headerSection : Bytes}
    {head : Head} (ok : parseHead order headerSection = .ok head) :
    head.contentLength ≤ kMaxBodyLength := by
  rw [parseHead_eq] at ok
  split_ifs at ok
  split at ok
  · cases ok
  · split at ok
    · cases ok
    · split at ok
      · cases ok
      · next contentLength hlength =>
        cases ok
        exact contentLengthOf_le hlength

theorem tryParseRequest_expected {order : IterationOrder Bytes Bytes} {raw : Bytes}
    {requestBytes : Nat} (ok : tryParseRequest order raw = .ok (none, requestBytes))
    (complete : (find blankLine raw).isSome) :
    raw.length < requestBytes ∧ requestBytes ≤ kMaxRequestLength := by
  obtain ⟨headerEnd, hend⟩ := Option.isSome_iff_exists.mp complete
  unfold tryParseRequest at ok
  rw [hend] at ok
  simp only at ok
  split_ifs at ok with hsection
  split at ok
  · cases ok
  · next head hhead =>
    have hbody := parseHead_contentLength_le hhead
    split_ifs at ok with hshort
    · cases ok
      refine ⟨hshort, ?_⟩
      unfold kMaxRequestLength
      omega
    · cases ok

section Chunk

variable {order : IterationOrder Bytes Bytes} {conn : RequestReading.Connection} {chunk : Bytes}

theorem Unfinished.gate (h : Unfinished conn) {scanned : RequestReading.Connection} {enough : Bool}
    (gate : hasEnoughBytesToParse { conn with readBuffer := conn.readBuffer ++ chunk } =
      .ok (scanned, enough)) :
    (enough = true → scanned = { conn with readBuffer := conn.readBuffer ++ chunk } ∧
      (find blankLine (conn.readBuffer ++ chunk)).isSome) ∧
      (enough = false → Unfinished scanned) := by
  cases hparsed : conn.headerParsed with
  | true =>
      obtain ⟨hcomplete, -, hexpected⟩ := h.message hparsed
      obtain ⟨headerEnd, hend⟩ := Option.isSome_iff_exists.mp hcomplete
      have hthere : (find blankLine (conn.readBuffer ++ chunk)).isSome :=
        Option.isSome_iff_exists.mpr ⟨headerEnd, find_append hend chunk⟩
      simp only [hasEnoughBytesToParse, hparsed, if_true, Except.ok.injEq, Prod.mk.injEq] at gate
      obtain ⟨rfl, henough⟩ := gate
      refine ⟨fun _ => ⟨rfl, hthere⟩, fun hwaits => ?_⟩
      rw [← henough, decide_eq_false_iff_not, Nat.not_le] at hwaits
      exact ⟨(fun hfalse => by cases hfalse), fun _ => ⟨hthere, hwaits, hexpected⟩⟩
  | false =>
      obtain ⟨hoffset, hnone, -⟩ := h.head hparsed
      have hresume := findFrom_resumed hoffset hnone chunk
      simp only [hasEnoughBytesToParse, hparsed, hresume, Bool.false_eq_true, if_false] at gate
      split_ifs at gate with hfound hline hsection
      · cases gate
        exact ⟨fun _ => ⟨rfl, hfound⟩, fun hwaits => by cases hwaits⟩
      · cases gate
        refine ⟨fun henough => (by cases henough), fun _ => ⟨fun _ => ⟨rfl, ?_, ?_⟩, ?_⟩⟩
        · exact Option.not_isSome_iff_eq_none.mp hfound
        · exact Nat.not_le.mp hsection
        · exact fun htrue => by cases htrue

theorem Unfinished.onChunk (h : Unfinished conn) :
    (onChunk order conn chunk).Holds Unfinished fun _ => True := by
  unfold RequestReading.onChunk
  simp only
  split
  · trivial
  · next scanned hgate => exact (h.gate hgate).2 rfl
  · next scanned hgate =>
    obtain ⟨rfl, hcomplete⟩ := (h.gate hgate).1 rfl
    split
    · trivial
    · trivial
    · next requestBytes hparse =>
      have hpositive := (expected_pos_iff hparse).mpr hcomplete
      rw [if_pos hpositive]
      exact ⟨(fun hfalse => by cases hfalse), fun _ =>
        ⟨hcomplete, tryParseRequest_expected hparse hcomplete⟩⟩

end Chunk

theorem gated_readBuffer (conn : RequestReading.Connection) :
    (gated conn).readBuffer = conn.readBuffer := by
  unfold gated
  split
  · rfl
  · next scanned enough hgate =>
    unfold hasEnoughBytesToParse at hgate
    generalize (if conn.headerScanOffset ≥ 3 then conn.headerScanOffset - 3 else 0) = resumeFrom
      at hgate
    simp only at hgate
    split_ifs at hgate
    · cases hgate
      rfl
    · cases hgate
      rfl
    · cases hgate
      rfl

/-- The most that a read buffer comes to: a whole message but one byte, and one chunk. -/
def kMaxReadBuffer : Nat := kMaxRequestLength + kReadChunkSize

theorem kMaxReadBuffer_pos : 0 < kMaxReadBuffer := by decide

structure Bounded (t : Tables) : Prop where
  size : ∀ fd conn, t.connections fd = some conn → conn.readBuffer.length < kMaxReadBuffer
  reading : ∀ fd conn, t.connections fd = some conn → t.armed fd .read = true →
    Unfinished conn.toConnection

theorem Unfinished.length_lt {conn : RequestReading.Connection} (h : Unfinished conn) :
    conn.readBuffer.length < kMaxRequestLength := by
  cases hparsed : conn.headerParsed with
  | true =>
      obtain ⟨-, hshort, hexpected⟩ := h.message hparsed
      exact hshort.trans_le hexpected
  | false => exact (h.head hparsed).2.2.trans_le (Nat.le_add_right _ _)

section Steps

variable {order : IterationOrder Bytes Bytes} {t t' : Tables} {g g' : Gateway}

theorem Bounded.frame (bounded : Bounded t)
    (kept : ∀ fd conn', t'.connections fd = some conn' → ∃ conn, t.connections fd = some conn ∧
      conn'.toConnection = conn.toConnection ∧
      (t'.armed fd .read = true → t.armed fd .read = true)) : Bounded t' := by
  refine ⟨fun fd conn' held => ?_, fun fd conn' held armed => ?_⟩
  · obtain ⟨conn, hheld, hsame, -⟩ := kept fd conn' held
    rw [hsame]
    exact bounded.size fd conn hheld
  · obtain ⟨conn, hheld, hsame, harmed⟩ := kept fd conn' held
    rw [hsame]
    exact bounded.reading fd conn hheld (harmed armed)

theorem Bounded.update (bounded : Bounded t) {fd : Nat} {conn : Connection}
    (changed : t'.connections = Function.update t.connections fd (some conn))
    (others : ∀ fd' ≠ fd, t'.armed fd' .read = t.armed fd' .read)
    (size : conn.readBuffer.length < kMaxReadBuffer)
    (reading : t'.armed fd .read = true → Unfinished conn.toConnection) : Bounded t' := by
  have hcases : ∀ fd' conn', t'.connections fd' = some conn' →
      (fd' = fd ∧ conn' = conn) ∨ (fd' ≠ fd ∧ t.connections fd' = some conn') := by
    intro fd' conn' held
    rw [changed, Function.update_apply] at held
    split_ifs at held with hfd
    · exact .inl ⟨hfd, (Option.some.inj held).symm⟩
    · exact .inr ⟨hfd, held⟩
  refine ⟨fun fd' conn' held => ?_, fun fd' conn' held armed => ?_⟩
  · obtain ⟨rfl, rfl⟩ | ⟨-, hold⟩ := hcases fd' conn' held
    · exact size
    · exact bounded.size fd' conn' hold
  · obtain ⟨rfl, rfl⟩ | ⟨hne, hold⟩ := hcases fd' conn' held
    · exact reading armed
    · exact bounded.reading fd' conn' hold (others fd' hne ▸ armed)

theorem Bounded.closeConnection (bounded : Bounded t) (fd : Nat) :
    Bounded (t.closeConnection fd) := by
  refine bounded.frame fun fd' conn' held => ?_
  have hconnections : (t.closeConnection fd).connections fd' =
      if fd' = fd then none else t.connections fd' := Function.update_apply _ _ _ _
  rw [hconnections] at held
  split_ifs at held with hfd
  exact ⟨conn', held, rfl, fun harmed => by
    simpa [Tables.closeConnection, armed_registerEvent, hfd] using harmed⟩

theorem Bounded.deliver (bounded : Bounded t) (result : CompletionResult) :
    Bounded (t.deliver result) := by
  refine bounded.frame fun fd conn' held => ?_
  have harmed := deliver_armed t result fd
  unfold Tables.deliver at held
  cases htarget : t.connections result.fd with
  | none =>
      simp only [htarget] at held
      exact ⟨conn', held, rfl, harmed.symm ▸ id⟩
  | some conn =>
      simp only [htarget] at held
      change Function.update t.connections result.fd _ fd = some conn' at held
      rw [Function.update_apply] at held
      split_ifs at held with hfd
      · rw [← Option.some.inj held, hfd]
        exact ⟨conn, htarget, rfl, fun h => by rwa [← hfd, ← harmed, hfd]⟩
      · exact ⟨conn', held, rfl, fun h => by rwa [← harmed]⟩

theorem Bounded.onReceived (bounded : Bounded t) {fd : Nat} {conn : Connection}
    (held : t.connections fd = some conn) (armed : t.armed fd .read = true)
    (named : conn.fd = fd) {chunk : Bytes} (short : chunk.length ≤ kReadChunkSize) :
    Bounded (t.onReceived order fd conn chunk).1 := by
  have hunfinished := bounded.reading fd conn held armed
  have hlength := hunfinished.length_lt
  have hreceived : (conn.readBuffer ++ chunk).length < kMaxReadBuffer := by
    rw [List.length_append, kMaxReadBuffer]
    omega
  have hnext : (onChunk order conn.toConnection chunk).Holds Unfinished fun _ => True :=
    hunfinished.onChunk
  unfold Tables.onReceived
  split
  · refine bounded.update rfl (fun fd' hne => ?_) kMaxReadBuffer_pos fun harmed => ?_
    · exact congrFun (Function.update_of_ne hne _ _) _
    · simp [Tables.dispatchToThreadPool, armed_registerEvent] at harmed
  · next rejection honChunk =>
    obtain ⟨response, hresponse⟩ := rejection_answered honChunk
    have hgated : (gated { conn.toConnection with
        readBuffer := conn.readBuffer ++ chunk }).readBuffer = conn.readBuffer ++ chunk :=
      gated_readBuffer _
    simp only
    split
    · next hreject =>
      simp only [Tables.rejectRequest, hresponse] at hreject
      cases hreject
    · next t' hreject =>
      obtain ⟨bytes, rfl⟩ := rejectRequest_ok hreject
      refine bounded.update rfl (fun fd' hne => ?_) ?_ fun harmed => ?_
      · simp [armed_registerEvent, named, hne, Tables.setConnection]
      · rw [← hgated] at hreceived
        exact hreceived
      · simp [armed_registerEvent, named] at harmed
  · next reading honChunk =>
    rw [honChunk] at hnext
    refine bounded.update rfl (fun _ _ => rfl) ?_ fun _ => hnext
    exact hnext.length_lt.trans_le (Nat.le_add_right _ _)

theorem Bounded.onRecv (bounded : Bounded g.tables) {fd : Nat} {conn : Connection}
    (held : g.tables.connections fd = some conn) (armed : g.tables.armed fd .read = true)
    (named : conn.fd = fd) {result : Recv} (next : g.onRecv order fd conn result = some g') :
    Bounded g'.tables := by
  cases result with
  | bytes chunk =>
      unfold Gateway.onRecv at next
      simp only at next
      split_ifs at next with hchunk
      cases next
      exact bounded.onReceived held armed named (Nat.not_lt.mp fun h => hchunk (.inr h))
  | endOfStream =>
      cases next
      exact bounded.closeConnection fd
  | wouldBlock =>
      cases next
      exact bounded
  | interrupted =>
      cases next
      exact bounded
  | failed =>
      cases next
      exact bounded.closeConnection fd

theorem Bounded.onSend (bounded : Bounded g.tables) {fd : Nat} {conn : Connection}
    (held : g.tables.connections fd = some conn) {result : Send}
    (next : g.onSend fd conn result = some g') : Bounded g'.tables := by
  cases result with
  | bytes count =>
      unfold Gateway.onSend at next
      simp only at next
      split_ifs at next
      cases next
      exact bounded.update rfl (fun _ _ => rfl) (bounded.size fd conn held)
        (bounded.reading fd conn held)
  | wouldBlock =>
      cases next
      exact bounded
  | interrupted =>
      cases next
      exact bounded
  | failed =>
      cases next
      exact bounded.closeConnection fd

theorem Bounded.onAccept (bounded : Bounded g.tables) {result : Accept}
    (next : g.onAccept result = some g') : Bounded g'.tables := by
  cases result with
  | failed =>
      cases next
      exact bounded
  | client clientFd requestId nonBlocking =>
      unfold Gateway.onAccept at next
      simp only at next
      split_ifs at next with hused hfcntl
      · cases next
        refine bounded.update rfl (fun fd' hne => ?_) kMaxReadBuffer_pos fun _ =>
          unfinished_fresh _
        exact congrFun (Function.update_of_ne hne _ _) _
      · cases next
        exact bounded

theorem Bounded.advance (bounded : Bounded g.tables) (advanced : Advanced g g') :
    Bounded g'.tables := by
  cases advanced with
  | poll => exact bounded
  | lastDrain => exact bounded
  | @event event rest control events =>
      rw [onEvent_tables]
      exact bounded
  | @written fd => exact bounded.closeConnection fd
  | drained => exact bounded
  | @delivered last result rest control queue =>
      have hrest : Bounded { g.tables with completionQueue := rest } :=
        ⟨bounded.size, bounded.reading⟩
      exact hrest.deliver result

theorem Bounded.workMoved (bounded : Bounded t) (moved : WorkMoved t t') : Bounded t' :=
  ⟨moved.connections ▸ bounded.size, moved.connections ▸ moved.armed ▸ bounded.reading⟩

theorem Bounded.step (bounded : Bounded g.tables) (steady : Steady g) {e : Event}
    (next : Reactor.step order g e = some g') : Bounded g'.tables := by
  have hwork := steady.atWork
  cases stepped_of_step next with
  | kevent => exact bounded
  | keventError => exact bounded
  | advance advanced => exact bounded.advance advanced
  | accept control haccept => exact bounded.onAccept haccept
  | @recv result g' fd conn control held hrecv =>
      rw [control] at hwork
      exact bounded.onRecv held hwork.armed (steady.inv.entries.entry fd conn held).key hrecv
  | send control held more hsend => exact bounded.onSend held hsend
  | take htake =>
      obtain ⟨-, hmoved⟩ := steady.inv.take htake
      exact bounded.workMoved hmoved
  | finish hfinish =>
      obtain ⟨-, hmoved⟩ := steady.inv.finish hfinish
      exact bounded.workMoved hmoved
  | stop => exact bounded

end Steps

/-- No read buffer comes to a whole message and a chunk; and one that is read, or waits to be,
has less than the limit of a head, or less than the message that its head announces. -/
structure ReadsBounded (g : Gateway) : Prop where
  size : ∀ fd conn, g.tables.connections fd = some conn →
    conn.readBuffer.length < kMaxHeaderSectionLength + kMaxBodyLength + kReadChunkSize
  head : ∀ fd conn, g.tables.connections fd = some conn →
    (g.control = .reading fd ∨ g.tables.armed fd .read = true) →
    find blankLine conn.readBuffer = none → conn.readBuffer.length < kMaxHeaderSectionLength
  message : ∀ fd conn, g.tables.connections fd = some conn →
    (g.control = .reading fd ∨ g.tables.armed fd .read = true) →
    (find blankLine conn.readBuffer).isSome →
      conn.readBuffer.length < conn.expectedRequestBytes ∧
        conn.expectedRequestBytes ≤ kMaxHeaderSectionLength + kMaxBodyLength

theorem Bounded.readsBounded {g : Gateway} (bounded : Bounded g.tables) (steady : Steady g) :
    ReadsBounded g := by
  have hunfinished : ∀ fd conn, g.tables.connections fd = some conn →
      (g.control = .reading fd ∨ g.tables.armed fd .read = true) →
      Unfinished conn.toConnection := by
    rintro fd conn held (hreading | harmed)
    · have hwork := steady.atWork
      rw [hreading] at hwork
      exact bounded.reading fd conn held hwork.armed
    · exact bounded.reading fd conn held harmed
  refine ⟨bounded.size, fun fd conn held hreads hnone => ?_,
    fun fd conn held hreads hcomplete => ?_⟩
  · cases hparsed : conn.headerParsed with
    | true =>
        obtain ⟨hcomplete, -, -⟩ := (hunfinished fd conn held hreads).message hparsed
        rw [hnone] at hcomplete
        cases hcomplete
    | false => exact ((hunfinished fd conn held hreads).head hparsed).2.2
  · cases hparsed : conn.headerParsed with
    | true => exact ((hunfinished fd conn held hreads).message hparsed).2
    | false =>
        obtain ⟨-, hnone, -⟩ := (hunfinished fd conn held hreads).head hparsed
        rw [hnone] at hcomplete
        cases hcomplete

theorem bounded_init (listenFd : Nat) : Bounded (Gateway.init listenFd).tables := by
  refine ⟨fun fd conn held => ?_, fun fd conn held => ?_⟩
  · cases held
  · cases held

/-- In every run, whatever the peers send. -/
theorem read_buffers_bounded (order : IterationOrder Bytes Bytes) (listenFd : Nat)
    (trace : List Event) (g : Gateway)
    (run : Run (fun g e g' => step order g e = some g') (Gateway.init listenFd) trace g) :
    ReadsBounded g := by
  have hboth : Steady g ∧ Bounded g.tables :=
    @Run.invariant _ _ _ _ (fun _ g => Steady g ∧ Bounded g.tables)
      ⟨steady_init listenFd, bounded_init listenFd⟩
      (fun _ _ _ _ h next => ⟨h.1.step next, h.2.step h.1 next⟩) _ _ run
  exact hboth.2.readsBounded hboth.1

def slowBody : List Event :=
  [.advance, .kevent [.ready 3 .read], .advance, .accept (.client 5 [] true), .accept .failed,
    .advance, .advance, .advance, .kevent [.ready 5 .read], .advance,
    .recv (.bytes (ascii "POST / HTTP/1.1\r\nContent-Length: 99\r\n\r\nab"))]

theorem read_buffers_bounded_slow : ∃ g,
    Run (fun g e g' => step default g e = some g') (Gateway.init 3) slowBody g ∧
      ((g.tables.connections 5).map fun conn =>
        (conn.readBuffer.length, conn.expectedRequestBytes)) = some (41, 138) ∧
      ReadsBounded g := by
  have hbuffer : ((exec (step default) (Gateway.init 3) slowBody).bind fun g =>
      (g.tables.connections 5).map fun conn =>
        (conn.readBuffer.length, conn.expectedRequestBytes)) = some (41, 138) := by
    decide
  obtain ⟨g, hexec, hg⟩ := Option.bind_eq_some_iff.mp hbuffer
  exact ⟨g, run_of_exec hexec, hg, read_buffers_bounded default 3 slowBody g (run_of_exec hexec)⟩

end ApiGateway.BoundedReads
