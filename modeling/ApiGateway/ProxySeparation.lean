import ApiGateway.ProxyForwarding

/-! Which bytes a forwarded response is made of. As long as every answer that
leaves its connection in the pool ends where the parser thinks it ends, a
pooled connection holds nothing unread, and a call only ever reads the answer
to its own request. -/

namespace ApiGateway.ProxySeparation
open ByteText HttpText CrlfLines MessageHeaders ResponseParsing UpstreamClient ConnectionPooling
open ResponseForwarding ProxyForwarding StepRuns

theorem head_append (head : Head) (rest : Bytes) :
    find blankLine (head.bytes ++ rest) = some head.headerSection.length ∧
      headLines (head.bytes ++ rest) = headLines head.bytes ∧
      bodyOf (head.bytes ++ rest) = rest := by
  have hfind := find_append head.ends rest
  have hlength : head.headerSection.length + 4 = head.bytes.length := by
    simp [Head.bytes, blankLine]
  have htake : (head.bytes ++ rest).take head.headerSection.length = head.headerSection := by
    rw [Head.bytes, List.append_assoc, List.take_left]
  have htake' : head.bytes.take head.headerSection.length = head.headerSection := by
    rw [Head.bytes, List.take_left]
  refine ⟨hfind, ?_, ?_⟩
  · rw [← Head.bytes] at hfind
    have hends : find blankLine head.bytes = some head.headerSection.length := head.ends
    simp only [headLines, hfind, hends, htake, htake']
  · rw [← Head.bytes] at hfind
    simp only [bodyOf, hfind]
    rw [hlength, List.drop_left]

theorem bytes_eq (answer : Answer) : ∃ rest,
    answer.bytes = answer.firstHead.bytes ++ rest ∧
      (answer.interim = [] → rest = answer.body.bytes) := by
  unfold Answer.bytes Answer.firstHead
  cases hinterim : answer.interim with
  | nil =>
      refine ⟨answer.body.bytes, ?_, fun _ => rfl⟩
      simp
  | cons first more =>
      refine ⟨more.flatMap Head.bytes ++ answer.head.bytes ++ answer.body.bytes, ?_, fun h => ?_⟩
      · simp
      · cases h

theorem eq_of_bodyOf_length {taken raw : Bytes} {headerEnd : Nat} (sent : taken <+: raw)
    (ends : find blankLine taken = some headerEnd)
    (length : (bodyOf raw).length ≤ (bodyOf taken).length) : taken = raw := by
  have ⟨later, hraw⟩ := sent
  have hends : find blankLine raw = some headerEnd := by
    rw [← hraw]
    exact find_append ends later
  have hlen : headerEnd + 4 ≤ taken.length := find_add_length_le ends
  simp only [bodyOf, ends, hends, List.length_drop] at length
  exact sent.eq_of_length_le (by have := sent.length_le; omega)

theorem whole_answer_read {order : IterationOrder Bytes Bytes} {answer : Answer} {taken : Bytes}
    {response : HttpClientResponse} (one : answer.OneMessage order)
    (sent : taken <+: answer.bytes) (ok : tryParseResponse order taken = .ok (some response))
    (keep : upstreamKeepAlive order response.headers = true) : taken = answer.bytes := by
  obtain ⟨rest, hbytes, hrest⟩ := bytes_eq answer
  obtain ⟨hends, hlines, hbody⟩ := head_append answer.firstHead rest
  rw [← hbytes] at hends hlines hbody
  obtain ⟨_, _, _, hheaders, contentLength, hcontent, hshort, _⟩ := accepted ok sent
  have hfields : headerFields answer.bytes = headerFields answer.firstHead.bytes := by
    rw [headerFields, hlines, ← headerFields]
  obtain ⟨hinterim, hchunked⟩ := one (by rw [← hfields, ← hheaders]; exact keep)
  obtain ⟨headerEnd, _, hend, _, _, _⟩ := tryParseResponse_ok ok
  refine eq_of_bodyOf_length sent hend (le_trans ?_ hshort)
  rw [hbody, hrest hinterim]
  have hhead : answer.firstHead = answer.head := by
    rw [Answer.firstHead, hinterim]
    rfl
  have hframed := answer.framed
  cases hkind : answer.body with
  | sized content =>
      rw [hkind] at hframed
      rw [hheaders, hfields, hhead] at hcontent
      rw [contentLengthOf_agreed hframed.1 hframed.2 hcontent]
      exact le_rfl
  | chunked chunks =>
      rw [hkind] at hchunked
      cases hchunked
  | absent => exact Nat.zero_le _

structure Drained (socket : Socket) : Prop where
  pending : socket.pending = none
  inTransit : socket.inTransit = []
  arrived : socket.arrived = []

def errorResponses : List Bytes :=
  [badGateway (ascii "Failed to reach upstream host"),
    gatewayTimeout (ascii "Timed out connecting to upstream"),
    badGateway (ascii "Failed to connect to upstream host"),
    badGateway (ascii "Internal proxy error preparing request"),
    badGateway (ascii "Failed to send request to upstream"),
    gatewayTimeout (ascii "Timed out sending request to upstream"),
    badGateway (ascii "Upstream connection closed unexpectedly"),
    gatewayTimeout (ascii "Timed out waiting for upstream response")]

section Invariant

variable (order : IterationOrder Bytes Bytes)

/-- An error of the gateway, or the response parsed from the bytes received. -/
def Built (call : Call) (returned : Bytes) : Prop :=
  returned ∈ errorResponses ∨
    ∃ response, tryParseResponse order (call.received.map Prod.snd) = .ok (some response) ∧
      returned = responseText order response

/-- A call in progress has the answer to its own request, once there is one, in
the bytes it received and those its connection holds. -/
structure Talking (i : Nat) (call : Call) (socket : Socket) : Prop where
  waiting : call.returned = none
  buffered : call.client.state ≠ .Complete →
    call.client.readBuffer = call.received.map Prod.snd
  connecting : call.client.state = .Connecting → call.client.writeOffset = 0
  unsent : call.client.writeOffset = 0 → Drained socket ∧ call.received = []
  exchange : (socket.pending = none ∨ socket.pending = some i) ∧ socket.inTransit = [] ∧
      socket.arrived = [] ∧ call.received = [] ∨
    socket.pending = none ∧ ∃ answer : Answer, answer.OneMessage order ∧
      call.received ++ socket.arrived ++ socket.inTransit = answer.bytes.map fun b => (i, b)

/-- Neither the pool nor another call has the descriptor. -/
structure Free (w : World) (i fd : Nat) : Prop where
  pool : ∀ host, fd ∉ w.pool.fds host
  calls : ∀ j call, w.calls j = some call → call.client.fd = some fd → j = i

theorem Free.only {w : World} {i fd : Nat} (free : Free w i fd) {held : Option Nat}
    (h : held = some fd) : ∀ fd', held = some fd' → Free w i fd' := by
  intro fd' h'
  rw [h, Option.some.injEq] at h'
  rw [← h']
  exact free

structure Inv (w : World) : Prop where
  positive : 0 < w.pool.maxIdlePerHost
  distinct : w.pool.Distinct
  pooled : ∀ host fd, fd ∈ w.pool.fds host → ∃ socket, w.sockets fd = some socket ∧ Drained socket
  free : ∀ i call fd, w.calls i = some call → call.client.fd = some fd → Free w i fd
  own : ∀ i call, w.calls i = some call → ∀ b ∈ call.received, b.1 = i
  built : ∀ i call returned, w.calls i = some call → call.returned = some returned →
    Built order call returned
  talking : ∀ i call fd, w.calls i = some call → call.client.fd = some fd →
    ∃ socket, w.sockets fd = some socket ∧ Talking order i call socket

theorem inv_init (maxIdlePerHost : Nat) (positive : 0 < maxIdlePerHost) (idleTimeout : Int) :
    Inv order (World.init maxIdlePerHost idleTimeout) := by
  refine ⟨positive, ⟨fun host => List.nodup_nil, fun host other fd h => ?_⟩,
    fun host fd h => ?_, ?_, ?_, ?_, ?_⟩
  · simp [World.init, ConnectionPool.fds] at h
  · simp [World.init, ConnectionPool.fds] at h
  all_goals
    intro i call
    simp [World.init]

variable {order} {w : World}

theorem Inv.setSocket (inv : Inv order w) {fd : Nat} {socket socket' : Socket}
    (held : w.sockets fd = some socket) (drained : Drained socket → Drained socket')
    (talking : ∀ i call, Talking order i call socket → Talking order i call socket') :
    Inv order (w.setSocket fd socket') := by
  refine ⟨inv.positive, inv.distinct, fun host fd' hfd' => ?_, fun i call fd' hcall hfd' => ?_,
    inv.own, inv.built, fun i call fd' hcall hfd' => ?_⟩
  · have ⟨old, hold, hdrained⟩ := inv.pooled host fd' hfd'
    by_cases h : fd' = fd
    · rw [h, held] at hold
      refine ⟨socket', by simp [World.setSocket, h], drained ?_⟩
      rw [Option.some.inj hold]
      exact hdrained
    · exact ⟨old, by simpa [World.setSocket, h] using hold, hdrained⟩
  · have hfree := inv.free i call fd' hcall hfd'
    exact ⟨hfree.pool, hfree.calls⟩
  · have ⟨old, hold, htalking⟩ := inv.talking i call fd' hcall hfd'
    by_cases h : fd' = fd
    · rw [h, held] at hold
      refine ⟨socket', by simp [World.setSocket, h], talking i call ?_⟩
      rw [Option.some.inj hold]
      exact htalking
    · exact ⟨old, by simpa [World.setSocket, h] using hold, htalking⟩

theorem update_cases {calls : Nat → Option Call} {i j : Nat} {call call' : Call}
    (h : Function.update calls i (some call) j = some call') :
    (j = i ∧ call' = call) ∨ (j ≠ i ∧ calls j = some call') := by
  by_cases hj : j = i
  · rw [hj, Function.update_self, Option.some.injEq] at h
    exact .inl ⟨hj, h.symm⟩
  · rw [Function.update_of_ne hj] at h
    exact .inr ⟨hj, h⟩

theorem Inv.put (inv : Inv order w) {i fd : Nat} {call : Call} {socket : Socket}
    (free : Free w i fd) (held : call.client.fd = some fd) (own : ∀ b ∈ call.received, b.1 = i)
    (talking : Talking order i call socket) :
    Inv order ((w.setSocket fd socket).setCall i call) := by
  have hcalls : ∀ j call', ((w.setSocket fd socket).setCall i call).calls j = some call' →
      (j = i ∧ call' = call) ∨ (j ≠ i ∧ w.calls j = some call') := fun _ _ => update_cases
  have hsocket : ∀ fd', fd' ≠ fd →
      ((w.setSocket fd socket).setCall i call).sockets fd' = w.sockets fd' := by
    intro fd' h
    simp [World.setCall, World.setSocket, h]
  refine ⟨inv.positive, inv.distinct, fun host fd' hfd' => ?_, fun j call' fd' hcall hfd' => ?_,
    fun j call' hcall => ?_, fun j call' returned hcall hreturned => ?_,
    fun j call' fd' hcall hfd' => ?_⟩
  · have hne : fd' ≠ fd := by
      intro h
      exact free.pool host (h ▸ hfd')
    rw [hsocket fd' hne]
    exact inv.pooled host fd' hfd'
  · rcases hcalls j call' hcall with ⟨hj, hcall'⟩ | ⟨hj, hold⟩
    · rw [hcall', held, Option.some.injEq] at hfd'
      rw [hj, ← hfd']
      refine ⟨free.pool, fun k call'' hk hfd'' => ?_⟩
      rcases hcalls k call'' hk with ⟨hk', _⟩ | ⟨_, hold'⟩
      · exact hk'
      · exact free.calls k call'' hold' hfd''
    · have hfree := inv.free j call' fd' hold hfd'
      refine ⟨hfree.pool, fun k call'' hk hfd'' => ?_⟩
      rcases hcalls k call'' hk with ⟨hk', hcall''⟩ | ⟨_, hold'⟩
      · rw [hcall'', held, Option.some.injEq] at hfd''
        exact absurd (free.calls j call' hold (hfd'' ▸ hfd')) hj
      · exact hfree.calls k call'' hold' hfd''
  · rcases hcalls j call' hcall with ⟨hj, hcall'⟩ | ⟨_, hold⟩
    · rw [hj, hcall']
      exact own
    · exact inv.own j call' hold
  · rcases hcalls j call' hcall with ⟨_, hcall'⟩ | ⟨_, hold⟩
    · rw [hcall', talking.waiting] at hreturned
      cases hreturned
    · exact inv.built j call' returned hold hreturned
  · rcases hcalls j call' hcall with ⟨hj, hcall'⟩ | ⟨hj, hold⟩
    · rw [hcall', held, Option.some.injEq] at hfd'
      rw [hj, hcall', ← hfd']
      exact ⟨socket, by simp [World.setCall, World.setSocket], talking⟩
    · have hne : fd' ≠ fd := by
        intro h
        exact hj (free.calls j call' hold (h ▸ hfd'))
      rw [hsocket fd' hne]
      exact inv.talking j call' fd' hold hfd'

theorem closeSockets_of_not_mem {sockets : Nat → Option Socket} {closed : List Nat} {fd : Nat}
    (h : fd ∉ closed) : closeSockets sockets closed fd = sockets fd := by
  rw [closeSockets, if_neg h]

theorem Inv.shrink (inv : Inv order w) {pool : ConnectionPool} {gone closed : List Nat}
    (shrinks : Shrinks w.pool pool gone) (sub : ∀ fd ∈ closed, fd ∈ gone)
    (limit : pool.maxIdlePerHost = w.pool.maxIdlePerHost) :
    Inv order { w with pool := pool, sockets := closeSockets w.sockets closed } := by
  have hpool : ∀ host fd, fd ∈ pool.fds host → fd ∉ closed := fun host fd hfd hclosed =>
    shrinks.away fd (sub fd hclosed) host hfd
  have hcall : ∀ i call fd, w.calls i = some call → call.client.fd = some fd → fd ∉ closed := by
    intro i call fd hcall hfd hclosed
    have ⟨host, hhad⟩ := shrinks.had fd (sub fd hclosed)
    exact (inv.free i call fd hcall hfd).pool host hhad
  refine ⟨limit ▸ inv.positive, shrinks.distinct, fun host fd hfd => ?_,
    fun i call fd hi hfd => ?_, inv.own, inv.built, fun i call fd hi hfd => ?_⟩
  · have ⟨socket, hsocket, hdrained⟩ := inv.pooled host fd (shrinks.kept host fd hfd)
    exact ⟨socket, (closeSockets_of_not_mem (hpool host fd hfd)).trans hsocket, hdrained⟩
  · have hfree := inv.free i call fd hi hfd
    exact ⟨fun host hmem => hfree.pool host (shrinks.kept host fd hmem), hfree.calls⟩
  · have ⟨socket, hsocket, htalking⟩ := inv.talking i call fd hi hfd
    exact ⟨socket, (closeSockets_of_not_mem (hcall i call fd hi hfd)).trans hsocket, htalking⟩

theorem Inv.retire (inv : Inv order w) {i : Nat} {call : Call} {returned : Bytes}
    {pool : ConnectionPool} {closed : List Nat} (gone : call.client.fd = none)
    (done : call.returned = some returned) (own : ∀ b ∈ call.received, b.1 = i)
    (built : Built order call returned) (distinct : pool.Distinct)
    (limit : pool.maxIdlePerHost = w.pool.maxIdlePerHost)
    (pooled : ∀ host fd, fd ∈ pool.fds host → fd ∉ closed ∧ (fd ∈ w.pool.fds host ∨
      Free w i fd ∧ ∃ socket, w.sockets fd = some socket ∧ Drained socket))
    (had : ∀ fd ∈ closed, (∃ host, fd ∈ w.pool.fds host) ∨ Free w i fd) :
    Inv order ⟨pool, closeSockets w.sockets closed,
      Function.update w.calls i (some call)⟩ := by
  have hnot : ∀ j call' fd, j ≠ i → w.calls j = some call' → call'.client.fd = some fd →
      fd ∉ closed ∧ ∀ host, fd ∉ pool.fds host := by
    intro j call' fd hj hcall hfd
    have hfree := inv.free j call' fd hcall hfd
    refine ⟨fun hclosed => ?_, fun host hmem => ?_⟩
    · cases had fd hclosed with
      | inl hpool =>
          have ⟨host, hmem⟩ := hpool
          exact hfree.pool host hmem
      | inr hmine => exact hj (hmine.calls j call' hcall hfd)
    · cases (pooled host fd hmem).2 with
      | inl hpool => exact hfree.pool host hpool
      | inr hmine => exact hj (hmine.1.calls j call' hcall hfd)
  refine ⟨limit ▸ inv.positive, distinct, fun host fd hfd => ?_, fun j call' fd hcall hfd => ?_,
    fun j call' hcall => ?_, fun j call' returned' hcall hreturned => ?_,
    fun j call' fd hcall hfd => ?_⟩
  · have ⟨hopen, hold⟩ := pooled host fd hfd
    have hdrained : ∃ socket, w.sockets fd = some socket ∧ Drained socket := by
      cases hold with
      | inl hpool => exact inv.pooled host fd hpool
      | inr hmine => exact hmine.2
    have ⟨socket, hsocket, hsocket'⟩ := hdrained
    exact ⟨socket, (closeSockets_of_not_mem hopen).trans hsocket, hsocket'⟩
  · rcases update_cases hcall with ⟨_, hcall'⟩ | ⟨hj, hold⟩
    · rw [hcall', gone] at hfd
      cases hfd
    · refine ⟨(hnot j call' fd hj hold hfd).2, fun k call'' hk hfd' => ?_⟩
      rcases update_cases hk with ⟨_, hcall''⟩ | ⟨_, hold'⟩
      · rw [hcall'', gone] at hfd'
        cases hfd'
      · exact (inv.free j call' fd hold hfd).calls k call'' hold' hfd'
  · rcases update_cases hcall with ⟨hj, hcall'⟩ | ⟨_, hold⟩
    · rw [hj, hcall']
      exact own
    · exact inv.own j call' hold
  · rcases update_cases hcall with ⟨_, hcall'⟩ | ⟨_, hold⟩
    · rw [hcall', done, Option.some.injEq] at hreturned
      rw [hcall', ← hreturned]
      exact built
    · exact inv.built j call' returned' hold hreturned
  · rcases update_cases hcall with ⟨_, hcall'⟩ | ⟨hj, hold⟩
    · rw [hcall', gone] at hfd
      cases hfd
    · have ⟨socket, hsocket, htalking⟩ := inv.talking j call' fd hold hfd
      exact ⟨socket, (closeSockets_of_not_mem (hnot j call' fd hj hold hfd).1).trans hsocket,
        htalking⟩

theorem Inv.return (inv : Inv order w) {i : Nat} {call : Call} {response : Bytes}
    (free : ∀ fd, call.client.fd = some fd → Free w i fd) (own : ∀ b ∈ call.received, b.1 = i)
    (built : Built order call response) : Inv order (w.return i call response) := by
  refine inv.retire rfl rfl own built inv.distinct rfl
    (fun host fd hfd => ⟨fun hclosed => ?_, .inl hfd⟩)
    fun fd hclosed => .inr (free fd (by simpa using hclosed))
  exact (free fd (by simpa using hclosed)).pool host hfd

theorem setSocket_self {fd : Nat} {socket : Socket} (h : w.sockets fd = some socket) :
    w.setSocket fd socket = w := by
  rw [World.setSocket, ← h, Function.update_eq_self]

/-- A call that has a connection but has not used it. -/
structure Unused (w : World) (i fd : Nat) (call : Call) : Prop where
  free : Free w i fd
  held : call.client.fd = some fd
  waiting : call.returned = none
  received : call.received = []
  buffer : call.client.readBuffer = []
  offset : call.client.writeOffset = 0
  drained : ∃ socket, w.sockets fd = some socket ∧ Drained socket

variable (order) in
theorem Unused.talking {i fd : Nat} {call : Call} (h : Unused w i fd call) :
    ∃ socket, w.sockets fd = some socket ∧ Talking order i call socket := by
  have ⟨socket, hsocket, hdrained⟩ := h.drained
  refine ⟨socket, hsocket, h.waiting, fun _ => by rw [h.buffer, h.received, List.map_nil],
    fun _ => h.offset, fun _ => ⟨hdrained, h.received⟩, .inl ⟨.inl hdrained.pending, hdrained.inTransit,
      hdrained.arrived, h.received⟩⟩

theorem Inv.setUnused (inv : Inv order w) {i fd : Nat} {call : Call} (unused : Unused w i fd call) :
    Inv order (w.setCall i call) := by
  have ⟨socket, hsocket, htalking⟩ := unused.talking order
  have hput := inv.put unused.free unused.held (by simp [unused.received]) htalking
  rwa [setSocket_self hsocket] at hput

theorem Inv.prepare (inv : Inv order w) (requestOrder upstreamOrder : IterationOrder Bytes Bytes)
    {i : Nat} (fd : Nat) {call : Call} (unused : Unused w i fd call) :
    Inv order (w.prepare requestOrder upstreamOrder i call) := by
  unfold World.prepare HttpClient.prepareRequest
  split_ifs with hstate
  · exact inv.return (unused.free.only unused.held) (by simp [unused.received])
      (.inl (by simp [errorResponses]))
  · exact inv.setUnused ⟨unused.free, unused.held, unused.waiting, unused.received, unused.buffer,
      rfl, unused.drained⟩

theorem Inv.free_of_closed (inv : Inv order w) (i : Nat) {fd : Nat} (h : w.sockets fd = none) :
    Free w i fd := by
  refine ⟨fun host hmem => ?_, fun j call hcall hfd => ?_⟩
  · have ⟨socket, hsocket, _⟩ := inv.pooled host fd hmem
    rw [h] at hsocket
    cases hsocket
  · have ⟨socket, hsocket, _⟩ := inv.talking j call fd hcall hfd
    rw [h] at hsocket
    cases hsocket

theorem Inv.start (inv : Inv order w) (requestOrder upstreamOrder : IterationOrder Bytes Bytes)
    {i : Nat} {target : RouteTrie.ProxyTarget} {request : RequestReading.HttpRequest}
    {opened : Option Nat} {w' : World}
    (next : w.start requestOrder upstreamOrder i target request opened = some w') :
    Inv order w' := by
  have ⟨hshrinks, hapart⟩ := lease_shrinks inv.distinct w.isHealthy (hostKeyFor target)
  have hinv := inv.shrink hshrinks (fun _ => List.mem_append_right _) rfl
  unfold World.start at next
  cases hleased : (w.pool.lease w.isHealthy (hostKeyFor target)).leased with
  | some fd =>
      have ⟨host, hhad⟩ := hshrinks.had fd (by simp [hleased])
      have ⟨socket, hsocket, hdrained⟩ := inv.pooled host fd hhad
      simp only [hleased, Option.bind_some, HttpClient.adoptConnection, HttpClient.new, ne_eq,
        not_true_eq_false, false_and, if_false, Option.isNone_some, Bool.false_eq_true,
        List.append_nil, Option.some.injEq] at next
      rw [← next]
      refine hinv.prepare requestOrder upstreamOrder fd
        ⟨⟨?_, ?_⟩, rfl, rfl, rfl, rfl, rfl, socket, ?_, hdrained⟩
      · exact hshrinks.away fd (by simp [hleased])
      · intro j call hcall hfd
        exact absurd hhad ((inv.free j call fd hcall hfd).pool host)
      · exact (closeSockets_of_not_mem (hapart fd hleased)).trans hsocket
  | none =>
      simp only [hleased, Option.bind_none, Option.isNone_none, if_true, Option.toList_none,
        List.append_nil, HttpClient.connect, HttpClient.new, ne_eq, not_true_eq_false, if_false,
        createConnectingSocket] at next
      split_ifs at next with hused haddress
      · cases opened with
        | none =>
            simp only [Option.map_none, Option.some.injEq] at next
            rw [← next]
            exact hinv.return (by simp) (by simp) (.inl (by simp [errorResponses]))
        | some fd =>
            simp only [Option.map_some, Option.some.injEq, World.openSocket] at next
            rw [← next]
            have hclosed := Option.not_isSome_iff_eq_none.mp hused
            refine hinv.put (hinv.free_of_closed i hclosed) rfl (by simp)
              ⟨rfl, fun _ => rfl, fun _ => rfl, fun _ => ?_, ?_⟩
            · exact ⟨⟨rfl, rfl, rfl⟩, rfl⟩
            · exact .inl ⟨.inl rfl, rfl, rfl, rfl⟩
      · simp only [Option.map_none, Option.some.injEq] at next
        rw [← next]
        exact hinv.return (by simp) (by simp) (.inl (by simp [errorResponses]))

theorem inState_some {i fd : Nat} {state : HttpClientState} {call : Call} {socket : Socket}
    (h : w.inState i state = some (call, fd, socket)) :
    w.calls i = some call ∧ call.client.fd = some fd ∧ w.sockets fd = some socket ∧
      call.client.state = state := by
  unfold World.inState at h
  split at h
  · cases h
  · next hcall =>
    split at h
    · cases h
    · next hfd =>
      split at h
      · cases h
      · next hsocket =>
        split_ifs at h with hstate
        cases h
        exact ⟨hcall, hfd, hsocket, hstate.1⟩

theorem Inv.inState (inv : Inv order w) {i fd : Nat} {state : HttpClientState} {call : Call}
    {socket : Socket} (h : w.inState i state = some (call, fd, socket)) :
    Free w i fd ∧ call.client.fd = some fd ∧ call.client.state = state ∧
      w.sockets fd = some socket ∧ (∀ b ∈ call.received, b.1 = i) ∧ Talking order i call socket := by
  have ⟨hcall, hfd, hsocket, hstate⟩ := inState_some h
  have ⟨socket', hsocket', htalking⟩ := inv.talking i call fd hcall hfd
  rw [hsocket, Option.some.injEq] at hsocket'
  rw [← hsocket'] at htalking
  exact ⟨inv.free i call fd hcall hfd, hfd, hstate, hsocket, inv.own i call hcall, htalking⟩

theorem Inv.giveUp (inv : Inv order w) {i fd : Nat} {state : HttpClientState} {call : Call}
    {socket : Socket} (h : w.inState i state = some (call, fd, socket)) {response : Bytes}
    (error : response ∈ errorResponses) : Inv order (w.return i call response) := by
  have ⟨hfree, hfd, _, _, hown, _⟩ := inv.inState h
  exact inv.return (hfree.only hfd) hown (.inl error)

theorem Inv.onConnected (inv : Inv order w) (requestOrder upstreamOrder : IterationOrder Bytes Bytes)
    {i fd : Nat} {call : Call} {socket : Socket}
    (h : w.inState i .Connecting = some (call, fd, socket)) (socketError : Bool) :
    Inv order (w.onConnected requestOrder upstreamOrder i call socketError) := by
  have ⟨hfree, hfd, hstate, hsocket, hown, htalking⟩ := inv.inState h
  have hoffset := htalking.connecting hstate
  have ⟨hdrained, hreceived⟩ := htalking.unsent hoffset
  have hbuffer : call.client.readBuffer = [] := by
    rw [htalking.buffered (by simp [hstate]), hreceived, List.map_nil]
  unfold World.onConnected
  cases socketError with
  | true =>
      have hcomplete : call.client.completeConnect true = { call.client with state := .Failed } := by
        simp [HttpClient.completeConnect, hstate]
      simp only [hcomplete, ne_eq, reduceCtorEq, not_false_eq_true, if_true]
      exact inv.return (hfree.only hfd) hown (.inl (by simp [errorResponses]))
  | false =>
      have hcomplete : call.client.completeConnect false =
          { call.client with state := .Connected } := by
        simp [HttpClient.completeConnect, hstate]
      simp only [hcomplete, ne_eq, not_true_eq_false, if_false]
      exact inv.prepare requestOrder upstreamOrder fd
        ⟨hfree, hfd, htalking.waiting, hreceived, hbuffer, hoffset, socket, hsocket, hdrained⟩

theorem Inv.onSent (inv : Inv order w) {i fd : Nat} {call : Call} {socket : Socket}
    (h : w.inState i .Sending = some (call, fd, socket)) {count : Nat} (sent : count ≠ 0) :
    Inv order (w.onSent i call fd socket count) := by
  have ⟨hfree, hfd, hstate, hsocket, hown, htalking⟩ := inv.inState h
  have hclient : (call.client.onSent count).fd = call.client.fd ∧
      (call.client.onSent count).readBuffer = call.client.readBuffer ∧
      (call.client.onSent count).writeOffset = call.client.writeOffset + count ∧
      (call.client.onSent count).state ≠ .Connecting := by
    unfold HttpClient.onSent
    split_ifs
    · exact ⟨rfl, rfl, rfl, by simp [hstate]⟩
    · exact ⟨rfl, rfl, rfl, by simp⟩
  have ⟨hfd', hbuffer, hoffset, hconnecting⟩ := hclient
  refine inv.put hfree (by rw [hfd', hfd]) hown ⟨htalking.waiting, fun _ => ?_, fun hc => ?_,
    fun hzero => ?_, ?_⟩
  · rw [hbuffer]
    exact htalking.buffered (by simp [hstate])
  · exact absurd hc hconnecting
  · rw [hoffset] at hzero
    omega
  · by_cases hfirst : call.client.writeOffset = 0
    · have ⟨hdrained, hreceived⟩ := htalking.unsent hfirst
      rw [if_pos hfirst]
      exact .inl ⟨.inr rfl, hdrained.inTransit, hdrained.arrived, hreceived⟩
    · rw [if_neg hfirst]
      exact htalking.exchange

theorem Inv.finish (inv : Inv order w) {i fd : Nat} {call : Call} {socket : Socket}
    (hcall : w.calls i = some call) (hfd : call.client.fd = some fd)
    (hsocket : w.sockets fd = some socket) (talking : Talking order i call socket)
    (received : call.received ≠ [])
    (parsed : tryParseResponse order (call.received.map Prod.snd) =
      .ok (some call.client.response)) {now : Nat} {w' : World}
    (next : w.finish order i call now = some w') : Inv order w' := by
  have hfree := inv.free i call fd hcall hfd
  have hown := inv.own i call hcall
  have hbuilt : Built order call (responseText order call.client.response) :=
    .inr ⟨call.client.response, parsed, rfl⟩
  unfold World.finish at next
  simp only at next
  split_ifs at next with hkeep
  · have hdrained : Drained socket := by
      rcases talking.exchange with ⟨_, _, _, hnone⟩ | ⟨hpending, answer, hone, hall⟩
      · exact absurd hnone received
      · have hbytes : call.received.map Prod.snd ++ (socket.arrived ++ socket.inTransit).map Prod.snd =
            answer.bytes := by
          rw [← List.map_append, ← List.append_assoc, hall, List.map_map]
          simp
        have hwhole := whole_answer_read hone ⟨_, hbytes⟩ parsed hkeep
        rw [hwhole, List.append_right_eq_self, List.map_eq_nil_iff, List.append_eq_nil_iff] at hbytes
        exact ⟨hpending, hbytes.2, hbytes.1⟩
    unfold HttpClient.releaseFd at next
    simp only [hfd] at next
    have ⟨effect, hrelease, hnext⟩ := Option.map_eq_some_iff.mp next
    have ⟨hdistinct, hkept, hclosed⟩ := release_distinct inv.distinct hfree.pool hrelease
    rw [← hnext]
    refine inv.retire rfl rfl hown hbuilt hdistinct (release_perm hrelease).2.2
      (fun host fd' hfd' => ⟨fun hmem => ?_, ?_⟩) fun fd' hfd' => ?_
    · exact (hclosed fd' hmem).2 host hfd'
    · cases hkept host fd' hfd' with
      | inl hold => exact .inl hold
      | inr hnew =>
          rw [hnew]
          exact .inr ⟨hfree, socket, hsocket, hdrained⟩
    · cases (hclosed fd' hfd').1 with
      | inl hold => exact .inl ⟨_, hold⟩
      | inr hnew =>
          rw [hnew]
          exact .inr hfree
  · cases next
    exact inv.return (hfree.only hfd) hown hbuilt

theorem return_setCall (w : World) (i : Nat) (call call' : Call) (response : Bytes) :
    (w.setCall i call).return i call' response = w.return i call' response := by
  simp [World.return, World.setCall]

variable (order) in
theorem afterReceive_setCall (w : World) (i : Nat) (call call' : Call) (now : Nat) :
    (w.setCall i call).afterReceive order i call' now = w.afterReceive order i call' now := by
  unfold World.afterReceive World.finish
  simp only [return_setCall]
  simp [World.setCall]

theorem Inv.afterReceive (inv : Inv order w) {i fd : Nat} {call : Call} {socket : Socket}
    (hcall : w.calls i = some call) (hfd : call.client.fd = some fd)
    (hsocket : w.sockets fd = some socket) (talking : Talking order i call socket)
    (received : call.received ≠ [])
    (parsed : call.client.state = .Complete →
      tryParseResponse order (call.received.map Prod.snd) = .ok (some call.client.response))
    {now : Nat} {w' : World} (next : w.afterReceive order i call now = some w') :
    Inv order w' := by
  have hstay : w.setCall i call = w := by
    rw [World.setCall, ← hcall, Function.update_eq_self]
  unfold World.afterReceive at next
  split at next
  · next hstate => exact inv.finish hcall hfd hsocket talking received (parsed hstate) next
  · cases next
    exact inv.return ((inv.free i call fd hcall hfd).only hfd) (inv.own i call hcall)
      (.inl (by simp [errorResponses]))
  · rw [hstay] at next
    cases next
    exact inv

theorem onReceived_facts (order : IterationOrder Bytes Bytes) {client : HttpClient}
    (receiving : client.state = .Receiving) (chunk : Bytes) :
    (client.onReceived order chunk).fd = client.fd ∧
      ((client.onReceived order chunk).state ≠ .Complete →
        (client.onReceived order chunk).readBuffer = client.readBuffer ++ chunk) ∧
      (client.onReceived order chunk).state ≠ .Connecting ∧
      (client.onReceived order chunk).writeOffset = client.writeOffset ∧
      ((client.onReceived order chunk).state = .Complete →
        tryParseResponse order (client.readBuffer ++ chunk) =
          .ok (some (client.onReceived order chunk).response)) := by
  rcases onReceived_cases order client chunk with hfail | hmore | ⟨response, hparse, hdone⟩
  · rw [hfail]
    exact ⟨rfl, fun _ => rfl, by simp, rfl, by simp⟩
  · rw [hmore]
    exact ⟨rfl, fun _ => rfl, by simp [receiving], rfl, by simp [receiving]⟩
  · rw [hdone]
    exact ⟨rfl, by simp, by simp, rfl, fun _ => hparse⟩

theorem Inv.onReceived (inv : Inv order w) {i fd : Nat} {call : Call} {socket : Socket}
    (h : w.inState i .Receiving = some (call, fd, socket)) {count : Nat} (positive : count ≠ 0)
    (arrived : count ≤ socket.arrived.length) {now : Nat} {w' : World}
    (next : w.onReceived order i call fd socket count now = some w') : Inv order w' := by
  have ⟨hfree, hfd, hstate, hsocket, hown, htalking⟩ := inv.inState h
  have hbuffer := htalking.buffered (by simp [hstate])
  have hchunk : socket.arrived.take count ≠ [] := by
    intro hnil
    have hlength := congrArg List.length hnil
    rw [List.length_take_of_le arrived] at hlength
    exact positive hlength
  have hexchange : socket.pending = none ∧ ∃ answer : Answer, answer.OneMessage order ∧
      call.received ++ socket.arrived ++ socket.inTransit = answer.bytes.map fun b => (i, b) := by
    rcases htalking.exchange with ⟨_, _, hnone, _⟩ | hanswer
    · simp [hnone] at hchunk
    · exact hanswer
  have ⟨hpending, answer, hone, hall⟩ := hexchange
  have ⟨hheld, hread, hconnecting, hoffset, hparsed⟩ :=
    onReceived_facts order hstate ((socket.arrived.take count).map Prod.snd)
  rw [hbuffer, ← List.map_append] at hread hparsed
  let call' : Call := { call with
    client := call.client.onReceived order ((socket.arrived.take count).map Prod.snd)
    received := call.received ++ socket.arrived.take count }
  let socket' : Socket := { socket with arrived := socket.arrived.drop count }
  have hall' : call'.received ++ socket'.arrived ++ socket'.inTransit =
      answer.bytes.map fun b => (i, b) := by
    rw [← hall, List.append_assoc call.received, List.take_append_drop]
  have hown' : ∀ b ∈ call'.received, b.1 = i := by
    intro b hb
    have hmem : b ∈ answer.bytes.map fun b => (i, b) := by
      rw [← hall', List.append_assoc]
      exact List.mem_append_left _ hb
    have ⟨_, _, hmark⟩ := List.mem_map.mp hmem
    rw [← hmark]
  have htalking' : Talking order i call' socket' := by
    refine ⟨htalking.waiting, hread, fun hc => absurd hc hconnecting, fun hzero => ?_,
      .inr ⟨hpending, answer, hone, hall'⟩⟩
    have hnone := (htalking.unsent (hoffset.symm.trans hzero)).1.arrived
    simp [hnone] at hchunk
  have hinv := inv.put hfree (hheld.trans hfd) hown' htalking'
  have hnext : ((w.setSocket fd socket').setCall i call').afterReceive order i call' now =
      some w' := by
    rw [afterReceive_setCall]
    exact next
  exact hinv.afterReceive (by simp [World.setCall]) (hheld.trans hfd)
    (by simp [World.setCall, World.setSocket]) htalking'
    (List.append_ne_nil_of_right_ne_nil _ hchunk) hparsed hnext

theorem Inv.answer (inv : Inv order w) {fd i : Nat} {socket : Socket} {answer : Answer}
    (held : w.sockets fd = some socket) (pending : socket.pending = some i)
    (one : answer.OneMessage order) :
    Inv order (w.setSocket fd { socket with
      pending := none
      inTransit := socket.inTransit ++ answer.bytes.map fun b => (i, b) }) := by
  have hasked : ¬ Drained socket := by
    intro hdrained
    rw [hdrained.pending] at pending
    cases pending
  refine inv.setSocket held (fun hdrained => absurd hdrained hasked) fun j call htalking => ?_
  refine ⟨htalking.waiting, htalking.buffered, htalking.connecting,
    fun hzero => absurd (htalking.unsent hzero).1 hasked, ?_⟩
  rcases htalking.exchange with ⟨hpending, htransit, harrived, hreceived⟩ | ⟨hpending, _⟩
  · rw [pending] at hpending
    have hi : i = j := by simpa using hpending
    refine .inr ⟨rfl, answer, one, ?_⟩
    simp [htransit, harrived, hreceived, hi]
  · rw [pending] at hpending
    cases hpending

theorem Inv.deliver (inv : Inv order w) {fd : Nat} {socket : Socket}
    (held : w.sockets fd = some socket) (count : Nat) :
    Inv order (w.setSocket fd { socket with
      inTransit := socket.inTransit.drop count
      arrived := socket.arrived ++ socket.inTransit.take count }) := by
  refine inv.setSocket held (fun hdrained => ⟨hdrained.pending, ?_, ?_⟩) fun j call htalking =>
    ⟨htalking.waiting, htalking.buffered, htalking.connecting, fun hzero => ?_, ?_⟩
  · simp [hdrained.inTransit]
  · simp [hdrained.inTransit, hdrained.arrived]
  · have ⟨hdrained, hreceived⟩ := htalking.unsent hzero
    exact ⟨⟨hdrained.pending, by simp [hdrained.inTransit],
      by simp [hdrained.inTransit, hdrained.arrived]⟩, hreceived⟩
  · rcases htalking.exchange with ⟨hpending, htransit, harrived, hreceived⟩ | ⟨hpending, answer, hone,
      hall⟩
    · exact .inl ⟨hpending, by simp [htransit], by simp [htransit, harrived], hreceived⟩
    · refine .inr ⟨hpending, answer, hone, ?_⟩
      rw [← hall, ← List.append_assoc, List.append_assoc _ (socket.inTransit.take count),
        List.take_append_drop]

theorem Inv.peerClose (inv : Inv order w) {fd : Nat} {socket : Socket}
    (held : w.sockets fd = some socket) :
    Inv order (w.setSocket fd { socket with closedByPeer := true }) :=
  inv.setSocket held (fun hdrained => ⟨hdrained.pending, hdrained.inTransit, hdrained.arrived⟩)
    fun _ _ htalking => ⟨htalking.waiting, htalking.buffered, htalking.connecting,
      fun hzero => ⟨⟨(htalking.unsent hzero).1.pending, (htalking.unsent hzero).1.inTransit,
        (htalking.unsent hzero).1.arrived⟩, (htalking.unsent hzero).2⟩, htalking.exchange⟩

def Consumable (order : IterationOrder Bytes Bytes) : Event → Prop
  | .answer _ answer => answer.OneMessage order
  | _ => True

theorem Inv.step (inv : Inv order w) (requestOrder upstreamOrder : IterationOrder Bytes Bytes)
    {e : Event} {w' : World} (consumable : Consumable order e)
    (next : ProxyForwarding.step requestOrder upstreamOrder order w e = some w') :
    Inv order w' := by
  unfold ProxyForwarding.step at next
  cases e with
  | start i target request opened =>
      simp only at next
      split_ifs at next
      exact inv.start requestOrder upstreamOrder next
  | connected i socketError =>
      have ⟨⟨call, fd, socket⟩, hstate, hnext⟩ := Option.map_eq_some_iff.mp next
      rw [← hnext]
      exact inv.onConnected requestOrder upstreamOrder hstate socketError
  | connectTimeout i =>
      have ⟨⟨call, fd, socket⟩, hstate, hnext⟩ := Option.map_eq_some_iff.mp next
      rw [← hnext]
      exact inv.giveUp hstate (by simp [errorResponses])
  | sent i count =>
      have ⟨⟨call, fd, socket⟩, hstate, hnext⟩ := Option.bind_eq_some_iff.mp next
      simp only at hnext
      split_ifs at hnext with hbad
      cases hnext
      rw [not_or] at hbad
      exact inv.onSent hstate hbad.1
  | sendError i timeout =>
      have ⟨⟨call, fd, socket⟩, hstate, hnext⟩ := Option.map_eq_some_iff.mp next
      rw [← hnext]
      refine inv.giveUp hstate ?_
      cases timeout <;> simp [errorResponses]
  | received i count now =>
      have ⟨⟨call, fd, socket⟩, hstate, hnext⟩ := Option.bind_eq_some_iff.mp next
      simp only at hnext
      split_ifs at hnext with hbad
      rw [not_or, not_or] at hbad
      exact inv.onReceived hstate hbad.1 (by omega) hnext
  | receiveError i timeout =>
      have ⟨⟨call, fd, socket⟩, hstate, hnext⟩ := Option.map_eq_some_iff.mp next
      rw [← hnext]
      refine inv.giveUp hstate ?_
      cases timeout <;> simp [errorResponses]
  | reapStale hosts now =>
      cases next
      exact inv.shrink (reapStale_shrinks inv.distinct hosts now) (fun _ h => h) rfl
  | answer fd answer =>
      have ⟨socket, hsocket, hnext⟩ := Option.bind_eq_some_iff.mp next
      cases hpending : socket.pending with
      | none =>
          simp only [hpending] at hnext
          cases hnext
      | some i =>
          simp only [hpending] at hnext
          split_ifs at hnext
          cases hnext
          exact inv.answer hsocket hpending consumable
  | deliver fd count =>
      have ⟨socket, hsocket, hnext⟩ := Option.map_eq_some_iff.mp next
      rw [← hnext]
      exact inv.deliver hsocket count
  | peerClose fd =>
      have ⟨socket, hsocket, hnext⟩ := Option.bind_eq_some_iff.mp next
      split_ifs at hnext
      cases hnext
      exact inv.peerClose hsocket

/-- No call reads a byte of another's answer, what it returns is an error or made of
its own answer, and a connection in the pool has nothing left to read. -/
structure Separated (order : IterationOrder Bytes Bytes) (w : World) : Prop where
  own : ∀ i call, w.calls i = some call → ∀ b ∈ call.received, b.1 = i
  built : ∀ i call returned, w.calls i = some call → call.returned = some returned →
    Built order call returned
  pooled : ∀ host fd, fd ∈ w.pool.fds host → ∃ socket, w.sockets fd = some socket ∧ Drained socket

end Invariant

/-- In every run in which each answer that leaves its connection to the pool is one
message with a body that is not chunked, responses are not mixed up. -/
theorem separated (requestOrder upstreamOrder order : IterationOrder Bytes Bytes)
    (maxIdlePerHost : Nat) (positive : 0 < maxIdlePerHost) (idleTimeout : Int)
    (trace : List Event) (w : World)
    (run : Run (fun w e w' => step requestOrder upstreamOrder order w e = some w')
      (World.init maxIdlePerHost idleTimeout) trace w)
    (consumable : ∀ e ∈ trace, Consumable order e) : Separated order w := by
  have base : (∀ e ∈ [], Consumable order e) →
      Inv order (World.init maxIdlePerHost idleTimeout) := fun _ =>
    inv_init order maxIdlePerHost positive idleTimeout
  have preserved : ∀ trace w e w', ((∀ e ∈ trace, Consumable order e) → Inv order w) →
      step requestOrder upstreamOrder order w e = some w' →
      (∀ e' ∈ trace ++ [e], Consumable order e') → Inv order w' := by
    intro trace w e w' ih next hall
    exact (ih fun e' he' => hall e' (List.mem_append_left _ he')).step requestOrder upstreamOrder
      (hall e (by simp)) next
  have hinv := @Run.invariant _ _ _ _ (fun trace w => (∀ e ∈ trace, Consumable order e) →
    Inv order w) base preserved _ _ run
  have h := hinv consumable
  exact ⟨h.own, h.built, h.pooled⟩

def twoRequests (answer : Answer) (first second : Nat) : List Event :=
  let target : RouteTrie.ProxyTarget := ⟨ascii "10.0.0.1", 80⟩
  let request : RequestReading.HttpRequest := ⟨.GET, ascii "/", [], .empty, .empty, [], []⟩
  [.start 0 target request (some 5), .connected 0 false, .sent 0 61, .answer 5 answer,
    .deliver 5 first, .received 0 first 0,
    .start 1 target request none, .sent 1 61, .deliver 5 second, .received 1 second 0]

def okHead : Head := ⟨ascii "HTTP/1.1 200 OK\r\nContent-Length: 1", by decide⟩

def continueHead : Head := ⟨ascii "HTTP/1.1 100 Continue", by decide⟩

def plainAnswer : Answer := ⟨[], okHead, .sized (ascii "A"), by decide, by decide, by decide⟩

def continuedAnswer : Answer :=
  ⟨[continueHead], okHead, .sized (ascii "A"), by decide, by decide, by decide⟩

theorem separated_plain_answer : ∃ w,
    Run (fun w e w' => step default default default w e = some w')
      (World.init 16 60) ((twoRequests plainAnswer 39 0).take 8) w ∧
      (w.calls 1).isSome = true ∧ Separated default w := by
  have hsome : ((exec (step default default default) (World.init 16 60)
      ((twoRequests plainAnswer 39 0).take 8)).bind fun w => w.calls 1).isSome = true := by
    decide
  have ⟨call, hcall⟩ := Option.isSome_iff_exists.mp hsome
  have ⟨w, hexec, hw⟩ := Option.bind_eq_some_iff.mp hcall
  refine ⟨w, run_of_exec hexec, by simp [hw], ?_⟩
  refine separated default default default 16 (by decide) 60 _ w (run_of_exec hexec) ?_
  intro e he
  simp only [twoRequests, List.take_succ_cons, List.take_zero, List.mem_cons, List.not_mem_nil,
    or_false] at he
  rcases he with rfl | rfl | rfl | rfl | rfl | rfl | rfl | rfl
  all_goals
    first
    | exact trivial
    | exact fun _ => ⟨rfl, rfl⟩

theorem interim_response_mixes_up : ∃ w,
    Run (fun w e w' => step default default default w e = some w')
      (World.init 16 60) (twoRequests continuedAnswer 25 39) w ∧
      ¬ Separated default w := by
  have hmarks : ((exec (step default default default) (World.init 16 60)
      (twoRequests continuedAnswer 25 39)).bind fun w => w.calls 1).map
        (fun call => call.received.map Prod.fst) = some (List.replicate 39 0) := by
    decide
  have ⟨call, hcall, hreceived⟩ := Option.map_eq_some_iff.mp hmarks
  have ⟨w, hexec, hw⟩ := Option.bind_eq_some_iff.mp hcall
  refine ⟨w, run_of_exec hexec, fun hseparated => ?_⟩
  have hzero : 0 ∈ call.received.map Prod.fst := by simp [hreceived]
  have ⟨b, hb, hmark⟩ := List.mem_map.mp hzero
  have hown := hseparated.own 1 call hw b hb
  rw [hmark] at hown
  cases hown

end ApiGateway.ProxySeparation
