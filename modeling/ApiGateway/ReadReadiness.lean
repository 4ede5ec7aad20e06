import ApiGateway.ReactorRuns

/-! The reactor over sockets that report each arrival once. `kevent` clears the event
that it returns, so that what is left unread afterwards is reported only with the next
arrival. -/

namespace ApiGateway.ReadReadiness
open ByteText ChunkedReading Reactor ReactorPhases ReactorRuns StepRuns
open RequestReading (kReadChunkSize onChunk)

structure Socket where
  unread : Bytes
  eof : Bool
  deriving DecidableEq

def Socket.new : Socket := ⟨[], false⟩

def Socket.readable (s : Socket) : Bool := s.unread ≠ [] ∨ s.eof

def Socket.receive (s : Socket) (bytes : Bytes) (fin : Bool) : Socket :=
  ⟨s.unread ++ bytes, s.eof || fin⟩

def Socket.read (s : Socket) (count : Nat) : Socket := { s with unread := s.unread.drop count }

/-- `recv` with a buffer of `kReadChunkSize` bytes can answer this. -/
def Socket.answers (s : Socket) : Recv → Bool
  | .bytes chunk => s.unread ≠ [] ∧ chunk = s.unread.take kReadChunkSize
  | .endOfStream => s.unread = [] ∧ s.eof
  | .wouldBlock => s.unread = [] ∧ s.eof = false
  | .interrupted => false
  | .failed => false

structure Kernel where
  sockets : Nat → Socket
  backlog : List Socket
  pending : Nat → Bool

structure World where
  gateway : Gateway
  kernel : Kernel

inductive Event where
  /-- bytes or a FIN arrive, or both -/
  | segment (fd : Nat) (bytes : Bytes) (fin : Bool)
  /-- they arrive on a connection in the backlog -/
  | early (k : Nat) (bytes : Bytes) (fin : Bool)
  | connected
  | aborted (k : Nat)
  | reactor (e : Reactor.Event)

/-- Something has arrived on a descriptor. -/
def World.notify (w : World) (fd : Nat) : Nat → Bool :=
  Function.update w.kernel.pending fd
    (w.kernel.pending fd || w.gateway.tables.armed fd .read)

def World.segment (w : World) (fd : Nat) (bytes : Bytes) (fin : Bool) : Option World :=
  let socket := w.kernel.sockets fd
  if (w.gateway.tables.connections fd).isNone ∨ socket.eof ∨ (bytes = [] ∧ fin = false) then none
  else
    some { w with kernel := { w.kernel with
      sockets := Function.update w.kernel.sockets fd (socket.receive bytes fin)
      pending := w.notify fd } }

def World.early (w : World) (k : Nat) (bytes : Bytes) (fin : Bool) : Option World :=
  match w.kernel.backlog[k]? with
  | none => none
  | some socket =>
      if socket.eof then none
      else
        some { w with kernel := { w.kernel with
          backlog := w.kernel.backlog.set k (socket.receive bytes fin) } }

def World.connected (w : World) : World :=
  { w with kernel := { w.kernel with
    backlog := w.kernel.backlog ++ [.new]
    pending := w.notify w.gateway.tables.listenFd } }

def World.aborted (w : World) (k : Nat) : World :=
  { w with kernel := { w.kernel with backlog := w.kernel.backlog.eraseIdx k } }

def Kernel.reports (k : Kernel) : KEvent → Bool
  | .ready fd .read => k.pending fd
  | _ => true

/-- The kernel can answer the reactor's system call so. `accept` may fail at any time. -/
def World.answers (w : World) : Reactor.Event → Bool
  | .kevent events => events.all w.kernel.reports
  | .accept (.client _ _ _) => w.kernel.backlog ≠ []
  | .recv result =>
      match w.gateway.control with
      | .reading fd => (w.kernel.sockets fd).answers result
      | _ => true
  | _ => true

/-- What the system call does. `EV_ADD` finds what is on the new connection already. -/
def Kernel.onCall (k : Kernel) (control : Control) : Reactor.Event → Kernel
  | .kevent events =>
      { k with pending := fun fd => k.pending fd && decide (.ready fd .read ∉ events) }
  | .accept (.client clientFd _ _) =>
      match k.backlog with
      | [] => k
      | socket :: rest =>
          { sockets := Function.update k.sockets clientFd socket
            backlog := rest
            pending := Function.update k.pending clientFd socket.readable }
  | .recv (.bytes chunk) =>
      match control with
      | .reading fd =>
          { k with sockets :=
              Function.update k.sockets fd ((k.sockets fd).read chunk.length) }
      | _ => k
  | _ => k

/-- `EV_DELETE` takes back a pending event. -/
def Kernel.filtered (k : Kernel) (t : Tables) : Kernel :=
  { k with pending := fun fd => k.pending fd && t.armed fd .read }

def step (order : IterationOrder Bytes Bytes) (w : World) : Event → Option World
  | .segment fd bytes fin => w.segment fd bytes fin
  | .early k bytes fin => w.early k bytes fin
  | .connected => some w.connected
  | .aborted k => some (w.aborted k)
  | .reactor e =>
      if w.answers e then
        (Reactor.step order w.gateway e).map fun g =>
          ⟨g, (w.kernel.onCall w.gateway.control e).filtered g.tables⟩
      else none

def World.init (listenFd : Nat) : World := ⟨.init listenFd, ⟨fun _ => .new, [], fun _ => false⟩⟩

/-- What is left unread will be reported. -/
structure Notified (w : World) : Prop where
  connections : ∀ fd conn, w.gateway.tables.connections fd = some conn →
    w.gateway.tables.InPhase fd conn .reading → (w.kernel.sockets fd).readable = true →
      w.kernel.pending fd = true
  listening : w.kernel.backlog ≠ [] → w.kernel.pending w.gateway.tables.listenFd = true

/-- The handlers' two early ends lose nothing: an `accept` that fails leaves no
connection in the backlog, a short read that does not complete the request has no FIN
behind it, or else the event is pending again already. -/
def losesNothing (order : IterationOrder Bytes Bytes) (w : World) : Event → Bool
  | .reactor (.accept .failed) =>
      w.kernel.backlog = [] ∨ w.kernel.pending w.gateway.tables.listenFd
  | .reactor (.recv (.bytes chunk)) =>
      match w.gateway.control with
      | .reading fd =>
          match (w.gateway.tables.connections fd).map fun conn =>
            onChunk order conn.toConnection chunk with
          | some (.more _) =>
              chunk.length ≥ kReadChunkSize ∨ (w.kernel.sockets fd).eof = false ∨ w.kernel.pending fd
          | _ => true
      | _ => true
  | _ => true

/-- There is something to read, or to accept. -/
def Readable (t : Tables) (k : Kernel) (fd : Nat) : Prop :=
  if fd = t.listenFd then k.backlog ≠ [] else (k.sockets fd).readable = true

/-- Its event is pending, or in the batch, or its handler is at work. -/
def Covered (g : Gateway) (k : Kernel) (fd : Nat) : Prop :=
  k.pending fd = true ∨ .ready fd .read ∈ g.events ∨ g.control = .reading fd ∨
    (g.control = .accepting ∧ fd = g.tables.listenFd)

/-- Past the batch. -/
def BetweenBatches : Control → Prop
  | .poll => True
  | .waiting => True
  | .draining last => last = true
  | _ => False

structure Inv (g : Gateway) (k : Kernel) : Prop where
  steady : Steady g
  listening : g.tables.armed g.tables.listenFd .read = true
  covered : g.control ≠ .thrown → ∀ fd, g.tables.armed fd .read = true → Readable g.tables k fd →
    Covered g k fd
  idle : BetweenBatches g.control → g.events = []

theorem inv_init (listenFd : Nat) :
    Inv (World.init listenFd).gateway (World.init listenFd).kernel := by
  refine ⟨steady_init listenFd, by simp [World.init, Gateway.init], fun _ fd harmed hreadable => ?_,
    fun _ => rfl⟩
  have hlisten : fd = listenFd := by simpa [World.init, Gateway.init] using harmed
  rw [hlisten, Readable] at hreadable
  simp [World.init, Gateway.init] at hreadable

theorem Inv.notified {w : World} (inv : Inv w.gateway w.kernel)
    (waiting : w.gateway.control = .waiting) : Notified w := by
  have hidle : w.gateway.events = [] := inv.idle (by rw [waiting]; trivial)
  have hpending : ∀ fd, w.gateway.tables.armed fd .read = true →
      Readable w.gateway.tables w.kernel fd → w.kernel.pending fd = true := by
    intro fd harmed hreadable
    rcases inv.covered (by simp [waiting]) fd harmed hreadable with h | h | h | h
    · exact h
    · simp [hidle] at h
    · simp [waiting] at h
    · simp [waiting] at h
  refine ⟨fun fd conn hconn hphase hreadable => hpending fd hphase.1 ?_, fun hbacklog =>
    hpending _ inv.listening ?_⟩
  · have hclient := (inv.steady.inv.entries.entry fd conn hconn).client
    rw [Readable, if_neg hclient]
    exact hreadable
  · rw [Readable, if_pos rfl]
    exact hbacklog

section Steps

variable {order : IterationOrder Bytes Bytes} {g g' : Gateway} {k k' : Kernel}

theorem Inv.next (inv : Inv g k) (steady : Steady g')
    (listening : g'.tables.armed g'.tables.listenFd .read = true)
    (thrown : g'.control ≠ .thrown → g.control ≠ .thrown)
    (cover : ∀ fd, g'.control ≠ .thrown → g'.tables.armed fd .read = true →
      Readable g'.tables k' fd → g.tables.armed fd .read = true ∧ Readable g.tables k fd ∧
        (Covered g k fd → Covered g' k' fd) ∨ Covered g' k' fd)
    (idle : BetweenBatches g'.control → g'.events = []) : Inv g' k' := by
  refine ⟨steady, listening, fun hthrown fd harmed hreadable => ?_, idle⟩
  rcases cover fd hthrown harmed hreadable with ⟨harmed', hreadable', hcover⟩ | hcover
  · exact hcover (inv.covered (thrown hthrown) fd harmed' hreadable')
  · exact hcover

theorem filtered_pending {t : Tables} {fd : Nat} (armed : t.armed fd .read = true)
    (pending : k.pending fd = true) : (k.filtered t).pending fd = true := by
  simp [Kernel.filtered, armed, pending]

theorem Inv.goOn (inv : Inv g k) (steady : Steady g')
    (listenFd : g'.tables.listenFd = g.tables.listenFd)
    (armed : ∀ fd, g'.tables.armed fd .read = true → g.tables.armed fd .read = true)
    (listening : g'.tables.armed g.tables.listenFd .read = true)
    (thrown : g'.control ≠ .thrown → g.control ≠ .thrown)
    (cover : ∀ fd, g'.control ≠ .thrown → g'.tables.armed fd .read = true →
      Readable g.tables k fd → Covered g k fd → k.pending fd = true ∨ Covered g' k fd)
    (idle : BetweenBatches g'.control → g'.events = []) : Inv g' (k.filtered g'.tables) := by
  refine inv.next steady (by rw [listenFd]; exact listening) thrown
    (fun fd hthrown harmed hreadable => ?_) idle
  have hreadable' : Readable g.tables k fd := by
    rw [Readable, listenFd] at hreadable
    exact hreadable
  refine .inl ⟨armed fd harmed, hreadable', fun hcovered => ?_⟩
  rcases cover fd hthrown harmed hreadable' hcovered with h | h | h
  · exact .inl (filtered_pending harmed h)
  · exact .inl (filtered_pending harmed h)
  · exact .inr h

theorem Inv.handled (inv : Inv g k) (steady : Steady g') {fd serial : Nat} {conn : Connection}
    (held : g.tables.connections fd = some conn) (only : Only g.tables g'.tables fd serial)
    (events : g'.events = g.events) (control : g.control = .reading fd ∨ g.control = .writing fd)
    (control' : ¬ BetweenBatches g'.control)
    (sockets : ∀ fd' ≠ fd, k'.sockets fd' = k.sockets fd') (backlog : k'.backlog = k.backlog)
    (pending : k'.pending = k.pending)
    (own : g'.control ≠ .thrown → g'.tables.armed fd .read = true →
      (k'.sockets fd).readable = true → k.pending fd = true ∨ g'.control = .reading fd) :
    Inv g' (k'.filtered g'.tables) := by
  have hclient := (inv.steady.inv.entries.entry fd conn held).client
  have hbusy : g.control ≠ .thrown ∧ g.control ≠ .accepting ∧
      ∀ fd', g.control = .reading fd' → fd' = fd := by
    rcases control with h | h
    · simp [h, eq_comm]
    · simp [h]
  refine inv.next steady ?_ (fun _ => hbusy.1) (fun fd' hthrown harmed hreadable => ?_)
    fun hbetween => absurd hbetween control'
  · rw [only.listenFd, only.armed _ hclient.symm]
    exact inv.listening
  · by_cases hfd : fd' = fd
    · rw [hfd] at harmed hreadable ⊢
      rw [Readable, only.listenFd, if_neg hclient] at hreadable
      rcases own hthrown harmed hreadable with h | h
      · exact .inr (.inl (filtered_pending harmed (by rw [pending]; exact h)))
      · exact .inr (.inr (.inr (.inl h)))
    · have hreadable' : Readable g.tables k fd' := by
        simp only [Readable, only.listenFd, Kernel.filtered, sockets fd' hfd, backlog]
          at hreadable ⊢
        exact hreadable
      refine .inl ⟨only.armed fd' hfd ▸ harmed, hreadable', fun hcovered => ?_⟩
      rcases hcovered with h | h | h | h
      · exact .inl (filtered_pending harmed (by rw [pending]; exact h))
      · exact .inr (.inl (by rw [events]; exact h))
      · exact absurd (hbusy.2.2 fd' h) hfd
      · exact absurd h.1 hbusy.2.1

theorem closed_unarmed (t : Tables) (fd : Nat) : (t.closeConnection fd).armed fd .read = false := by
  unfold Tables.closeConnection
  simp

theorem Inv.close (inv : Inv g k) {fd : Nat} {filter : Reactor.Filter} {conn : Connection}
    (busy : Busy g.tables g.events fd filter) (held : g.tables.connections fd = some conn)
    (control : g.control = .reading fd ∨ g.control = .writing fd) :
    Inv (g.close fd) (k.filtered (g.close fd).tables) := by
  have hawaiting : conn.awaitingCompletion = false := by
    cases filter with
    | read => exact (inv.steady.inv.reading held busy.armed).2.1
    | write => exact (inv.steady.inv.writing held busy.armed).2.1
  refine inv.handled (inv.steady.close busy held) held
    (inv.steady.inv.closeConnection held hawaiting).2 rfl control not_false (fun _ _ => rfl) rfl rfl
    fun _ harmed _ => ?_
  rw [show (g.close fd).tables.armed fd .read = false from closed_unarmed _ _] at harmed
  cases harmed

theorem Inv.goto (inv : Inv g k) {control : Control} (steady : Steady (g.goto control))
    (thrown : control ≠ .thrown → g.control ≠ .thrown)
    (leaves : ∀ fd, control ≠ .thrown → Readable g.tables k fd →
      g.control = .reading fd ∨ (g.control = .accepting ∧ fd = g.tables.listenFd) →
        k.pending fd = true ∨ Covered (g.goto control) k fd)
    (idle : BetweenBatches control → g.events = []) :
    Inv (g.goto control) (k.filtered g.tables) := by
  refine inv.goOn steady rfl (fun _ => id) inv.listening thrown
    (fun fd hthrown _ hreadable hcovered => ?_) idle
  rcases hcovered with h | h | h
  · exact .inl h
  · exact .inr (.inr (.inl h))
  · exact leaves fd hthrown hreadable h

theorem onReceived_spec (order : IterationOrder Bytes Bytes) (g : Gateway) {fd : Nat}
    {conn : Connection} (chunk : Bytes) (inv : ReactorPhases.Inv g.tables)
    (held : g.tables.connections fd = some conn) (armed : g.tables.armed fd .read = true) :
    ∃ serial, Only g.tables (g.tables.onReceived order fd conn chunk).1 fd serial ∧
      ¬ BetweenBatches (g.tables.onReceived order fd conn chunk).2 ∧
      ((g.tables.onReceived order fd conn chunk).2 ≠ .thrown →
        (g.tables.onReceived order fd conn chunk).1.armed fd .read = true →
        (∃ reading, onChunk order conn.toConnection chunk = .more reading) ∧
        ((g.tables.onReceived order fd conn chunk).2 = .reading fd ∨
          chunk.length < kReadChunkSize)) := by
  unfold Tables.onReceived
  split
  · next dispatch hchunk =>
    refine ⟨conn.serial, (inv.dispatch held armed dispatch rfl).2, not_false, fun _ hread => ?_⟩
    simp [Tables.dispatchToThreadPool] at hread
  · next rejection hchunk =>
    simp only
    split
    · exact ⟨conn.serial, (inv.readMore held armed _).2, not_false, fun hthrown => absurd rfl hthrown⟩
    · next t hreject =>
      have hkey := (inv.entries.entry fd conn held).key
      obtain ⟨bytes, ht⟩ := rejectRequest_ok hreject
      refine ⟨conn.serial, (inv.rejectRequest held armed _ hreject).2, not_false, fun _ hread => ?_⟩
      rw [ht] at hread
      simp [hkey] at hread
  · next reading hchunk =>
    refine ⟨conn.serial, (inv.readMore held armed reading).2, ?_, fun _ _ => ⟨⟨reading, hchunk⟩, ?_⟩⟩
    · split_ifs <;> exact not_false
    · by_cases hshort : chunk.length < kReadChunkSize
      · exact .inr hshort
      · exact .inl (if_neg hshort)

theorem Inv.recv (inv : Inv g k) {fd : Nat} {conn : Connection} (control : g.control = .reading fd)
    (held : g.tables.connections fd = some conn) {result : Recv}
    (answers : (k.sockets fd).answers result = true)
    (ends : losesNothing order ⟨g, k⟩ (.reactor (.recv result)) = true)
    (next : g.onRecv order fd conn result = some g') :
    Inv g' ((k.onCall g.control (.recv result)).filtered g'.tables) := by
  have hbusy := inv.steady.atWork
  rw [control] at hbusy
  have hsteady := inv.steady.onRecv hbusy held next
  cases result with
  | bytes chunk =>
      have ⟨hunread, hchunk⟩ : (k.sockets fd).unread ≠ [] ∧
          chunk = (k.sockets fd).unread.take kReadChunkSize := by
        simpa [Socket.answers] using answers
      unfold Gateway.onRecv at next
      simp only at next
      split_ifs at next
      cases next
      have ⟨serial, honly, hbetween, hmore⟩ :=
        onReceived_spec order g chunk inv.steady.inv held hbusy.armed
      rw [control, Kernel.onCall]
      refine inv.handled hsteady held honly rfl (.inl control) hbetween
        (fun fd' hfd => Function.update_of_ne hfd _ _) rfl rfl fun hthrown harmed hreadable => ?_
      have ⟨⟨reading, hreading⟩, hshort⟩ := hmore hthrown harmed
      rcases hshort with hagain | hshort
      · exact .inr hagain
      · -- a short read has taken all bytes
        have hlength : (k.sockets fd).unread.length ≤ chunk.length := by
          rw [hchunk, List.length_take] at hshort ⊢
          omega
        have heof : (k.sockets fd).eof = true := by
          simpa [Socket.readable, Socket.read, List.drop_of_length_le hlength] using hreadable
        simp only [losesNothing, control, held, Option.map_some, hreading, decide_eq_true_eq,
          heof] at ends
        rcases ends with h | h | h
        · omega
        · cases h
        · exact .inl h
  | endOfStream =>
      cases next
      exact inv.close hbusy held (.inl control)
  | wouldBlock =>
      cases next
      refine inv.goto hsteady (fun _ => by simp [control]) (fun fd' _ hreadable hleaves => ?_)
        fun h => absurd h not_false
      have hclient := (inv.steady.inv.entries.entry fd conn held).client
      have hfd : fd' = fd := by
        simpa [control, eq_comm] using hleaves
      have hempty : (k.sockets fd).unread = [] ∧ (k.sockets fd).eof = false := by
        simpa [Socket.answers] using answers
      rw [hfd, Readable, if_neg hclient] at hreadable
      simp [Socket.readable, hempty] at hreadable
  | interrupted => cases answers
  | failed => cases answers

theorem Inv.accepted (inv : Inv g k) (control : g.control = .accepting) {t : Tables}
    (steady : Steady { g with tables := t }) {clientFd : Nat}
    (client : clientFd ≠ g.tables.listenFd) (listenFd : t.listenFd = g.tables.listenFd)
    (armed : ∀ fd, t.armed fd .read = if fd = clientFd then true else g.tables.armed fd .read)
    (backlog : k.backlog ≠ []) (sockets : ∀ fd ≠ clientFd, k'.sockets fd = k.sockets fd)
    (pending : ∀ fd ≠ clientFd, k'.pending fd = k.pending fd)
    (added : k'.pending clientFd = (k'.sockets clientFd).readable) :
    Inv { g with tables := t } (k'.filtered t) := by
  refine inv.next steady ?_ (fun _ => by simp [control]) (fun fd _ hread hreadable => ?_) fun h => ?_
  · change t.armed t.listenFd .read = true
    rw [armed, listenFd, inv.listening, ite_self]
  · change t.armed fd .read = true at hread
    change Readable t k' fd at hreadable
    rw [Readable, listenFd] at hreadable
    by_cases hfd : fd = clientFd
    · rw [hfd, if_neg client] at hreadable
      rw [hfd] at hread ⊢
      exact .inr (.inl (filtered_pending hread (added.trans hreadable)))
    · have hread' := hread
      rw [armed, if_neg hfd] at hread'
      have hreadable' : Readable g.tables k fd := by
        rw [Readable]
        by_cases hlisten : fd = g.tables.listenFd
        · rw [if_pos hlisten]
          exact backlog
        · rw [if_neg hlisten] at hreadable ⊢
          rw [← sockets fd hfd]
          exact hreadable
      refine .inl ⟨hread', hreadable', fun hcovered => ?_⟩
      rcases hcovered with hpending | hevent | hreading | haccepting
      · exact .inl (filtered_pending hread ((pending fd hfd).trans hpending))
      · exact .inr (.inl hevent)
      · exact .inr (.inr (.inl hreading))
      · exact .inr (.inr (.inr ⟨control, haccepting.2.trans listenFd.symm⟩))
  · change BetweenBatches g.control at h
    rw [control] at h
    exact absurd h not_false

theorem Inv.accept (inv : Inv g k) (control : g.control = .accepting) {result : Accept}
    (answers : World.answers ⟨g, k⟩ (.accept result) = true)
    (ends : losesNothing order ⟨g, k⟩ (.reactor (.accept result)) = true)
    (next : g.onAccept result = some g') :
    Inv g' ((k.onCall g.control (.accept result)).filtered g'.tables) := by
  have hsteady := inv.steady.onAccept control next
  cases result with
  | failed =>
      cases next
      refine inv.goto hsteady (fun _ => by simp [control]) (fun fd _ hreadable hleaves => ?_)
        fun h => absurd h not_false
      have hfd : fd = g.tables.listenFd := by
        simpa [control] using hleaves
      rw [hfd, Readable, if_pos rfl] at hreadable
      simp only [losesNothing, decide_eq_true_eq] at ends
      rcases ends with h | h
      · exact absurd h hreadable
      · rw [hfd]
        exact .inl h
  | client clientFd requestId nonBlocking =>
      have hbacklog : k.backlog ≠ [] := by simpa [World.answers] using answers
      have ⟨socket, rest, hcons⟩ := List.exists_cons_of_ne_nil hbacklog
      unfold Gateway.onAccept at next
      simp only at next
      split_ifs at next with hused hfcntl
      · cases next
        rw [not_or] at hused
        have harmed : ∀ fd, (g.tables.onAccepted clientFd requestId).armed fd .read =
            if fd = clientFd then true else g.tables.armed fd .read := by
          intro fd
          simp [Tables.onAccepted, Tables.setConnection]
        simp only [Kernel.onCall, hcons]
        refine inv.accepted control hsteady hused.1 rfl harmed hbacklog
          (fun fd hfd => Function.update_of_ne hfd _ _)
          (fun fd hfd => Function.update_of_ne hfd _ _) ?_
        simp only [Function.update_self]
      · cases next
        exact inv.next hsteady inv.listening (fun h => absurd rfl h) (fun _ h => absurd rfl h)
          fun h => absurd h not_false

theorem Inv.send (inv : Inv g k) {fd : Nat} {conn : Connection} (control : g.control = .writing fd)
    (held : g.tables.connections fd = some conn) {result : Send}
    (next : g.onSend fd conn result = some g') : Inv g' (k.filtered g'.tables) := by
  have hbusy := inv.steady.atWork
  rw [control] at hbusy
  have hsteady := inv.steady.onSend hbusy held control next
  have hread := (inv.steady.inv.writing held hbusy.armed).1
  cases result with
  | bytes count =>
      unfold Gateway.onSend at next
      simp only at next
      split_ifs at next with hbad
      cases next
      rw [not_or, Nat.not_lt] at hbad
      refine inv.handled hsteady held (inv.steady.inv.onSent held hbusy.armed hbad.2).2 rfl
        (.inr control) ?_ (fun _ _ => rfl) rfl rfl fun _ harmed _ => ?_
      · change ¬ BetweenBatches g.control
        rw [control]
        exact not_false
      · have hsame : (g.tables.onSent fd conn count).armed fd .read = true := harmed
        rw [show (g.tables.onSent fd conn count).armed = g.tables.armed from rfl, hread] at hsame
        cases hsame
  | wouldBlock =>
      cases next
      exact inv.goto hsteady (fun _ => by simp [control]) (fun _ _ _ h => by simp [control] at h)
        fun h => absurd h not_false
  | interrupted =>
      cases next
      exact inv.goOn hsteady rfl (fun _ => id) inv.listening id (fun _ _ _ _ h => .inr h) inv.idle
  | failed =>
      cases next
      exact inv.close hbusy held (.inr control)

theorem onEvent_spec (rest : List KEvent) (steady : Steady g) (batch : g.control = .batch)
    (event : KEvent) :
    ({ g with events := rest }.onEvent event).events = rest ∧
      ({ g with events := rest }.onEvent event).control ≠ .thrown ∧
      ¬ BetweenBatches ({ g with events := rest }.onEvent event).control ∧
      ∀ fd, event = .ready fd .read → g.tables.armed fd .read = true →
        ({ g with events := rest }.onEvent event).control = .reading fd ∨
          ({ g with events := rest }.onEvent event).control = .accepting ∧
            fd = g.tables.listenFd := by
  unfold Gateway.onEvent
  cases event with
  | user =>
      refine ⟨rfl, ?_, ?_, fun fd h => ?_⟩
      · simp [Gateway.goto]
      · simp [Gateway.goto, BetweenBatches]
      · cases h
  | signal signalNumber =>
      refine ⟨rfl, ?_, ?_, fun fd h => ?_⟩
      · simp [batch]
      · simp [batch, BetweenBatches]
      · cases h
  | ready fd filter =>
      simp only
      split_ifs with hlisten
      · refine ⟨rfl, by simp [Gateway.goto], by simp [Gateway.goto, BetweenBatches],
          fun fd' h _ => ?_⟩
        cases h
        exact .inr ⟨rfl, hlisten.1⟩
      cases hheld : g.tables.connections fd with
      | none =>
          cases filter with
          | read =>
              refine ⟨rfl, by simp [batch], by simp [batch, BetweenBatches], fun fd' h harmed => ?_⟩
              cases h
              rw [steady.inv.entries.closed fd hheld (fun h => hlisten ⟨h, rfl⟩) .read] at harmed
              cases harmed
          | write =>
              refine ⟨rfl, by simp [batch], by simp [batch, BetweenBatches], fun fd' h => ?_⟩
              cases h
      | some conn =>
          cases filter with
          | read =>
              simp only
              split_ifs with hawaiting
              · refine ⟨rfl, by simp [batch], by simp [batch, BetweenBatches],
                  fun fd' h harmed => ?_⟩
                cases h
                rw [(steady.inv.reading hheld harmed).2.1] at hawaiting
                cases hawaiting
              · refine ⟨rfl, by simp [Gateway.goto], by simp [Gateway.goto, BetweenBatches],
                  fun fd' h _ => ?_⟩
                cases h
                exact .inl rfl
          | write =>
              refine ⟨rfl, by simp [Gateway.goto], by simp [Gateway.goto, BetweenBatches],
                fun fd' h => ?_⟩
              cases h

theorem Inv.onEvent (inv : Inv g k) {event : KEvent} {rest : List KEvent}
    (events : g.events = event :: rest) (batch : g.control = .batch) :
    Inv ({ g with events := rest }.onEvent event)
      (k.filtered ({ g with events := rest }.onEvent event).tables) := by
  have htables : ({ g with events := rest }.onEvent event).tables = g.tables := onEvent_tables _ _
  have ⟨hrest, hthrown, hbetween, hhandler⟩ := onEvent_spec rest inv.steady batch event
  refine inv.goOn (inv.steady.onEvent events batch) (by rw [htables])
    (by rw [htables]; exact fun _ => id) (by rw [htables]; exact inv.listening)
    (fun _ => by simp [batch])
    (fun fd _ harmed _ hcovered => ?_) fun h => absurd h hbetween
  rw [htables] at harmed
  rcases hcovered with h | h | h | h
  · exact .inl h
  · rw [events, List.mem_cons] at h
    rcases h with hfirst | hlater
    · rcases hhandler fd hfirst.symm harmed with hreading | haccepting
      · exact .inr (.inr (.inr (.inl hreading)))
      · exact .inr (.inr (.inr (.inr (by rw [htables]; exact haccepting))))
    · exact .inr (.inr (.inl (by rw [hrest]; exact hlater)))
  · rw [batch] at h
    cases h
  · rw [batch] at h
    cases h.1

theorem Inv.advance (inv : Inv g k) (advanced : Advanced g g') :
    Inv g' (k.filtered g'.tables) := by
  have hsteady := inv.steady.advance advanced
  cases advanced with
  | poll control =>
      exact inv.goto hsteady (fun _ => by simp [control]) (fun _ _ _ h => by simp [control] at h)
        fun _ => inv.idle (by rw [control]; trivial)
  | lastDrain control events =>
      exact inv.goto hsteady (fun _ => by simp [control]) (fun _ _ _ h => by simp [control] at h)
        fun _ => events
  | event control events => exact inv.onEvent events control
  | written control held all =>
      have hbusy := inv.steady.atWork
      rw [control] at hbusy
      exact inv.close hbusy held (.inr control)
  | @drained last control queue =>
      refine inv.goto hsteady (fun _ => by simp [control])
        (fun _ _ _ h => by simp [control] at h) fun h => ?_
      cases last with
      | true => exact inv.idle (by rw [control]; rfl)
      | false => exact absurd h not_false
  | @delivered last result rest control queue =>
      have ⟨_, serial, honly, _⟩ := inv.steady.inv.deliver queue
      have harmed : ∀ fd, Tables.armed ({ g.tables with completionQueue := rest }.deliver result) fd
          .read = g.tables.armed fd .read := fun fd => deliver_armed _ result fd
      refine inv.goOn hsteady honly.listenFd (fun fd h => (harmed fd).symm.trans h)
        ((harmed _).trans inv.listening) id (fun _ _ _ _ hcovered => ?_) inv.idle
      rcases hcovered with h | h | h | h
      · exact .inl h
      · exact .inr (.inr (.inl h))
      · exact .inr (.inr (.inr (.inl h)))
      · exact .inr (.inr (.inr (.inr ⟨h.1, h.2.trans honly.listenFd.symm⟩)))

theorem Inv.workMoved (inv : Inv g k) {t : Tables} (steady : Steady { g with tables := t })
    (moved : WorkMoved g.tables t) : Inv { g with tables := t } (k.filtered t) := by
  refine inv.goOn steady moved.listenFd (fun fd h => ?_) ?_ id (fun _ _ _ _ hcovered => ?_) inv.idle
  · change t.armed fd .read = true at h
    rwa [moved.armed] at h
  · change t.armed g.tables.listenFd .read = true
    rw [moved.armed]
    exact inv.listening
  · rcases hcovered with h | h | h | h
    · exact .inl h
    · exact .inr (.inr (.inl h))
    · exact .inr (.inr (.inr (.inl h)))
    · exact .inr (.inr (.inr (.inr ⟨h.1, h.2.trans moved.listenFd.symm⟩)))

theorem Inv.kevent (inv : Inv g k) {events : List KEvent} (control : g.control = .waiting)
    (steady : Steady { g with events := events, control := .batch }) :
    Inv { g with events := events, control := .batch }
      ((k.onCall g.control (.kevent events)).filtered g.tables) := by
  have hidle : g.events = [] := inv.idle (by rw [control]; trivial)
  refine inv.next steady inv.listening (fun _ => by simp [control])
    (fun fd _ harmed hreadable => ?_) fun h => absurd h not_false
  refine .inl ⟨harmed, hreadable, fun hcovered => ?_⟩
  rcases hcovered with h | h | h | h
  · by_cases hreported : .ready fd .read ∈ events
    · exact .inr (.inl hreported)
    · exact .inl (filtered_pending harmed (by simp [Kernel.onCall, h, hreported]))
  · rw [hidle] at h
    cases h
  · rw [control] at h
    cases h
  · rw [control] at h
    cases h.1

theorem Inv.reactor {w : World} {gateway : Gateway} (inv : Inv w.gateway w.kernel)
    {e : Reactor.Event}
    (answers : w.answers e = true) (ends : losesNothing order w (.reactor e) = true)
    (next : Reactor.step order w.gateway e = some gateway) :
    Inv gateway ((w.kernel.onCall w.gateway.control e).filtered gateway.tables) := by
  have hsteady := inv.steady.step next
  cases stepped_of_step next with
  | kevent control returns => exact inv.kevent control hsteady
  | @keventError interrupted control =>
      refine inv.goto hsteady (fun _ => by simp [control]) (fun _ _ _ h => by simp [control] at h)
        fun h => ?_
      cases interrupted with
      | true => exact inv.idle (by rw [control]; trivial)
      | false => exact absurd h not_false
  | advance advanced => exact inv.advance advanced
  | accept control haccept => exact inv.accept control answers ends haccept
  | recv control held hrecv =>
      simp only [World.answers, control] at answers
      exact inv.recv control held answers ends hrecv
  | send control held more hsend => exact inv.send control held hsend
  | take htake => exact inv.workMoved hsteady (inv.steady.inv.take htake).2
  | finish hfinish => exact inv.workMoved hsteady (inv.steady.inv.finish hfinish).2
  | stop =>
      exact inv.goOn hsteady rfl (fun _ => id) inv.listening id (fun _ _ _ _ h => .inr h) inv.idle

theorem Inv.arrival (inv : Inv g k) (pending : ∀ fd, k.pending fd = true → k'.pending fd = true)
    (readable : ∀ fd, g.tables.armed fd .read = true → Readable g.tables k' fd →
      Readable g.tables k fd ∨ k'.pending fd = true) : Inv g k' := by
  refine ⟨inv.steady, inv.listening, fun hthrown fd harmed hreadable => ?_, inv.idle⟩
  rcases readable fd harmed hreadable with hold | hnew
  · rcases inv.covered hthrown fd harmed hold with h | h
    · exact .inl (pending fd h)
    · exact .inr h
  · exact .inl hnew

theorem notify_of_pending (w : World) (fd : Nat) {fd' : Nat} (h : w.kernel.pending fd' = true) :
    w.notify fd fd' = true := by
  by_cases hfd : fd' = fd
  · rw [← hfd, World.notify, Function.update_self, h]
    rfl
  · rw [World.notify, Function.update_of_ne hfd]
    exact h

theorem notify_self (w : World) {fd : Nat} (armed : w.gateway.tables.armed fd .read = true) :
    w.notify fd fd = true := by
  rw [World.notify, Function.update_self, armed, Bool.or_true]

theorem Inv.step {w w' : World} (inv : Inv w.gateway w.kernel) {e : Event}
    (ends : losesNothing order w e = true) (next : ReadReadiness.step order w e = some w') :
    Inv w'.gateway w'.kernel := by
  cases e with
  | segment fd bytes fin =>
      simp only [ReadReadiness.step, World.segment] at next
      split_ifs at next
      cases next
      refine inv.arrival (fun fd' h => notify_of_pending w fd h) fun fd' harmed hreadable => ?_
      by_cases hfd : fd' = fd
      · rw [hfd] at harmed ⊢
        exact .inr (notify_self w harmed)
      · left
        simpa [Readable, Function.update_of_ne hfd] using hreadable
  | early k bytes fin =>
      simp only [ReadReadiness.step, World.early] at next
      split at next
      · cases next
      · next socket hsocket =>
        split_ifs at next
        cases next
        refine inv.arrival (fun _ h => h) fun fd _ hreadable => .inl ?_
        simpa [Readable] using hreadable
  | connected =>
      cases next
      refine inv.arrival (fun fd' h => notify_of_pending w _ h) fun fd harmed hreadable => ?_
      by_cases hfd : fd = w.gateway.tables.listenFd
      · rw [hfd] at harmed ⊢
        exact .inr (notify_self w harmed)
      · left
        rw [Readable, if_neg hfd] at hreadable ⊢
        exact hreadable
  | aborted k =>
      cases next
      refine inv.arrival (fun _ h => h) fun fd _ hreadable => .inl ?_
      rw [Readable] at hreadable ⊢
      split_ifs at hreadable ⊢ with hfd
      · exact fun hempty => hreadable (by simp [World.aborted, hempty])
      · exact hreadable
  | reactor e =>
      simp only [ReadReadiness.step] at next
      split_ifs at next with hanswers
      have ⟨gateway, hgateway, hnext⟩ := Option.map_eq_some_iff.mp next
      rw [← hnext]
      exact inv.reactor hanswers ends hgateway

end Steps

/-- In every run whose early ends lose nothing, whatever arrives and whenever, all that is
left unread is pending each time the reactor is about to wait. -/
theorem readiness_kept (order : IterationOrder Bytes Bytes) (listenFd : Nat) (trace : List Event)
    (w : World)
    (run : Run (fun w e w' => step order w e = some w' ∧ losesNothing order w e = true)
      (World.init listenFd) trace w) (waiting : w.gateway.control = .waiting) : Notified w := by
  have preserved : ∀ (_ : List Event) w e w', Inv w.gateway w.kernel →
      (step order w e = some w' ∧ losesNothing order w e = true) → Inv w'.gateway w'.kernel := by
    intro _ w e w' inv next
    exact inv.step next.2 next.1
  have hinv : Inv w.gateway w.kernel := @Run.invariant _ _ _ _ (fun _ w => Inv w.gateway w.kernel)
    (inv_init listenFd) preserved _ _ run
  exact hinv.notified waiting

def quietRun : List Event :=
  [.connected, .reactor .advance, .reactor (.kevent [.ready 3 .read]), .reactor .advance,
    .reactor (.accept (.client 5 [] true)), .reactor (.accept .failed), .reactor .advance,
    .reactor .advance, .segment 5 (ascii "GET") false, .reactor .advance,
    .reactor (.kevent [.ready 5 .read]), .reactor .advance, .reactor (.recv (.bytes (ascii "GET"))),
    .segment 5 [] true, .connected, .reactor .advance, .reactor .advance, .reactor .advance]

theorem readiness_kept_quiet : ∃ w,
    Run (fun w e w' => step default w e = some w' ∧ losesNothing default w e = true)
      (World.init 3) quietRun w ∧ (w.kernel.sockets 5).eof = true ∧ Notified w := by
  have hrun : (exec (fun w e => if losesNothing default w e then step default w e else none)
      (World.init 3) quietRun).map (fun w => (w.gateway.control, (w.kernel.sockets 5).eof)) =
        some (.waiting, true) := by
    decide
  have ⟨w, hexec, hw⟩ := Option.map_eq_some_iff.mp hrun
  have ⟨hwaiting, heof⟩ := Prod.mk.inj hw
  have hallowed : Run (fun w e w' => step default w e = some w' ∧ losesNothing default w e = true)
      (World.init 3) quietRun w := by
    refine (run_of_exec hexec).imp fun w e w' next => ?_
    split_ifs at next with hends
    exact ⟨next, hends⟩
  exact ⟨w, hallowed, heof, readiness_kept default 3 quietRun w hallowed hwaiting⟩

def finBehindBytes : List Event :=
  [.connected, .reactor .advance, .reactor (.kevent [.ready 3 .read]), .reactor .advance,
    .reactor (.accept (.client 5 [] true)), .reactor (.accept .failed), .reactor .advance,
    .reactor .advance, .segment 5 (ascii "GET") true, .reactor .advance,
    .reactor (.kevent [.ready 5 .read]), .reactor .advance, .reactor (.recv (.bytes (ascii "GET"))),
    .reactor .advance, .reactor .advance, .reactor .advance]

def acceptInterrupted : List Event :=
  [.connected, .connected, .reactor .advance, .reactor (.kevent [.ready 3 .read]),
    .reactor .advance, .reactor (.accept (.client 5 [] true)), .reactor (.accept .failed),
    .reactor .advance, .reactor .advance, .reactor .advance]

theorem readiness_lost :
    (∃ w, Run (fun w e w' => step default w e = some w') (World.init 3) finBehindBytes w ∧
      w.gateway.control = .waiting ∧ ¬ Notified w) ∧
    ∃ w, Run (fun w e w' => step default w e = some w') (World.init 3) acceptInterrupted w ∧
      w.gateway.control = .waiting ∧ ¬ Notified w := by
  constructor
  · have hrun : ((exec (step default) (World.init 3) finBehindBytes).bind fun w =>
        (w.gateway.tables.connections 5).map fun conn =>
          ((w.gateway.control, (w.kernel.sockets 5).eof, w.kernel.pending 5),
            w.gateway.tables.armed 5 .read, w.gateway.tables.armed 5 .write,
            conn.awaitingCompletion, w.gateway.tables.workOn 5)) =
          some ((.waiting, true, false), true, false, false, 0) := by
      decide
    have ⟨w, hexec, hw⟩ := Option.bind_eq_some_iff.mp hrun
    have ⟨conn, hconn, hfacts⟩ := Option.map_eq_some_iff.mp hw
    simp only [Prod.mk.injEq] at hfacts
    have ⟨⟨hwaiting, heof, hpending⟩, hread, hwrite, hawaiting, hwork⟩ := hfacts
    refine ⟨w, run_of_exec hexec, hwaiting, fun notified => ?_⟩
    have hreported := notified.connections 5 conn hconn ⟨hread, hwrite, hawaiting, hwork⟩
      (by simp [Socket.readable, heof])
    rw [hpending] at hreported
    cases hreported
  · have hrun : (exec (step default) (World.init 3) acceptInterrupted).map (fun w =>
        (w.gateway.control, w.kernel.backlog, w.kernel.pending w.gateway.tables.listenFd)) =
          some (.waiting, [.new], false) := by
      decide
    have ⟨w, hexec, hfacts⟩ := Option.map_eq_some_iff.mp hrun
    simp only [Prod.mk.injEq] at hfacts
    have ⟨hwaiting, hbacklog, hpending⟩ := hfacts
    refine ⟨w, run_of_exec hexec, hwaiting, fun notified => ?_⟩
    have hreported := notified.listening (by simp [hbacklog])
    rw [hpending] at hreported
    cases hreported

end ApiGateway.ReadReadiness
