import ApiGateway.Reactor

/-! Each connection is read, then its one task is in flight, then its one
response is written; the filters armed for it say which. What one handler and
one worker do to this. -/

namespace ApiGateway.ReactorPhases
open ByteText ResponseBuilding Reactor

structure Standing where
  readArmed : Bool
  writeArmed : Bool
  pending : Prop
  dispatched : Prop
  responses : List Bytes
  sent : Bytes

def standing (t : Tables) (fd serial : Nat) : Standing :=
  ⟨t.armed fd .read, t.armed fd .write, (fd, serial) ∈ t.work, serial ∈ t.history.dispatched,
    t.history.responses serial, t.history.sent serial⟩

theorem standing_congr {t t' : Tables} {fd serial : Nat} (armed : t'.armed fd = t.armed fd)
    (work : (fd, serial) ∈ t'.work ↔ (fd, serial) ∈ t.work)
    (dispatched : serial ∈ t'.history.dispatched ↔ serial ∈ t.history.dispatched)
    (responses : t'.history.responses serial = t.history.responses serial)
    (sent : t'.history.sent serial = t.history.sent serial) :
    standing t' fd serial = standing t fd serial := by
  simp only [standing, armed, work, dispatched, responses, sent]

inductive Stage (s : Standing) (conn : Connection) : Prop where
  | reading (armed : s.readArmed = true ∧ s.writeArmed = false)
      (awaiting : conn.awaitingCompletion = false) (undispatched : ¬ s.dispatched)
      (silent : s.responses = [] ∧ s.sent = [])
  | inFlight (armed : s.readArmed = false ∧ s.writeArmed = false)
      (awaiting : conn.awaitingCompletion = true) (pending : s.pending)
      (silent : s.responses = [] ∧ s.sent = [])
  | writing (armed : s.readArmed = false ∧ s.writeArmed = true)
      (awaiting : conn.awaitingCompletion = false) (response : s.responses = [conn.writeBuffer])
      (sent : s.sent = conn.writeBuffer.take conn.writeOffset)
      (fits : conn.writeOffset ≤ conn.writeBuffer.length)

structure Entry (t : Tables) (fd : Nat) (conn : Connection) : Prop where
  key : conn.fd = fd
  client : fd ≠ t.listenFd
  accepted : conn.serial < t.history.accepted
  stage : Stage (standing t fd conn.serial) conn

structure Entries (t : Tables) : Prop where
  entry : ∀ fd conn, t.connections fd = some conn → Entry t fd conn
  distinct : ∀ fd fd' conn conn', t.connections fd = some conn → t.connections fd' = some conn' →
    conn.serial = conn'.serial → fd = fd'
  closed : ∀ fd, t.connections fd = none → fd ≠ t.listenFd → ∀ filter, t.armed fd filter = false

theorem Entries.alone {t : Tables} (entries : Entries t) {fd : Nat} {conn : Connection}
    (held : t.connections fd = some conn) : ∀ fd' conn', fd' ≠ fd →
      t.connections fd' = some conn' → conn'.serial ≠ conn.serial :=
  fun fd' conn' hfd hconn hserial => hfd (entries.distinct fd' fd conn' conn hconn held hserial)

/-- Only one connection, and what is of it, has changed. -/
structure Only (t t' : Tables) (fd serial : Nat) : Prop where
  listenFd : t'.listenFd = t.listenFd
  accepted : t.history.accepted ≤ t'.history.accepted
  connections : ∀ fd', fd' ≠ fd → t'.connections fd' = t.connections fd'
  armed : ∀ fd', fd' ≠ fd → t'.armed fd' = t.armed fd'
  work : ∀ fd', fd' ≠ fd → ∀ serial', (fd', serial') ∈ t'.work ↔ (fd', serial') ∈ t.work
  dispatched : ∀ serial', serial' ≠ serial →
    (serial' ∈ t'.history.dispatched ↔ serial' ∈ t.history.dispatched)
  responses : ∀ serial', serial' ≠ serial →
    t'.history.responses serial' = t.history.responses serial'
  sent : ∀ serial', serial' ≠ serial → t'.history.sent serial' = t.history.sent serial'

theorem Entries.update {t t' : Tables} {fd serial : Nat} (entries : Entries t)
    (only : Only t t' fd serial)
    (alone : ∀ fd' conn, fd' ≠ fd → t.connections fd' = some conn → conn.serial ≠ serial)
    (entry : ∀ conn, t'.connections fd = some conn → conn.serial = serial ∧ Entry t' fd conn)
    (closed : t'.connections fd = none → ∀ filter, t'.armed fd filter = false) : Entries t' := by
  refine ⟨fun fd' conn hconn => ?_, fun fd' fd'' conn conn' hconn hconn' hserial => ?_,
    fun fd' hnone hlisten filter => ?_⟩
  · by_cases h : fd' = fd
    · rw [h] at hconn ⊢
      exact (entry conn hconn).2
    · rw [only.connections fd' h] at hconn
      have hold := entries.entry fd' conn hconn
      have hne := alone fd' conn h hconn
      have hstands := standing_congr (only.armed fd' h) (only.work fd' h conn.serial)
        (only.dispatched _ hne) (only.responses _ hne) (only.sent _ hne)
      exact ⟨hold.key, only.listenFd ▸ hold.client, hold.accepted.trans_le only.accepted,
        hstands ▸ hold.stage⟩
  · by_cases h : fd' = fd
    · by_cases h' : fd'' = fd
      · rw [h, h']
      · rw [only.connections fd'' h'] at hconn'
        rw [h] at hconn
        exact absurd (hserial.symm.trans (entry conn hconn).1) (alone fd'' conn' h' hconn')
    · rw [only.connections fd' h] at hconn
      by_cases h' : fd'' = fd
      · rw [h'] at hconn'
        exact absurd (hserial.trans (entry conn' hconn').1) (alone fd' conn h hconn)
      · rw [only.connections fd'' h'] at hconn'
        exact entries.distinct fd' fd'' conn conn' hconn hconn' hserial
  · by_cases h : fd' = fd
    · rw [h] at hnone ⊢
      exact closed hnone filter
    · rw [only.connections fd' h] at hnone
      rw [only.armed fd' h]
      exact entries.closed fd' hnone (only.listenFd ▸ hlisten) filter

theorem Entries.same {t t' : Tables} (entries : Entries t)
    (connections : t'.connections = t.connections) (listenFd : t'.listenFd = t.listenFd)
    (accepted : t'.history.accepted = t.history.accepted) (armed : t'.armed = t.armed)
    (stands : ∀ fd serial, standing t' fd serial = standing t fd serial) : Entries t' := by
  refine ⟨fun fd conn hconn => ?_, fun fd fd' conn conn' hconn hconn' => ?_,
    fun fd hnone hlisten => ?_⟩
  · rw [connections] at hconn
    have hold := entries.entry fd conn hconn
    exact ⟨hold.key, listenFd ▸ hold.client, accepted ▸ hold.accepted,
      stands fd conn.serial ▸ hold.stage⟩
  · rw [connections] at hconn hconn'
    exact entries.distinct fd fd' conn conn' hconn hconn'
  · rw [connections] at hnone
    rw [armed]
    exact entries.closed fd hnone (listenFd ▸ hlisten)

theorem perm_eraseIdx {α : Type*} {l : List α} {k : Nat} {a : α} (h : l[k]? = some a) :
    l.Perm (a :: l.eraseIdx k) := by
  have ⟨hk, ha⟩ := List.getElem?_eq_some_iff.mp h
  rw [← ha]
  exact (List.getElem_cons_eraseIdx_perm hk).symm

/-- Bytes that have been sent are the beginning of the only response. -/
def Answered (responses : List Bytes) (sent : Bytes) : Prop :=
  (responses = [] ∧ sent = []) ∨ ∃ response, responses = [response] ∧ sent <+: response

structure Accounts (tasks working : List Task) (queue : List CompletionResult)
    (history : History) : Prop where
  once : history.dispatched.Nodup
  yielded : history.dispatched.Perm
    (tasks.map Task.serial ++ working.map Task.serial ++ history.completed)
  handed : history.completed.Perm
    (queue.map CompletionResult.serial ++ history.delivered.map Prod.fst)
  own : ∀ d ∈ history.delivered, d.2 = some d.1
  answered : ∀ serial, Answered (history.responses serial) (history.sent serial)
  unborn : ∀ serial, history.accepted ≤ serial → serial ∉ history.dispatched ∧
    history.responses serial = [] ∧ history.sent serial = []

section Accounts

variable {tasks working : List Task} {queue : List CompletionResult} {history : History}

theorem Accounts.dispatch (acc : Accounts tasks working queue history) {serial : Nat}
    (accepted : serial < history.accepted) (undispatched : serial ∉ history.dispatched)
    (fd : Nat) (dispatch : RequestReading.Dispatch) :
    Accounts (tasks ++ [⟨fd, dispatch, serial⟩]) working queue
      { history with dispatched := history.dispatched ++ [serial] } := by
  refine ⟨?_, List.perm_iff_count.mpr fun a => ?_, acc.handed, acc.own, acc.answered,
    fun serial' hserial => ⟨fun hmem => ?_, (acc.unborn serial' hserial).2⟩⟩
  · rw [List.nodup_append]
    refine ⟨acc.once, by simp, fun a ha b hb heq => ?_⟩
    rw [List.mem_singleton] at hb
    exact undispatched (by rwa [← hb, ← heq])
  · have hcount := List.perm_iff_count.mp acc.yielded a
    simp only [List.map_append, List.map_cons, List.map_nil, List.count_append] at hcount ⊢
    omega
  · rw [List.mem_append, List.mem_singleton] at hmem
    cases hmem with
    | inl hold => exact (acc.unborn serial' hserial).1 hold
    | inr hnew => exact absurd (hnew ▸ hserial) (Nat.not_le.mpr accepted)

theorem Accounts.respond (acc : Accounts tasks working queue history) {serial : Nat}
    (accepted : serial < history.accepted)
    (silent : history.responses serial = [] ∧ history.sent serial = []) (bytes : Bytes) :
    Accounts tasks working queue (history.respond serial bytes) := by
  refine ⟨acc.once, acc.yielded, acc.handed, acc.own, fun serial' => ?_, fun serial' hserial => ?_⟩
  · by_cases h : serial' = serial
    · rw [h]
      refine .inr ⟨bytes, ?_, ?_⟩
      · simp [History.respond, silent.1]
      · change history.sent serial <+: bytes
        rw [silent.2]
        exact List.nil_prefix
    · simpa [History.respond, h] using acc.answered serial'
  · have hne : serial' ≠ serial := (accepted.trans_le hserial).ne'
    simpa [History.respond, hne] using acc.unborn serial' hserial

theorem Accounts.send (acc : Accounts tasks working queue history) {serial : Nat}
    (accepted : serial < history.accepted) {response bytes : Bytes}
    (only : history.responses serial = [response]) (sent : bytes <+: response) :
    Accounts tasks working queue
      { history with sent := Function.update history.sent serial bytes } := by
  refine ⟨acc.once, acc.yielded, acc.handed, acc.own, fun serial' => ?_, fun serial' hserial => ?_⟩
  · by_cases h : serial' = serial
    · rw [h]
      simp only [Function.update_self]
      exact .inr ⟨response, only, sent⟩
    · simpa [h] using acc.answered serial'
  · have hne : serial' ≠ serial := (accepted.trans_le hserial).ne'
    simpa [hne] using acc.unborn serial' hserial

theorem Accounts.deliver {result : CompletionResult}
    (acc : Accounts tasks working (result :: queue) history) :
    Accounts tasks working queue
      { history with
        delivered := history.delivered ++ [(result.serial, some result.serial)] } := by
  refine ⟨acc.once, acc.yielded, List.perm_iff_count.mpr fun a => ?_, fun d hd => ?_, acc.answered,
    acc.unborn⟩
  · have hcount := List.perm_iff_count.mp acc.handed a
    simp only [List.map_append, List.map_cons, List.map_nil, List.count_append,
      List.count_cons, List.count_nil] at hcount ⊢
    omega
  · rw [List.mem_append, List.mem_singleton] at hd
    cases hd with
    | inl hold => exact acc.own d hold
    | inr hnew => rw [hnew]

theorem Accounts.take {task : Task} (acc : Accounts (task :: tasks) working queue history) :
    Accounts tasks (working ++ [task]) queue history := by
  refine ⟨acc.once, List.perm_iff_count.mpr fun a => ?_, acc.handed, acc.own, acc.answered,
    acc.unborn⟩
  have hcount := List.perm_iff_count.mp acc.yielded a
  simp only [List.map_append, List.map_cons, List.map_nil, List.count_append,
    List.count_cons, List.count_nil] at hcount ⊢
  omega

theorem Accounts.finish (acc : Accounts tasks working queue history) {k : Nat} {task : Task}
    (taken : working[k]? = some task) (responseBytes : Bytes) :
    Accounts tasks (working.eraseIdx k) (queue ++ [⟨task.fd, responseBytes, task.serial⟩])
      { history with completed := history.completed ++ [task.serial] } := by
  have hperm := (perm_eraseIdx taken).map Task.serial
  refine ⟨acc.once, List.perm_iff_count.mpr fun a => ?_, List.perm_iff_count.mpr fun a => ?_, acc.own,
    acc.answered, acc.unborn⟩
  · have hcount := List.perm_iff_count.mp acc.yielded a
    have hcount' := List.perm_iff_count.mp hperm a
    simp only [List.map_cons, List.count_append, List.count_cons, List.count_nil]
      at hcount hcount' ⊢
    omega
  · have hcount := List.perm_iff_count.mp acc.handed a
    simp only [List.map_append, List.map_cons, List.map_nil, List.count_append] at hcount ⊢
    omega

end Accounts

def Owned (connections : Nat → Option Connection) (work : List (Nat × Nat)) : Prop :=
  ∀ item ∈ work, ∃ conn, connections item.1 = some conn ∧ conn.serial = item.2 ∧
    conn.awaitingCompletion = true

structure Inv (t : Tables) : Prop where
  entries : Entries t
  accounts : Accounts t.tasks t.working t.completionQueue t.history
  owned : Owned t.connections t.work

theorem work_serials_nodup {t : Tables} (inv : Inv t) : (t.work.map Prod.snd).Nodup := by
  have hperm := inv.accounts.yielded.trans (inv.accounts.handed.append_left _)
  have hnodup := hperm.nodup_iff.mp inv.accounts.once
  rw [← List.append_assoc, List.append_assoc (t.tasks.map Task.serial)] at hnodup
  simpa [Tables.work, Function.comp_def] using (List.nodup_append.mp hnodup).1

theorem idle {connections : Nat → Option Connection} {work : List (Nat × Nat)}
    (owned : Owned connections work) {fd : Nat} {conn : Connection}
    (held : connections fd = some conn) (awaiting : conn.awaitingCompletion = false)
    (serial : Nat) : (fd, serial) ∉ work := by
  intro hitem
  have ⟨conn', hheld, _, hawaiting⟩ := owned (fd, serial) hitem
  rw [held, Option.some.injEq] at hheld
  rw [← hheld, awaiting] at hawaiting
  cases hawaiting

theorem phase_unique {t : Tables} {fd : Nat} {conn : Connection} {phase phase' : Phase}
    (h : t.InPhase fd conn phase) (h' : t.InPhase fd conn phase') : phase = phase' := by
  cases phase <;> cases phase' <;> simp_all [Tables.InPhase]

theorem Inv.phase {t : Tables} (inv : Inv t) {fd : Nat} {conn : Connection}
    (held : t.connections fd = some conn) : ∃! phase, t.InPhase fd conn phase := by
  have hnone : conn.awaitingCompletion = false → t.workOn fd = 0 := by
    intro hawaiting
    refine List.count_eq_zero.mpr fun hmem => ?_
    have ⟨item, hitem, hfd⟩ := List.mem_map.mp hmem
    rw [show item = (fd, item.2) from Prod.ext hfd rfl] at hitem
    exact idle inv.owned held hawaiting item.2 hitem
  have hone : (fd, conn.serial) ∈ t.work → t.workOn fd = 1 := by
    intro hpending
    have hsame : ∀ item ∈ t.work, (item.1 == fd) = (item == (fd, conn.serial)) := by
      intro item hitem
      have ⟨conn', hheld, hserial, _⟩ := inv.owned item hitem
      by_cases h : item.1 = fd
      · rw [h, held, Option.some.injEq] at hheld
        rw [← hheld] at hserial
        have hitem' : item = (fd, conn.serial) := Prod.ext h hserial.symm
        simp [hitem']
      · have hne : item ≠ (fd, conn.serial) := fun heq => h (by rw [heq])
        simp [h, hne]
    have hcount : t.workOn fd = t.work.count (fd, conn.serial) := by
      rw [Tables.workOn, List.count, List.countP_map, List.count]
      exact List.countP_congr fun item hitem => by
        rw [Function.comp_apply, hsame item hitem]
    rw [hcount]
    exact List.count_eq_one_of_mem (List.Nodup.of_map _ (work_serials_nodup inv)) hpending
  cases (inv.entries.entry fd conn held).stage with
  | reading armed awaiting undispatched silent =>
      have hphase : t.InPhase fd conn .reading := ⟨armed.1, armed.2, awaiting, hnone awaiting⟩
      exact ⟨.reading, hphase, fun phase h => phase_unique h hphase⟩
  | inFlight armed awaiting pending silent =>
      have hphase : t.InPhase fd conn .inFlight := ⟨armed.1, armed.2, awaiting, hone pending⟩
      exact ⟨.inFlight, hphase, fun phase h => phase_unique h hphase⟩
  | writing armed awaiting response sent fits =>
      have hphase : t.InPhase fd conn .writing := ⟨armed.1, armed.2, awaiting, hnone awaiting⟩
      exact ⟨.writing, hphase, fun phase h => phase_unique h hphase⟩

theorem Inv.update {t t' : Tables} {fd serial : Nat} (inv : Inv t) (only : Only t t' fd serial)
    (alone : ∀ fd' conn, fd' ≠ fd → t.connections fd' = some conn → conn.serial ≠ serial)
    (entry : ∀ conn, t'.connections fd = some conn → conn.serial = serial ∧ Entry t' fd conn)
    (closed : t'.connections fd = none → ∀ filter, t'.armed fd filter = false)
    (accounts : Accounts t'.tasks t'.working t'.completionQueue t'.history)
    (owner : ∀ serial', (fd, serial') ∈ t'.work → ∃ conn, t'.connections fd = some conn ∧
      conn.serial = serial' ∧ conn.awaitingCompletion = true) : Inv t' := by
  refine ⟨inv.entries.update only alone entry closed, accounts, fun item hitem => ?_⟩
  by_cases h : item.1 = fd
  · rw [h]
    exact owner item.2 (h ▸ hitem)
  · rw [only.connections item.1 h]
    exact inv.owned item ((only.work item.1 h item.2).mp hitem)

@[simp] theorem armed_registerEvent (t : Tables) (fd fd' : Nat) (filter filter' : Filter)
    (on : Bool) : (t.registerEvent fd filter on).armed fd' filter' =
      if fd' = fd ∧ filter' = filter then on else t.armed fd' filter' := by
  unfold Tables.registerEvent
  by_cases h : fd' = fd
  · by_cases h' : filter' = filter
    · simp [h, h']
    · simp [h, h']
  · simp [h]

theorem armed_other (t : Tables) {fd fd' : Nat} (h : fd' ≠ fd) (filter : Filter) (on : Bool) :
    (t.registerEvent fd filter on).armed fd' = t.armed fd' :=
  Function.update_of_ne h _ _

theorem Inv.onAccepted {t : Tables} (inv : Inv t) {clientFd : Nat}
    (free : t.connections clientFd = none) (client : clientFd ≠ t.listenFd) (requestId : Bytes) :
    Inv (t.onAccepted clientFd requestId) ∧ ∀ fd filter, t.armed fd filter = true →
      (t.onAccepted clientFd requestId).armed fd filter = true := by
  have hclosed := inv.entries.closed clientFd free client
  have hunborn := inv.accounts.unborn t.history.accepted le_rfl
  have harmed : ∀ fd filter, (t.onAccepted clientFd requestId).armed fd filter =
      if fd = clientFd ∧ filter = .read then true else t.armed fd filter :=
    fun fd filter => armed_registerEvent _ _ _ _ _ _
  have honly : Only t (t.onAccepted clientFd requestId) clientFd t.history.accepted :=
    ⟨rfl, Nat.le_succ _, fun fd h => Function.update_of_ne h _ _, fun fd h => armed_other _ h _ _,
      fun _ _ _ => Iff.rfl, fun _ _ => Iff.rfl, fun _ _ => rfl, fun _ _ => rfl⟩
  have hself : (t.onAccepted clientFd requestId).connections clientFd =
      some ⟨.fresh requestId, clientFd, [], 0, false, t.history.accepted⟩ :=
    Function.update_self _ _ _
  refine ⟨inv.update honly (fun fd conn _ hconn => ?_) (fun conn hconn => ?_) (fun hnone => ?_) ?_
    fun serial hwork => ?_, fun fd filter h => ?_⟩
  · exact (inv.entries.entry fd conn hconn).accepted.ne
  · rw [hself] at hconn
    cases hconn
    refine ⟨rfl, rfl, client, Nat.lt_succ_self _, .reading ⟨?_, ?_⟩ rfl hunborn.1 hunborn.2⟩
    · simp [standing, harmed]
    · simp [standing, harmed, hclosed]
  · rw [hself] at hnone
    cases hnone
  · have h := inv.accounts
    exact ⟨h.once, h.yielded, h.handed, h.own, h.answered,
      fun serial hserial => h.unborn serial (Nat.le_of_succ_le hserial)⟩
  · have ⟨conn, hconn, _⟩ := inv.owned _ hwork
    rw [free] at hconn
    cases hconn
  · rw [harmed, h, ite_self]

theorem Inv.closeConnection {t : Tables} (inv : Inv t) {fd : Nat} {conn : Connection}
    (held : t.connections fd = some conn) (awaiting : conn.awaitingCompletion = false) :
    Inv (t.closeConnection fd) ∧ Only t (t.closeConnection fd) fd conn.serial := by
  have honly : Only t (t.closeConnection fd) fd conn.serial :=
    ⟨rfl, le_rfl, fun fd' h => Function.update_of_ne h _ _,
      fun fd' h => (armed_other _ h _ _).trans (armed_other _ h _ _),
      fun _ _ _ => Iff.rfl, fun _ _ => Iff.rfl, fun _ _ => rfl, fun _ _ => rfl⟩
  have hself : (t.closeConnection fd).connections fd = none := Function.update_self _ _ _
  refine ⟨inv.update honly (inv.entries.alone held) (fun conn hconn => ?_) (fun _ filter => ?_)
    inv.accounts fun serial hwork => ?_, honly⟩
  · rw [hself] at hconn
    cases hconn
  · unfold Tables.closeConnection
    simp only [armed_registerEvent]
    cases filter <;> simp
  · exact absurd hwork (idle inv.owned held awaiting serial)

theorem Inv.reading {t : Tables} (inv : Inv t) {fd : Nat} {conn : Connection}
    (held : t.connections fd = some conn) (armed : t.armed fd .read = true) :
    t.armed fd .write = false ∧ conn.awaitingCompletion = false ∧
      conn.serial ∉ t.history.dispatched ∧ t.history.responses conn.serial = [] ∧
      t.history.sent conn.serial = [] := by
  cases (inv.entries.entry fd conn held).stage with
  | reading armed' awaiting undispatched silent =>
      exact ⟨armed'.2, awaiting, undispatched, silent.1, silent.2⟩
  | inFlight armed' => exact absurd (armed.symm.trans armed'.1) (by decide)
  | writing armed' => exact absurd (armed.symm.trans armed'.1) (by decide)

theorem Inv.writing {t : Tables} (inv : Inv t) {fd : Nat} {conn : Connection}
    (held : t.connections fd = some conn) (armed : t.armed fd .write = true) :
    t.armed fd .read = false ∧ conn.awaitingCompletion = false ∧
      t.history.responses conn.serial = [conn.writeBuffer] ∧
      t.history.sent conn.serial = conn.writeBuffer.take conn.writeOffset ∧
      conn.writeOffset ≤ conn.writeBuffer.length := by
  cases (inv.entries.entry fd conn held).stage with
  | reading armed' => exact absurd (armed.symm.trans armed'.2) (by decide)
  | inFlight armed' => exact absurd (armed.symm.trans armed'.2) (by decide)
  | writing armed' awaiting response sent fits => exact ⟨armed'.1, awaiting, response, sent, fits⟩

theorem Inv.readMore {t : Tables} (inv : Inv t) {fd : Nat} {conn : Connection}
    (held : t.connections fd = some conn) (armed : t.armed fd .read = true)
    (reading : RequestReading.Connection) :
    Inv (t.setConnection fd { conn with toConnection := reading }) ∧
      Only t (t.setConnection fd { conn with toConnection := reading }) fd conn.serial := by
  have ⟨hwrite, hawaiting, hundispatched, hsilent⟩ := inv.reading held armed
  have hentry := inv.entries.entry fd conn held
  have honly : Only t (t.setConnection fd { conn with toConnection := reading }) fd conn.serial :=
    ⟨rfl, le_rfl, fun fd' h => Function.update_of_ne h _ _, fun _ _ => rfl,
      fun _ _ _ => Iff.rfl, fun _ _ => Iff.rfl, fun _ _ => rfl, fun _ _ => rfl⟩
  refine ⟨inv.update honly (inv.entries.alone held) (fun conn' hconn => ?_) (fun hnone => ?_)
    inv.accounts fun serial hwork => ?_, honly⟩
  · simp only [Tables.setConnection, Function.update_self, Option.some.injEq] at hconn
    rw [← hconn]
    exact ⟨rfl, hentry.key, hentry.client, hentry.accepted,
      .reading ⟨armed, hwrite⟩ hawaiting hundispatched hsilent⟩
  · simp [Tables.setConnection] at hnone
  · exact absurd hwork (idle inv.owned held hawaiting serial)

theorem mem_work_dispatch (t : Tables) (fd serial : Nat) (dispatch : RequestReading.Dispatch)
    (item : Nat × Nat) : item ∈ (t.dispatchToThreadPool fd serial dispatch).work ↔
      item ∈ t.work ∨ item = (fd, serial) := by
  simp only [Tables.work, Tables.dispatchToThreadPool, List.map_append, List.map_cons, List.map_nil,
    List.mem_append, List.mem_singleton]
  tauto

theorem Inv.dispatch {t : Tables} (inv : Inv t) {fd : Nat} {conn : Connection}
    (held : t.connections fd = some conn) (armed : t.armed fd .read = true)
    (dispatch : RequestReading.Dispatch) {t' : Tables}
    (dispatched : t' = ((t.setConnection fd { conn with
      readBuffer := [], awaitingCompletion := true }).registerEvent fd .read false).dispatchToThreadPool
        fd conn.serial dispatch) : Inv t' ∧ Only t t' fd conn.serial := by
  have ⟨hwrite, hawaiting, hundispatched, hsilent⟩ := inv.reading held armed
  have hentry := inv.entries.entry fd conn held
  have hwork : ∀ item, item ∈ t'.work ↔ item ∈ t.work ∨ item = (fd, conn.serial) := by
    intro item
    rw [dispatched]
    exact mem_work_dispatch _ _ _ _ item
  have hself : t'.connections fd =
      some { conn with readBuffer := [], awaitingCompletion := true } := by
    rw [dispatched]
    exact Function.update_self _ _ _
  have harmed : t'.armed fd .read = false ∧ t'.armed fd .write = false := by
    rw [dispatched]
    simp [Tables.dispatchToThreadPool, Tables.setConnection, hwrite]
  have honly : Only t t' fd conn.serial := by
    refine ⟨by rw [dispatched]; rfl, by rw [dispatched]; rfl, fun fd' h => ?_, fun fd' h => ?_,
      fun fd' h serial => ?_, fun serial h => ?_, by rw [dispatched]; exact fun _ _ => rfl,
      by rw [dispatched]; exact fun _ _ => rfl⟩
    · rw [dispatched]
      exact Function.update_of_ne h _ _
    · rw [dispatched]
      exact armed_other _ h _ _
    · rw [hwork]
      simp [h]
    · rw [dispatched]
      simp [Tables.dispatchToThreadPool, Tables.registerEvent, Tables.setConnection, h]
  refine ⟨inv.update honly (inv.entries.alone held) (fun conn' hconn => ?_) (fun hnone => ?_) ?_
    fun serial hmem => ?_, honly⟩
  · rw [hself, Option.some.injEq] at hconn
    rw [← hconn]
    refine ⟨rfl, hentry.key, honly.listenFd ▸ hentry.client,
      hentry.accepted.trans_le honly.accepted, .inFlight harmed rfl ?_ ?_⟩
    · exact (hwork _).mpr (.inr rfl)
    · rw [dispatched]
      exact hsilent
  · rw [hself] at hnone
    cases hnone
  · rw [dispatched]
    exact inv.accounts.dispatch hentry.accepted hundispatched fd dispatch
  · refine ⟨_, hself, ?_, rfl⟩
    cases (hwork _).mp hmem with
    | inl hold => exact absurd hold (idle inv.owned held hawaiting serial)
    | inr hnew => exact (Prod.ext_iff.mp hnew).2.symm

theorem Inv.write {t t' : Tables} (inv : Inv t) {fd : Nat} {conn conn' : Connection}
    (held : t.connections fd = some conn) (only : Only t t' fd conn.serial)
    (next : t'.connections fd = some conn') (same : conn'.fd = conn.fd ∧ conn'.serial = conn.serial)
    (armed : t'.armed fd .read = false ∧ t'.armed fd .write = true)
    (awaiting : conn'.awaitingCompletion = false)
    (response : t'.history.responses conn.serial = [conn'.writeBuffer])
    (sent : t'.history.sent conn.serial = conn'.writeBuffer.take conn'.writeOffset)
    (fits : conn'.writeOffset ≤ conn'.writeBuffer.length)
    (accounts : Accounts t'.tasks t'.working t'.completionQueue t'.history)
    (done : ∀ serial, (fd, serial) ∉ t'.work) : Inv t' := by
  have hentry := inv.entries.entry fd conn held
  refine inv.update only (inv.entries.alone held) (fun conn'' hconn => ?_) (fun hnone => ?_) accounts
    fun serial hwork => absurd hwork (done serial)
  · rw [next, Option.some.injEq] at hconn
    rw [← hconn]
    refine ⟨same.2, same.1.trans hentry.key, only.listenFd ▸ hentry.client, ?_, ?_⟩
    · rw [same.2]
      exact hentry.accepted.trans_le only.accepted
    · rw [same.2]
      exact .writing armed awaiting response sent fits
  · rw [next] at hnone
    cases hnone

theorem rejectRequest_ok {t t' : Tables} {fd : Nat} {conn : Connection}
    {rejection : RequestReading.Rejection} (ok : t.rejectRequest fd conn rejection = .ok t') :
    ∃ bytes, t' = { ((t.setConnection fd { conn with
        writeBuffer := bytes, writeOffset := 0 }).registerEvent conn.fd .read false).registerEvent
          conn.fd .write true with history := t.history.respond conn.serial bytes } := by
  unfold Tables.rejectRequest at ok
  cases hresponse : textResponse rejection.statusCode rejection.statusText rejection.body with
  | error ex =>
      rw [hresponse] at ok
      cases ok
  | ok response =>
      rw [hresponse] at ok
      cases ok
      exact ⟨_, rfl⟩

theorem Inv.rejectRequest {t t' : Tables} (inv : Inv t) {fd : Nat} {conn : Connection}
    (held : t.connections fd = some conn) (armed : t.armed fd .read = true)
    (reading : RequestReading.Connection) {rejection : RequestReading.Rejection}
    (ok : t.rejectRequest fd { conn with toConnection := reading } rejection = .ok t') :
    Inv t' ∧ Only t t' fd conn.serial := by
  have ⟨_, hawaiting, _, hsilent⟩ := inv.reading held armed
  have hentry := inv.entries.entry fd conn held
  have ⟨bytes, ht'⟩ := rejectRequest_ok ok
  simp only [hentry.key] at ht'
  have honly : Only t t' fd conn.serial := by
    rw [ht']
    refine ⟨rfl, le_rfl, fun fd' h => Function.update_of_ne h _ _,
      fun fd' h => (armed_other _ h _ _).trans (armed_other _ h _ _), fun _ _ _ => Iff.rfl,
      fun _ _ => Iff.rfl, fun serial h => Function.update_of_ne h _ _, fun _ _ => rfl⟩
  have hself : t'.connections fd = some { conn with
      toConnection := reading, writeBuffer := bytes, writeOffset := 0 } := by
    rw [ht']
    simp [Tables.registerEvent, Tables.setConnection, hentry.key]
  refine ⟨inv.write held honly hself ⟨rfl, rfl⟩ ?_ hawaiting ?_ ?_ (Nat.zero_le _) ?_
    fun serial hwork => ?_, honly⟩
  · rw [ht']
    simp
  · rw [ht']
    simp [History.respond, hsilent.1]
  · rw [ht']
    exact hsilent.2
  · rw [ht']
    exact inv.accounts.respond hentry.accepted hsilent bytes
  · rw [ht'] at hwork
    exact idle inv.owned held hawaiting serial hwork

theorem Inv.onSent {t : Tables} (inv : Inv t) {fd : Nat} {conn : Connection}
    (held : t.connections fd = some conn) (armed : t.armed fd .write = true) {count : Nat}
    (fits : conn.writeOffset + count ≤ conn.writeBuffer.length) :
    Inv (t.onSent fd conn count) ∧ Only t (t.onSent fd conn count) fd conn.serial := by
  have ⟨hread, hawaiting, hresponse, hsent, _⟩ := inv.writing held armed
  have hentry := inv.entries.entry fd conn held
  have honly : Only t (t.onSent fd conn count) fd conn.serial :=
    ⟨rfl, le_rfl, fun fd' h => Function.update_of_ne h _ _, fun _ _ => rfl, fun _ _ _ => Iff.rfl,
      fun _ _ => Iff.rfl, fun _ _ => rfl, fun serial h => Function.update_of_ne h _ _⟩
  have htotal : t.history.sent conn.serial ++ (conn.writeBuffer.drop conn.writeOffset).take count =
      conn.writeBuffer.take (conn.writeOffset + count) := by
    rw [hsent, List.take_add]
  have hself : (t.onSent fd conn count).connections fd =
      some { conn with writeOffset := conn.writeOffset + count } := Function.update_self _ _ _
  refine ⟨inv.write held honly hself ⟨rfl, rfl⟩ ⟨hread, armed⟩ hawaiting
    hresponse ?_ fits ?_ fun serial hwork => ?_, honly⟩
  · exact (Function.update_self _ _ _).trans htotal
  · exact inv.accounts.send hentry.accepted hresponse (htotal ▸ List.take_prefix _ _)
  · exact idle inv.owned held hawaiting serial hwork

theorem work_front {t : Tables} {result : CompletionResult} {rest : List CompletionResult}
    (queue : t.completionQueue = result :: rest) :
    t.work.Perm ((result.fd, result.serial) :: { t with completionQueue := rest }.work) := by
  simp only [Tables.work, queue, List.map_cons]
  rw [← List.append_assoc, ← List.append_assoc]
  exact List.perm_middle

theorem Inv.front {t : Tables} (inv : Inv t) {result : CompletionResult}
    {rest : List CompletionResult} (queue : t.completionQueue = result :: rest) :
    ∃ conn, t.connections result.fd = some conn ∧ conn.serial = result.serial ∧
      (t.armed result.fd .read = false ∧ t.armed result.fd .write = false) ∧
      (t.history.responses conn.serial = [] ∧ t.history.sent conn.serial = []) ∧
      ∀ serial, (result.fd, serial) ∉ { t with completionQueue := rest }.work := by
  have hwork := work_front queue
  have ⟨conn, hheld, hserial, hawaiting⟩ :=
    inv.owned (result.fd, result.serial) (hwork.mem_iff.mpr (by simp))
  have hstage : (t.armed result.fd .read = false ∧ t.armed result.fd .write = false) ∧
      t.history.responses conn.serial = [] ∧ t.history.sent conn.serial = [] := by
    cases (inv.entries.entry _ conn hheld).stage with
    | reading _ hnot => exact absurd (hawaiting.symm.trans hnot) (by decide)
    | inFlight harmed _ _ hsilent => exact ⟨harmed, hsilent⟩
    | writing _ hnot => exact absurd (hawaiting.symm.trans hnot) (by decide)
  refine ⟨conn, hheld, hserial, hstage.1, hstage.2, fun serial hmore => ?_⟩
  -- two tasks of one connection would have one number
  have ⟨conn', hheld', hserial', _⟩ :=
    inv.owned (result.fd, serial) (hwork.mem_iff.mpr (List.mem_cons_of_mem _ hmore))
  rw [hheld, Option.some.injEq] at hheld'
  rw [← hheld', hserial] at hserial'
  have hnodup := (hwork.map Prod.snd).nodup_iff.mp (work_serials_nodup inv)
  rw [List.map_cons, List.nodup_cons] at hnodup
  exact hnodup.1 (List.mem_map.mpr ⟨_, hmore, hserial'.symm⟩)

theorem Inv.deliver {t : Tables} (inv : Inv t) {result : CompletionResult}
    {rest : List CompletionResult} (queue : t.completionQueue = result :: rest) :
    Inv ({ t with completionQueue := rest }.deliver result) ∧ ∃ serial,
      Only t ({ t with completionQueue := rest }.deliver result) result.fd serial ∧
      ∀ filter, t.armed result.fd filter = false := by
  have ⟨conn, hheld, hserial, harmed, hsilent, hdone⟩ := inv.front queue
  have ht' : ({ t with completionQueue := rest } : Tables).deliver result =
      { ({ t with completionQueue := rest } : Tables).setConnection result.fd { conn with
          writeBuffer := result.responseBytes
          writeOffset := 0
          awaitingCompletion := false } |>.registerEvent result.fd .write true with
        history := { t.history.respond conn.serial result.responseBytes with
          delivered := t.history.delivered ++ [(result.serial, some conn.serial)] } } := by
    unfold Tables.deliver
    simp only [hheld]
    rfl
  have honly : Only t ({ t with completionQueue := rest }.deliver result) result.fd conn.serial := by
    rw [ht']
    refine ⟨rfl, le_rfl, fun fd' h => Function.update_of_ne h _ _, fun fd' h => armed_other _ h _ _,
      fun fd' h serial => ?_, fun _ _ => Iff.rfl, fun serial h => Function.update_of_ne h _ _,
      fun _ _ => rfl⟩
    rw [(work_front queue).mem_iff, List.mem_cons, Prod.mk.injEq]
    simp only [h, false_and, false_or]
    rfl
  have hself : ({ t with completionQueue := rest }.deliver result).connections result.fd =
      some { conn with
        writeBuffer := result.responseBytes, writeOffset := 0, awaitingCompletion := false } := by
    rw [ht']
    exact Function.update_self _ _ _
  refine ⟨inv.write hheld honly hself ⟨rfl, rfl⟩ ?_ rfl ?_ ?_ (Nat.zero_le _) ?_ ?_, conn.serial,
    honly, fun filter => ?_⟩
  · rw [ht']
    simp [Tables.setConnection, harmed.1]
  · rw [ht']
    simp [History.respond, hsilent.1]
  · rw [ht']
    exact hsilent.2
  · have hacc := inv.accounts
    have hentry := inv.entries.entry _ conn hheld
    rw [queue] at hacc
    rw [ht', hserial]
    exact hacc.deliver.respond (hserial ▸ hentry.accepted) (hserial ▸ hsilent) result.responseBytes
  · rw [ht']
    exact hdone
  · cases filter
    · exact harmed.1
    · exact harmed.2

structure WorkMoved (t t' : Tables) : Prop where
  listenFd : t'.listenFd = t.listenFd
  connections : t'.connections = t.connections
  armed : t'.armed = t.armed
  accepted : t'.history.accepted = t.history.accepted
  dispatched : t'.history.dispatched = t.history.dispatched
  responses : t'.history.responses = t.history.responses
  sent : t'.history.sent = t.history.sent
  work : t'.work.Perm t.work

theorem Inv.workMoved {t t' : Tables} (inv : Inv t) (moved : WorkMoved t t')
    (accounts : Accounts t'.tasks t'.working t'.completionQueue t'.history) : Inv t' := by
  refine ⟨inv.entries.same moved.connections moved.listenFd moved.accepted moved.armed
    fun fd serial => ?_, accounts, fun item hitem => ?_⟩
  · exact standing_congr (congrFun moved.armed fd) moved.work.mem_iff (by rw [moved.dispatched])
      (by rw [moved.responses]) (by rw [moved.sent])
  · rw [moved.connections]
    exact inv.owned item (moved.work.mem_iff.mp hitem)

theorem Inv.take {t t' : Tables} (inv : Inv t) (next : t.take = some t') :
    Inv t' ∧ WorkMoved t t' := by
  unfold Tables.take at next
  split at next
  · cases next
  · next task rest htasks =>
    cases next
    have hmoved : WorkMoved t { t with tasks := rest, working := t.working ++ [task] } := by
      refine ⟨rfl, rfl, rfl, rfl, rfl, rfl, rfl, List.perm_iff_count.mpr fun a => ?_⟩
      simp only [Tables.work, htasks, List.map_append, List.map_cons, List.map_nil,
        List.count_append, List.count_cons, List.count_nil]
      omega
    have hacc := inv.accounts
    rw [htasks] at hacc
    exact ⟨inv.workMoved hmoved hacc.take, hmoved⟩

theorem Inv.finish {t t' : Tables} (inv : Inv t) {k : Nat} {outcome : Outcome}
    (next : t.finish k outcome = some t') : Inv t' ∧ WorkMoved t t' := by
  unfold Tables.finish at next
  split at next
  · cases next
  · next task htask =>
    cases next
    have hmoved : WorkMoved t { t with
        working := t.working.eraseIdx k
        completionQueue :=
          t.completionQueue ++ [⟨task.fd, outcome.responseBytes, task.serial⟩]
        history := { t.history with completed := t.history.completed ++ [task.serial] } } := by
      refine ⟨rfl, rfl, rfl, rfl, rfl, rfl, rfl, List.perm_iff_count.mpr fun a => ?_⟩
      have hcount := List.perm_iff_count.mp
        ((perm_eraseIdx htask).map fun task => (task.fd, task.serial)) a
      simp only [Tables.work, List.map_append, List.map_cons, List.map_nil, List.count_append,
        List.count_cons, List.count_nil] at hcount ⊢
      omega
    exact ⟨inv.workMoved hmoved (inv.accounts.finish htask outcome.responseBytes), hmoved⟩

end ApiGateway.ReactorPhases
