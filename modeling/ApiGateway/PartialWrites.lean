import ApiGateway.ReactorRuns
import ApiGateway.UpstreamCalls

/-! What the kernel has taken of a buffer, in the loop of `HttpClient::send` and in
that of `onConnectionWritable`. -/

namespace ApiGateway.PartialWrites
open ByteText UpstreamClient StepRuns

/-- What was taken of the last request is its beginning, up to the offset while it is being
sent, and all of it from `Receiving` on. -/
structure RequestSent (s : UpstreamCalls.Session) : Prop where
  beginning : s.accepted <+: s.requested
  sending : s.client.state = .Sending → s.accepted = s.requested.take s.client.writeOffset
  whole : s.client.state = .Receiving ∨ s.client.state = .Complete → s.accepted = s.requested

theorem requestSent_of_run {order : IterationOrder Bytes Bytes}
    {trace : List UpstreamCalls.Event} {s : UpstreamCalls.Session}
    (run : Run (fun s event s' => UpstreamCalls.step order s event = some s') .new trace s) :
    RequestSent s :=
  have h := (UpstreamCalls.calls_of_run run).1
  ⟨h.beginning, fun hsending => (h.sending hsending).2.2, h.whole⟩

open Reactor ReactorPhases ReactorRuns

/-- What was taken of each response is its beginning, up to the offset while it is being
written, and all of it if the connection closes with no failure of `send`. -/
structure ResponseSent (order : IterationOrder Bytes Bytes) (g : Gateway) : Prop where
  beginning : ∀ serial, Answered (g.tables.history.responses serial) (g.tables.history.sent serial)
  writing : ∀ fd conn, g.control = .writing fd → g.tables.connections fd = some conn →
    g.tables.history.responses conn.serial = [conn.writeBuffer] ∧
      g.tables.history.sent conn.serial = conn.writeBuffer.take conn.writeOffset
  closed : ∀ fd conn e g', g.control = .writing fd → g.tables.connections fd = some conn →
    step order g e = some g' → g'.tables.connections fd = none →
      e = .send .failed ∨ g.tables.history.sent conn.serial = conn.writeBuffer

theorem closed_by_step {order : IterationOrder Bytes Bytes} {g g' : Gateway} {e : Reactor.Event}
    {fd : Nat} {conn : Connection} (control : g.control = .writing fd)
    (held : g.tables.connections fd = some conn) (next : step order g e = some g')
    (closed : g'.tables.connections fd = none) :
    e = .send .failed ∨ conn.writeBuffer.length ≤ conn.writeOffset := by
  have hopen : g.tables.connections fd ≠ none := by simp [held]
  cases stepped_of_step next with
  | kevent hwaiting => cases control.symm.trans hwaiting
  | keventError hwaiting => cases control.symm.trans hwaiting
  | accept haccepting => cases control.symm.trans haccepting
  | recv hreading => cases control.symm.trans hreading
  | advance advanced =>
      cases advanced with
      | poll h => cases control.symm.trans h
      | lastDrain h => cases control.symm.trans h
      | event h => cases control.symm.trans h
      | drained h => cases control.symm.trans h
      | delivered h => cases control.symm.trans h
      | written hwriting hheld hall =>
          cases control.symm.trans hwriting
          cases held.symm.trans hheld
          exact .inr hall
  | @send result _ _ _ hwriting hheld hmore hnext =>
      cases control.symm.trans hwriting
      cases held.symm.trans hheld
      cases result with
      | bytes count =>
          simp only [Gateway.onSend] at hnext
          split_ifs at hnext
          cases hnext
          change Function.update g.tables.connections fd (some _) fd = none at closed
          simp at closed
      | wouldBlock =>
          cases hnext
          exact absurd closed hopen
      | interrupted =>
          cases hnext
          exact absurd closed hopen
      | failed => exact .inl rfl
  | take htake =>
      unfold Tables.take at htake
      split at htake
      · cases htake
      · cases htake
        exact absurd closed hopen
  | finish hfinish =>
      unfold Tables.finish at hfinish
      split at hfinish
      · cases hfinish
      · cases hfinish
        exact absurd closed hopen
  | stop => exact absurd closed hopen

theorem responseSent_of_run {order : IterationOrder Bytes Bytes} {listenFd : Nat}
    {trace : List Reactor.Event} {g : Gateway}
    (run : Run (fun g e g' => step order g e = some g') (Gateway.init listenFd) trace g) :
    ResponseSent order g := by
  have steady := steady_of_run run
  have hwriting : ∀ fd conn, g.control = .writing fd → g.tables.connections fd = some conn →
      g.tables.history.responses conn.serial = [conn.writeBuffer] ∧
        g.tables.history.sent conn.serial = conn.writeBuffer.take conn.writeOffset := by
    intro fd conn hcontrol hheld
    have hbusy := steady.atWork
    rw [hcontrol] at hbusy
    obtain ⟨-, -, hresponse, hsent, -⟩ := steady.inv.writing hheld hbusy.armed
    exact ⟨hresponse, hsent⟩
  refine ⟨steady.inv.accounts.answered, hwriting, ?_⟩
  intro fd conn e g' hcontrol hheld next hclosed
  refine (closed_by_step hcontrol hheld next hclosed).imp id fun hall => ?_
  rw [(hwriting fd conn hcontrol hheld).2]
  exact List.take_of_length_le hall

/-- Both loops, in every run. -/
theorem partial_writes_exact (order : IterationOrder Bytes Bytes) :
    (∀ trace s, Run (fun s event s' => UpstreamCalls.step order s event = some s') .new trace s →
        RequestSent s) ∧
      ∀ listenFd trace g,
        Run (fun g e g' => Reactor.step order g e = some g') (Gateway.init listenFd) trace g →
          ResponseSent order g :=
  ⟨fun _ _ run => requestSent_of_run run, fun _ _ _ run => responseSent_of_run run⟩

theorem partial_writes_exact_two_parts : ∃ s : UpstreamCalls.Session,
    Run (fun s event s' => UpstreamCalls.step default s event = some s') .new
        (UpstreamCalls.exchange 5 (ascii "HTTP/1.1 204 No Content\r\n\r\n")) s ∧
      s.client.state = .Complete ∧ s.accepted = s.requested := by
  have hrun : (exec (UpstreamCalls.step default) .new
      (UpstreamCalls.exchange 5 (ascii "HTTP/1.1 204 No Content\r\n\r\n"))).map
        (fun s => s.client.state) = some .Complete := by
    decide
  have ⟨s, hexec, hcomplete⟩ := Option.map_eq_some_iff.mp hrun
  have hsent := (partial_writes_exact default).1 _ s (run_of_exec hexec)
  exact ⟨s, run_of_exec hexec, hcomplete, hsent.whole (.inr hcomplete)⟩

end ApiGateway.PartialWrites
