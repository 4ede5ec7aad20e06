import ApiGateway.PoolRecency
import ApiGateway.UpstreamDescriptors

/-! How long a connection that `forward` is given has been idle. The gateway passes a timeout
to its pool, but runs no `reapStale`, and a lease looks at nothing but the probe. -/

namespace ApiGateway.IdleTimeout
open ByteText ConnectionPooling PoolRecency UpstreamDescriptors StepRuns
open UpstreamClient (hostKeyFor)
open RequestReading (HttpRequest)

def kProxyMaxIdlePerHost : Nat := 16

/-- In seconds, of which the clock counts the nanoseconds. -/
def kProxyIdleTimeout : Nat := 60

structure TimedEvent where
  now : Nat
  event : Event

/-- The events of `forward` calls, which are the pool's only callers while the gateway runs. A
release reads the clock. -/
def TimedEvent.Forwards (timed : TimedEvent) : Prop :=
  match timed.event with
  | .release _ now => now = timed.now
  | .reapStale _ _ => False
  | .closeAll _ => False
  | _ => True

instance : DecidablePred TimedEvent.Forwards
  | ⟨_, .lease _ _ _ _⟩ => .isTrue trivial
  | ⟨_, .connect _ _ _⟩ => .isTrue trivial
  | ⟨_, .poll _ _⟩ => .isTrue trivial
  | ⟨_, .getsockopt _ _⟩ => .isTrue trivial
  | ⟨_, .send _ _⟩ => .isTrue trivial
  | ⟨_, .recv _ _⟩ => .isTrue trivial
  | ⟨_, .recvInterrupted _⟩ => .isTrue trivial
  | ⟨now, .release _ reading⟩ => inferInstanceAs (Decidable (reading = now))
  | ⟨_, .reapStale _ _⟩ => .isFalse id
  | ⟨_, .closeAll _⟩ => .isFalse id

/-- No connection is given out that was idle for longer than the timeout. -/
def HandsOutFresh (w : World) (timed : TimedEvent) : Prop :=
  match timed.event with
  | .lease _ target _ isHealthy =>
      ∀ conn ∈ w.pool.idleByHost (hostKeyFor target),
        (w.pool.lease isHealthy (hostKeyFor target)).leased = some conn.fd →
          timed.now - conn.lastUsed ≤ kProxyIdleTimeout * 10 ^ 9
  | _ => True

/-- If a connection of the host passes the probe, then one does that was idle for no longer
than the timeout. -/
def FreshPasses (w : World) (timed : TimedEvent) : Prop :=
  match timed.event with
  | .lease _ target _ isHealthy =>
      (∃ conn ∈ w.pool.idleByHost (hostKeyFor target), isHealthy conn.fd = true) →
        ∃ conn ∈ w.pool.idleByHost (hostKeyFor target), isHealthy conn.fd = true ∧
          timed.now - conn.lastUsed ≤ kProxyIdleTimeout * 10 ^ 9
  | _ => True

instance (w : World) : DecidablePred (FreshPasses w)
  | ⟨now, .lease _ target _ isHealthy⟩ => inferInstanceAs (Decidable
      ((∃ conn ∈ w.pool.idleByHost (hostKeyFor target), isHealthy conn.fd = true) →
        ∃ conn ∈ w.pool.idleByHost (hostKeyFor target), isHealthy conn.fd = true ∧
          now - conn.lastUsed ≤ kProxyIdleTimeout * 10 ^ 9))
  | ⟨_, .connect _ _ _⟩ => .isTrue trivial
  | ⟨_, .poll _ _⟩ => .isTrue trivial
  | ⟨_, .getsockopt _ _⟩ => .isTrue trivial
  | ⟨_, .send _ _⟩ => .isTrue trivial
  | ⟨_, .recv _ _⟩ => .isTrue trivial
  | ⟨_, .recvInterrupted _⟩ => .isTrue trivial
  | ⟨_, .release _ _⟩ => .isTrue trivial
  | ⟨_, .reapStale _ _⟩ => .isTrue trivial
  | ⟨_, .closeAll _⟩ => .isTrue trivial

theorem handsOutFresh_iff {w : World} {timed : TimedEvent} (recent : Recent w.pool timed.now)
    (distinct : w.pool.Distinct) : HandsOutFresh w timed ↔ FreshPasses w timed := by
  obtain ⟨now, event⟩ := timed
  cases event with
  | lease i target request isHealthy =>
      simp only [HandsOutFresh, FreshPasses]
      obtain ⟨kept, candidate, later, hidle, hhealthy, hlater, heffect⟩ | ⟨hall, heffect⟩ :=
        lease_cases w.pool isHealthy (hostKeyFor target)
      · have hmem : candidate ∈ w.pool.idleByHost (hostKeyFor target) := by
          rw [hidle]
          exact List.mem_append_right _ List.mem_cons_self
        have hsorted := recent.sorted (hostKeyFor target)
        rw [hidle, List.pairwise_append] at hsorted
        rw [heffect]
        constructor
        · exact fun hfresh _ => ⟨candidate, hmem, hhealthy, hfresh candidate hmem rfl⟩
        · intro hpasses conn hconn hleased
          -- a descriptor stands in the pool once
          have hone : conn = candidate := List.inj_on_of_nodup_map
            (distinct.once (hostKeyFor target)) hconn hmem (Option.some.inj hleased).symm
          obtain ⟨other, hother, hprobe, hwithin⟩ := hpasses ⟨candidate, hmem, hhealthy⟩
          have hearlier : other.lastUsed ≤ candidate.lastUsed := by
            rw [hidle, List.mem_append, List.mem_cons] at hother
            obtain hbefore | rfl | hbehind := hother
            · exact hsorted.2.2 other hbefore candidate List.mem_cons_self
            · exact le_rfl
            · exact absurd hprobe (Bool.eq_false_iff.mp (hlater other hbehind))
          rw [hone]
          exact (Nat.sub_le_sub_left hearlier now).trans hwithin
      · rw [heffect]
        refine iff_of_true (fun _ _ hleased => by cases hleased) ?_
        rintro ⟨conn, hconn, hprobe⟩
        rw [hall conn hconn] at hprobe
        cases hprobe
  | _ => exact Iff.rfl

section Pool

variable (requestOrder upstreamOrder responseOrder : IterationOrder Bytes Bytes) (w : World)

theorem prepare_pool (i : Nat) (call : Call) :
    (w.prepare requestOrder upstreamOrder i call).pool = w.pool := by
  unfold World.prepare
  split
  · rfl
  · rfl

theorem lease_pool (i : Nat) (target : RouteTrie.ProxyTarget) (request : HttpRequest)
    (isHealthy : Nat → Bool) :
    (w.lease requestOrder upstreamOrder i target request isHealthy).pool =
      (w.pool.lease isHealthy (hostKeyFor target)).pool := by
  unfold World.lease
  simp only
  split
  · rfl
  · split
    · rfl
    · exact prepare_pool _ _ _ _ _

theorem connect_pool {w' : World} {i : Nat} {call : Call} {opened : Option Nat}
    {connected : Bool} (h : w.connect i call opened connected = some w') : w'.pool = w.pool := by
  unfold World.connect at h
  simp only at h
  split at h
  · cases h
    rfl
  · split at h
    · cases h
      rfl
    · split at h
      · cases h
      · split at h
        · cases h
          rfl
        · cases h
          rfl

theorem poll_pool {w' : World} {i : Nat} {call : Call} {result : PollResult}
    (h : w.poll i call result = some w') : w'.pool = w.pool := by
  have hpolled : ∀ next body, ((w.used call).polled i call next body result).pool = w.pool := by
    intro next body
    cases result with
    | _ => rfl
  unfold World.poll at h
  simp only at h
  split at h
  · rw [← Option.some.inj h, hpolled]
  · rw [← Option.some.inj h, hpolled]
  · rw [← Option.some.inj h, hpolled]
  · cases h

theorem send_pool {w' : World} {i : Nat} {call : Call} {result : SendResult}
    (h : (w.used call).send i call result = some w') : w'.pool = w.pool := by
  unfold World.send at h
  split at h
  · split at h
    · cases h
    · cases h
      rfl
  · cases h
    rfl
  · cases h
    rfl
  · cases h
    rfl

theorem getsockopt_pool (i : Nat) (call : Call) (socketError : Option Bool) :
    (w.getsockopt requestOrder upstreamOrder i call socketError).pool = w.pool := by
  unfold World.getsockopt
  simp only
  split
  · exact prepare_pool _ _ _ _ _
  · rfl

theorem recv_pool (i : Nat) (call : Call) (result : UpstreamClient.RecvResult) :
    (w.recv responseOrder i call result).pool = w.pool := by
  unfold World.recv World.complete
  simp only
  split
  · split
    · rfl
    · rfl
  · rfl
  · split
    · rfl
    · rfl

theorem forwards_pool {w w' : World} {timed : TimedEvent} (forwards : timed.Forwards)
    (h : step requestOrder upstreamOrder responseOrder w timed.event = some w') :
    w'.pool = w.pool ∨
      (∃ isHealthy hostKey, w'.pool = (w.pool.lease isHealthy hostKey).pool) ∨
      ∃ hostKey fd effect, w.pool.release hostKey fd timed.now = some effect ∧
        w'.pool = effect.pool := by
  obtain ⟨now, event⟩ := timed
  cases event with
  | lease i target request isHealthy =>
      simp only [step] at h
      split_ifs at h
      cases h
      exact .inr (.inl ⟨_, _, lease_pool _ _ _ _ _ _ _⟩)
  | connect i opened connected =>
      obtain ⟨call, -, hconnect⟩ := Option.bind_eq_some_iff.mp h
      exact .inl (connect_pool _ hconnect)
  | poll i result =>
      obtain ⟨call, -, hpoll⟩ := Option.bind_eq_some_iff.mp h
      exact .inl (poll_pool _ hpoll)
  | getsockopt i socketError =>
      obtain ⟨call, -, rfl⟩ := Option.map_eq_some_iff.mp h
      exact .inl (getsockopt_pool _ _ _ _ _ _)
  | send i result =>
      obtain ⟨call, -, hsend⟩ := Option.bind_eq_some_iff.mp h
      exact .inl (send_pool _ hsend)
  | recv i result =>
      obtain ⟨call, -, hrecv⟩ := Option.bind_eq_some_iff.mp h
      refine .inl ?_
      split at hrecv
      · split_ifs at hrecv
        cases hrecv
        exact recv_pool _ _ _ _ _
      · cases hrecv
        exact recv_pool _ _ _ _ _
  | recvInterrupted i =>
      obtain ⟨call, -, rfl⟩ := Option.map_eq_some_iff.mp h
      exact .inl rfl
  | release i t =>
      obtain ⟨call, -, hrelease⟩ := Option.bind_eq_some_iff.mp h
      unfold World.release at hrelease
      simp only at hrelease
      split at hrelease
      · cases hrelease
        exact .inl rfl
      · obtain ⟨effect, heffect, hw⟩ := Option.map_eq_some_iff.mp hrelease
        have htime : t = now := forwards
        rw [htime] at heffect
        rw [← hw]
        exact .inr (.inr ⟨_, _, effect, heffect, rfl⟩)
  | reapStale hosts t => exact forwards.elim
  | closeAll hosts => exact forwards.elim

end Pool

section Runs

variable (requestOrder upstreamOrder responseOrder : IterationOrder Bytes Bytes)

def Forwarding (w : World) (timed : TimedEvent) (w' : World) : Prop :=
  step requestOrder upstreamOrder responseOrder w timed.event = some w' ∧ timed.Forwards

variable {requestOrder upstreamOrder responseOrder} {trace : List TimedEvent} {w : World}

theorem distinct_of_run (run : Run (Forwarding requestOrder upstreamOrder responseOrder)
    (World.init kProxyMaxIdlePerHost kProxyIdleTimeout) trace w) : w.pool.Distinct := by
  have base : ∃ place, Inv (World.init kProxyMaxIdlePerHost kProxyIdleTimeout) place :=
    ⟨_, inv_init (by decide) _⟩
  obtain ⟨_, inv⟩ := @Run.invariant _ _ _ _ (fun _ w => ∃ place, Inv w place) base
    (fun _ _ _ _ ⟨_, inv⟩ next => inv.step _ _ _ next.1) _ _ run
  exact inv.idle.distinct

theorem recent_of_run (run : Run (Forwarding requestOrder upstreamOrder responseOrder)
    (World.init kProxyMaxIdlePerHost kProxyIdleTimeout) trace w)
    (clock : trace.Pairwise fun a b => a.now ≤ b.now) {now : Nat}
    (later : ∀ timed ∈ trace, timed.now ≤ now) : Recent w.pool now := by
  induction run generalizing now with
  | nil => exact ⟨fun _ => .nil, by simp [World.init]⟩
  | @snoc before s timed s' _ next ih =>
      obtain ⟨hbefore, -, hlast⟩ := List.pairwise_append.mp clock
      have hrecent : Recent s.pool timed.now :=
        ih hbefore fun other hother => hlast other hother timed (List.mem_singleton_self _)
      have hnext : Recent s'.pool timed.now := by
        obtain hsame | ⟨isHealthy, hostKey, hlease⟩ | ⟨hostKey, fd, effect, heffect, hrelease⟩ :=
          forwards_pool _ _ _ next.2 next.1
        · rwa [hsame]
        · rw [hlease]
          exact hrecent.lease isHealthy hostKey
        · rw [hrelease]
          exact hrecent.release heffect
      exact hnext.later (later timed (List.mem_append_right _ (List.mem_singleton_self _)))

end Runs

/-- In a run of `forward` calls no lease gives out a connection that was idle for too long,
if and only if at each lease that finds a healthy connection it finds a fresh one. -/
theorem idle_timeout_iff (requestOrder upstreamOrder responseOrder : IterationOrder Bytes Bytes)
    (trace : List TimedEvent) (w : World)
    (clock : trace.Pairwise fun earlier later => earlier.now ≤ later.now) :
    Run (fun w timed w' => Forwarding requestOrder upstreamOrder responseOrder w timed w' ∧
        HandsOutFresh w timed) (World.init kProxyMaxIdlePerHost kProxyIdleTimeout) trace w ↔
      Run (fun w timed w' => Forwarding requestOrder upstreamOrder responseOrder w timed w' ∧
        FreshPasses w timed) (World.init kProxyMaxIdlePerHost kProxyIdleTimeout) trace w := by
  have hagree : ∀ before timed s, (before ++ [timed]) <+: trace →
      Run (Forwarding requestOrder upstreamOrder responseOrder)
        (World.init kProxyMaxIdlePerHost kProxyIdleTimeout) before s →
      (HandsOutFresh s timed ↔ FreshPasses s timed) := by
    intro before timed s hbegins run
    obtain ⟨hbefore, -, hlast⟩ := List.pairwise_append.mp (clock.sublist hbegins.sublist)
    have hrecent : Recent s.pool timed.now :=
      recent_of_run run hbefore fun other hother =>
        hlast other hother timed (List.mem_singleton_self _)
    exact handsOutFresh_iff hrecent (distinct_of_run run)
  constructor
  · exact fun run => run.restrict fun before timed s hbegins hrun =>
      (hagree before timed s hbegins hrun).mp
  · exact fun run => run.restrict fun before timed s hbegins hrun =>
      (hagree before timed s hbegins hrun).mpr

def twoRequests (first second : Nat) : List TimedEvent :=
  ((reused.take 8).map (TimedEvent.mk first) ++ [⟨first, .release 0 first⟩]) ++
    [⟨second, .lease 1 ⟨ascii "10.0.0.1", 80⟩
      ⟨.GET, ascii "/", [], .empty, .empty, [], []⟩ fun _ => true⟩]

theorem idle_timeout_iff_within : ∃ w,
    Run (fun w timed w' => Forwarding default default default w timed w' ∧ HandsOutFresh w timed)
      (World.init kProxyMaxIdlePerHost kProxyIdleTimeout) (twoRequests 0 (59 * 10 ^ 9)) w ∧
    (w.calls 1).map (fun call => call.client.fd) = some (some 5) := by
  let checked := fun (w : World) (timed : TimedEvent) =>
    if timed.Forwards ∧ FreshPasses w timed then step default default default w timed.event
    else none
  have hexec : (exec checked (World.init kProxyMaxIdlePerHost kProxyIdleTimeout)
      (twoRequests 0 (59 * 10 ^ 9))).map
        (fun w => (w.calls 1).map fun call => call.client.fd) = some (some (some 5)) := by
    decide
  obtain ⟨w, hw, hcall⟩ := Option.map_eq_some_iff.mp hexec
  have hrun := (run_of_exec hw).imp fun s timed s' h => by
    have hsteps : (timed.Forwards ∧ FreshPasses s timed) ∧
        step default default default s timed.event = some s' :=
      Option.ite_none_right_eq_some.mp h
    exact (⟨⟨hsteps.2, hsteps.1.1⟩, hsteps.1.2⟩ :
      Forwarding default default default s timed s' ∧ FreshPasses s timed)
  exact ⟨w, (idle_timeout_iff default default default _ w (by decide)).mpr hrun, hcall⟩

theorem idle_timeout_exceeded : ¬ ∀ (requestOrder upstreamOrder responseOrder :
    IterationOrder Bytes Bytes) (trace : List TimedEvent) (w : World),
    trace.Pairwise (fun earlier later => earlier.now ≤ later.now) →
    Run (Forwarding requestOrder upstreamOrder responseOrder)
      (World.init kProxyMaxIdlePerHost kProxyIdleTimeout) trace w →
    Run (fun w timed w' => Forwarding requestOrder upstreamOrder responseOrder w timed w' ∧
      HandsOutFresh w timed) (World.init kProxyMaxIdlePerHost kProxyIdleTimeout) trace w := by
  intro h
  let taken := fun (w : World) (timed : TimedEvent) =>
    if timed.Forwards then step default default default w timed.event else none
  have htaken : ∀ s timed s', Forwarding default default default s timed s' ↔
      taken s timed = some s' := fun s timed s' =>
    and_comm.trans Option.ite_none_right_eq_some.symm
  have hrun : (exec taken (World.init kProxyMaxIdlePerHost kProxyIdleTimeout)
      (twoRequests 0 (61 * 10 ^ 9))).isSome = true := by
    decide
  have hidle : ((exec taken (World.init kProxyMaxIdlePerHost kProxyIdleTimeout)
      ((reused.take 8).map (TimedEvent.mk 0) ++ [⟨0, .release 0 0⟩])).map
        fun w => w.pool.idleByHost (ascii "10.0.0.1:80")) = some [⟨5, 0⟩] := by
    decide
  obtain ⟨w, hw⟩ := Option.isSome_iff_exists.mp hrun
  obtain ⟨s, hbefore, -, hfresh⟩ := (h default default default _ w (by decide)
    ((run_of_exec hw).imp fun s timed s' => (htaken s timed s').mpr)).last
  rw [exec_of_run (hbefore.imp fun s timed s' hstep => (htaken s timed s').mp hstep.1),
    Option.map_some, Option.some.injEq] at hidle
  have hkey : hostKeyFor ⟨ascii "10.0.0.1", 80⟩ = ascii "10.0.0.1:80" := by decide
  have hleased : (s.pool.lease (fun _ => true) (ascii "10.0.0.1:80")).leased = some 5 := by
    rw [ConnectionPool.lease, hidle]
    rfl
  simp only [HandsOutFresh, hkey, hidle, List.forall_mem_singleton] at hfresh
  exact absurd (hfresh hleased) (by decide)

end ApiGateway.IdleTimeout
