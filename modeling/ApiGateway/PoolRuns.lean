import ApiGateway.ConnectionPooling

/-! Sequences of calls of the pool, each at its reading of the clock. The mutex makes each
call one step. -/

namespace ApiGateway.PoolRuns
open ByteText ConnectionPooling

/-- An order in which a range-for may visit the keys of the map. -/
structure HostOrder where
  visit : List Bytes → List Bytes
  perm : ∀ hosts, (visit hosts).Perm hosts

instance : Inhabited HostOrder := ⟨⟨id, fun _ => .refl _⟩⟩

inductive PoolCall where
  | release (hostKey : Bytes) (fd : Int)
  /-- `isHealthy` is what the probes find -/
  | lease (hostKey : Bytes) (isHealthy : Nat → Bool)
  | reapStale (order : HostOrder)
  | closeAll (order : HostOrder)

structure TimedCall where
  now : Nat
  call : PoolCall

/-- `hosts` are the keys of the map. -/
structure PoolState where
  pool : ConnectionPool
  hosts : List Bytes

structure Outcome where
  closed : List Nat
  leased : Option Nat

def PoolState.new (maxIdlePerHost : Nat) (idleTimeout : Int) : PoolState :=
  ⟨⟨maxIdlePerHost, idleTimeout, fun _ => []⟩, []⟩

def PoolState.idle (s : PoolState) (hostKey : Bytes) : List PooledConnection :=
  s.pool.idleByHost hostKey

def PoolState.after (s : PoolState) (effect : Effect) : PoolState × Outcome :=
  ({ s with pool := effect.pool }, ⟨effect.closed, effect.leased⟩)

/-- `none` is undefined behaviour. -/
def PoolState.take (s : PoolState) (timed : TimedCall) : Option (PoolState × Outcome) :=
  match timed.call with
  | .release hostKey fd =>
      if fd < 0 then some (s, ⟨[], none⟩)
      else
        (s.pool.release hostKey fd.toNat timed.now).map
          ({ s with hosts := s.hosts.insert hostKey } : PoolState).after
  | .lease hostKey isHealthy => some (s.after (s.pool.lease isHealthy hostKey))
  | .reapStale order => some (s.after (s.pool.reapStale (order.visit s.hosts) timed.now))
  | .closeAll order => some (s.after (s.pool.closeAll (order.visit s.hosts)))

def PoolState.run (s : PoolState) : List TimedCall → Option (PoolState × List Outcome)
  | [] => some (s, [])
  | timed :: rest =>
      (s.take timed).bind fun (s', outcome) =>
        (s'.run rest).map fun (final, outcomes) => (final, outcome :: outcomes)

/-- No call is undefined, and after each of them no host has more idle connections than the
limit. -/
def PoolState.Bounded (s : PoolState) : List TimedCall → Prop
  | [] => True
  | timed :: rest => ∃ s' outcome, s.take timed = some (s', outcome) ∧
      (∀ hostKey, (s'.idle hostKey).length ≤ s'.pool.maxIdlePerHost) ∧ s'.Bounded rest

def PoolCall.Releases : PoolCall → Prop
  | .release _ fd => 0 ≤ fd
  | _ => False

instance : DecidablePred PoolCall.Releases
  | .release _ fd => inferInstanceAs (Decidable (0 ≤ fd))
  | .lease _ _ => inferInstanceAs (Decidable False)
  | .reapStale _ => inferInstanceAs (Decidable False)
  | .closeAll _ => inferInstanceAs (Decidable False)

section Step

variable {s : PoolState} (bound : ∀ hostKey, (s.idle hostKey).length ≤ s.pool.maxIdlePerHost)

theorem take_bounded_of_not_releases (s : PoolState) {timed : TimedCall}
    (other : ¬ timed.call.Releases) : ∃ s' outcome, s.take timed = some (s', outcome) ∧
      s'.pool.maxIdlePerHost = s.pool.maxIdlePerHost ∧
      ∀ hostKey, (s'.idle hostKey).length ≤ (s.idle hostKey).length := by
  obtain ⟨now, call⟩ := timed
  have hswept : ∀ {gone hosts effect}, Swept s.pool gone hosts effect → ∀ hostKey,
      (effect.pool.idleByHost hostKey).length ≤ (s.pool.idleByHost hostKey).length := by
    intro gone hosts effect swept hostKey
    rw [swept.kept]
    split_ifs
    · exact List.length_filter_le _ _
    · exact le_rfl
  cases call with
  | release hostKey fd =>
      have hnegative : fd < 0 := Int.not_le.mp other
      exact ⟨s, ⟨[], none⟩, if_pos hnegative, rfl, fun _ => le_rfl⟩
  | lease hostKey isHealthy =>
      refine ⟨_, _, rfl, rfl, fun host => ?_⟩
      have hlength := (lease_perm s.pool isHealthy hostKey).length_eq
      change ((s.pool.lease isHealthy hostKey).pool.idleByHost host).length ≤ _
      by_cases hhost : host = hostKey
      · rw [hhost]
        simp only [ConnectionPool.fds, List.length_map, List.length_append] at hlength
        exact hlength.symm ▸ Nat.le_add_right _ _
      · obtain ⟨kept, candidate, later, -, -, -, heffect⟩ | ⟨-, heffect⟩ :=
          lease_cases s.pool isHealthy hostKey
        · rw [heffect, idleByHost_withIdle, if_neg hhost]
          exact le_rfl
        · rw [heffect, idleByHost_withIdle, if_neg hhost]
          exact le_rfl
  | reapStale order => exact ⟨_, _, rfl, rfl, hswept (swept_reapStale s.pool _ now)⟩
  | closeAll order => exact ⟨_, _, rfl, rfl, hswept (swept_closeAll s.pool _)⟩

theorem take_release (s : PoolState) {hostKey : Bytes} {fd : Int} {now : Nat} {effect : Effect}
    (h : 0 ≤ fd) (heffect : s.pool.release hostKey fd.toNat now = some effect) :
    s.take ⟨now, .release hostKey fd⟩ =
      some (({ s with hosts := s.hosts.insert hostKey } : PoolState).after effect) := by
  simp only [PoolState.take]
  rw [if_neg (not_lt.mpr h), heffect]
  rfl

include bound in
theorem take_bounded_of_releases {timed : TimedCall} (positive : 1 ≤ s.pool.maxIdlePerHost)
    (releases : timed.call.Releases) : ∃ s' outcome, s.take timed = some (s', outcome) ∧
      s'.pool.maxIdlePerHost = s.pool.maxIdlePerHost ∧
      ∀ hostKey, (s'.idle hostKey).length ≤ s'.pool.maxIdlePerHost := by
  obtain ⟨now, call⟩ := timed
  cases call with
  | release hostKey fd =>
      obtain ⟨effect, heffect⟩ := release_defined positive hostKey fd.toNat now
      have hsame := (release_perm heffect).2.2
      have htake := take_release s releases heffect
      refine ⟨_, _, htake, hsame, fun host => ?_⟩
      change (effect.pool.idleByHost host).length ≤ effect.pool.maxIdlePerHost
      have hhost := bound host
      unfold PoolState.idle at hhost
      rw [hsame]
      obtain ⟨hroom, hnew⟩ | ⟨oldest, -, holdest, hnew⟩ := release_cases heffect
      · rw [hnew, idleByHost_withIdle]
        split_ifs
        · rw [List.length_append, List.length_singleton]
          omega
        · exact hhost
      · have herase := List.length_erase_of_mem (List.argmin_mem holdest)
        have hpos := List.length_pos_of_mem (List.argmin_mem holdest)
        rw [hnew, idleByHost_withIdle]
        split_ifs with hsplit
        · rw [List.length_append, List.length_singleton, herase]
          rw [hsplit] at hhost
          omega
        · exact hhost
  | lease => exact releases.elim
  | reapStale => exact releases.elim
  | closeAll => exact releases.elim

include bound in
theorem take_eq_none_of_releases {timed : TimedCall} (zero : s.pool.maxIdlePerHost = 0)
    (releases : timed.call.Releases) : s.take timed = none := by
  obtain ⟨now, call⟩ := timed
  cases call with
  | release hostKey fd =>
      have hempty : s.pool.idleByHost hostKey = [] := by
        have hbound := bound hostKey
        rw [zero] at hbound
        exact List.length_eq_zero_iff.mp (Nat.le_zero.mp hbound)
      have hnone : s.pool.release hostKey fd.toNat now = none := by
        simp only [ConnectionPool.release]
        rw [if_pos (zero.trans_le (Nat.zero_le _)), hempty]
        rfl
      simp only [PoolState.take]
      rw [if_neg (not_lt.mpr releases), hnone]
      rfl
  | lease => exact releases.elim
  | reapStale => exact releases.elim
  | closeAll => exact releases.elim

include bound in
theorem take_bounded {timed : TimedCall}
    (allowed : 1 ≤ s.pool.maxIdlePerHost ∨ ¬ timed.call.Releases) :
    ∃ s' outcome, s.take timed = some (s', outcome) ∧
      s'.pool.maxIdlePerHost = s.pool.maxIdlePerHost ∧
      ∀ hostKey, (s'.idle hostKey).length ≤ s'.pool.maxIdlePerHost := by
  by_cases hreleases : timed.call.Releases
  · exact take_bounded_of_releases bound (allowed.resolve_right (not_not.mpr hreleases)) hreleases
  · obtain ⟨s', outcome, htake, hsame, hshorter⟩ := take_bounded_of_not_releases s hreleases
    exact ⟨s', outcome, htake, hsame, fun hostKey =>
      (hshorter hostKey).trans ((bound hostKey).trans_eq hsame.symm)⟩

end Step

theorem bounded_iff {s : PoolState} {calls : List TimedCall}
    (bound : ∀ hostKey, (s.idle hostKey).length ≤ s.pool.maxIdlePerHost) :
    s.Bounded calls ↔
      1 ≤ s.pool.maxIdlePerHost ∨ ∀ timed ∈ calls, ¬ timed.call.Releases := by
  induction calls generalizing s with
  | nil => simp [PoolState.Bounded]
  | cons timed rest ih =>
      rw [List.forall_mem_cons]
      by_cases hallowed : 1 ≤ s.pool.maxIdlePerHost ∨ ¬ timed.call.Releases
      · obtain ⟨s', outcome, htake, hsame, hbound⟩ := take_bounded bound hallowed
        have hrest : s.Bounded (timed :: rest) ↔ s'.Bounded rest := by
          constructor
          · rintro ⟨other, outcome', htake', -, hbounded⟩
            rw [htake] at htake'
            cases htake'
            exact hbounded
          · exact fun hbounded => ⟨s', outcome, htake, hbound, hbounded⟩
        rw [hrest, ih hbound, hsame]
        tauto
      · obtain ⟨hzero, hreleases⟩ := not_or.mp hallowed
        rw [not_not] at hreleases
        constructor
        · rintro ⟨s', outcome, htake, -⟩
          rw [take_eq_none_of_releases bound (by omega) hreleases] at htake
          cases htake
        · rintro (hpositive | ⟨hother, -⟩)
          · exact absurd hpositive hzero
          · exact absurd hreleases hother

/-- Every sequence of calls is within the bound, but that a pool with no room for an idle
connection is given none. -/
theorem pool_bounded_iff (maxIdlePerHost : Nat) (idleTimeout : Int) (calls : List TimedCall) :
    (PoolState.new maxIdlePerHost idleTimeout).Bounded calls ↔
      1 ≤ maxIdlePerHost ∨ ∀ timed ∈ calls, ¬ timed.call.Releases :=
  bounded_iff fun _ => Nat.zero_le _

theorem release_without_room : ¬ ∀ maxIdlePerHost idleTimeout calls,
    (PoolState.new maxIdlePerHost idleTimeout).Bounded calls := by
  intro h
  obtain ⟨s', outcome, htake, -⟩ := h 0 60 [⟨0, .release (ascii "10.0.0.1:80") 7⟩]
  cases htake

end ApiGateway.PoolRuns
