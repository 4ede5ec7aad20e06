import ApiGateway.ByteText
import Mathlib.Data.List.MinMax

/-! The pool of idle upstream connections. A descriptor that the pool closes is
handed back in a list, for the caller to close in the kernel. -/

namespace ApiGateway.ConnectionPooling
open ByteText

structure PooledConnection where
  fd : Nat
  lastUsed : Nat
  deriving DecidableEq

/-- `idleTimeout` counts seconds, the clock nanoseconds. -/
structure ConnectionPool where
  maxIdlePerHost : Nat
  idleTimeout : Int
  idleByHost : Bytes → List PooledConnection

structure Effect where
  pool : ConnectionPool
  closed : List Nat
  leased : Option Nat

def leaseLoop (isHealthy : Nat → Bool) :
    List PooledConnection → List PooledConnection × List Nat × Option Nat
  | [] => ([], [], none)
  | candidate :: rest =>
      if isHealthy candidate.fd then (rest, [], some candidate.fd)
      else
        let (idle, closed, leased) := leaseLoop isHealthy rest
        (idle, candidate.fd :: closed, leased)

def ConnectionPool.withIdle (pool : ConnectionPool) (hostKey : Bytes)
    (idle : List PooledConnection) : ConnectionPool :=
  { pool with idleByHost := Function.update pool.idleByHost hostKey idle }

def ConnectionPool.lease (pool : ConnectionPool) (isHealthy : Nat → Bool) (hostKey : Bytes) :
    Effect :=
  let (idle, closed, leased) := leaseLoop isHealthy (pool.idleByHost hostKey).reverse
  ⟨pool.withIdle hostKey idle.reverse, closed, leased⟩

/-- `none` is the undefined behaviour of an eviction from an empty vector. -/
def ConnectionPool.release (pool : ConnectionPool) (hostKey : Bytes) (fd now : Nat) :
    Option Effect :=
  let idle := pool.idleByHost hostKey
  if idle.length ≥ pool.maxIdlePerHost then
    (idle.argmin PooledConnection.lastUsed).map fun oldest =>
      ⟨pool.withIdle hostKey (idle.erase oldest ++ [⟨fd, now⟩]), [oldest.fd], none⟩
  else some ⟨pool.withIdle hostKey (idle ++ [⟨fd, now⟩]), [], none⟩

/-- The seconds as nanoseconds, for a comparison of the two: the product of 64-bit integers. -/
def nanoseconds (seconds : Int) : Int := (seconds * 10 ^ 9).bmod (2 ^ 64)

def ConnectionPool.stale (pool : ConnectionPool) (now : Nat) (conn : PooledConnection) : Bool :=
  decide ((now : Int) - conn.lastUsed > nanoseconds pool.idleTimeout)

/-- `hosts` are the keys of the map. -/
def ConnectionPool.reapStale (pool : ConnectionPool) (hosts : List Bytes) (now : Nat) : Effect :=
  let stale := pool.stale now
  ⟨{ pool with idleByHost := fun hostKey =>
      if hostKey ∈ hosts then (pool.idleByHost hostKey).filter fun conn => !stale conn
      else pool.idleByHost hostKey },
    hosts.flatMap fun hostKey => ((pool.idleByHost hostKey).filter stale).map PooledConnection.fd,
    none⟩

def ConnectionPool.closeAll (pool : ConnectionPool) (hosts : List Bytes) : Effect :=
  ⟨{ pool with idleByHost := fun hostKey => if hostKey ∈ hosts then [] else pool.idleByHost hostKey },
    hosts.flatMap fun hostKey => (pool.idleByHost hostKey).map PooledConnection.fd, none⟩

@[simp] theorem idleByHost_withIdle (pool : ConnectionPool) (hostKey other : Bytes)
    (idle : List PooledConnection) : (pool.withIdle hostKey idle).idleByHost other =
      if other = hostKey then idle else pool.idleByHost other :=
  Function.update_apply pool.idleByHost hostKey idle other

theorem release_cases {pool : ConnectionPool} {hostKey : Bytes} {fd now : Nat} {effect : Effect}
    (h : pool.release hostKey fd now = some effect) :
    ((pool.idleByHost hostKey).length < pool.maxIdlePerHost ∧
      effect = ⟨pool.withIdle hostKey (pool.idleByHost hostKey ++ [⟨fd, now⟩]), [], none⟩) ∨
      ∃ oldest, pool.maxIdlePerHost ≤ (pool.idleByHost hostKey).length ∧
        (pool.idleByHost hostKey).argmin PooledConnection.lastUsed = some oldest ∧
        effect = ⟨pool.withIdle hostKey ((pool.idleByHost hostKey).erase oldest ++ [⟨fd, now⟩]),
          [oldest.fd], none⟩ := by
  unfold ConnectionPool.release at h
  simp only at h
  split_ifs at h with hfull
  · obtain ⟨oldest, holdest, heffect⟩ := Option.map_eq_some_iff.mp h
    exact .inr ⟨oldest, hfull, holdest, heffect.symm⟩
  · cases h
    exact .inl ⟨Nat.lt_of_not_le hfull, rfl⟩

theorem leaseLoop_reverse_cases (isHealthy : Nat → Bool) (idle : List PooledConnection) :
    (∃ kept candidate later, idle = kept ++ candidate :: later ∧
      isHealthy candidate.fd = true ∧ (∀ conn ∈ later, isHealthy conn.fd = false) ∧
      leaseLoop isHealthy idle.reverse =
        (kept.reverse, (later.map PooledConnection.fd).reverse, some candidate.fd)) ∨
      (∀ conn ∈ idle, isHealthy conn.fd = false) ∧
        leaseLoop isHealthy idle.reverse = ([], (idle.map PooledConnection.fd).reverse, none) := by
  induction idle using List.reverseRecOn with
  | nil => exact .inr ⟨by simp, rfl⟩
  | append_singleton before last ih =>
      rw [List.reverse_append, List.reverse_singleton, List.singleton_append, leaseLoop]
      by_cases hlast : isHealthy last.fd = true
      · rw [if_pos hlast]
        exact .inl ⟨before, last, [], rfl, hlast, by simp, rfl⟩
      · have hsick : isHealthy last.fd = false := Bool.eq_false_iff.mpr hlast
        have hbehind : ∀ later : List PooledConnection,
            (∀ conn ∈ later, isHealthy conn.fd = false) →
            ∀ conn ∈ later ++ [last], isHealthy conn.fd = false := by
          intro later hlater conn hconn
          cases List.mem_append.mp hconn with
          | inl hmem => exact hlater conn hmem
          | inr hmem => rwa [List.mem_singleton.mp hmem]
        rw [if_neg hlast]
        obtain ⟨kept, candidate, later, hidle, hhealthy, hlater, hloop⟩ | ⟨hall, hloop⟩ := ih
        · refine .inl ⟨kept, candidate, later ++ [last], by rw [hidle]; simp, hhealthy,
            hbehind later hlater, ?_⟩
          rw [hloop]
          simp
        · refine .inr ⟨hbehind before hall, ?_⟩
          rw [hloop]
          simp

theorem lease_cases (pool : ConnectionPool) (isHealthy : Nat → Bool) (hostKey : Bytes) :
    (∃ kept candidate later, pool.idleByHost hostKey = kept ++ candidate :: later ∧
      isHealthy candidate.fd = true ∧ (∀ conn ∈ later, isHealthy conn.fd = false) ∧
      pool.lease isHealthy hostKey = ⟨pool.withIdle hostKey kept,
        (later.map PooledConnection.fd).reverse, some candidate.fd⟩) ∨
      (∀ conn ∈ pool.idleByHost hostKey, isHealthy conn.fd = false) ∧
        pool.lease isHealthy hostKey = ⟨pool.withIdle hostKey [],
          ((pool.idleByHost hostKey).map PooledConnection.fd).reverse, none⟩ := by
  unfold ConnectionPool.lease
  obtain ⟨kept, candidate, later, hidle, hhealthy, hlater, hloop⟩ | ⟨hall, hloop⟩ :=
    leaseLoop_reverse_cases isHealthy (pool.idleByHost hostKey)
  · rw [hloop]
    exact .inl ⟨kept, candidate, later, hidle, hhealthy, hlater, by simp⟩
  · rw [hloop]
    exact .inr ⟨hall, by simp⟩

def ConnectionPool.fds (pool : ConnectionPool) (hostKey : Bytes) : List Nat :=
  (pool.idleByHost hostKey).map PooledConnection.fd

theorem fds_withIdle (pool : ConnectionPool) (hostKey other : Bytes)
    (idle : List PooledConnection) :
    (pool.withIdle hostKey idle).fds other =
      if other = hostKey then idle.map PooledConnection.fd else pool.fds other := by
  rw [ConnectionPool.fds, idleByHost_withIdle, apply_ite (List.map PooledConnection.fd)]
  rfl

theorem lease_perm (pool : ConnectionPool) (isHealthy : Nat → Bool) (hostKey : Bytes) :
    (pool.fds hostKey).Perm ((pool.lease isHealthy hostKey).pool.fds hostKey ++
      ((pool.lease isHealthy hostKey).leased.toList ++ (pool.lease isHealthy hostKey).closed)) := by
  obtain ⟨kept, candidate, later, hidle, -, -, hlease⟩ | ⟨-, hlease⟩ :=
    lease_cases pool isHealthy hostKey
  · rw [hlease, ConnectionPool.fds, hidle, fds_withIdle, if_pos rfl, List.map_append,
      List.map_cons, Option.toList_some, List.singleton_append]
    exact ((List.reverse_perm _).symm.cons _).append_left _
  · rw [hlease, fds_withIdle, if_pos rfl, List.map_nil, Option.toList_none, List.nil_append,
      List.nil_append]
    exact (List.reverse_perm _).symm

theorem lease_other (pool : ConnectionPool) (isHealthy : Nat → Bool) {hostKey other : Bytes}
    (h : other ≠ hostKey) : (pool.lease isHealthy hostKey).pool.fds other = pool.fds other := by
  unfold ConnectionPool.lease
  rw [fds_withIdle, if_neg h]

theorem release_perm {pool : ConnectionPool} {hostKey : Bytes} {fd now : Nat} {effect : Effect}
    (h : pool.release hostKey fd now = some effect) :
    (pool.fds hostKey ++ [fd]).Perm (effect.pool.fds hostKey ++ effect.closed) ∧
      (∀ other ≠ hostKey, effect.pool.fds other = pool.fds other) ∧
      effect.pool.maxIdlePerHost = pool.maxIdlePerHost := by
  obtain ⟨-, heffect⟩ | ⟨oldest, -, holdest, heffect⟩ := release_cases h
  · rw [heffect]
    refine ⟨?_, fun other hother => by rw [fds_withIdle, if_neg hother], rfl⟩
    rw [fds_withIdle, if_pos rfl, List.map_append, List.append_nil]
    exact .refl _
  · have hperm := (List.perm_cons_erase (List.argmin_mem holdest)).map PooledConnection.fd
    rw [List.map_cons] at hperm
    rw [heffect]
    refine ⟨?_, fun other hother => by rw [fds_withIdle, if_neg hother], rfl⟩
    simp only [fds_withIdle, if_pos, List.map_append]
    exact (hperm.append_right [fd]).trans (List.perm_append_singleton _ _).symm

theorem release_defined {pool : ConnectionPool} (positive : 0 < pool.maxIdlePerHost)
    (hostKey : Bytes) (fd now : Nat) : ∃ effect, pool.release hostKey fd now = some effect := by
  unfold ConnectionPool.release
  simp only
  split_ifs with hfull
  · cases holdest : (pool.idleByHost hostKey).argmin PooledConnection.lastUsed with
    | none =>
        rw [List.argmin_eq_none] at holdest
        rw [holdest, List.length_nil] at hfull
        omega
    | some oldest => exact ⟨_, rfl⟩
  · exact ⟨_, rfl⟩

structure ConnectionPool.Distinct (pool : ConnectionPool) : Prop where
  once : ∀ hostKey, (pool.fds hostKey).Nodup
  apart : ∀ hostKey other fd, fd ∈ pool.fds hostKey → fd ∈ pool.fds other → hostKey = other

/-- A pool that has given away some of its descriptors. -/
structure Shrinks (pool pool' : ConnectionPool) (gone : List Nat) : Prop where
  kept : ∀ hostKey fd, fd ∈ pool'.fds hostKey → fd ∈ pool.fds hostKey
  distinct : pool'.Distinct
  had : ∀ fd ∈ gone, ∃ hostKey, fd ∈ pool.fds hostKey
  away : ∀ fd ∈ gone, ∀ hostKey, fd ∉ pool'.fds hostKey

theorem lease_shrinks {pool : ConnectionPool} (distinct : pool.Distinct) (isHealthy : Nat → Bool)
    (hostKey : Bytes) :
    Shrinks pool (pool.lease isHealthy hostKey).pool
        ((pool.lease isHealthy hostKey).leased.toList ++ (pool.lease isHealthy hostKey).closed) ∧
      ∀ fd, (pool.lease isHealthy hostKey).leased = some fd →
        fd ∉ (pool.lease isHealthy hostKey).closed := by
  have hperm := lease_perm pool isHealthy hostKey
  have hnodup := hperm.nodup_iff.mp (distinct.once hostKey)
  have hkept : ∀ other fd, fd ∈ (pool.lease isHealthy hostKey).pool.fds other →
      fd ∈ pool.fds other := by
    intro other fd hfd
    by_cases hother : other = hostKey
    · rw [hother] at hfd ⊢
      exact hperm.mem_iff.mpr (List.mem_append_left _ hfd)
    · rwa [lease_other pool isHealthy hother] at hfd
  have hhad : ∀ fd ∈ (pool.lease isHealthy hostKey).leased.toList ++
      (pool.lease isHealthy hostKey).closed, fd ∈ pool.fds hostKey :=
    fun fd hfd => hperm.mem_iff.mpr (List.mem_append_right _ hfd)
  refine ⟨⟨hkept, ⟨fun other => ?_, fun other other' fd hfd hfd' => ?_⟩, fun fd hfd => ?_,
    fun fd hfd other hmem => ?_⟩, fun fd hleased hclosed => ?_⟩
  · by_cases hother : other = hostKey
    · rw [hother]
      exact (List.nodup_append.mp hnodup).1
    · rw [lease_other pool isHealthy hother]
      exact distinct.once other
  · exact distinct.apart other other' fd (hkept other fd hfd) (hkept other' fd hfd')
  · exact ⟨hostKey, hhad fd hfd⟩
  · have hsame := distinct.apart other hostKey fd (hkept other fd hmem) (hhad fd hfd)
    rw [hsame] at hmem
    exact (List.nodup_append.mp hnodup).2.2 fd hmem fd hfd rfl
  · have hgone := (List.nodup_append.mp hnodup).2.1
    rw [hleased] at hgone
    exact (List.nodup_append.mp hgone).2.2 fd (by simp) fd hclosed rfl

section Leases

variable {pool : ConnectionPool} (distinct : pool.Distinct) (isHealthy : Nat → Bool)
  (hostKey : Bytes)

theorem lease_had {fd : Nat} (h : fd ∈ (pool.lease isHealthy hostKey).leased.toList ++
    (pool.lease isHealthy hostKey).closed) : fd ∈ pool.fds hostKey :=
  (lease_perm pool isHealthy hostKey).mem_iff.mpr (List.mem_append_right _ h)

include distinct in
theorem lease_nodup : ((pool.lease isHealthy hostKey).leased.toList ++
    (pool.lease isHealthy hostKey).closed).Nodup :=
  (List.nodup_append.mp
    ((lease_perm pool isHealthy hostKey).nodup_iff.mp (distinct.once hostKey))).2.1

include distinct in
theorem lease_mem_iff (other : Bytes) (fd : Nat) :
    fd ∈ (pool.lease isHealthy hostKey).pool.fds other ↔
      fd ∈ pool.fds other ∧ fd ∉ (pool.lease isHealthy hostKey).leased.toList ++
        (pool.lease isHealthy hostKey).closed := by
  have hshrinks := (lease_shrinks distinct isHealthy hostKey).1
  constructor
  · exact fun hfd => ⟨hshrinks.kept other fd hfd, fun hgone => hshrinks.away fd hgone other hfd⟩
  · rintro ⟨hfd, hleft⟩
    by_cases hother : other = hostKey
    · rw [hother] at hfd ⊢
      have hmem := (lease_perm pool isHealthy hostKey).mem_iff.mp hfd
      exact (List.mem_append.mp hmem).resolve_right hleft
    · rwa [lease_other pool isHealthy hother]

end Leases

structure Swept (pool : ConnectionPool) (gone : PooledConnection → Bool) (hosts : List Bytes)
    (effect : Effect) : Prop where
  kept : ∀ hostKey, effect.pool.idleByHost hostKey =
    if hostKey ∈ hosts then (pool.idleByHost hostKey).filter fun conn => !gone conn
    else pool.idleByHost hostKey
  closed : effect.closed =
    hosts.flatMap fun hostKey => ((pool.idleByHost hostKey).filter gone).map PooledConnection.fd
  same : effect.pool.maxIdlePerHost = pool.maxIdlePerHost

theorem swept_reapStale (pool : ConnectionPool) (hosts : List Bytes) (now : Nat) :
    Swept pool (pool.stale now) hosts (pool.reapStale hosts now) :=
  ⟨fun _ => rfl, rfl, rfl⟩

theorem swept_closeAll (pool : ConnectionPool) (hosts : List Bytes) :
    Swept pool (fun _ => true) hosts (pool.closeAll hosts) :=
  ⟨fun hostKey => by simp [ConnectionPool.closeAll], by simp [ConnectionPool.closeAll], rfl⟩

section Sweep

variable {pool : ConnectionPool} {gone : PooledConnection → Bool} {hosts : List Bytes}
  {effect : Effect}

theorem Swept.sublist (swept : Swept pool gone hosts effect) (hostKey : Bytes) :
    (effect.pool.fds hostKey).Sublist (pool.fds hostKey) := by
  rw [ConnectionPool.fds, swept.kept]
  split_ifs
  · exact List.filter_sublist.map PooledConnection.fd
  · exact List.Sublist.refl _

theorem Swept.had (swept : Swept pool gone hosts effect) {fd : Nat} (h : fd ∈ effect.closed) :
    ∃ hostKey, fd ∈ pool.fds hostKey := by
  rw [swept.closed] at h
  have ⟨hostKey, _, hclosed⟩ := List.mem_flatMap.mp h
  exact ⟨hostKey, (List.filter_sublist.map PooledConnection.fd).subset hclosed⟩

theorem Swept.mem_iff (swept : Swept pool gone hosts effect) (distinct : pool.Distinct)
    (hostKey : Bytes) (fd : Nat) :
    fd ∈ effect.pool.fds hostKey ↔ fd ∈ pool.fds hostKey ∧ fd ∉ effect.closed := by
  constructor
  · intro hkept
    refine ⟨(swept.sublist hostKey).subset hkept, fun hclosed => ?_⟩
    rw [swept.closed] at hclosed
    have ⟨other, hother, hgone⟩ := List.mem_flatMap.mp hclosed
    have ⟨conn, hconn, hconnFd⟩ := List.mem_map.mp hgone
    have ⟨hidle, htrue⟩ := List.mem_filter.mp hconn
    have hsame := distinct.apart hostKey other fd ((swept.sublist hostKey).subset hkept)
      (List.mem_map.mpr ⟨conn, hidle, hconnFd⟩)
    rw [hsame, ConnectionPool.fds, swept.kept, if_pos hother] at hkept
    have ⟨conn', hconn', hconnFd'⟩ := List.mem_map.mp hkept
    have ⟨hidle', hfalse⟩ := List.mem_filter.mp hconn'
    -- one descriptor stands for one entry, which cannot be both taken out and kept
    have hone : conn' = conn :=
      List.inj_on_of_nodup_map (distinct.once other) hidle' hidle (hconnFd'.trans hconnFd.symm)
    rw [hone, htrue] at hfalse
    cases hfalse
  · rintro ⟨hidle, hopen⟩
    have ⟨conn, hconn, hfd⟩ := List.mem_map.mp hidle
    rw [ConnectionPool.fds, swept.kept]
    split_ifs with hhost
    · refine List.mem_map.mpr ⟨conn, List.mem_filter.mpr ⟨hconn, ?_⟩, hfd⟩
      rw [Bool.not_eq_true']
      by_contra hgone
      rw [Bool.not_eq_false] at hgone
      refine hopen ?_
      rw [swept.closed]
      exact List.mem_flatMap.mpr ⟨hostKey, hhost,
        List.mem_map.mpr ⟨conn, List.mem_filter.mpr ⟨hconn, hgone⟩, hfd⟩⟩
    · exact hidle

theorem Swept.nodup (swept : Swept pool gone hosts effect) (distinct : pool.Distinct)
    (keys : hosts.Nodup) : effect.closed.Nodup := by
  have hsub : ∀ hostKey, (((pool.idleByHost hostKey).filter gone).map
      PooledConnection.fd).Sublist (pool.fds hostKey) := fun hostKey =>
    List.filter_sublist.map PooledConnection.fd
  rw [swept.closed, List.nodup_flatMap]
  refine ⟨fun hostKey _ => (hsub hostKey).nodup (distinct.once hostKey),
    keys.imp fun {hostKey other} hne fd hfd hfd' => hne ?_⟩
  exact distinct.apart hostKey other fd ((hsub hostKey).subset hfd) ((hsub other).subset hfd')

end Sweep

theorem reapStale_shrinks {pool : ConnectionPool} (distinct : pool.Distinct) (hosts : List Bytes)
    (now : Nat) :
    Shrinks pool (pool.reapStale hosts now).pool (pool.reapStale hosts now).closed := by
  have hswept := swept_reapStale pool hosts now
  have hkept : ∀ hostKey fd, fd ∈ (pool.reapStale hosts now).pool.fds hostKey →
      fd ∈ pool.fds hostKey := fun hostKey fd hfd => (hswept.sublist hostKey).subset hfd
  refine ⟨hkept, ⟨fun hostKey => (hswept.sublist hostKey).nodup (distinct.once hostKey),
    fun hostKey other fd hfd hfd' => ?_⟩, fun fd hfd => hswept.had hfd,
    fun fd hfd other hmem => ?_⟩
  · exact distinct.apart hostKey other fd (hkept hostKey fd hfd) (hkept other fd hfd')
  · exact ((hswept.mem_iff distinct other fd).mp hmem).2 hfd

section Releases

variable {pool : ConnectionPool} (distinct : pool.Distinct) {fd : Nat}
  (new : ∀ hostKey, fd ∉ pool.fds hostKey) {hostKey : Bytes} {now : Nat} {effect : Effect}
  (h : pool.release hostKey fd now = some effect)

include distinct new in
theorem nodup_with_new : (pool.fds hostKey ++ [fd]).Nodup := by
  rw [List.nodup_append]
  refine ⟨distinct.once hostKey, by simp, fun fd' hfd' other hother heq => ?_⟩
  rw [List.mem_singleton] at hother
  exact new hostKey (by rwa [← hother, ← heq])

include h in
theorem release_kept {other : Bytes} {fd' : Nat} (hfd' : fd' ∈ effect.pool.fds other) :
    fd' ∈ pool.fds other ∨ (fd' = fd ∧ other = hostKey) := by
  have ⟨hperm, hsame, _⟩ := release_perm h
  by_cases hother : other = hostKey
  · rw [hother] at hfd' ⊢
    have hmem := hperm.mem_iff.mpr (List.mem_append_left _ hfd')
    rw [List.mem_append, List.mem_singleton] at hmem
    exact hmem.imp_right fun heq => ⟨heq, rfl⟩
  · rw [hsame other hother] at hfd'
    exact .inl hfd'

include distinct new h in
theorem release_distinct :
    effect.pool.Distinct ∧
      (∀ other fd', fd' ∈ effect.pool.fds other → fd' ∈ pool.fds other ∨ fd' = fd) ∧
      ∀ fd' ∈ effect.closed,
        (fd' ∈ pool.fds hostKey ∨ fd' = fd) ∧ ∀ other, fd' ∉ effect.pool.fds other := by
  have ⟨hperm, hsame, _⟩ := release_perm h
  have hnodup := List.nodup_append.mp (hperm.nodup_iff.mp (nodup_with_new distinct new))
  have hapart : ∀ other other' fd', fd' ∈ effect.pool.fds other →
      (fd' ∈ pool.fds other' ∨ (fd' = fd ∧ other' = hostKey)) → other = other' := by
    intro other other' fd' hfd' hfd''
    cases release_kept h hfd' with
    | inl hold =>
        cases hfd'' with
        | inl hold' => exact distinct.apart other other' fd' hold hold'
        | inr hnew => exact absurd (hnew.1 ▸ hold) (new other)
    | inr hnew =>
        cases hfd'' with
        | inl hold' => exact absurd (hnew.1 ▸ hold') (new other')
        | inr hnew' => exact hnew.2.trans hnew'.2.symm
  have hclosed : ∀ fd' ∈ effect.closed, fd' ∈ pool.fds hostKey ∨ fd' = fd := fun fd' hfd' =>
    (List.mem_append.mp (hperm.mem_iff.mpr (List.mem_append_right _ hfd'))).imp_right
      List.mem_singleton.mp
  refine ⟨⟨fun other => ?_, fun other other' fd' hfd' hfd'' => ?_⟩, fun other fd' hfd' => ?_,
    fun fd' hfd' => ⟨hclosed fd' hfd', fun other hmem => ?_⟩⟩
  · by_cases hother : other = hostKey
    · rw [hother]
      exact hnodup.1
    · rw [hsame other hother]
      exact distinct.once other
  · exact hapart other other' fd' hfd' (release_kept h hfd'')
  · exact (release_kept h hfd').imp_right And.left
  · have hsame' := hapart other hostKey fd' hmem ((hclosed fd' hfd').imp_right fun h => ⟨h, rfl⟩)
    rw [hsame'] at hmem
    exact hnodup.2.2 fd' hmem fd' hfd' rfl

include distinct new h in
theorem release_mem_iff :
    (∀ other fd', fd' ∈ effect.pool.fds other ↔
      (fd' ∈ pool.fds other ∨ (fd' = fd ∧ other = hostKey)) ∧ fd' ∉ effect.closed) ∧
      effect.closed.Nodup := by
  have ⟨hperm, hsame, _⟩ := release_perm h
  have ⟨hdistinct, _, hclosed⟩ := release_distinct distinct new h
  refine ⟨fun other fd' => ⟨fun hfd' =>
      ⟨release_kept h hfd', fun hgone => (hclosed fd' hgone).2 other hfd'⟩, ?_⟩,
    (List.nodup_append.mp (hperm.nodup_iff.mp (nodup_with_new distinct new))).2.1⟩
  rintro ⟨hfd', hleft⟩
  by_cases hother : other = hostKey
  · rw [hother] at hfd' ⊢
    have hmem : fd' ∈ pool.fds hostKey ++ [fd] := by
      rw [List.mem_append, List.mem_singleton]
      exact hfd'.imp_right And.left
    exact (List.mem_append.mp (hperm.mem_iff.mp hmem)).resolve_right hleft
  · rw [hsame other hother]
    exact hfd'.resolve_right fun hnew => hother hnew.2

end Releases

end ApiGateway.ConnectionPooling
