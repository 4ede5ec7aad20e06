import ApiGateway.PoolRuns
import ApiGateway.SortedEnumeration
import ApiGateway.StepRuns

/-! What the pool is for: of the connections that were released, in order, it keeps a set for
each host, gives out the latest that is healthy and gives up the earliest. The vectors list
these sets. -/

namespace ApiGateway.PoolRecency
open ByteText ConnectionPooling PoolRuns SortedEnumeration StepRuns

/-- Behind a connection stand only those released later, and none after `now`. -/
structure Recent (pool : ConnectionPool) (now : Nat) : Prop where
  sorted : ∀ hostKey, (pool.idleByHost hostKey).Pairwise fun a b => a.lastUsed ≤ b.lastUsed
  past : ∀ hostKey, ∀ conn ∈ pool.idleByHost hostKey, conn.lastUsed ≤ now

section Recent

variable {pool pool' : ConnectionPool} {now now' fd : Nat} {hostKey : Bytes} {effect : Effect}

theorem Recent.later (recent : Recent pool now) (h : now ≤ now') : Recent pool now' :=
  ⟨recent.sorted, fun hostKey conn hconn => (recent.past hostKey conn hconn).trans h⟩

theorem Recent.sublist (recent : Recent pool now)
    (h : ∀ hostKey, (pool'.idleByHost hostKey).Sublist (pool.idleByHost hostKey)) :
    Recent pool' now :=
  ⟨fun hostKey => (recent.sorted hostKey).sublist (h hostKey), fun hostKey conn hconn =>
    recent.past hostKey conn ((h hostKey).subset hconn)⟩

theorem Recent.lease (recent : Recent pool now) (isHealthy : Nat → Bool) (hostKey : Bytes) :
    Recent (pool.lease isHealthy hostKey).pool now := by
  refine recent.sublist fun other => ?_
  obtain ⟨kept, candidate, later, hidle, -, -, heffect⟩ | ⟨-, heffect⟩ :=
    lease_cases pool isHealthy hostKey
  · rw [heffect, idleByHost_withIdle]
    split_ifs with h
    · rw [h, hidle]
      exact List.sublist_append_left kept _
    · exact List.Sublist.refl _
  · rw [heffect, idleByHost_withIdle]
    split_ifs
    · exact List.nil_sublist _
    · exact List.Sublist.refl _

theorem Recent.swept (recent : Recent pool now) {gone : PooledConnection → Bool}
    {hosts : List Bytes} (swept : Swept pool gone hosts effect) : Recent effect.pool now := by
  refine recent.sublist fun hostKey => ?_
  rw [swept.kept]
  split_ifs
  · exact List.filter_sublist
  · exact List.Sublist.refl _

theorem Recent.release_cases (recent : Recent pool now)
    (h : pool.release hostKey fd now' = some effect) :
    ((pool.idleByHost hostKey).length < pool.maxIdlePerHost ∧
      effect = ⟨pool.withIdle hostKey (pool.idleByHost hostKey ++ [⟨fd, now'⟩]), [], none⟩) ∨
      ∃ oldest rest, pool.idleByHost hostKey = oldest :: rest ∧
        pool.maxIdlePerHost ≤ (pool.idleByHost hostKey).length ∧
        effect = ⟨pool.withIdle hostKey (rest ++ [⟨fd, now'⟩]), [oldest.fd], none⟩ := by
  obtain hroom | ⟨oldest, hfull, holdest, heffect⟩ := ConnectionPooling.release_cases h
  · exact .inl hroom
  · cases hidle : pool.idleByHost hostKey with
    | nil =>
        rw [hidle] at holdest
        cases holdest
    | cons first rest =>
        have hsorted := recent.sorted hostKey
        rw [hidle] at hsorted
        rw [hidle, argmin_cons_of_pairwise hsorted] at holdest
        cases holdest
        rw [hidle, List.erase_cons_head] at heffect
        exact .inr ⟨oldest, rest, rfl, hidle ▸ hfull, heffect⟩

theorem Recent.release (recent : Recent pool now)
    (h : pool.release hostKey fd now = some effect) : Recent effect.pool now := by
  have hpushed : ∀ idle, idle.Sublist (pool.idleByHost hostKey) →
      Recent (pool.withIdle hostKey (idle ++ [⟨fd, now⟩])) now := by
    intro idle hsub
    have hpast : ∀ conn ∈ idle, conn.lastUsed ≤ now := fun conn hconn =>
      recent.past hostKey conn (hsub.subset hconn)
    refine ⟨fun other => ?_, fun other => ?_⟩
    · rw [idleByHost_withIdle]
      split_ifs
      · rw [List.pairwise_append]
        refine ⟨(recent.sorted hostKey).sublist hsub, List.pairwise_singleton _ _, ?_⟩
        intro conn hconn last hlast
        rw [List.mem_singleton.mp hlast]
        exact hpast conn hconn
      · exact recent.sorted other
    · rw [idleByHost_withIdle]
      split_ifs
      · rw [List.forall_mem_append, List.forall_mem_singleton]
        exact ⟨hpast, le_rfl⟩
      · exact recent.past other
  obtain ⟨-, heffect⟩ | ⟨oldest, rest, hidle, -, heffect⟩ := recent.release_cases h
  · rw [heffect]
    exact hpushed _ (List.Sublist.refl _)
  · rw [heffect]
    refine hpushed rest ?_
    rw [hidle]
    exact List.sublist_cons_self oldest rest

end Recent

/-- The releases of a run have numbers from `0` on; `idle` are those that the host still has. -/
structure Ledger where
  count : Nat
  released : Nat → PooledConnection
  idle : Bytes → Finset Nat

namespace Ledger

def empty : Ledger := ⟨0, fun _ => ⟨0, 0⟩, fun _ => ∅⟩

def put (ledger : Ledger) (hostKey : Bytes) (conn : PooledConnection) : Ledger :=
  ⟨ledger.count + 1, Function.update ledger.released ledger.count conn,
    Function.update ledger.idle hostKey (insert ledger.count (ledger.idle hostKey))⟩

def keep (ledger : Ledger) (hostKey : Bytes) (kept : Finset Nat) : Ledger :=
  { ledger with idle := Function.update ledger.idle hostKey kept }

def fd (ledger : Ledger) (n : Nat) : Nat := (ledger.released n).fd

def fds (ledger : Ledger) (releases : Finset Nat) : List Nat := releases.sort.map ledger.fd

/-- The releases that the host has had idle for longer than the timeout, by a clock that counts
nanoseconds. -/
def stale (ledger : Ledger) (idleTimeout : Int) (now : Nat) (hostKey : Bytes) : Finset Nat :=
  {n ∈ ledger.idle hostKey | idleTimeout * 10 ^ 9 < (now : Int) - (ledger.released n).lastUsed}

inductive Takes (maxIdlePerHost : Nat) (idleTimeout : Int) (ledger : Ledger) :
    TimedCall × Outcome → Ledger → Prop where
  | ignored {now hostKey fd} (negative : fd < 0) :
      Takes maxIdlePerHost idleTimeout ledger (⟨now, .release hostKey fd⟩, ⟨[], none⟩) ledger
  | released {now hostKey} {fd : Nat} (room : (ledger.idle hostKey).card < maxIdlePerHost) :
      Takes maxIdlePerHost idleTimeout ledger (⟨now, .release hostKey fd⟩, ⟨[], none⟩)
        (ledger.put hostKey ⟨fd, now⟩)
  | evicted {now hostKey oldest} {fd : Nat} (full : maxIdlePerHost ≤ (ledger.idle hostKey).card)
      (least : IsLeast (ledger.idle hostKey : Set Nat) oldest) :
      Takes maxIdlePerHost idleTimeout ledger
        (⟨now, .release hostKey fd⟩, ⟨[ledger.fd oldest], none⟩)
        ((ledger.keep hostKey ((ledger.idle hostKey).erase oldest)).put hostKey ⟨fd, now⟩)
  | leased {now hostKey isHealthy latest}
      (greatest : IsGreatest {n | n ∈ ledger.idle hostKey ∧ isHealthy (ledger.fd n) = true} latest) :
      Takes maxIdlePerHost idleTimeout ledger
        (⟨now, .lease hostKey isHealthy⟩,
          ⟨(ledger.fds {n ∈ ledger.idle hostKey | latest < n}).reverse, some (ledger.fd latest)⟩)
        (ledger.keep hostKey {n ∈ ledger.idle hostKey | n < latest})
  | unleased {now hostKey isHealthy}
      (unhealthy : ∀ n ∈ ledger.idle hostKey, isHealthy (ledger.fd n) = false) :
      Takes maxIdlePerHost idleTimeout ledger
        (⟨now, .lease hostKey isHealthy⟩, ⟨(ledger.fds (ledger.idle hostKey)).reverse, none⟩)
        (ledger.keep hostKey ∅)
  | reaped {now order} {hosts : List Bytes} (once : hosts.Nodup)
      (every : ∀ hostKey, (ledger.idle hostKey).Nonempty → hostKey ∈ hosts) :
      Takes maxIdlePerHost idleTimeout ledger
        (⟨now, .reapStale order⟩,
          ⟨hosts.flatMap fun hostKey => ledger.fds (ledger.stale idleTimeout now hostKey), none⟩)
        { ledger with idle := fun hostKey =>
            ledger.idle hostKey \ ledger.stale idleTimeout now hostKey }
  | closedAll {now order} {hosts : List Bytes} (once : hosts.Nodup)
      (every : ∀ hostKey, (ledger.idle hostKey).Nonempty → hostKey ∈ hosts) :
      Takes maxIdlePerHost idleTimeout ledger
        (⟨now, .closeAll order⟩,
          ⟨hosts.flatMap fun hostKey => ledger.fds (ledger.idle hostKey), none⟩)
        { ledger with idle := fun _ => ∅ }

section Takes

variable {maxIdlePerHost now : Nat} {idleTimeout : Int} {ledger ledger' : Ledger}
  {outcome : Outcome}

theorem Takes.of_release {hostKey : Bytes} {fd : Int} (valid : 0 ≤ fd)
    (room : (ledger.idle hostKey).card < maxIdlePerHost)
    (takes : ledger.Takes maxIdlePerHost idleTimeout (⟨now, .release hostKey fd⟩, outcome)
      ledger') : ledger' = ledger.put hostKey ⟨fd.toNat, now⟩ := by
  cases takes with
  | ignored negative => exact absurd negative (not_lt.mpr valid)
  | released => rfl
  | evicted full => exact absurd room (not_lt.mpr full)

theorem Takes.of_reapStale {order : HostOrder}
    (takes : ledger.Takes maxIdlePerHost idleTimeout (⟨now, .reapStale order⟩, outcome) ledger')
    (fd : Nat) : fd ∈ outcome.closed ↔
      ∃ hostKey, ∃ n ∈ ledger.stale idleTimeout now hostKey, ledger.fd n = fd := by
  cases takes with
  | @reaped _ _ hosts once every =>
      simp only [List.mem_flatMap, fds, List.mem_map, Finset.mem_sort]
      constructor
      · rintro ⟨hostKey, -, n, hn, hfd⟩
        exact ⟨hostKey, n, hn, hfd⟩
      · rintro ⟨hostKey, n, hn, hfd⟩
        exact ⟨hostKey, every hostKey ⟨n, (Finset.mem_filter.mp hn).1⟩, n, hn, hfd⟩

end Takes

/-- The idle connections of a host, the earliest released first. -/
def listed (ledger : Ledger) (hostKey : Bytes) : List PooledConnection :=
  (ledger.idle hostKey).sort.map ledger.released

def Known (ledger : Ledger) : Prop := ∀ hostKey, ∀ n ∈ ledger.idle hostKey, n < ledger.count

theorem listed_eq {ledger : Ledger} {hostKey : Bytes} {releases : List Nat}
    (h : Enumerates (ledger.idle hostKey) releases) :
    ledger.listed hostKey = releases.map ledger.released := by
  rw [listed, ← h.eq_sort]

theorem listed_put {ledger : Ledger} (known : ledger.Known) (hostKey : Bytes)
    (conn : PooledConnection) :
    (ledger.put hostKey conn).listed =
      Function.update ledger.listed hostKey (ledger.listed hostKey ++ [conn]) := by
  have hold : ∀ releases : List Nat, (∀ n ∈ releases, n < ledger.count) →
      releases.map (ledger.put hostKey conn).released = releases.map ledger.released :=
    fun releases hbefore => List.map_congr_left fun n hn =>
      Function.update_of_ne (hbefore n hn).ne _ _
  have hsort : ∀ other, ∀ n ∈ (ledger.idle other).sort, n < ledger.count := fun other n hn =>
    known other n ((Finset.mem_sort _).mp hn)
  funext other
  by_cases hother : other = hostKey
  · rw [hother, Function.update_self]
    have hidle : (ledger.put hostKey conn).idle hostKey =
        insert ledger.count (ledger.idle hostKey) := Function.update_self _ _ _
    have hlist : Enumerates ((ledger.put hostKey conn).idle hostKey)
        ((ledger.idle hostKey).sort ++ [ledger.count]) := by
      rw [hidle]
      exact (enumerates_sort _).push (known hostKey)
    rw [listed_eq hlist, List.map_append, hold _ (hsort hostKey)]
    exact congrArg (_ ++ [·]) (Function.update_self _ _ _)
  · have hidle : (ledger.put hostKey conn).idle other = ledger.idle other :=
      Function.update_of_ne hother _ _
    rw [Function.update_of_ne hother, listed, hidle, hold _ (hsort other)]
    rfl

theorem listed_keep (ledger : Ledger) (hostKey : Bytes) {kept : Finset Nat} {releases : List Nat}
    (h : Enumerates kept releases) :
    (ledger.keep hostKey kept).listed =
      Function.update ledger.listed hostKey (releases.map ledger.released) := by
  funext other
  by_cases hother : other = hostKey
  · have hidle : (ledger.keep hostKey kept).idle hostKey = kept := Function.update_self _ _ _
    rw [hother, Function.update_self, listed_eq (hidle ▸ h)]
    rfl
  · have hidle : (ledger.keep hostKey kept).idle other = ledger.idle other :=
      Function.update_of_ne hother _ _
    rw [Function.update_of_ne hother, listed, hidle]
    rfl

end Ledger

/-- The number of nanoseconds is in 64 bits, or less than those hold and negative in them. -/
def Convertible (idleTimeout : Int) : Prop :=
  idleTimeout ≤ 9223372036 ∧ (-9223372036 ≤ idleTimeout ∨ nanoseconds idleTimeout < 0)

instance (idleTimeout : Int) : Decidable (Convertible idleTimeout) :=
  inferInstanceAs (Decidable (_ ∧ _))

theorem nanoseconds_eq {idleTimeout : Int} (least : -9223372036 ≤ idleTimeout)
    (most : idleTimeout ≤ 9223372036) : nanoseconds idleTimeout = idleTimeout * 10 ^ 9 :=
  Int.bmod_eq_of_le (by omega) (by omega)

theorem convertible_iff (idleTimeout : Int) :
    (∀ age : Nat, nanoseconds idleTimeout < age ↔ idleTimeout * 10 ^ 9 < age) ↔
      Convertible idleTimeout := by
  constructor
  · intro h
    have hrange : -2 ^ 63 ≤ nanoseconds idleTimeout ∧ nanoseconds idleTimeout < 2 ^ 63 :=
      ⟨Int.le_bmod (by decide), Int.bmod_lt (by decide)⟩
    constructor
    · by_contra hlarge
      -- the least age above what the product wraps to
      have hage := (h (nanoseconds idleTimeout + 1).toNat).mp (by omega)
      have heven : nanoseconds idleTimeout % 2 = 0 := by
        unfold nanoseconds
        omega
      omega
    · by_contra hsmall
      obtain ⟨hbelow, hwrapped⟩ := not_or.mp hsmall
      have hnone := (h 0).mpr (by omega)
      omega
  · rintro ⟨hmost, hleast⟩ age
    by_cases hbelow : -9223372036 ≤ idleTimeout
    · rw [nanoseconds_eq hbelow hmost]
    · have hnegative := hleast.resolve_left hbelow
      exact iff_of_true (by omega) (by omega)

structure Simulated (maxIdlePerHost : Nat) (idleTimeout : Int) (now : Nat) (s : PoolState)
    (ledger : Ledger) : Prop where
  limit : s.pool.maxIdlePerHost = maxIdlePerHost
  timeout : s.pool.idleTimeout = idleTimeout
  idle : s.pool.idleByHost = ledger.listed
  known : ledger.Known
  once : s.hosts.Nodup
  keys : ∀ hostKey, (ledger.idle hostKey).Nonempty → hostKey ∈ s.hosts
  recent : Recent s.pool now

theorem simulated_new (maxIdlePerHost : Nat) (idleTimeout : Int) (now : Nat) :
    Simulated maxIdlePerHost idleTimeout now (PoolState.new maxIdlePerHost idleTimeout)
      Ledger.empty where
  limit := rfl
  timeout := rfl
  idle := by
    funext hostKey
    exact (congrArg (List.map _) (Finset.sort_empty _)).symm
  known := by simp [Ledger.Known, Ledger.empty]
  once := List.nodup_nil
  keys := by simp [Ledger.empty]
  recent := ⟨fun _ => .nil, by simp [PoolState.new]⟩

section Step

variable {maxIdlePerHost now : Nat} {idleTimeout : Int} {s : PoolState} {ledger : Ledger}

theorem Simulated.idle_eq (h : Simulated maxIdlePerHost idleTimeout now s ledger)
    (hostKey : Bytes) :
    s.pool.idleByHost hostKey = (ledger.idle hostKey).sort.map ledger.released := by
  rw [h.idle]
  rfl

theorem Simulated.length (h : Simulated maxIdlePerHost idleTimeout now s ledger)
    (hostKey : Bytes) : (s.pool.idleByHost hostKey).length = (ledger.idle hostKey).card := by
  rw [h.idle_eq, List.length_map, Finset.length_sort]

theorem Simulated.shrink (h : Simulated maxIdlePerHost idleTimeout now s ledger) {effect : Effect}
    {ledger' : Ledger} (count : ledger'.count = ledger.count)
    (sub : ∀ hostKey, ledger'.idle hostKey ⊆ ledger.idle hostKey)
    (limit : effect.pool.maxIdlePerHost = s.pool.maxIdlePerHost)
    (timeout : effect.pool.idleTimeout = s.pool.idleTimeout)
    (idle : effect.pool.idleByHost = ledger'.listed) (recent : Recent effect.pool now) :
    Simulated maxIdlePerHost idleTimeout now (s.after effect).1 ledger' where
  limit := limit.trans h.limit
  timeout := timeout.trans h.timeout
  idle := idle
  known hostKey n hn := count ▸ h.known hostKey n (sub hostKey hn)
  once := h.once
  keys hostKey hidle := h.keys hostKey (hidle.mono (sub hostKey))
  recent := recent

theorem keep_subset {hostKey : Bytes} {kept : Finset Nat} (sub : kept ⊆ ledger.idle hostKey)
    (other : Bytes) : (ledger.keep hostKey kept).idle other ⊆ ledger.idle other := by
  by_cases hother : other = hostKey
  · rw [hother]
    exact (Function.update_self hostKey kept ledger.idle).subset.trans sub
  · exact (Function.update_of_ne hother kept ledger.idle).subset

theorem Simulated.lease (h : Simulated maxIdlePerHost idleTimeout now s ledger)
    (hostKey : Bytes) (isHealthy : Nat → Bool) :
    ∃ s' outcome ledger', s.take ⟨now, .lease hostKey isHealthy⟩ = some (s', outcome) ∧
      ledger.Takes maxIdlePerHost idleTimeout (⟨now, .lease hostKey isHealthy⟩, outcome) ledger' ∧
      Simulated maxIdlePerHost idleTimeout now s' ledger' := by
  have hrecent := h.recent.lease isHealthy hostKey
  have hsort := enumerates_sort (ledger.idle hostKey)
  obtain ⟨kept, candidate, later, hidle, hhealthy, hlater, heffect⟩ | ⟨hall, heffect⟩ :=
    lease_cases s.pool isHealthy hostKey
  · -- the enumeration is cut where the vector is
    rw [h.idle_eq, List.map_eq_append_iff] at hidle
    obtain ⟨before, behind, hcut, rfl, hbehind⟩ := hidle
    obtain ⟨latest, after, rfl, rfl, rfl⟩ := List.map_eq_cons_iff.mp hbehind
    rw [hcut] at hsort
    obtain ⟨hmem, hless, hgreater⟩ := hsort.split
    have hgreatest : IsGreatest {n | n ∈ ledger.idle hostKey ∧ isHealthy (ledger.fd n) = true}
        latest := by
      refine ⟨⟨hmem, hhealthy⟩, fun n hn => le_of_not_gt fun hlt => ?_⟩
      have hsick := hlater (ledger.released n) (List.mem_map_of_mem
        ((hgreater.mem_iff n).mpr (Finset.mem_filter.mpr ⟨hn.1, hlt⟩)))
      exact Bool.false_ne_true (hsick.symm.trans hn.2)
    have hclosed : (after.map ledger.released).map PooledConnection.fd =
        ledger.fds {n ∈ ledger.idle hostKey | latest < n} := by
      rw [Ledger.fds, ← hgreater.eq_sort, List.map_map]
      rfl
    refine ⟨_, _, ledger.keep hostKey {n ∈ ledger.idle hostKey | n < latest}, rfl, ?_,
      h.shrink rfl (keep_subset (Finset.filter_subset _ _)) ?_ ?_ ?_ hrecent⟩
    · rw [heffect, hclosed]
      exact .leased hgreatest
    · rw [heffect]
      rfl
    · rw [heffect]
      rfl
    · rw [heffect, ledger.listed_keep hostKey hless, ← h.idle]
      rfl
  · have hclosed : (s.pool.idleByHost hostKey).map PooledConnection.fd =
        ledger.fds (ledger.idle hostKey) := by
      rw [h.idle_eq, List.map_map]
      rfl
    refine ⟨_, _, ledger.keep hostKey ∅, rfl, ?_,
      h.shrink rfl (keep_subset (Finset.empty_subset _)) ?_ ?_ ?_ hrecent⟩
    · rw [heffect, hclosed]
      refine .unleased fun n hn => hall (ledger.released n) ?_
      rw [h.idle_eq]
      exact List.mem_map_of_mem ((Finset.mem_sort _).mpr hn)
    · rw [heffect]
      rfl
    · rw [heffect]
      rfl
    · rw [heffect, ledger.listed_keep hostKey enumerates_nil, ← h.idle]
      rfl

theorem keep_self (ledger : Ledger) (hostKey : Bytes) :
    ledger.keep hostKey (ledger.idle hostKey) = ledger := by
  rw [Ledger.keep, Function.update_eq_self]

theorem Simulated.push (h : Simulated maxIdlePerHost idleTimeout now s ledger) {hostKey : Bytes}
    {effect : Effect} {conn : PooledConnection} {kept : Finset Nat} {releases : List Nat}
    (sub : kept ⊆ ledger.idle hostKey) (list : Enumerates kept releases)
    (pool : effect.pool =
      s.pool.withIdle hostKey (releases.map ledger.released ++ [conn]))
    (recent : Recent effect.pool now) :
    Simulated maxIdlePerHost idleTimeout now
      (({ s with hosts := s.hosts.insert hostKey } : PoolState).after effect).1
      ((ledger.keep hostKey kept).put hostKey conn) := by
  have hknown : (ledger.keep hostKey kept).Known := fun other n hn =>
    h.known other n (keep_subset sub other hn)
  have hidle : ∀ other, ((ledger.keep hostKey kept).put hostKey conn).idle other ⊆
      insert ledger.count (ledger.idle other) := by
    intro other
    by_cases hother : other = hostKey
    · rw [hother]
      exact (Function.update_self _ _ _).subset.trans
        (Finset.insert_subset_insert _ (keep_subset sub hostKey))
    · exact (Function.update_of_ne hother _ _).subset.trans
        ((keep_subset sub other).trans (Finset.subset_insert _ _))
  refine ⟨?_, ?_, ?_, fun other n hn => ?_, h.once.insert, fun other hother => ?_, recent⟩
  · exact (congrArg ConnectionPool.maxIdlePerHost pool).trans h.limit
  · exact (congrArg ConnectionPool.idleTimeout pool).trans h.timeout
  · change effect.pool.idleByHost = _
    rw [pool, Ledger.listed_put hknown, ledger.listed_keep hostKey list, Function.update_self,
      Function.update_idem, ← h.idle]
    rfl
  · cases Finset.mem_insert.mp (hidle other hn) with
    | inl hnew => exact hnew.trans_lt (Nat.lt_succ_self _)
    | inr hold => exact (h.known other n hold).trans (Nat.lt_succ_self _)
  · change other ∈ s.hosts.insert hostKey
    rw [List.mem_insert_iff]
    by_cases hsame : other = hostKey
    · exact .inl hsame
    · have hkept : ((ledger.keep hostKey kept).put hostKey conn).idle other =
          (ledger.keep hostKey kept).idle other := Function.update_of_ne hsame _ _
      rw [hkept] at hother
      exact .inr (h.keys other (hother.mono (keep_subset sub other)))

theorem Simulated.release (h : Simulated maxIdlePerHost idleTimeout now s ledger)
    (positive : 1 ≤ maxIdlePerHost) (hostKey : Bytes) (fd : Int) :
    ∃ s' outcome ledger', s.take ⟨now, .release hostKey fd⟩ = some (s', outcome) ∧
      ledger.Takes maxIdlePerHost idleTimeout (⟨now, .release hostKey fd⟩, outcome) ledger' ∧
      Simulated maxIdlePerHost idleTimeout now s' ledger' := by
  cases fd with
  | negSucc n =>
      have hnegative : Int.negSucc n < 0 := Int.negSucc_lt_zero n
      exact ⟨s, ⟨[], none⟩, ledger, if_pos hnegative, .ignored hnegative, h⟩
  | ofNat fd =>
      obtain ⟨effect, heffect⟩ := release_defined (h.limit.symm ▸ positive) hostKey fd now
      have htake := take_release s (Int.natCast_nonneg fd) heffect
      have hrecent := h.recent.release heffect
      have hsort := enumerates_sort (ledger.idle hostKey)
      have hlength := h.length hostKey
      obtain ⟨hroom, hnew⟩ | ⟨oldest, rest, hidle, hfull, hnew⟩ := h.recent.release_cases heffect
      · rw [hlength, h.limit] at hroom
        have hpushed := h.push (Finset.Subset.refl _) hsort (by rw [hnew, h.idle_eq]) hrecent
        rw [keep_self] at hpushed
        refine ⟨_, _, _, htake, ?_, hpushed⟩
        rw [hnew]
        exact .released hroom
      · rw [hlength, h.limit] at hfull
        rw [h.idle_eq] at hidle
        obtain ⟨first, releases, hcut, rfl, rfl⟩ := List.map_eq_cons_iff.mp hidle
        rw [hcut] at hsort
        refine ⟨_, _, _, htake, ?_, h.push (Finset.erase_subset _ _) hsort.pop
          (by rw [hnew]) hrecent⟩
        rw [hnew]
        exact .evicted hfull hsort.least

theorem Simulated.sweep (h : Simulated maxIdlePerHost idleTimeout now s ledger)
    {gone : PooledConnection → Bool} {hosts : List Bytes} {effect : Effect}
    (swept : Swept s.pool gone hosts effect)
    (timeout : effect.pool.idleTimeout = s.pool.idleTimeout)
    (every : ∀ hostKey, (ledger.idle hostKey).Nonempty → hostKey ∈ hosts)
    {out : Bytes → Finset Nat}
    (taken : ∀ hostKey, out hostKey = {n ∈ ledger.idle hostKey | gone (ledger.released n) = true}) :
    effect.closed = hosts.flatMap (fun hostKey => ledger.fds (out hostKey)) ∧
      Simulated maxIdlePerHost idleTimeout now (s.after effect).1
        { ledger with idle := fun hostKey => ledger.idle hostKey \ out hostKey } := by
  have hsort := fun hostKey => enumerates_sort (ledger.idle hostKey)
  constructor
  · rw [swept.closed]
    refine congrArg (hosts.flatMap ·) (funext fun hostKey => ?_)
    have hlist := (hsort hostKey).filter fun n => gone (ledger.released n) = true
    rw [Ledger.fds, taken, ← hlist.eq_sort, h.idle_eq, List.filter_map, List.map_map]
    simp only [Bool.decide_eq_true]
    rfl
  · refine h.shrink rfl (fun hostKey => Finset.sdiff_subset) swept.same timeout ?_
      (h.recent.swept swept)
    funext hostKey
    have hlist := (hsort hostKey).filter fun n => ¬ gone (ledger.released n) = true
    rw [Finset.filter_not, ← taken] at hlist
    rw [Ledger.listed_eq hlist, swept.kept]
    split_ifs with hhost
    · rw [h.idle_eq, List.filter_map]
      simp only [Bool.not_eq_true, Bool.decide_eq_false]
      rfl
    · have hnone : ledger.idle hostKey = ∅ :=
        Finset.not_nonempty_iff_eq_empty.mp fun hidle => hhost (every hostKey hidle)
      rw [h.idle_eq, hnone, Finset.sort_empty]
      rfl

theorem Simulated.reapStale (h : Simulated maxIdlePerHost idleTimeout now s ledger)
    (convertible : Convertible idleTimeout) (order : HostOrder) :
    ∃ s' outcome ledger', s.take ⟨now, .reapStale order⟩ = some (s', outcome) ∧
      ledger.Takes maxIdlePerHost idleTimeout (⟨now, .reapStale order⟩, outcome) ledger' ∧
      Simulated maxIdlePerHost idleTimeout now s' ledger' := by
  have hperm := order.perm s.hosts
  have hevery : ∀ hostKey, (ledger.idle hostKey).Nonempty → hostKey ∈ order.visit s.hosts :=
    fun hostKey hidle => hperm.mem_iff.mpr (h.keys hostKey hidle)
  have htaken : ∀ hostKey, ledger.stale idleTimeout now hostKey =
      {n ∈ ledger.idle hostKey | s.pool.stale now (ledger.released n) = true} := by
    intro hostKey
    refine Finset.filter_congr fun n hn => ?_
    have hpast : (ledger.released n).lastUsed ≤ now := by
      refine h.recent.past hostKey _ ?_
      rw [h.idle_eq]
      exact List.mem_map_of_mem ((Finset.mem_sort _).mpr hn)
    have hagree := (convertible_iff idleTimeout).mpr convertible
      (now - (ledger.released n).lastUsed)
    rw [Nat.cast_sub hpast] at hagree
    simp only [ConnectionPool.stale, h.timeout, decide_eq_true_eq, gt_iff_lt]
    exact hagree.symm
  obtain ⟨hclosed, hsimulated⟩ :=
    h.sweep (swept_reapStale s.pool (order.visit s.hosts) now) rfl hevery htaken
  refine ⟨_, _, _, rfl, ?_, hsimulated⟩
  rw [hclosed]
  exact .reaped (hperm.nodup_iff.mpr h.once) hevery

theorem Simulated.closeAll (h : Simulated maxIdlePerHost idleTimeout now s ledger)
    (order : HostOrder) :
    ∃ s' outcome ledger', s.take ⟨now, .closeAll order⟩ = some (s', outcome) ∧
      ledger.Takes maxIdlePerHost idleTimeout (⟨now, .closeAll order⟩, outcome) ledger' ∧
      Simulated maxIdlePerHost idleTimeout now s' ledger' := by
  have hperm := order.perm s.hosts
  have hevery : ∀ hostKey, (ledger.idle hostKey).Nonempty → hostKey ∈ order.visit s.hosts :=
    fun hostKey hidle => hperm.mem_iff.mpr (h.keys hostKey hidle)
  obtain ⟨hclosed, hsimulated⟩ := h.sweep (swept_closeAll s.pool (order.visit s.hosts)) rfl hevery
    fun hostKey => (Finset.filter_true (ledger.idle hostKey)).symm
  simp only [Finset.sdiff_self] at hsimulated
  refine ⟨_, _, _, rfl, ?_, hsimulated⟩
  rw [hclosed]
  exact .closedAll (hperm.nodup_iff.mpr h.once) hevery

theorem Simulated.take (h : Simulated maxIdlePerHost idleTimeout now s ledger)
    (convertible : Convertible idleTimeout) (positive : 1 ≤ maxIdlePerHost) {timed : TimedCall}
    (later : now ≤ timed.now) :
    ∃ s' outcome ledger', s.take timed = some (s', outcome) ∧
      ledger.Takes maxIdlePerHost idleTimeout (timed, outcome) ledger' ∧
      Simulated maxIdlePerHost idleTimeout timed.now s' ledger' := by
  have hnow : Simulated maxIdlePerHost idleTimeout timed.now s ledger :=
    { h with recent := h.recent.later later }
  obtain ⟨now', call⟩ := timed
  cases call with
  | release hostKey fd => exact hnow.release positive hostKey fd
  | lease hostKey isHealthy => exact hnow.lease hostKey isHealthy
  | reapStale order => exact hnow.reapStale convertible order
  | closeAll order => exact hnow.closeAll order

end Step

theorem Simulated.run {maxIdlePerHost now : Nat} {idleTimeout : Int} {s : PoolState}
    {ledger : Ledger} (convertible : Convertible idleTimeout)
    (h : Simulated maxIdlePerHost idleTimeout now s ledger) (positive : 1 ≤ maxIdlePerHost)
    {calls : List TimedCall} (clock : (now :: calls.map TimedCall.now).IsChain (· ≤ ·)) :
    ∃ s' outcomes ledger' now', s.run calls = some (s', outcomes) ∧
      outcomes.length = calls.length ∧
      Run (Ledger.Takes maxIdlePerHost idleTimeout) ledger (calls.zip outcomes) ledger' ∧
      Simulated maxIdlePerHost idleTimeout now' s' ledger' := by
  induction calls generalizing now s ledger with
  | nil => exact ⟨s, [], ledger, now, rfl, rfl, .nil, h⟩
  | cons timed rest ih =>
      obtain ⟨hlater, hrest⟩ := List.isChain_cons_cons.mp clock
      obtain ⟨middle, outcome, between, htake, htakes, hmiddle⟩ :=
        h.take convertible positive hlater
      obtain ⟨s', outcomes, ledger', now', hrun, hlength, htrace, hlast⟩ := ih hmiddle hrest
      refine ⟨s', outcome :: outcomes, ledger', now', ?_, congrArg (· + 1) hlength,
        run_append (.snoc .nil htakes) htrace, hlast⟩
      rw [PoolState.run, htake]
      change (middle.run rest).map _ = _
      rw [hrun]
      rfl

/-- What the pool is to do with every sequence of calls, by a clock that does not go back: it
keeps to the sets of releases, which each vector lists from the earliest. -/
def KeepsRecency (maxIdlePerHost : Nat) (idleTimeout : Int) : Prop :=
  ∀ calls : List TimedCall, (calls.map TimedCall.now).IsChain (· ≤ ·) → ∃ s outcomes ledger,
    (PoolState.new maxIdlePerHost idleTimeout).run calls = some (s, outcomes) ∧
    outcomes.length = calls.length ∧
    Run (Ledger.Takes maxIdlePerHost idleTimeout) Ledger.empty (calls.zip outcomes) ledger ∧
    ∀ hostKey, s.idle hostKey = (ledger.idle hostKey).sort.map ledger.released ∧
      (s.idle hostKey).Pairwise fun a b => a.lastUsed ≤ b.lastUsed

theorem keepsRecency_of_convertible {maxIdlePerHost : Nat} {idleTimeout : Int}
    (positive : 1 ≤ maxIdlePerHost) (convertible : Convertible idleTimeout) :
    KeepsRecency maxIdlePerHost idleTimeout := by
  intro calls clock
  have hclock : (0 :: calls.map TimedCall.now).IsChain (· ≤ ·) :=
    List.isChain_cons.mpr ⟨fun _ _ => Nat.zero_le _, clock⟩
  obtain ⟨s, outcomes, ledger, now, hrun, hlength, htrace, hlast⟩ :=
    (simulated_new maxIdlePerHost idleTimeout 0).run convertible positive hclock
  exact ⟨s, outcomes, ledger, hrun, hlength, htrace, fun hostKey =>
    ⟨hlast.idle_eq hostKey, hlast.recent.sorted hostKey⟩⟩

def sweptAt (age : Nat) : List TimedCall :=
  [⟨0, .release (ascii "10.0.0.1:80") 5⟩, ⟨age, .reapStale default⟩]

theorem closed_sweptAt {maxIdlePerHost age : Nat} {idleTimeout : Int} {s : PoolState}
    {outcomes : List Outcome} (positive : 1 ≤ maxIdlePerHost)
    (h : (PoolState.new maxIdlePerHost idleTimeout).run (sweptAt age) = some (s, outcomes)) :
    ∃ released reaped, outcomes = [released, reaped] ∧
      (5 ∈ reaped.closed ↔ nanoseconds idleTimeout < age) := by
  have hroom : ¬ 0 ≥ maxIdlePerHost := by omega
  have hrelease : (PoolState.new maxIdlePerHost idleTimeout).pool.release (ascii "10.0.0.1:80")
      (5 : Int).toNat 0 = some ⟨ConnectionPool.withIdle _ _ [⟨5, 0⟩], [], none⟩ := if_neg hroom
  have htake := take_release _ (by decide : (0 : Int) ≤ 5) hrelease
  rw [sweptAt, PoolState.run, htake] at h
  cases h
  refine ⟨_, _, rfl, ?_⟩
  change 5 ∈ (ConnectionPool.reapStale _ [ascii "10.0.0.1:80"] age).closed ↔ _
  rw [(swept_reapStale _ _ age).closed, List.flatMap_singleton, idleByHost_withIdle, if_pos rfl]
  simp only [List.mem_map, List.mem_filter, List.mem_singleton, ConnectionPool.stale,
    decide_eq_true_eq]
  constructor
  · rintro ⟨conn, ⟨rfl, hstale⟩, -⟩
    exact Int.sub_zero (age : Int) ▸ hstale
  · intro hless
    exact ⟨⟨5, 0⟩, ⟨rfl, (Int.sub_zero (age : Int)).symm ▸ hless⟩, rfl⟩

theorem agrees_of_keepsRecency {maxIdlePerHost : Nat} {idleTimeout : Int}
    (positive : 1 ≤ maxIdlePerHost) (keeps : KeepsRecency maxIdlePerHost idleTimeout) (age : Nat) :
    nanoseconds idleTimeout < age ↔ idleTimeout * 10 ^ 9 < age := by
  obtain ⟨s, outcomes, ledger, hrun, -, htrace, -⟩ := keeps (sweptAt age)
    (List.isChain_cons_cons.mpr ⟨Nat.zero_le age, List.isChain_singleton age⟩)
  obtain ⟨released, reaped, rfl, hclosed⟩ := closed_sweptAt positive hrun
  have hsteps : Run (Ledger.Takes maxIdlePerHost idleTimeout) Ledger.empty
    ([(⟨0, .release (ascii "10.0.0.1:80") 5⟩, released)] ++ [(⟨age, .reapStale default⟩, reaped)])
    ledger := htrace
  obtain ⟨between, hbefore, hreap⟩ := hsteps.last
  obtain ⟨start, hstart, hput⟩ := @Run.last _ _ _ _ _ [] _ hbefore
  rw [hstart.eq_start] at hput
  rw [← hclosed, hreap.of_reapStale, hput.of_release (by decide) positive]
  have hidle : ∀ hostKey n, n ∈ (Ledger.empty.put (ascii "10.0.0.1:80") ⟨5, 0⟩).idle hostKey ↔
      hostKey = ascii "10.0.0.1:80" ∧ n = 0 := by
    intro hostKey n
    by_cases hhost : hostKey = ascii "10.0.0.1:80"
    · simp [Ledger.put, Ledger.empty, hhost]
    · simp [Ledger.put, Ledger.empty, hhost]
  constructor
  · rintro ⟨hostKey, n, hn, -⟩
    obtain ⟨hmem, hstale⟩ := Finset.mem_filter.mp hn
    obtain ⟨rfl, rfl⟩ := (hidle hostKey n).mp hmem
    exact Int.sub_zero (age : Int) ▸ hstale
  · intro hless
    refine ⟨ascii "10.0.0.1:80", 0, Finset.mem_filter.mpr ⟨(hidle _ 0).mpr ⟨rfl, rfl⟩, ?_⟩, rfl⟩
    exact (Int.sub_zero (age : Int)).symm ▸ hless

/-- With room for one connection or more the pool keeps to the sets of releases exactly when
the timeout can be compared with the clock. -/
theorem pool_recency_iff {maxIdlePerHost : Nat} (positive : 1 ≤ maxIdlePerHost)
    (idleTimeout : Int) : KeepsRecency maxIdlePerHost idleTimeout ↔ Convertible idleTimeout :=
  ⟨fun keeps => (convertible_iff idleTimeout).mp (agrees_of_keepsRecency positive keeps),
    keepsRecency_of_convertible positive⟩

theorem pool_recency_tie :
    ∃ s outcomes ledger,
      (PoolState.new 2 60).run [⟨0, .release (ascii "a") 5⟩, ⟨0, .release (ascii "a") 6⟩,
        ⟨1, .release (ascii "a") 7⟩, ⟨1, .lease (ascii "a") fun fd => fd != 7⟩] =
          some (s, outcomes) ∧
      outcomes.map (fun outcome => (outcome.closed, outcome.leased)) =
        [([], none), ([], none), ([5], none), ([7], some 6)] ∧
      ∀ hostKey, s.idle hostKey = (Ledger.idle ledger hostKey).sort.map ledger.released := by
  have hkeeps : KeepsRecency 2 60 := (pool_recency_iff (by decide) 60).mpr (by decide)
  obtain ⟨s, outcomes, ledger, hrun, -, -, hidle⟩ := hkeeps
    [⟨0, .release (ascii "a") 5⟩, ⟨0, .release (ascii "a") 6⟩, ⟨1, .release (ascii "a") 7⟩,
      ⟨1, .lease (ascii "a") fun fd => fd != 7⟩] (by decide)
  refine ⟨s, outcomes, ledger, hrun, ?_, fun hostKey => (hidle hostKey).1⟩
  cases hrun
  rfl

theorem fresh_connection_reaped :
    ((PoolState.new 16 9223372037).run (sweptAt 1)).map
        (fun result => result.2.map Outcome.closed) = some [[], [5]] ∧
      ¬ ∀ maxIdlePerHost idleTimeout, 1 ≤ maxIdlePerHost →
        KeepsRecency maxIdlePerHost idleTimeout := by
  refine ⟨by decide, fun h => ?_⟩
  have hage := agrees_of_keepsRecency (by decide) (h 16 9223372037 (by decide)) 1
  exact absurd (hage.mp (by decide)) (by decide)

end ApiGateway.PoolRecency
