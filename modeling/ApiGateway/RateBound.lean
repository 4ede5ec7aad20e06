import ApiGateway.RateLimiting

/-! How much a run of calls can admit. Moving the timestamp by the rounded-down
nanoseconds gives credit for time that has not passed; the total stays within
the rate exactly when that division never rounds. -/

namespace ApiGateway.RateBound
open RateLimiting

def run (limiter : RateLimiter) : List (UInt64 × Int64) → RateLimiter × Nat
  | [] => (limiter, 0)
  | (cost, reading) :: calls =>
      let result := limiter.tryAcquire cost reading
      let rest := run result.1 calls
      (rest.1, (if result.2 then cost.toNat else 0) + rest.2)

/-- The clock never goes back between construction, the calls and `finish`. -/
def Ordered (start : Int64) (calls : List (UInt64 × Int64)) (finish : Int64) : Prop :=
  (start :: (calls.map Prod.snd ++ [finish])).IsChain (· ≤ ·)

theorem ordered_nil {start finish : Int64} : Ordered start [] finish ↔ start ≤ finish := by
  simp [Ordered]

theorem ordered_cons {start finish reading : Int64} {cost : UInt64}
    {calls : List (UInt64 × Int64)} :
    Ordered start ((cost, reading) :: calls) finish ↔
      start ≤ reading ∧ Ordered reading calls finish := by
  simp [Ordered]

theorem ordered_le {start finish : Int64} {calls : List (UInt64 × Int64)}
    (order : Ordered start calls finish) : start ≤ finish := by
  induction calls generalizing start with
  | nil => exact ordered_nil.mp order
  | cons call calls ih =>
      obtain ⟨hstart, hrest⟩ := ordered_cons.mp order
      exact Int64.le_trans hstart (ih hrest)

/-- No run admits more than the capacity and the rate times the elapsed time. -/
def WithinRate (capacity rate : UInt64) : Prop :=
  ∀ (start finish : Int64) (calls : List (UInt64 × Int64)), Ordered start calls finish →
    ((run (.construct capacity rate start) calls).2 : ℚ) ≤
      capacity.toNat + rate.toNat * (finish.toInt - start.toInt : ℤ) / 10 ^ 9

/-- Tokens and admitted cost are covered by the time up to the stored timestamp. -/
structure Covered (capacity rate : UInt64) (start now : Int64) (limiter : RateLimiter)
    (admitted : Nat) : Prop where
  capacity_eq : limiter.capacity = capacity
  rate_eq : limiter.refillRatePerSecond = rate
  started : start.toInt ≤ limiter.lastRefillTimeNs.toInt
  passed : limiter.lastRefillTimeNs.toInt ≤ now.toInt
  paid : (limiter.tokens.toNat + admitted : ℤ) * 10 ^ 9 ≤
    capacity.toNat * 10 ^ 9 + rate.toNat * (limiter.lastRefillTimeNs.toInt - start.toInt)

theorem covered_construct (capacity rate : UInt64) (start : Int64) :
    Covered capacity rate start start (.construct capacity rate start) 0 where
  capacity_eq := rfl
  rate_eq := rfl
  started := le_rfl
  passed := le_rfl
  paid := by simp [RateLimiter.construct]

theorem Covered.later {capacity rate : UInt64} {start now reading : Int64}
    {limiter : RateLimiter} {admitted : Nat}
    (inv : Covered capacity rate start now limiter admitted) (later : now ≤ reading) :
    Covered capacity rate start reading limiter admitted :=
  { inv with passed := inv.passed.trans (Int64.le_iff_toInt_le.mp later) }

theorem covered_refill {capacity rate : UInt64} {start reading : Int64}
    {limiter : RateLimiter} {admitted : Nat}
    (exact : rate = 0 ∨ rate.toNat ∣ 10 ^ 9)
    (inv : Covered capacity rate start reading limiter admitted) :
    Covered capacity rate start reading (limiter.refill reading) admitted := by
  obtain hsame | ⟨hrate, newTimestamp, tokensToAdd, hattempt, hrefill⟩ :=
    refill_cases limiter reading
  · rw [hsame]
    exact inv
  · rw [inv.rate_eq] at hrate hattempt
    have hpassed := inv.passed
    obtain ⟨d, hd, hreading, hpos, hwon, hts⟩ := refillAttempt_some (by omega) hattempt
    have hcredit := (creditedTokens_le limiter.capacity limiter.tokens tokensToAdd).2
    have hconsumed : consumedNs rate.toNat tokensToAdd.toNat ≤ d := by
      rw [hwon]
      exact consumedNs_le rate.toNat d
    -- the division by the rate is exact, so the tokens are paid by the span
    have hspan : rate.toNat * consumedNs rate.toNat tokensToAdd.toNat =
        tokensToAdd.toNat * 10 ^ 9 :=
      Nat.mul_div_cancel' ((exact.resolve_left hrate).mul_left _)
    have hstarted := inv.started
    have hpaid := inv.paid
    rw [hrefill]
    refine ⟨inv.capacity_eq, inv.rate_eq, ?_, ?_, ?_⟩
    · change start.toInt ≤ newTimestamp.toInt
      omega
    · change newTimestamp.toInt ≤ reading.toInt
      omega
    · simp only [hts]
      zify at hspan hcredit
      linarith

theorem covered_tryAcquire {capacity rate : UInt64} {start reading : Int64}
    {limiter : RateLimiter} {admitted : Nat} (cost : UInt64)
    (exact : rate = 0 ∨ rate.toNat ∣ 10 ^ 9)
    (inv : Covered capacity rate start reading limiter admitted) :
    Covered capacity rate start reading (limiter.tryAcquire cost reading).1
      (admitted + if (limiter.tryAcquire cost reading).2 then cost.toNat else 0) := by
  have hrefill := covered_refill exact inv
  obtain ⟨rfl, heq⟩ | ⟨-, heq⟩ | ⟨-, hle, heq⟩ := tryAcquire_cases limiter cost reading
  · rw [heq]
    exact inv
  · rw [heq]
    exact hrefill
  · rw [heq]
    have hsub := UInt64.toNat_sub_of_le _ _ hle
    rw [UInt64.le_iff_toNat_le] at hle
    have hpaid := hrefill.paid
    refine { hrefill with paid := ?_ }
    simp only [hsub, if_true]
    push_cast [Nat.cast_sub hle]
    linarith

theorem covered_run {capacity rate : UInt64} {start : Int64}
    (exact : rate = 0 ∨ rate.toNat ∣ 10 ^ 9) (calls : List (UInt64 × Int64))
    {now finish : Int64} {limiter : RateLimiter} {admitted : Nat}
    (inv : Covered capacity rate start now limiter admitted) (order : Ordered now calls finish) :
    Covered capacity rate start finish (run limiter calls).1
      (admitted + (run limiter calls).2) := by
  induction calls generalizing now limiter admitted with
  | nil =>
      exact inv.later (ordered_nil.mp order)
  | cons call calls ih =>
      obtain ⟨cost, reading⟩ := call
      obtain ⟨hnow, hrest⟩ := ordered_cons.mp order
      have hstep := ih (covered_tryAcquire cost exact (inv.later hnow)) hrest
      rw [run, ← Nat.add_assoc]
      exact hstep

theorem withinRate_of_exact {capacity rate : UInt64}
    (exact : rate = 0 ∨ rate.toNat ∣ 10 ^ 9) : WithinRate capacity rate := by
  intro start finish calls order
  have inv := covered_run exact calls (covered_construct capacity rate start) order
  have hpaid := inv.paid
  have hspan : (rate.toNat : ℤ) *
      ((run (.construct capacity rate start) calls).1.lastRefillTimeNs.toInt - start.toInt) ≤
        rate.toNat * (finish.toInt - start.toInt) :=
    mul_le_mul_of_nonneg_left (by linarith [inv.passed]) (by positivity)
  have htokens : (0 : ℤ) ≤ (run (.construct capacity rate start) calls).1.tokens.toNat :=
    Int.natCast_nonneg _
  rw [Nat.zero_add] at hpaid
  have hint : ((run (.construct capacity rate start) calls).2 : ℤ) * 10 ^ 9 ≤
      capacity.toNat * 10 ^ 9 + rate.toNat * (finish.toInt - start.toInt) := by linarith
  have hrat : ((run (.construct capacity rate start) calls).2 : ℚ) * 10 ^ 9 ≤
      capacity.toNat * 10 ^ 9 + rate.toNat * (finish.toInt - start.toInt : ℤ) := by
    exact_mod_cast hint
  rw [← mul_le_mul_iff_left₀ (by norm_num : (0 : ℚ) < 10 ^ 9), add_mul,
    div_mul_cancel₀ _ (by norm_num)]
  exact hrat

theorem run_empty (calls : List (UInt64 × Int64)) (rate : UInt64) (last : Int64) :
    (run ⟨0, rate, 0, last⟩ calls).2 = 0 := by
  induction calls generalizing last with
  | nil => rfl
  | cons call calls ih =>
      obtain ⟨cost, reading⟩ := call
      have hempty : ∃ last', (RateLimiter.mk 0 rate 0 last).refill reading =
          ⟨0, rate, 0, last'⟩ := by
        obtain hsame | ⟨-, ts, won, -, hrefill⟩ := refill_cases ⟨0, rate, 0, last⟩ reading
        · exact ⟨last, hsame⟩
        · have hzero : creditedTokens 0 0 won = 0 := by
            have hle := (creditedTokens_le 0 0 won).1
            exact UInt64.toNat_inj.mp (by simpa using hle)
          exact ⟨ts, by rw [hrefill, hzero]⟩
      obtain ⟨last', hlast⟩ := hempty
      rw [run]
      obtain ⟨rfl, heq⟩ | ⟨-, heq⟩ | ⟨hne, hle, heq⟩ :=
        tryAcquire_cases ⟨0, rate, 0, last⟩ cost reading
      · simpa [heq] using ih last
      · simpa [heq, hlast] using ih last'
      · rw [hlast] at hle
        exact absurd (UInt64.le_zero_iff.mp hle) hne

theorem withinRate_of_capacity_zero (rate : UInt64) : WithinRate 0 rate := by
  intro start finish calls order
  have hle := Int64.le_iff_toInt_le.mp (ordered_le order)
  rw [RateLimiter.construct, run_empty]
  have : (0 : ℤ) ≤ finish.toInt - start.toInt := by omega
  positivity

def polls (cost : UInt64) (elapsed consumed : Nat) : (last count : Nat) → List (UInt64 × Int64)
  | _, 0 => []
  | last, count + 1 =>
      (cost, Int64.ofNat (last + elapsed)) ::
        polls cost elapsed consumed (last + consumed) count

theorem toInt_ofNat {n : Nat} (h : n < 2 ^ 63) : (Int64.ofNat n).toInt = n :=
  Int64.toInt_ofNat_of_lt h

theorem ofNat_le_ofNat {a b : Nat} (h : a ≤ b) (hb : b < 2 ^ 63) :
    Int64.ofNat a ≤ Int64.ofNat b := by
  rw [Int64.le_iff_toInt_le, toInt_ofNat (by omega), toInt_ofNat hb]
  exact_mod_cast h

theorem ordered_polls (cost : UInt64) {elapsed consumed : Nat} (count : Nat) {start last : Nat}
    (hstart : start ≤ last + elapsed)
    (fits : last + count * consumed + elapsed < 2 ^ 63) :
    Ordered (Int64.ofNat start) (polls cost elapsed consumed last count)
      (Int64.ofNat (last + count * consumed + elapsed)) := by
  induction count generalizing start last with
  | zero =>
      rw [polls, ordered_nil]
      exact ofNat_le_ofNat (by omega) fits
  | succ count ih =>
      have hsum : last + (count + 1) * consumed = last + consumed + count * consumed := by ring
      rw [hsum] at fits ⊢
      rw [polls, ordered_cons]
      exact ⟨ofNat_le_ofNat hstart (by omega), ih (by omega) fits⟩

section Leak

variable {capacity rate : UInt64} {elapsed : Nat}

theorem tryAcquire_drained (hcap : capacity ≠ 0) (hrate : rate ≠ 0) {cost : UInt64} {last : Nat}
    (pos : 0 < elapsed) (hwon : 0 < wonTokens rate.toNat elapsed)
    (hcost : cost.toNat = min capacity.toNat (wonTokens rate.toNat elapsed))
    (fits : last + elapsed < 2 ^ 63) :
    (RateLimiter.mk capacity rate 0 (Int64.ofNat last)).tryAcquire cost
        (Int64.ofNat (last + elapsed)) =
      (⟨capacity, rate, 0, Int64.ofNat
        (last + consumedNs rate.toNat (wonTokens rate.toNat elapsed))⟩, true) := by
  have hle := consumedNs_le rate.toNat elapsed
  have hreading : (Int64.ofNat (last + elapsed)).toInt = (Int64.ofNat last).toInt + elapsed := by
    rw [toInt_ofNat fits, toInt_ofNat (by omega)]
    exact_mod_cast rfl
  obtain ⟨hzero, -⟩ | ⟨-, ts, won, hsome, hwon', hts⟩ :=
    refillAttempt_elapsed rate hreading pos (by omega)
  · omega
  · have hts' : ts = Int64.ofNat
        (last + consumedNs rate.toNat (wonTokens rate.toNat elapsed)) := by
      refine Int64.toInt_inj.mp ?_
      rw [hts, toInt_ofNat (by omega), toInt_ofNat (by omega)]
      exact_mod_cast rfl
    have hcredit : creditedTokens capacity 0 won = cost := by
      refine UInt64.toNat_inj.mp ?_
      rw [hcost, creditedTokens, UInt64.zero_add, ← hwon']
      split_ifs with h
      · rw [gt_iff_lt, UInt64.lt_iff_toNat_lt] at h
        omega
      · rw [gt_iff_lt, UInt64.lt_iff_toNat_lt] at h
        omega
    have hrefill : (RateLimiter.mk capacity rate 0 (Int64.ofNat last)).refill
        (Int64.ofNat (last + elapsed)) = ⟨capacity, rate, cost, ts⟩ := by
      simp only [RateLimiter.refill, if_neg hrate, hsome, hcredit]
    have hne : cost ≠ 0 := by
      rintro rfl
      have hpos : capacity.toNat ≠ 0 := fun h => hcap (UInt64.toNat_inj.mp h)
      simp only [UInt64.toNat_zero] at hcost
      omega
    rw [RateLimiter.tryAcquire, if_neg hne, hrefill]
    simp [hts']

theorem run_polls (hcap : capacity ≠ 0) (hrate : rate ≠ 0) {cost : UInt64} (count last : Nat)
    (pos : 0 < elapsed) (hwon : 0 < wonTokens rate.toNat elapsed)
    (hcost : cost.toNat = min capacity.toNat (wonTokens rate.toNat elapsed))
    (fits : last + count * consumedNs rate.toNat (wonTokens rate.toNat elapsed) + elapsed <
      2 ^ 63) :
    (run ⟨capacity, rate, 0, Int64.ofNat last⟩ (polls cost elapsed
      (consumedNs rate.toNat (wonTokens rate.toNat elapsed)) last count)).2 =
        count * cost.toNat := by
  induction count generalizing last with
  | zero => simp [polls, run]
  | succ count ih =>
      have hsum : last + (count + 1) * consumedNs rate.toNat (wonTokens rate.toNat elapsed) =
          last + consumedNs rate.toNat (wonTokens rate.toNat elapsed) +
            count * consumedNs rate.toNat (wonTokens rate.toNat elapsed) := by ring
      rw [hsum] at fits
      rw [polls, run, tryAcquire_drained hcap hrate pos hwon hcost (by omega)]
      simp only [if_true, ih _ fits]
      ring

theorem not_withinRate_of_leak (hcap : capacity ≠ 0) (hrate : rate ≠ 0) (pos : 0 < elapsed)
    (hwon : 0 < wonTokens rate.toNat elapsed)
    (leak : rate.toNat * consumedNs rate.toNat (wonTokens rate.toNat elapsed) <
      min capacity.toNat (wonTokens rate.toNat elapsed) * 10 ^ 9)
    (fits : (rate.toNat * elapsed + 1) * consumedNs rate.toNat (wonTokens rate.toNat elapsed) +
      elapsed < 2 ^ 63) : ¬ WithinRate capacity rate := by
  intro within
  obtain ⟨cost, hcost⟩ : ∃ cost : UInt64,
      cost.toNat = min capacity.toNat (wonTokens rate.toNat elapsed) :=
    ⟨UInt64.ofNat (min capacity.toNat (wonTokens rate.toNat elapsed)),
      UInt64.toNat_ofNat_of_lt' ((Nat.min_le_left _ _).trans_lt capacity.toNat_lt)⟩
  have hruns := run_polls hcap hrate (rate.toNat * elapsed + 1) 0 pos hwon hcost (by omega)
  set consumed := consumedNs rate.toNat (wonTokens rate.toNat elapsed) with hconsumed
  set count := rate.toNat * elapsed + 1 with hcount
  have hdrain : (RateLimiter.construct capacity rate (Int64.ofNat 0)).tryAcquire capacity
      (Int64.ofNat 0) = (⟨capacity, rate, 0, Int64.ofNat 0⟩, true) := by
    have hstale : refillAttempt rate (Int64.ofNat 0) (Int64.ofNat 0) = none :=
      refillAttempt_stale le_rfl (by simp)
    have hrefill : (RateLimiter.construct capacity rate (Int64.ofNat 0)).refill (Int64.ofNat 0) =
        ⟨capacity, rate, capacity, Int64.ofNat 0⟩ := by
      simp only [RateLimiter.refill, RateLimiter.construct, if_neg hrate, hstale]
    rw [RateLimiter.tryAcquire, if_neg hcap, hrefill]
    simp
  have bound := within (Int64.ofNat 0) (Int64.ofNat (0 + count * consumed + elapsed))
    ((capacity, Int64.ofNat 0) :: polls cost elapsed consumed 0 count)
    (ordered_cons.mpr ⟨Int64.le_refl _,
      ordered_polls cost count (by omega) (by omega)⟩)
  rw [run, hdrain] at bound
  simp only [if_true, hruns] at bound
  rw [toInt_ofNat (by omega), toInt_ofNat (by norm_num), ← sub_nonneg] at bound
  have hgain : rate.toNat * (count * consumed + elapsed) < count * cost.toNat * 10 ^ 9 := by
    calc rate.toNat * (count * consumed + elapsed)
        < count * (rate.toNat * consumed) + count := by
          rw [hcount]
          ring_nf
          omega
      _ = count * (rate.toNat * consumed + 1) := by ring
      _ ≤ count * (cost.toNat * 10 ^ 9) := Nat.mul_le_mul_left _ (by rw [hcost]; exact leak)
      _ = count * cost.toNat * 10 ^ 9 := by ring
  have hgain' : (rate.toNat : ℚ) * (count * consumed + elapsed) < count * cost.toNat * 10 ^ 9 := by
    exact_mod_cast hgain
  have hdiv : (rate.toNat : ℚ) * (count * consumed + elapsed) / 10 ^ 9 < count * cost.toNat := by
    rw [div_lt_iff₀ (by norm_num)]
    exact hgain'
  push_cast at bound
  simp only [sub_zero, zero_add] at bound
  linarith

end Leak

theorem slow_leak {rate : Nat} (pos : 0 < rate) (slow : rate < 10 ^ 9) (inexact : ¬ rate ∣ 10 ^ 9) :
    wonTokens rate (10 ^ 9 / rate + 1) = 1 ∧ rate * consumedNs rate 1 < 10 ^ 9 ∧
      (rate * (10 ^ 9 / rate + 1) + 1) * consumedNs rate 1 + (10 ^ 9 / rate + 1) < 2 ^ 63 := by
  have hdiv := Nat.div_add_mod (10 ^ 9) rate
  have hmod := Nat.mod_lt (10 ^ 9) pos
  have hne : 10 ^ 9 % rate ≠ 0 := fun h => inexact (Nat.dvd_of_mod_eq_zero h)
  have hquot : 10 ^ 9 / rate ≤ 10 ^ 9 := Nat.div_le_self _ _
  have hprod : (10 ^ 9 / rate + 1) * rate = rate * (10 ^ 9 / rate) + rate := by ring
  refine ⟨?_, ?_, ?_⟩
  · rw [wonTokens, Nat.mod_eq_of_lt (by omega)]
    exact Nat.div_eq_of_lt_le (by omega) (by omega)
  · rw [consumedNs, Nat.one_mul]
    omega
  · rw [consumedNs, Nat.one_mul, Nat.mul_comm rate, hprod]
    have hfactor : rate * (10 ^ 9 / rate) + rate + 1 ≤ 2 * 10 ^ 9 := by omega
    have := Nat.mul_le_mul hfactor hquot
    omega

theorem consumedNs_zero {rate elapsed x : Nat} (hx : elapsed * rate % 2 ^ 64 = x)
    (enough : 10 ^ 9 ≤ x) (few : x / 10 ^ 9 * 10 ^ 9 < rate) :
    0 < wonTokens rate elapsed ∧ consumedNs rate (wonTokens rate elapsed) = 0 := by
  have hwon : wonTokens rate elapsed = x / 10 ^ 9 := by rw [wonTokens, hx]
  rw [hwon]
  exact ⟨Nat.div_pos enough (by norm_num), Nat.div_eq_of_lt few⟩

theorem wrapped_leak {rate : Nat} (whole : 10 ^ 9 ∣ rate) (fast : 10 ^ 9 < rate)
    (small : rate < 2 ^ 64) : ∃ elapsed, 0 < elapsed ∧ elapsed < 2 ^ 63 ∧
      0 < wonTokens rate elapsed ∧ consumedNs rate (wonTokens rate elapsed) = 0 := by
  have hmod := Nat.mod_lt (2 ^ 64) (show 0 < rate by omega)
  have hne : 2 ^ 64 % rate ≠ 0 := by
    intro h
    have hfive : 5 ∣ 2 ^ 64 :=
      ((by norm_num : 5 ∣ 10 ^ 9).trans whole).trans (Nat.dvd_of_mod_eq_zero h)
    norm_num at hfive
  obtain ⟨first, excess, hproduct, hexcess, hfirst⟩ : ∃ first excess,
      (first + 1) * rate = 2 ^ 64 + excess ∧ excess + 2 ^ 64 % rate = rate ∧
        first ≤ 9223372036 := by
    refine ⟨2 ^ 64 / rate, rate - 2 ^ 64 % rate, ?_, by omega, ?_⟩
    · have hdiv := Nat.div_add_mod (2 ^ 64) rate
      rw [Nat.add_mul, Nat.mul_comm _ rate]
      omega
    · have htwo : 2 * 10 ^ 9 ≤ rate := by omega
      exact (Nat.div_le_div_left htwo (by norm_num)).trans (by norm_num)
  by_cases enough : 10 ^ 9 ≤ excess
  · refine ⟨first + 1, by omega, by omega, consumedNs_zero (x := excess) ?_ enough ?_⟩
    · rw [hproduct]
      omega
    · exact (Nat.div_mul_le_self _ _).trans_lt (by omega)
  · have heven : 2 ∣ excess := by
      have h2 : 2 ∣ rate := (by norm_num : 2 ∣ 10 ^ 9).trans whole
      have hrest : 2 ∣ 2 ^ 64 % rate := (Nat.dvd_mod_iff h2).mpr (by norm_num)
      rwa [← hexcess, Nat.dvd_add_left hrest] at h2
    obtain ⟨k, hlow, hhigh⟩ : ∃ k, 10 ^ 9 ≤ (k + 1) * excess ∧ k * excess < 10 ^ 9 := by
      refine ⟨(10 ^ 9 - 1) / excess, ?_, ?_⟩
      · have := Nat.lt_div_mul_add (a := 10 ^ 9 - 1) (show 0 < excess by omega)
        rw [Nat.add_mul]
        omega
      · have := Nat.div_mul_le_self (10 ^ 9 - 1) excess
        omega
    have hk : k * 2 ≤ k * excess := Nat.mul_le_mul_left k (by omega)
    have hsize : (k + 1) * (first + 1) ≤ 500000000 * 9223372037 :=
      Nat.mul_le_mul (by omega) (by omega)
    refine ⟨(k + 1) * (first + 1), Nat.mul_pos (Nat.succ_pos k) (Nat.succ_pos first), by omega,
      consumedNs_zero (x := (k + 1) * excess) ?_ hlow ?_⟩
    · rw [Nat.mul_assoc, hproduct, Nat.mul_add, Nat.mul_comm (k + 1) (2 ^ 64), Nat.mul_add_mod]
      rw [Nat.add_mul]
      omega
    · have hone : (k + 1) * excess / 10 ^ 9 = 1 := by
        rw [Nat.add_mul] at hlow ⊢
        exact Nat.div_eq_of_lt_le (by omega) (by omega)
      omega

theorem fast_leak {rate : Nat} (fast : 10 ^ 9 < rate) (small : rate < 2 ^ 64) :
    ∃ elapsed, 0 < elapsed ∧ elapsed < 2 ^ 63 ∧ 0 < wonTokens rate elapsed ∧
      consumedNs rate (wonTokens rate elapsed) = 0 := by
  by_cases whole : 10 ^ 9 ∣ rate
  · exact wrapped_leak whole fast small
  · refine ⟨1, by norm_num, by norm_num, consumedNs_zero (x := rate) ?_ fast.le ?_⟩
    · rw [Nat.one_mul, Nat.mod_eq_of_lt small]
    · exact lt_of_le_of_ne (Nat.div_mul_le_self _ _) fun h => whole ⟨rate / 10 ^ 9, by omega⟩

theorem not_withinRate {capacity rate : UInt64} (hcap : capacity ≠ 0) (hrate : rate ≠ 0)
    (inexact : ¬ rate.toNat ∣ 10 ^ 9) : ¬ WithinRate capacity rate := by
  have hcap' : capacity.toNat ≠ 0 := fun h => hcap (UInt64.toNat_inj.mp h)
  have hrate' : rate.toNat ≠ 0 := fun h => hrate (UInt64.toNat_inj.mp h)
  rcases lt_trichotomy rate.toNat (10 ^ 9) with slow | heq | fast
  · obtain ⟨hwon, hleak, hfits⟩ := slow_leak (by omega) slow inexact
    refine not_withinRate_of_leak hcap hrate (Nat.succ_pos (10 ^ 9 / rate.toNat))
      (hwon ▸ Nat.one_pos) ?_ ?_
    · rw [hwon]
      omega
    · rw [hwon]
      exact hfits
  · exact absurd (by rw [heq]) inexact
  · obtain ⟨elapsed, hpos, hlt, hwon, hzero⟩ := fast_leak fast rate.toNat_lt
    refine not_withinRate_of_leak hcap hrate hpos hwon ?_ ?_
    · rw [hzero]
      omega
    · rw [hzero]
      omega

/-- The bound holds of every run exactly for an empty bucket, for no refill, and
for rates whose token takes a whole number of nanoseconds. -/
theorem withinRate_iff (capacity rate : UInt64) :
    WithinRate capacity rate ↔ capacity = 0 ∨ rate = 0 ∨ rate.toNat ∣ 10 ^ 9 := by
  constructor
  · intro within
    by_contra hnone
    simp only [not_or] at hnone
    exact not_withinRate hnone.1 hnone.2.1 hnone.2.2 within
  · rintro (rfl | hexact)
    · exact withinRate_of_capacity_zero rate
    · exact withinRate_of_exact hexact

def thirds : List (UInt64 × Int64) :=
  [(1, 0), (1, 333333334), (1, 666666667), (1, 1000000000), (1, 1333333333)]

theorem thirds_exceed_rate :
    Ordered 0 thirds 1333333333 ∧ (run (.construct 1 3 0) thirds).2 = 5 ∧
    ¬ WithinRate 1 3 := by
  have order : Ordered 0 thirds 1333333333 := by
    unfold Ordered thirds
    decide
  have admitted : (run (.construct 1 3 0) thirds).2 = 5 := by decide
  refine ⟨order, admitted, fun within => ?_⟩
  have bound := within 0 1333333333 thirds order
  rw [admitted, show (1 : UInt64).toNat = 1 from rfl, show (3 : UInt64).toNat = 3 from rfl,
    show (1333333333 : Int64).toInt = 1333333333 from rfl, show (0 : Int64).toInt = 0 from rfl]
    at bound
  norm_num at bound

end ApiGateway.RateBound
