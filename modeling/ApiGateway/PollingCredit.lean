import ApiGateway.RateBound
import ApiGateway.RefillArithmetic

/-! Many refills against one. A pass moves the timestamp by no more time than its tokens
are worth, rounded down, so that what is left of a token stays for the passes after it. -/

namespace ApiGateway.PollingCredit
open RateLimiting RateBound RefillArithmetic

/-- Nothing that the pass computes wraps: the difference, and behind it, if the reading is
later than the timestamp, the products and sums. -/
structure ExactPass (limiter : RateLimiter) (reading : Int64) : Prop where
  difference : (reading - limiter.lastRefillTimeNs).toInt =
    reading.toInt - limiter.lastRefillTimeNs.toInt
  later : 0 < reading - limiter.lastRefillTimeNs → NoWrap limiter reading

def due (limiter : RateLimiter) (reading : Int64) : Nat :=
  (reading.toInt - limiter.lastRefillTimeNs.toInt).toNat * limiter.refillRatePerSecond.toNat /
    10 ^ 9

section Pass

variable {limiter : RateLimiter} {reading : Int64}

theorem exactPass_of_bounds {elapsed : Nat}
    (later : reading.toInt = limiter.lastRefillTimeNs.toInt + elapsed)
    (bounds : elapsed < 2 ^ 63 ∧ elapsed * limiter.refillRatePerSecond.toNat < 2 ^ 64 ∧
      limiter.tokens.toNat + elapsed * limiter.refillRatePerSecond.toNat / 10 ^ 9 < 2 ^ 64) :
    ExactPass limiter reading :=
  ⟨(sub_toInt_iff later).mpr bounds.1, fun _ => (noWrap_iff later).mpr bounds⟩

theorem refill_due (rate : limiter.refillRatePerSecond ≠ 0) (exact : ExactPass limiter reading) :
    (due limiter reading = 0 ∧ limiter.refill reading = limiter) ∨
      0 < due limiter reading ∧ ∃ newTokens newTimestamp,
        limiter.refill reading =
          { limiter with tokens := newTokens, lastRefillTimeNs := newTimestamp } ∧
        newTokens.toNat =
          min limiter.capacity.toNat (limiter.tokens.toNat + due limiter reading) ∧
        newTimestamp.toInt = limiter.lastRefillTimeNs.toInt +
          consumedNs limiter.refillRatePerSecond.toNat (due limiter reading) := by
  by_cases hlater : 0 < reading - limiter.lastRefillTimeNs
  · have hnoWrap := exact.later hlater
    have hpositive : 0 < reading.toInt - limiter.lastRefillTimeNs.toInt := by
      rw [← exact.difference]
      simpa [Int64.lt_iff_toInt_lt] using hlater
    obtain ⟨elapsed, helapsed⟩ := Int.eq_ofNat_of_zero_le hpositive.le
    have hreading : reading.toInt = limiter.lastRefillTimeNs.toInt + elapsed := by omega
    obtain ⟨hrange, hproduct, hsum⟩ := (noWrap_iff hreading).mp hnoWrap
    have hdue : due limiter reading = wonTokens limiter.refillRatePerSecond.toNat elapsed := by
      rw [due, helapsed, wonTokens_exact hproduct]
      rfl
    have hwon := wonTokens_exact hproduct
    rw [RateLimiter.refill, if_neg rate]
    obtain ⟨hzero, hnone⟩ | ⟨hpos, newTimestamp, tokensToAdd, hsome, hadd, htimestamp⟩ :=
      refillAttempt_elapsed limiter.refillRatePerSecond hreading (by omega) hrange
    · rw [hnone]
      exact .inl ⟨hdue.trans hzero, rfl⟩
    · rw [hsome]
      refine .inr ⟨hdue ▸ hpos, _, newTimestamp, rfl, ?_, by rw [hdue, htimestamp]⟩
      rw [creditedTokens_toNat, hadd, hdue, Nat.mod_eq_of_lt (by omega)]
  · have hstale : reading - limiter.lastRefillTimeNs ≤ 0 := Int64.not_lt.mp hlater
    have hearlier : reading.toInt - limiter.lastRefillTimeNs.toInt ≤ 0 := by
      rw [← exact.difference]
      simpa [Int64.le_iff_toInt_le] using hstale
    refine .inl ⟨?_, ?_⟩
    · rw [due, Int.toNat_of_nonpos hearlier, Nat.zero_mul, Nat.zero_div]
    · rw [RateLimiter.refill, if_neg rate, refillAttempt, if_pos hstale]

end Pass

/-- The tokens and what was admitted are worth `credited` tokens, which cover the time from
the first timestamp up to the one reached. -/
structure Kept (start : RateLimiter) (now : Int64) (limiter : RateLimiter)
    (admitted credited : Nat) : Prop where
  capacity_eq : limiter.capacity = start.capacity
  rate_eq : limiter.refillRatePerSecond = start.refillRatePerSecond
  covered : (limiter.lastRefillTimeNs.toInt - start.lastRefillTimeNs.toInt) *
    start.refillRatePerSecond.toNat ≤ credited * 10 ^ 9
  untouched : credited = 0 → limiter.lastRefillTimeNs = start.lastRefillTimeNs ∧
    start.tokens.toNat ≤ limiter.tokens.toNat + admitted
  earned : 0 < credited → 0 < due start now ∧
    min start.capacity.toNat (start.tokens.toNat + credited) ≤ limiter.tokens.toNat + admitted

theorem kept_start (start : RateLimiter) (now : Int64) : Kept start now start 0 0 where
  capacity_eq := rfl
  rate_eq := rfl
  covered := by simp
  untouched _ := ⟨rfl, le_rfl⟩
  earned h := absurd h (lt_irrefl 0)

theorem due_mono (limiter : RateLimiter) {reading reading' : Int64} (h : reading ≤ reading') :
    due limiter reading ≤ due limiter reading' := by
  rw [Int64.le_iff_toInt_le] at h
  exact Nat.div_le_div_right (Nat.mul_le_mul_right _ (Int.toNat_le_toNat (by omega)))

theorem whole_tokens_le {whole rest : ℤ} {rate credited : Nat}
    (h : (whole - rest) * rate ≤ credited * 10 ^ 9) :
    whole.toNat * rate / 10 ^ 9 ≤ credited + rest.toNat * rate / 10 ^ 9 := by
  have hfloor : rest.toNat * rate < (rest.toNat * rate / 10 ^ 9 + 1) * 10 ^ 9 :=
    Nat.lt_mul_of_div_lt (Nat.lt_succ_self _) (by norm_num)
  refine Nat.le_of_lt_succ (Nat.div_lt_of_lt_mul ?_)
  by_cases hnone : whole ≤ 0
  · rw [Int.toNat_of_nonpos hnone]
    omega
  · have hwhole : (whole.toNat : ℤ) = whole := Int.toNat_of_nonneg (by omega)
    have hrest : rest * rate ≤ rest.toNat * rate :=
      mul_le_mul_of_nonneg_right (Int.self_le_toNat rest) (Int.natCast_nonneg rate)
    have hsum : (whole.toNat * rate : ℤ) ≤ credited * 10 ^ 9 + rest.toNat * rate := by
      rw [hwhole]
      linarith
    have hnat : whole.toNat * rate ≤ credited * 10 ^ 9 + rest.toNat * rate := by exact_mod_cast hsum
    omega

section Kept

variable {start limiter : RateLimiter} {now reading : Int64} {admitted credited : Nat}

theorem Kept.due_le (h : Kept start now limiter admitted credited) :
    due start reading ≤ credited + due limiter reading := by
  rw [due, due, h.rate_eq]
  refine whole_tokens_le (le_of_eq_of_le ?_ h.covered)
  ring

theorem Kept.later (h : Kept start now limiter admitted credited) (order : now ≤ reading) :
    Kept start reading limiter admitted credited :=
  ⟨h.capacity_eq, h.rate_eq, h.covered, h.untouched, fun hpos =>
    ⟨(h.earned hpos).1.trans_le (due_mono start order), (h.earned hpos).2⟩⟩

theorem Kept.refill (h : Kept start now limiter admitted credited)
    (rate : start.refillRatePerSecond ≠ 0) (order : now ≤ reading)
    (exact : ExactPass limiter reading) :
    ∃ credited', Kept start reading (limiter.refill reading) admitted credited' ∧
      due start reading ≤ credited' := by
  have hdue : due start reading ≤ credited + due limiter reading := h.due_le
  obtain ⟨hzero, hsame⟩ | ⟨hpos, newTokens, newTimestamp, hsome, htokens, htimestamp⟩ :=
    refill_due (h.rate_eq ▸ rate) exact
  · rw [hsame]
    rw [hzero] at hdue
    exact ⟨credited, h.later order, hdue⟩
  · rw [hsome]
    refine ⟨credited + due limiter reading, ⟨h.capacity_eq, h.rate_eq, ?_, fun hnone => ?_,
      fun _ => ⟨?_, ?_⟩⟩, hdue⟩
    · -- the timestamp moves by less time than the tokens are worth
      have hback := Nat.div_mul_le_self (due limiter reading * 10 ^ 9)
        start.refillRatePerSecond.toNat
      have hconsumed : (consumedNs start.refillRatePerSecond.toNat (due limiter reading) *
          start.refillRatePerSecond.toNat : ℤ) ≤ due limiter reading * 10 ^ 9 := by
        exact_mod_cast hback
      have hcovered := h.covered
      change (newTimestamp.toInt - start.lastRefillTimeNs.toInt) * _ ≤ _
      rw [htimestamp, h.rate_eq]
      push_cast
      linarith
    · omega
    · by_cases hcredited : credited = 0
      · rw [due, (h.untouched hcredited).1, h.rate_eq] at hpos
        exact hpos
      · exact ((h.later order).earned (Nat.pos_of_ne_zero hcredited)).1
    · change _ ≤ newTokens.toNat + admitted
      rw [htokens, h.capacity_eq]
      by_cases hcredited : credited = 0
      · have huntouched := (h.untouched hcredited).2
        omega
      · have hpaid := (h.earned (Nat.pos_of_ne_zero hcredited)).2
        omega

theorem Kept.acquire (h : Kept start now limiter admitted credited) {cost : UInt64}
    (enough : cost ≤ limiter.tokens) :
    Kept start now { limiter with tokens := limiter.tokens - cost } (admitted + cost.toNat)
      credited := by
  have hsub : (limiter.tokens - cost).toNat + (admitted + cost.toNat) =
      limiter.tokens.toNat + admitted := by
    rw [UInt64.toNat_sub_of_le _ _ enough]
    rw [UInt64.le_iff_toNat_le] at enough
    omega
  exact ⟨h.capacity_eq, h.rate_eq, h.covered, fun hnone => ⟨(h.untouched hnone).1,
    (h.untouched hnone).2.trans_eq hsub.symm⟩, fun hpos => ⟨(h.earned hpos).1,
    (h.earned hpos).2.trans_eq hsub.symm⟩⟩

theorem Kept.once_le (h : Kept start reading limiter admitted credited)
    (rate : start.refillRatePerSecond ≠ 0) (enough : due start reading ≤ credited)
    (once : ExactPass start reading) :
    (start.refill reading).tokens.toNat ≤ limiter.tokens.toNat + admitted := by
  obtain ⟨hzero, hsame⟩ | ⟨hpos, newTokens, newTimestamp, hsome, htokens, -⟩ :=
    refill_due rate once
  · rw [hsame]
    by_cases hcredited : credited = 0
    · exact (h.untouched hcredited).2
    · have hdue := (h.earned (Nat.pos_of_ne_zero hcredited)).1
      omega
  · rw [hsome]
    change newTokens.toNat ≤ _
    have hpaid := (h.earned (hpos.trans_le enough)).2
    omega

end Kept

def ExactPolls (limiter : RateLimiter) : List Int64 → Prop
  | [] => True
  | reading :: readings =>
      ExactPass limiter reading ∧ ExactPolls (limiter.refill reading) readings

def ExactCalls (limiter : RateLimiter) : List (UInt64 × Int64) → Int64 → Prop
  | [], finish => ExactPass limiter finish
  | (cost, reading) :: calls, finish =>
      (cost ≠ 0 → ExactPass limiter reading) ∧
        ExactCalls (limiter.tryAcquire cost reading).1 calls finish

section Runs

variable {start : RateLimiter} (rate : start.refillRatePerSecond ≠ 0)

include rate in
theorem kept_polls {readings : List Int64} {finish now : Int64} {limiter : RateLimiter}
    {credited : Nat} (h : Kept start now limiter 0 credited)
    (order : (now :: (readings ++ [finish])).IsChain (· ≤ ·))
    (exact : ExactPolls limiter (readings ++ [finish])) :
    ∃ credited', Kept start finish ((readings ++ [finish]).foldl RateLimiter.refill limiter) 0
      credited' ∧ due start finish ≤ credited' := by
  induction readings generalizing now limiter credited with
  | nil =>
      rw [List.nil_append, List.isChain_pair] at order
      exact h.refill rate order exact.1
  | cons reading readings ih =>
      rw [List.cons_append, List.isChain_cons_cons] at order
      obtain ⟨credited', hrefilled, -⟩ := h.refill rate order.1 exact.1
      exact ih hrefilled order.2 exact.2

include rate in
theorem kept_calls {calls : List (UInt64 × Int64)} {finish now : Int64} {limiter : RateLimiter}
    {admitted credited : Nat} (h : Kept start now limiter admitted credited)
    (order : Ordered now calls finish) (exact : ExactCalls limiter calls finish) :
    ∃ credited', Kept start finish ((run limiter calls).1.refill finish)
      (admitted + (run limiter calls).2) credited' ∧ due start finish ≤ credited' := by
  induction calls generalizing now limiter admitted credited with
  | nil => exact h.refill rate (ordered_nil.mp order) exact
  | cons call calls ih =>
      obtain ⟨cost, reading⟩ := call
      obtain ⟨hreading, hcalls⟩ := ordered_cons.mp order
      change ∃ credited', Kept start finish
        ((run (limiter.tryAcquire cost reading).1 calls).1.refill finish)
        (admitted + ((if (limiter.tryAcquire cost reading).2 then cost.toNat else 0) +
          (run (limiter.tryAcquire cost reading).1 calls).2)) credited' ∧
        due start finish ≤ credited'
      obtain ⟨hpass, hexact⟩ := exact
      obtain ⟨hfree, hcall⟩ | ⟨hdenied, hcall⟩ | ⟨hcost, henough, hcall⟩ :=
        tryAcquire_cases limiter cost reading
      · rw [hcall] at hexact ⊢
        rw [if_pos rfl, hfree, ← add_assoc]
        exact ih (h.later hreading) hcalls hexact
      · have hcost : cost ≠ 0 := by
          rintro rfl
          exact UInt64.not_lt_zero hdenied
        obtain ⟨_, hrefilled, -⟩ := h.refill rate hreading (hpass hcost)
        rw [hcall] at hexact ⊢
        rw [if_neg Bool.false_ne_true, Nat.zero_add]
        exact ih hrefilled hcalls hexact
      · obtain ⟨_, hrefilled, -⟩ := h.refill rate hreading (hpass hcost)
        rw [hcall] at hexact ⊢
        rw [if_pos rfl, ← add_assoc]
        exact ih (hrefilled.acquire henough) hcalls hexact

end Runs

theorem exists_before {readings : List Int64} {finish : Int64}
    (order : (readings ++ [finish]).IsChain (· ≤ ·)) :
    ∃ first, (first :: (readings ++ [finish])).IsChain (· ≤ ·) := by
  cases readings with
  | nil => exact ⟨finish, by simp⟩
  | cons first readings => exact ⟨first, List.isChain_cons_cons.mpr ⟨Int64.le_refl _, order⟩⟩

/-- Refilling at every reading of a growing clock leaves at least the tokens of one refill at
the last; and so do calls of `tryAcquire`, with the tokens they were given. -/
theorem polling_keeps_tokens (limiter : RateLimiter) (finish : Int64)
    (rate : limiter.refillRatePerSecond ≠ 0) (once : ExactPass limiter finish) :
    (∀ readings : List Int64, (readings ++ [finish]).IsChain (· ≤ ·) →
        ExactPolls limiter (readings ++ [finish]) →
        (limiter.refill finish).tokens ≤
          ((readings ++ [finish]).foldl RateLimiter.refill limiter).tokens) ∧
      ∀ calls : List (UInt64 × Int64), (calls.map Prod.snd ++ [finish]).IsChain (· ≤ ·) →
        ExactCalls limiter calls finish →
        (limiter.refill finish).tokens.toNat ≤
          ((run limiter calls).1.refill finish).tokens.toNat + (run limiter calls).2 := by
  constructor
  · intro readings order exact
    obtain ⟨first, hfirst⟩ := exists_before order
    obtain ⟨_, hkept, henough⟩ := kept_polls rate (kept_start limiter first) hfirst exact
    exact UInt64.le_iff_toNat_le.mpr (hkept.once_le rate henough once)
  · intro calls order exact
    obtain ⟨first, hfirst⟩ := exists_before order
    obtain ⟨_, hkept, henough⟩ := kept_calls rate (kept_start limiter first) hfirst exact
    have hle := hkept.once_le rate henough once
    rwa [Nat.zero_add] at hle

theorem polling_keeps_tokens_poll :
    ((⟨10, 3, 0, 0⟩ : RateLimiter).refill 1000000000).tokens ≤
        ([400000000, 1000000000].foldl RateLimiter.refill (⟨10, 3, 0, 0⟩ : RateLimiter)).tokens ∧
      ((⟨10, 3, 0, 0⟩ : RateLimiter).refill 1000000000).tokens = 3 := by
  have honce : ExactPass ⟨10, 3, 0, 0⟩ 1000000000 :=
    @exactPass_of_bounds _ _ 1000000000 (by decide) (by decide)
  have hpoll : ExactPass ⟨10, 3, 0, 0⟩ 400000000 :=
    @exactPass_of_bounds _ _ 400000000 (by decide) (by decide)
  have hrefilled : (⟨10, 3, 0, 0⟩ : RateLimiter).refill 400000000 = ⟨10, 3, 1, 333333333⟩ := by
    decide
  have hlast : ExactPass ⟨10, 3, 1, 333333333⟩ 1000000000 :=
    @exactPass_of_bounds _ _ 666666667 (by decide) (by decide)
  refine ⟨(polling_keeps_tokens ⟨10, 3, 0, 0⟩ 1000000000 (by decide) honce).1 [400000000]
    (by decide) ⟨hpoll, ?_, trivial⟩, by decide⟩
  rw [hrefilled]
  exact hlast

end ApiGateway.PollingCredit
