import ApiGateway.RateLimiting

/-! When one refill is the exact one. The stored product, the credited sum and the
signed difference are the only places where the arithmetic of a pass can wrap. -/

namespace ApiGateway.RefillArithmetic
open RateLimiting

section Pass

variable (limiter : RateLimiter) (currentTime : Int64)

/-- The tokens of one pass as the source computes them. -/
def tokensToAdd : UInt64 :=
  (currentTime - limiter.lastRefillTimeNs).toUInt64 * limiter.refillRatePerSecond /
    kNanosPerSecond

def nsConsumed : UInt64 :=
  tokensToAdd limiter currentTime * kNanosPerSecond / limiter.refillRatePerSecond

/-- Every difference, product and sum that a pass computes is the exact one. -/
structure NoWrap : Prop where
  elapsedNs : (currentTime - limiter.lastRefillTimeNs).toInt =
    currentTime.toInt - limiter.lastRefillTimeNs.toInt
  product : ((currentTime - limiter.lastRefillTimeNs).toUInt64 *
      limiter.refillRatePerSecond).toNat =
    (currentTime - limiter.lastRefillTimeNs).toUInt64.toNat * limiter.refillRatePerSecond.toNat
  consumed : (tokensToAdd limiter currentTime * kNanosPerSecond).toNat =
    (tokensToAdd limiter currentTime).toNat * kNanosPerSecond.toNat
  newTimestamp : (limiter.lastRefillTimeNs + (nsConsumed limiter currentTime).toInt64).toInt =
    limiter.lastRefillTimeNs.toInt + (nsConsumed limiter currentTime).toNat
  newTokens : (limiter.tokens + tokensToAdd limiter currentTime).toNat =
    limiter.tokens.toNat + (tokensToAdd limiter currentTime).toNat

end Pass

theorem add_toNat_iff (a b : UInt64) :
    (a + b).toNat = a.toNat + b.toNat ↔ a.toNat + b.toNat < 2 ^ 64 := by
  rw [UInt64.toNat_add]
  omega

theorem mul_toNat_iff (a b : UInt64) :
    (a * b).toNat = a.toNat * b.toNat ↔ a.toNat * b.toNat < 2 ^ 64 := by
  rw [UInt64.toNat_mul]
  exact Nat.mod_eq_iff_lt (by norm_num)

variable {limiter : RateLimiter} {currentTime : Int64} {elapsed : Nat}

theorem sub_toInt_iff (later : currentTime.toInt = limiter.lastRefillTimeNs.toInt + elapsed) :
    (currentTime - limiter.lastRefillTimeNs).toInt =
      currentTime.toInt - limiter.lastRefillTimeNs.toInt ↔ elapsed < 2 ^ 63 := by
  have hhigh := currentTime.toInt_lt
  have hlow := limiter.lastRefillTimeNs.le_toInt
  constructor
  · intro h
    have hbound := (currentTime - limiter.lastRefillTimeNs).toInt_lt
    omega
  · intro h
    rw [toInt_sub_of_eq later h]
    omega

theorem tokensToAdd_toNat (later : currentTime.toInt = limiter.lastRefillTimeNs.toInt + elapsed)
    (inRange : elapsed < 2 ^ 63) : (tokensToAdd limiter currentTime).toNat =
      wonTokens limiter.refillRatePerSecond.toNat elapsed := by
  rw [tokensToAdd, UInt64.toNat_div, UInt64.toNat_mul,
    toNat_toUInt64_of_eq (toInt_sub_of_eq later inRange)]
  rfl

theorem refillAttempt_eq (later : 0 < currentTime - limiter.lastRefillTimeNs) :
    refillAttempt limiter.refillRatePerSecond currentTime limiter.lastRefillTimeNs =
      if tokensToAdd limiter currentTime = 0 then none
      else some (limiter.lastRefillTimeNs + (nsConsumed limiter currentTime).toInt64,
        tokensToAdd limiter currentTime) := by
  simp only [refillAttempt, if_neg (Int64.not_le.mpr later)]
  rfl

theorem refill_tokens (later : 0 < currentTime - limiter.lastRefillTimeNs)
    (rate : limiter.refillRatePerSecond ≠ 0) (bounded : limiter.tokens ≤ limiter.capacity) :
    (limiter.refill currentTime).tokens =
      creditedTokens limiter.capacity limiter.tokens (tokensToAdd limiter currentTime) := by
  rw [RateLimiter.refill, if_neg rate, refillAttempt_eq later]
  by_cases hzero : tokensToAdd limiter currentTime = 0
  · rw [if_pos hzero, hzero, creditedTokens, UInt64.add_zero, if_neg (UInt64.not_lt.mpr bounded)]
  · rw [if_neg hzero]

theorem creditedTokens_toNat (capacity currentTokens won : UInt64) :
    (creditedTokens capacity currentTokens won).toNat =
      min capacity.toNat ((currentTokens.toNat + won.toNat) % 2 ^ 64) := by
  rw [creditedTokens]
  split_ifs with hcap
  · rw [gt_iff_lt, UInt64.lt_iff_toNat_lt, UInt64.toNat_add] at hcap
    omega
  · rw [gt_iff_lt, UInt64.lt_iff_toNat_lt, UInt64.toNat_add] at hcap
    rw [UInt64.toNat_add]
    omega

theorem wonTokens_exact {rate elapsed : Nat} (small : elapsed * rate < 2 ^ 64) :
    wonTokens rate elapsed = elapsed * rate / 10 ^ 9 := by
  rw [wonTokens, Nat.mod_eq_of_lt small]

theorem refill_value_iff (later : currentTime.toInt = limiter.lastRefillTimeNs.toInt + elapsed)
    (positive : 0 < elapsed) (inRange : elapsed < 2 ^ 63)
    (rate : limiter.refillRatePerSecond ≠ 0) (bounded : limiter.tokens ≤ limiter.capacity) :
    (limiter.refill currentTime).tokens.toNat =
        min limiter.capacity.toNat (limiter.tokens.toNat +
          elapsed * limiter.refillRatePerSecond.toNat / 10 ^ 9) ↔
      limiter.tokens.toNat + wonTokens limiter.refillRatePerSecond.toNat elapsed < 2 ^ 64 ∧
        (wonTokens limiter.refillRatePerSecond.toNat elapsed =
            elapsed * limiter.refillRatePerSecond.toNat / 10 ^ 9 ∨
          limiter.capacity.toNat ≤
            limiter.tokens.toNat + wonTokens limiter.refillRatePerSecond.toNat elapsed) := by
  have hlater : 0 < currentTime - limiter.lastRefillTimeNs := by
    rw [Int64.lt_iff_toInt_lt, toInt_sub_of_eq later inRange]
    simpa using positive
  have hmore : wonTokens limiter.refillRatePerSecond.toNat elapsed ≤
      elapsed * limiter.refillRatePerSecond.toNat / 10 ^ 9 :=
    Nat.div_le_div_right (Nat.mod_le _ _)
  have hwon : wonTokens limiter.refillRatePerSecond.toNat elapsed < 2 ^ 64 := by
    have hbound := wonTokens_mul_lt limiter.refillRatePerSecond.toNat elapsed
    omega
  have hcapacity := limiter.capacity.toNat_lt
  rw [UInt64.le_iff_toNat_le] at bounded
  rw [refill_tokens hlater rate (UInt64.le_iff_toNat_le.mpr bounded), creditedTokens_toNat,
    tokensToAdd_toNat later inRange]
  omega

theorem refill_grows (later : 0 < currentTime - limiter.lastRefillTimeNs)
    (rate : limiter.refillRatePerSecond ≠ 0) (bounded : limiter.tokens ≤ limiter.capacity)
    (sum : (limiter.tokens + tokensToAdd limiter currentTime).toNat =
      limiter.tokens.toNat + (tokensToAdd limiter currentTime).toNat) :
    limiter.tokens ≤ (limiter.refill currentTime).tokens := by
  rw [UInt64.le_iff_toNat_le] at bounded ⊢
  rw [refill_tokens later rate (UInt64.le_iff_toNat_le.mpr bounded), creditedTokens_toNat]
  have hsmall := (add_toNat_iff _ _).mp sum
  rw [Nat.mod_eq_of_lt hsmall]
  omega

theorem noWrap_iff (later : currentTime.toInt = limiter.lastRefillTimeNs.toInt + elapsed) :
    NoWrap limiter currentTime ↔ elapsed < 2 ^ 63 ∧
      elapsed * limiter.refillRatePerSecond.toNat < 2 ^ 64 ∧
        limiter.tokens.toNat +
          elapsed * limiter.refillRatePerSecond.toNat / 10 ^ 9 < 2 ^ 64 := by
  constructor
  · intro h
    have hrange := (sub_toInt_iff later).mp h.elapsedNs
    have hproduct := (mul_toNat_iff _ _).mp h.product
    have hsum := (add_toNat_iff _ _).mp h.newTokens
    rw [toNat_toUInt64_of_eq (toInt_sub_of_eq later hrange)] at hproduct
    rw [tokensToAdd_toNat later hrange, wonTokens_exact hproduct] at hsum
    exact ⟨hrange, hproduct, hsum⟩
  · intro h
    obtain ⟨hrange, hproduct, hsum⟩ := h
    have helapsed := toNat_toUInt64_of_eq (toInt_sub_of_eq later hrange)
    have hadd := tokensToAdd_toNat later hrange
    have hback := wonTokens_mul_lt limiter.refillRatePerSecond.toNat elapsed
    have hconsumed : (tokensToAdd limiter currentTime).toNat * kNanosPerSecond.toNat < 2 ^ 64 := by
      rw [hadd]
      exact hback
    have hns : (nsConsumed limiter currentTime).toNat =
        consumedNs limiter.refillRatePerSecond.toNat
          (wonTokens limiter.refillRatePerSecond.toNat elapsed) := by
      rw [nsConsumed, UInt64.toNat_div, (mul_toNat_iff _ _).mpr hconsumed, hadd]
      rfl
    have hle := consumedNs_le limiter.refillRatePerSecond.toNat elapsed
    have hhigh := currentTime.toInt_lt
    refine ⟨(sub_toInt_iff later).mpr hrange, (mul_toNat_iff _ _).mpr ?_,
      (mul_toNat_iff _ _).mpr hconsumed, toInt_add_toInt64 ?_, (add_toNat_iff _ _).mpr ?_⟩
    · rw [helapsed]
      exact hproduct
    · rw [hns]
      omega
    · rw [hadd, wonTokens_exact hproduct]
      exact hsum

/-- An uncontended refill gives the exact number of tokens, wraps nowhere and takes none away
as long as the elapsed time times the rate, and the tokens with those won, are below 2^64. -/
theorem refill_exact_iff (limiter : RateLimiter) (currentTime : Int64) (elapsed : Nat)
    (later : currentTime.toInt = limiter.lastRefillTimeNs.toInt + elapsed) (positive : 0 < elapsed)
    (rate : limiter.refillRatePerSecond ≠ 0) (bounded : limiter.tokens ≤ limiter.capacity) :
    ((limiter.refill currentTime).tokens.toNat =
        min limiter.capacity.toNat (limiter.tokens.toNat +
          elapsed * limiter.refillRatePerSecond.toNat / 10 ^ 9) ∧
      NoWrap limiter currentTime ∧ limiter.tokens ≤ (limiter.refill currentTime).tokens) ↔
    elapsed < 2 ^ 63 ∧ elapsed * limiter.refillRatePerSecond.toNat < 2 ^ 64 ∧
      limiter.tokens.toNat + elapsed * limiter.refillRatePerSecond.toNat / 10 ^ 9 < 2 ^ 64 := by
  constructor
  · intro h
    exact (noWrap_iff later).mp h.2.1
  · intro h
    have hnoWrap := (noWrap_iff later).mpr h
    obtain ⟨hrange, hproduct, hsum⟩ := h
    have hexact := wonTokens_exact hproduct
    have hlater : 0 < currentTime - limiter.lastRefillTimeNs := by
      rw [Int64.lt_iff_toInt_lt, toInt_sub_of_eq later hrange]
      simpa using positive
    refine ⟨(refill_value_iff later positive hrange rate bounded).mpr ⟨?_, .inl hexact⟩, hnoWrap,
      refill_grows hlater rate bounded hnoWrap.newTokens⟩
    rw [hexact]
    exact hsum

theorem refill_exact_one_second :
    ((⟨10, 5, 3, 0⟩ : RateLimiter).refill 1000000000).tokens = 8 := by
  have h := (refill_exact_iff ⟨10, 5, 3, 0⟩ 1000000000 1000000000 (by decide) (by decide)
    (by decide) (by decide)).mpr (by decide)
  exact UInt64.toNat_inj.mp h.1

theorem idle_refill_wraps :
    ¬ ∀ (limiter : RateLimiter) (currentTime : Int64) (elapsed : Nat),
      currentTime.toInt = limiter.lastRefillTimeNs.toInt + elapsed → 0 < elapsed →
      limiter.refillRatePerSecond ≠ 0 → limiter.tokens ≤ limiter.capacity →
      (limiter.refill currentTime).tokens.toNat =
          min limiter.capacity.toNat (limiter.tokens.toNat +
            elapsed * limiter.refillRatePerSecond.toNat / 10 ^ 9) ∧
        NoWrap limiter currentTime ∧ limiter.tokens ≤ (limiter.refill currentTime).tokens := by
  intro h
  have hvalue := (h ⟨100, 1000000, 0, 0⟩ 18446744073710 18446744073710 (by decide) (by decide)
    (by decide) (by decide)).1
  have hempty : ((⟨100, 1000000, 0, 0⟩ : RateLimiter).refill 18446744073710).tokens = 0 := by
    decide
  rw [hempty] at hvalue
  revert hvalue
  decide

end ApiGateway.RefillArithmetic
