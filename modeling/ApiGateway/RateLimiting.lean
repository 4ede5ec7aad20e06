import Mathlib

/-! The token bucket of `RateLimiter.cpp` over the machine integers of the
source. A signed difference wraps here; in the source it is undefined once two
clock readings lie more than 2^63 nanoseconds apart. -/

namespace ApiGateway.RateLimiting

/-- The shared pair `tokens_` and `lastRefillTimeNs_` with the two constants. -/
structure RateLimiter where
  capacity : UInt64
  refillRatePerSecond : UInt64
  tokens : UInt64
  lastRefillTimeNs : Int64
  deriving DecidableEq

def RateLimiter.construct (capacity refillRatePerSecond : UInt64) (nowNanos : Int64) :
    RateLimiter :=
  ⟨capacity, refillRatePerSecond, capacity, nowNanos⟩

def kNanosPerSecond : UInt64 := 1000000000

/-- One pass of the outer loop of `refill` up to its exchange: the timestamp it
tries to write with the tokens it adds then, or `none` where it returns. -/
def refillAttempt (refillRatePerSecond : UInt64) (currentTime previousTime : Int64) :
    Option (Int64 × UInt64) :=
  let elapsedNs := currentTime - previousTime
  if elapsedNs ≤ 0 then none
  else
    let elapsedNsUnsigned := elapsedNs.toUInt64
    let tokensToAdd := elapsedNsUnsigned * refillRatePerSecond / kNanosPerSecond
    if tokensToAdd = 0 then none
    else
      let nsConsumed := (tokensToAdd * kNanosPerSecond / refillRatePerSecond).toInt64
      some (previousTime + nsConsumed, tokensToAdd)

def creditedTokens (capacity currentTokens tokensToAdd : UInt64) : UInt64 :=
  if currentTokens + tokensToAdd > capacity then capacity else currentTokens + tokensToAdd

/-- `refill` without interference: a spurious failure only repeats a pass. -/
def RateLimiter.refill (limiter : RateLimiter) (currentTime : Int64) : RateLimiter :=
  if limiter.refillRatePerSecond = 0 then limiter
  else
    match refillAttempt limiter.refillRatePerSecond currentTime limiter.lastRefillTimeNs with
    | none => limiter
    | some (newTimestamp, tokensToAdd) =>
        { limiter with
          tokens := creditedTokens limiter.capacity limiter.tokens tokensToAdd
          lastRefillTimeNs := newTimestamp }

def RateLimiter.tryAcquire (limiter : RateLimiter) (cost : UInt64) (currentTime : Int64) :
    RateLimiter × Bool :=
  if cost = 0 then (limiter, true)
  else
    let refilled := limiter.refill currentTime
    if refilled.tokens < cost then (refilled, false)
    else ({ refilled with tokens := refilled.tokens - cost }, true)

theorem refill_cases (limiter : RateLimiter) (currentTime : Int64) :
    limiter.refill currentTime = limiter ∨
    (limiter.refillRatePerSecond ≠ 0 ∧ ∃ newTimestamp tokensToAdd,
      refillAttempt limiter.refillRatePerSecond currentTime limiter.lastRefillTimeNs =
        some (newTimestamp, tokensToAdd) ∧
      limiter.refill currentTime =
        { limiter with
          tokens := creditedTokens limiter.capacity limiter.tokens tokensToAdd
          lastRefillTimeNs := newTimestamp }) := by
  rw [RateLimiter.refill]
  split_ifs with hrate
  · exact .inl rfl
  · cases hattempt : refillAttempt limiter.refillRatePerSecond currentTime
        limiter.lastRefillTimeNs with
    | none => exact .inl rfl
    | some exchange => exact .inr ⟨hrate, exchange.1, exchange.2, rfl, rfl⟩

theorem tryAcquire_cases (limiter : RateLimiter) (cost : UInt64) (currentTime : Int64) :
    (cost = 0 ∧ limiter.tryAcquire cost currentTime = (limiter, true)) ∨
    ((limiter.refill currentTime).tokens < cost ∧
      limiter.tryAcquire cost currentTime = (limiter.refill currentTime, false)) ∨
    (cost ≠ 0 ∧ cost ≤ (limiter.refill currentTime).tokens ∧
      limiter.tryAcquire cost currentTime =
        ({ limiter.refill currentTime with
            tokens := (limiter.refill currentTime).tokens - cost }, true)) := by
  by_cases hcost : cost = 0
  · exact .inl ⟨hcost, if_pos hcost⟩
  · rw [RateLimiter.tryAcquire, if_neg hcost]
    by_cases htokens : (limiter.refill currentTime).tokens < cost
    · exact .inr (.inl ⟨htokens, if_pos htokens⟩)
    · exact .inr (.inr ⟨hcost, UInt64.not_lt.mp htokens, if_neg htokens⟩)

/-- The tokens won for `elapsed` nanoseconds; the product is taken modulo 2^64. -/
def wonTokens (rate elapsed : Nat) : Nat := elapsed * rate % 2 ^ 64 / 10 ^ 9

def consumedNs (rate won : Nat) : Nat := won * 10 ^ 9 / rate

theorem wonTokens_mul_le (rate elapsed : Nat) :
    wonTokens rate elapsed * 10 ^ 9 ≤ elapsed * rate % 2 ^ 64 :=
  Nat.div_mul_le_self _ _

theorem wonTokens_mul_lt (rate elapsed : Nat) : wonTokens rate elapsed * 10 ^ 9 < 2 ^ 64 :=
  (wonTokens_mul_le rate elapsed).trans_lt (Nat.mod_lt _ (by norm_num))

theorem consumedNs_le (rate elapsed : Nat) :
    consumedNs rate (wonTokens rate elapsed) ≤ elapsed := by
  have bound : wonTokens rate elapsed * 10 ^ 9 ≤ elapsed * rate :=
    (wonTokens_mul_le rate elapsed).trans (Nat.mod_le _ _)
  by_cases hr : rate = 0
  · simp [consumedNs, hr]
  · exact (Nat.div_le_div_right bound).trans (Nat.mul_div_cancel _ (by omega)).le

theorem toInt_sub_of_eq {a b : Int64} {d : Nat} (h : a.toInt = b.toInt + d) (hd : d < 2 ^ 63) :
    (a - b).toInt = d := by
  rw [Int64.toInt_sub, h, show b.toInt + (d : Int) - b.toInt = d by ring]
  exact Int.bmod_eq_of_le (by omega) (by omega)

theorem toNat_toUInt64_of_eq {a : Int64} {d : Nat} (h : a.toInt = d) :
    a.toUInt64.toNat = d := by
  have nonneg : 0 ≤ a := by
    rw [Int64.le_iff_toInt_le, h]
    exact Int.natCast_nonneg d
  rw [Int64.toNat_toUInt64_of_le nonneg, Int64.toNatClampNeg, h, Int.toNat_natCast]

theorem toInt_add_toInt64 {a : Int64} {n : UInt64} (h : a.toInt + n.toNat < 2 ^ 63) :
    (a + n.toInt64).toInt = a.toInt + n.toNat := by
  have low := a.le_toInt
  have hn : n.toInt64.toInt = Int.bmod n.toNat (2 ^ 64) := by
    change BitVec.toInt n.toBitVec = _
    rw [BitVec.toInt_eq_toNat_bmod]
    rfl
  rw [Int64.toInt_add, hn, Int.add_bmod_bmod]
  exact Int.bmod_eq_of_le (by omega) (by omega)

theorem refillAttempt_elapsed (rate : UInt64) {currentTime previousTime : Int64} {d : Nat}
    (h : currentTime.toInt = previousTime.toInt + d) (pos : 0 < d) (hd : d < 2 ^ 63) :
    (wonTokens rate.toNat d = 0 ∧ refillAttempt rate currentTime previousTime = none) ∨
    (0 < wonTokens rate.toNat d ∧ ∃ newTimestamp tokensToAdd,
      refillAttempt rate currentTime previousTime = some (newTimestamp, tokensToAdd) ∧
      tokensToAdd.toNat = wonTokens rate.toNat d ∧
      newTimestamp.toInt =
        previousTime.toInt + consumedNs rate.toNat (wonTokens rate.toNat d)) := by
  have hsub := toInt_sub_of_eq h hd
  have helapsed : ¬ currentTime - previousTime ≤ 0 := by
    rw [Int64.le_iff_toInt_le, hsub]
    simpa using pos.ne'
  have hwon : ((currentTime - previousTime).toUInt64 * rate / kNanosPerSecond).toNat =
      wonTokens rate.toNat d := by
    rw [UInt64.toNat_div, UInt64.toNat_mul, toNat_toUInt64_of_eq hsub]
    rfl
  simp only [refillAttempt, if_neg helapsed]
  generalize (currentTime - previousTime).toUInt64 * rate / kNanosPerSecond = won at hwon ⊢
  by_cases hzero : won = 0
  · exact .inl ⟨by simp [← hwon, hzero], if_pos hzero⟩
  · have hne : won.toNat ≠ 0 := fun hz => hzero (UInt64.toNat_inj.mp hz)
    have hconsumed : (won * kNanosPerSecond / rate).toNat =
        consumedNs rate.toNat (wonTokens rate.toNat d) := by
      have hlt := wonTokens_mul_lt rate.toNat d
      rw [UInt64.toNat_div, UInt64.toNat_mul, hwon,
        show kNanosPerSecond.toNat = 10 ^ 9 from rfl, Nat.mod_eq_of_lt hlt]
      rfl
    have hle := consumedNs_le rate.toNat d
    have hlt := currentTime.toInt_lt
    refine .inr ⟨by omega, _, won, if_neg hzero, hwon, ?_⟩
    rw [toInt_add_toInt64 (by omega), hconsumed]

theorem refillAttempt_stale {rate : UInt64} {currentTime previousTime : Int64}
    (h : currentTime.toInt ≤ previousTime.toInt)
    (window : previousTime.toInt - currentTime.toInt ≤ 2 ^ 63) :
    refillAttempt rate currentTime previousTime = none := by
  have hle : currentTime - previousTime ≤ 0 := by
    rw [Int64.le_iff_toInt_le, Int64.toInt_sub,
      Int.bmod_eq_of_le (by omega) (by omega)]
    simpa using h
  simp only [refillAttempt, if_pos hle]

theorem refillAttempt_wrapped {rate : UInt64} {currentTime previousTime : Int64}
    (h : 2 ^ 63 ≤ currentTime.toInt - previousTime.toInt) :
    refillAttempt rate currentTime previousTime = none := by
  have hhigh := currentTime.toInt_lt
  have hlow := previousTime.le_toInt
  have hle : currentTime - previousTime ≤ 0 := by
    rw [Int64.le_iff_toInt_le, Int64.toInt_sub, Int.bmod_def, Int.emod_eq_of_lt (by omega)
      (by omega), if_neg (by omega), Int64.toInt_zero]
    omega
  simp only [refillAttempt, if_pos hle]

theorem refillAttempt_some {rate : UInt64} {currentTime previousTime newTimestamp : Int64}
    {tokensToAdd : UInt64} (window : previousTime.toInt - currentTime.toInt ≤ 2 ^ 63)
    (h : refillAttempt rate currentTime previousTime = some (newTimestamp, tokensToAdd)) :
    ∃ d : Nat, 0 < d ∧ currentTime.toInt = previousTime.toInt + d ∧
      0 < tokensToAdd.toNat ∧ tokensToAdd.toNat = wonTokens rate.toNat d ∧
      newTimestamp.toInt = previousTime.toInt + consumedNs rate.toNat tokensToAdd.toNat := by
  by_cases hstale : currentTime.toInt ≤ previousTime.toInt
  · rw [refillAttempt_stale hstale window] at h
    cases h
  · by_cases hfar : 2 ^ 63 ≤ currentTime.toInt - previousTime.toInt
    · rw [refillAttempt_wrapped hfar] at h
      cases h
    · obtain ⟨d, hd⟩ := Int.eq_ofNat_of_zero_le (a := currentTime.toInt - previousTime.toInt)
        (by omega)
      have hsum : currentTime.toInt = previousTime.toInt + d := by omega
      rcases refillAttempt_elapsed rate hsum (by omega) (by omega) with
        ⟨-, hnone⟩ | ⟨hpos, ts, won, hsome, hwon, hts⟩
      · rw [hnone] at h
        cases h
      · rw [hsome] at h
        obtain ⟨rfl, rfl⟩ : ts = newTimestamp ∧ won = tokensToAdd := by simpa using h
        exact ⟨d, by omega, hsum, by omega, hwon, by rw [hts, hwon]⟩

theorem creditedTokens_le (capacity currentTokens tokensToAdd : UInt64) :
    (creditedTokens capacity currentTokens tokensToAdd).toNat ≤ capacity.toNat ∧
    (creditedTokens capacity currentTokens tokensToAdd).toNat ≤
      currentTokens.toNat + tokensToAdd.toNat := by
  have hsum := UInt64.toNat_add currentTokens tokensToAdd
  have hmod := Nat.mod_le (currentTokens.toNat + tokensToAdd.toNat) (2 ^ 64)
  rw [creditedTokens]
  split_ifs with hcap
  · rw [gt_iff_lt, UInt64.lt_iff_toNat_lt] at hcap
    omega
  · rw [gt_iff_lt, UInt64.lt_iff_toNat_lt] at hcap
    omega

end ApiGateway.RateLimiting
