import ApiGateway.RateInterleaving

/-! How much any number of threads at a time can be admitted between two states of the
limiter, for a rate whose token takes a whole number of nanoseconds, as the gateway's does. -/

namespace ApiGateway.RateWindows
open RateLimiting RateInterleaving StepRuns

/-- The limiter of `ApiGateway`. -/
def kCapacity : UInt64 := 500

def kRefillRatePerSecond : UInt64 := 250

/-- The clock reading that a thread works with. -/
def reading : Pc → Option Int64
  | .refillLoad _ currentTime => some currentTime
  | .refillExchange _ currentTime _ _ _ => some currentTime
  | _ => none

def ReadBy {ι : Type} (finish : Int64) (s : State ι) : Prop :=
  ∀ i, (reading (s.pc i)).all (· ≤ finish) = true

instance {ι : Type} [Fintype ι] (finish : Int64) (s : State ι) : Decidable (ReadBy finish s) :=
  inferInstanceAs (Decidable (∀ i, (reading (s.pc i)).all (· ≤ finish) = true))

section Step

variable {capacity rate : UInt64} {shared shared' : Shared} {pc pc' : Pc} {event : Event}

theorem earned_of_step (exact : rate = 0 ∨ rate.toNat ∣ 10 ^ 9)
    (step : ThreadStep capacity rate shared pc event shared' pc')
    (consistent : Consistent rate pc) :
    (wonBy event * 10 ^ 9 : ℤ) =
        rate.toNat * (shared'.lastRefillTimeNs.toInt - shared.lastRefillTimeNs.toInt) ∧
      (shared'.lastRefillTimeNs = shared.lastRefillTimeNs ∨ ∃ currentTime,
        reading pc = some currentTime ∧
          shared'.lastRefillTimeNs.toInt ≤ currentTime.toInt) := by
  cases step with
  | @exchangeTime cost currentTime newTimestamp tokensToAdd =>
      obtain ⟨hattempt, hfits⟩ := consistent
      obtain ⟨elapsed, -, hreading, hpos, hwon, hmoved⟩ :=
        refillAttempt_some (by linarith [hfits.1]) hattempt
      have hrate : rate ≠ 0 := by
        rintro rfl
        rw [hwon] at hpos
        simp [wonTokens] at hpos
      have hspan : rate.toNat * consumedNs rate.toNat tokensToAdd.toNat =
          tokensToAdd.toNat * 10 ^ 9 :=
        Nat.mul_div_cancel' ((exact.resolve_left hrate).mul_left _)
      have hbehind : consumedNs rate.toNat tokensToAdd.toNat ≤ elapsed := by
        rw [hwon]
        exact consumedNs_le rate.toNat elapsed
      refine ⟨?_, .inr ⟨currentTime, rfl, ?_⟩⟩
      · simp only [wonBy, hmoved]
        zify at hspan
        linarith
      · change newTimestamp.toInt ≤ currentTime.toInt
        omega
  -- no other step moves the timestamp, and none but an exchange wins tokens
  | _ => exact ⟨by simp [wonBy], .inl rfl⟩

end Step

section Runs

variable {ι : Type} [DecidableEq ι] [Fintype ι] {capacity rate : UInt64} {start finish : Int64}

/-- The tokens of the bucket, and those that threads have won and not added yet. -/
def State.held (s : State ι) : Nat := s.shared.tokens.toNat + ∑ i, pending (s.pc i)

/-- What the window so far admitted, out of what was held at its beginning and what the time
up to the timestamp is worth. -/
structure Earned (capacity rate : UInt64) (finish : Int64) (s₀ : State ι)
    (trace : List (ι × Event)) (s : State ι) : Prop where
  consistent : ∀ i, Consistent rate (s.pc i)
  bounded : s.shared.tokens.toNat ≤ capacity.toNat
  readBy : ReadBy finish s
  balance : ((State.held s + admitted trace : ℕ) * 10 ^ 9 : ℤ) ≤ State.held s₀ * 10 ^ 9 +
    rate.toNat * (s.shared.lastRefillTimeNs.toInt - s₀.shared.lastRefillTimeNs.toInt)
  passed : s.shared.lastRefillTimeNs.toInt ≤ finish.toInt

theorem Earned.step (exact : rate = 0 ∨ rate.toNat ∣ 10 ^ 9) {s₀ s s' : State ι}
    {trace : List (ι × Event)} {label : ι × Event}
    (earned : Earned capacity rate finish s₀ trace s) (step : Step capacity rate s label s')
    (readBy : ReadBy finish s') : Earned capacity rate finish s₀ (trace ++ [label]) s' := by
  obtain ⟨pc', hthread, hpc⟩ := step
  have heffect := stepEffect hthread (earned.consistent label.1) earned.bounded
  obtain ⟨hwon, hmoved⟩ := earned_of_step exact hthread (earned.consistent label.1)
  have hsum := sum_pending_update s.pc label.1 pc'
  have hbalance := heffect.balance
  have hheld : State.held s' + admittedBy label.2 ≤ State.held s + wonBy label.2 := by
    rw [State.held, State.held, hpc]
    omega
  refine ⟨fun i => ?_, heffect.bounded, readBy, ?_, ?_⟩
  · rw [hpc]
    by_cases hi : i = label.1
    · rw [hi, Function.update_self]
      exact heffect.consistent
    · rw [Function.update_of_ne hi]
      exact earned.consistent i
  · have hbefore := earned.balance
    rw [admitted_snoc]
    zify at hheld
    push_cast at hbefore ⊢
    linarith
  · rcases hmoved with hsame | ⟨currentTime, hreading, hle⟩
    · rw [hsame]
      exact earned.passed
    · have hread := earned.readBy label.1
      rw [hreading, Option.all_some, decide_eq_true_iff] at hread
      exact hle.trans (Int64.le_iff_toInt_le.mp hread)

/-- From any state of a run on, whatever the threads do with readings up to `finish`, they are
admitted at most what is held in that state and the rate times the time since its timestamp. -/
theorem admitted_within_rate (exact : rate = 0 ∨ rate.toNat ∣ 10 ^ 9)
    {earlier trace : List (ι × Event)} {s s' : State ι}
    (run : Run (Step capacity rate) (initial capacity start) earlier s)
    (readBy : ReadBy finish s) (passed : s.shared.lastRefillTimeNs ≤ finish)
    (window : Run (fun s label s' => Step capacity rate s label s' ∧ ReadBy finish s') s trace s') :
    (admitted trace : ℚ) ≤ State.held s +
      rate.toNat * (finish.toInt - s.shared.lastRefillTimeNs.toInt : ℤ) / 10 ^ 9 := by
  have hconserved := conserved_run run
  have hstart : Earned capacity rate finish s [] s :=
    ⟨hconserved.consistent, hconserved.bounded, readBy, by simp [admitted],
      Int64.le_iff_toInt_le.mp passed⟩
  have hearned : Earned capacity rate finish s trace s' :=
    @Run.invariant _ _ _ _ (fun trace s' => Earned capacity rate finish s trace s') hstart
      (fun _ _ _ _ earned next => earned.step exact next.1 next.2) _ _ window
  have hbalance := hearned.balance
  have hpassed : (rate.toNat : ℤ) * s'.shared.lastRefillTimeNs.toInt ≤
      rate.toNat * finish.toInt :=
    mul_le_mul_of_nonneg_left hearned.passed (Int.natCast_nonneg _)
  have hpaid : (admitted trace : ℤ) * 10 ^ 9 ≤ State.held s * 10 ^ 9 +
      rate.toNat * (finish.toInt - s.shared.lastRefillTimeNs.toInt) := by
    push_cast at hbalance
    nlinarith
  have hrational : (admitted trace : ℚ) * 10 ^ 9 ≤ State.held s * 10 ^ 9 +
      rate.toNat * (finish.toInt - s.shared.lastRefillTimeNs.toInt : ℤ) := by
    exact_mod_cast hpaid
  rw [← sub_le_iff_le_add', le_div_iff₀ (by norm_num)]
  linarith

end Runs

theorem window_snoc {capacity rate : UInt64} {finish : Int64} {s s' : State Bool}
    {trace : List (Bool × Event)}
    (window : Run (fun s label s' => Step capacity rate s label s' ∧ ReadBy finish s') s trace s')
    (i : Bool) (pc : Pc) {event : Event} {shared' : Shared} {pc' : Pc} (here : s'.pc i = pc)
    (step : ThreadStep capacity rate s'.shared pc event shared' pc')
    (readBy : ReadBy finish ⟨shared', Function.update s'.pc i pc'⟩) :
    Run (fun s label s' => Step capacity rate s label s' ∧ ReadBy finish s') s
      (trace ++ [(i, event)]) ⟨shared', Function.update s'.pc i pc'⟩ :=
  .snoc window ⟨⟨pc', by rw [here]; exact step, rfl⟩, readBy⟩

theorem admitted_within_rate_gateway : ∃ s : State Bool,
    Run (fun s label s' => Step kCapacity kRefillRatePerSecond s label s' ∧ ReadBy 8000000 s')
      (initial kCapacity 0) [(true, .silent), (true, .silent), (true, .exchanged 0 8000000 2),
        (false, .silent), (false, .silent), (false, .silent), (false, .returned 1 true)] s ∧
      State.held s = 501 ∧
      (admitted [(true, .silent), (true, .silent), (true, .exchanged 0 8000000 2),
        (false, .silent), (false, .silent), (false, .silent), (false, .returned 1 true)] : ℚ) ≤
          State.held (initial kCapacity 0 : State Bool) +
            kRefillRatePerSecond.toNat *
              ((8000000 : Int64).toInt - (0 : Int64).toInt : ℤ) / 10 ^ 9 := by
  have h0 : Run (fun s label s' => Step kCapacity kRefillRatePerSecond s label s' ∧
      ReadBy 8000000 s') (initial kCapacity 0 : State Bool) [] (initial kCapacity 0) := .nil
  have h1 := window_snoc h0 true .idle rfl (.call 1 8000000 (by decide)) (by decide)
  have h2 := window_snoc h1 true (.refillLoad 1 8000000) rfl (.loadTime (by decide)) (by decide)
  have h3 := window_snoc h2 true (.refillExchange 1 8000000 0 8000000 2) (by decide)
    .exchangeTime (by decide)
  have h4 := window_snoc h3 false .idle rfl (.call 1 8000000 (by decide)) (by decide)
  have h5 := window_snoc h4 false (.refillLoad 1 8000000) rfl (.loadTime (by decide)) (by decide)
  have h6 := window_snoc h5 false (.acquireLoad 1) (by decide) (.loadTokens (by decide))
    (by decide)
  have h7 := window_snoc h6 false (.acquireExchange 1 500) rfl .exchangeTokens (by decide)
  exact ⟨_, h7, by decide,
    admitted_within_rate (.inr (by decide)) .nil (by decide) (by decide) h7⟩

end ApiGateway.RateWindows
