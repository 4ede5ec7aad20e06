import ApiGateway.RateLimiting
import ApiGateway.StepRuns

/-! Any number of threads in `tryAcquire`. Each atomic load and each
`compare_exchange_weak`, which may fail for no reason, is one step on the
shared pair; the computation between two of them belongs to the first. A
thread that has moved the timestamp carries the tokens it won until it has
added them. -/

namespace ApiGateway.RateInterleaving
open RateLimiting StepRuns

structure Shared where
  tokens : UInt64
  lastRefillTimeNs : Int64
  deriving DecidableEq

/-- Where a thread is: the next atomic operation and the locals it uses. -/
inductive Pc where
  | idle
  | refillLoad (cost : UInt64) (currentTime : Int64)
  | refillExchange (cost : UInt64) (currentTime previousTime newTimestamp : Int64)
      (tokensToAdd : UInt64)
  | creditLoad (cost tokensToAdd : UInt64)
  | creditExchange (cost tokensToAdd currentTokens : UInt64)
  | acquireLoad (cost : UInt64)
  | acquireExchange (cost currentTokens : UInt64)
  deriving DecidableEq

inductive Event where
  | silent
  | exchanged (previousTime newTimestamp : Int64) (tokensToAdd : UInt64)
  | returned (cost : UInt64) (granted : Bool)
  deriving DecidableEq

/-- `currentTime - previousTime` does not overflow. -/
def ElapsedFits (currentTime previousTime : Int64) : Prop :=
  -2 ^ 63 ≤ currentTime.toInt - previousTime.toInt ∧
    currentTime.toInt - previousTime.toInt < 2 ^ 63

/-- `currentTokens + tokensToAdd` does not overflow. -/
def CreditFits (currentTokens tokensToAdd : UInt64) : Prop :=
  currentTokens.toNat + tokensToAdd.toNat < 2 ^ 64

instance (currentTime previousTime : Int64) : Decidable (ElapsedFits currentTime previousTime) :=
  inferInstanceAs (Decidable (_ ∧ _))

instance (currentTokens tokensToAdd : UInt64) : Decidable (CreditFits currentTokens tokensToAdd) :=
  inferInstanceAs (Decidable (_ < _))

/-- A pass of the outer loop of `refill`, from the timestamp it has read. -/
def refillPass (rate cost : UInt64) (currentTime previousTime : Int64) : Pc :=
  match refillAttempt rate currentTime previousTime with
  | none => .acquireLoad cost
  | some (newTimestamp, tokensToAdd) =>
      .refillExchange cost currentTime previousTime newTimestamp tokensToAdd

def callPass (rate cost : UInt64) (currentTime : Int64) : Pc :=
  if rate = 0 then .acquireLoad cost else .refillLoad cost currentTime

/-- One step of one thread. A failed exchange reads the value it found. -/
inductive ThreadStep (capacity rate : UInt64) : Shared → Pc → Event → Shared → Pc → Prop where
  | callFree {shared} :
      ThreadStep capacity rate shared .idle (.returned 0 true) shared .idle
  | call {shared} (cost : UInt64) (currentTime : Int64) : cost ≠ 0 →
      ThreadStep capacity rate shared .idle .silent shared (callPass rate cost currentTime)
  | loadTime {shared cost currentTime} : ElapsedFits currentTime shared.lastRefillTimeNs →
      ThreadStep capacity rate shared (.refillLoad cost currentTime) .silent shared
        (refillPass rate cost currentTime shared.lastRefillTimeNs)
  | exchangeTime {shared cost currentTime newTimestamp tokensToAdd} :
      ThreadStep capacity rate shared
        (.refillExchange cost currentTime shared.lastRefillTimeNs newTimestamp tokensToAdd)
        (.exchanged shared.lastRefillTimeNs newTimestamp tokensToAdd)
        { shared with lastRefillTimeNs := newTimestamp } (.creditLoad cost tokensToAdd)
  | exchangeTimeFails {shared cost currentTime previousTime newTimestamp tokensToAdd} :
      ElapsedFits currentTime shared.lastRefillTimeNs →
      ThreadStep capacity rate shared
        (.refillExchange cost currentTime previousTime newTimestamp tokensToAdd) .silent shared
        (refillPass rate cost currentTime shared.lastRefillTimeNs)
  | loadCredit {shared cost tokensToAdd} : CreditFits shared.tokens tokensToAdd →
      ThreadStep capacity rate shared (.creditLoad cost tokensToAdd) .silent shared
        (.creditExchange cost tokensToAdd shared.tokens)
  | exchangeCredit {shared cost tokensToAdd} :
      ThreadStep capacity rate shared (.creditExchange cost tokensToAdd shared.tokens) .silent
        { shared with tokens := creditedTokens capacity shared.tokens tokensToAdd }
        (.acquireLoad cost)
  | exchangeCreditFails {shared cost tokensToAdd currentTokens} :
      CreditFits shared.tokens tokensToAdd →
      ThreadStep capacity rate shared (.creditExchange cost tokensToAdd currentTokens) .silent
        shared (.creditExchange cost tokensToAdd shared.tokens)
  | loadTokens {shared cost} : cost ≤ shared.tokens →
      ThreadStep capacity rate shared (.acquireLoad cost) .silent shared
        (.acquireExchange cost shared.tokens)
  | loadRejects {shared cost} : shared.tokens < cost →
      ThreadStep capacity rate shared (.acquireLoad cost) (.returned cost false) shared .idle
  | exchangeTokens {shared cost} :
      ThreadStep capacity rate shared (.acquireExchange cost shared.tokens)
        (.returned cost true) { shared with tokens := shared.tokens - cost } .idle
  | exchangeTokensFails {shared cost currentTokens} : cost ≤ shared.tokens →
      ThreadStep capacity rate shared (.acquireExchange cost currentTokens) .silent shared
        (.acquireExchange cost shared.tokens)
  | exchangeTokensRejects {shared cost currentTokens} : shared.tokens < cost →
      ThreadStep capacity rate shared (.acquireExchange cost currentTokens)
        (.returned cost false) shared .idle

structure State (ι : Type) where
  shared : Shared
  pc : ι → Pc

def initial {ι : Type} (capacity : UInt64) (start : Int64) : State ι :=
  ⟨⟨capacity, start⟩, fun _ => .idle⟩

def Step {ι : Type} [DecidableEq ι] (capacity rate : UInt64) (s : State ι)
    (label : ι × Event) (s' : State ι) : Prop :=
  ∃ pc', ThreadStep capacity rate s.shared (s.pc label.1) label.2 s'.shared pc' ∧
    s'.pc = Function.update s.pc label.1 pc'

section Accounts

variable {ι : Type}

def admittedBy : Event → Nat
  | .returned cost true => cost.toNat
  | _ => 0

def wonBy : Event → Nat
  | .exchanged _ _ tokensToAdd => tokensToAdd.toNat
  | _ => 0

def spanOf : Event → Option (ℤ × ℤ)
  | .exchanged previousTime newTimestamp _ => some (previousTime.toInt, newTimestamp.toInt)
  | _ => none

def admitted (trace : List (ι × Event)) : Nat := (trace.map fun label => admittedBy label.2).sum

/-- The sum of `tokensToAdd` over the successful timestamp exchanges. -/
def won (trace : List (ι × Event)) : Nat := (trace.map fun label => wonBy label.2).sum

/-- The old and new timestamps of the successful exchanges. -/
def spans (trace : List (ι × Event)) : List (ℤ × ℤ) :=
  trace.filterMap fun label => spanOf label.2

theorem admitted_snoc (trace : List (ι × Event)) (label : ι × Event) :
    admitted (trace ++ [label]) = admitted trace + admittedBy label.2 := by
  simp [admitted]

theorem won_snoc (trace : List (ι × Event)) (label : ι × Event) :
    won (trace ++ [label]) = won trace + wonBy label.2 := by
  simp [won]

theorem spans_snoc (trace : List (ι × Event)) (label : ι × Event) :
    spans (trace ++ [label]) = spans trace ++ (spanOf label.2).toList := by
  cases h : spanOf label.2 <;> simp [spans, h]

end Accounts

/-- The tokens a thread has won and not yet added. -/
def pending : Pc → Nat
  | .creditLoad _ tokensToAdd => tokensToAdd.toNat
  | .creditExchange _ tokensToAdd _ => tokensToAdd.toNat
  | _ => 0

def Consistent (rate : UInt64) : Pc → Prop
  | .refillExchange _ currentTime previousTime newTimestamp tokensToAdd =>
      refillAttempt rate currentTime previousTime = some (newTimestamp, tokensToAdd) ∧
        ElapsedFits currentTime previousTime
  | .creditExchange _ tokensToAdd currentTokens => CreditFits currentTokens tokensToAdd
  | .acquireExchange cost currentTokens => cost ≤ currentTokens
  | _ => True

theorem consistent_refillPass {rate : UInt64} (cost : UInt64) {currentTime previousTime : Int64}
    (fits : ElapsedFits currentTime previousTime) :
    Consistent rate (refillPass rate cost currentTime previousTime) := by
  rw [refillPass]
  split
  · trivial
  · next h => exact ⟨h, fits⟩

theorem consistent_callPass (rate cost : UInt64) (currentTime : Int64) :
    Consistent rate (callPass rate cost currentTime) := by
  rw [callPass]
  split_ifs <;> trivial

theorem pending_refillPass (rate cost : UInt64) (currentTime previousTime : Int64) :
    pending (refillPass rate cost currentTime previousTime) = 0 := by
  rw [refillPass]
  split <;> rfl

theorem pending_callPass (rate cost : UInt64) (currentTime : Int64) :
    pending (callPass rate cost currentTime) = 0 := by
  rw [callPass]
  split_ifs <;> rfl

theorem refillAttempt_le {rate : UInt64} {currentTime previousTime newTimestamp : Int64}
    {tokensToAdd : UInt64} (fits : ElapsedFits currentTime previousTime)
    (h : refillAttempt rate currentTime previousTime = some (newTimestamp, tokensToAdd)) :
    previousTime.toInt ≤ newTimestamp.toInt := by
  obtain ⟨d, -, -, -, -, hts⟩ := refillAttempt_some (by linarith [fits.1]) h
  omega

theorem le_creditedTokens {capacity currentTokens tokensToAdd : UInt64}
    (fits : CreditFits currentTokens tokensToAdd)
    (bounded : currentTokens.toNat ≤ capacity.toNat) :
    currentTokens.toNat ≤ (creditedTokens capacity currentTokens tokensToAdd).toNat := by
  have hsum : (currentTokens + tokensToAdd).toNat = currentTokens.toNat + tokensToAdd.toNat := by
    rw [UInt64.toNat_add, Nat.mod_eq_of_lt fits]
  rw [creditedTokens]
  split_ifs
  · exact bounded
  · omega

structure StepEffect (capacity rate : UInt64) (shared : Shared) (pc : Pc) (event : Event)
    (shared' : Shared) (pc' : Pc) : Prop where
  consistent : Consistent rate pc'
  bounded : shared'.tokens.toNat ≤ capacity.toNat
  balance : shared'.tokens.toNat + admittedBy event + pending pc' ≤
    shared.tokens.toNat + wonBy event + pending pc
  forward : shared.lastRefillTimeNs.toInt ≤ shared'.lastRefillTimeNs.toInt
  span : (spanOf event = none ∧ shared'.lastRefillTimeNs = shared.lastRefillTimeNs) ∨
    spanOf event = some (shared.lastRefillTimeNs.toInt, shared'.lastRefillTimeNs.toInt)
  taken : shared'.tokens.toNat < shared.tokens.toNat → ∃ cost, event = .returned cost true ∧
    shared'.tokens.toNat + cost.toNat = shared.tokens.toNat
  rejected : ∀ cost, event = .returned cost false → shared' = shared

theorem stepEffect_of_same {capacity rate : UInt64} {shared : Shared} {pc pc' : Pc} {event : Event}
    (bounded : shared.tokens.toNat ≤ capacity.toNat) (consistent : Consistent rate pc')
    (free : admittedBy event = 0) (unmoved : spanOf event = none)
    (kept : pending pc' ≤ pending pc) : StepEffect capacity rate shared pc event shared pc' where
  consistent := consistent
  bounded := bounded
  balance := by omega
  forward := le_rfl
  span := .inl ⟨unmoved, rfl⟩
  taken h := absurd h (lt_irrefl _)
  rejected _ _ := rfl

theorem stepEffect {capacity rate : UInt64} {shared shared' : Shared} {pc pc' : Pc} {event : Event}
    (step : ThreadStep capacity rate shared pc event shared' pc')
    (consistent : Consistent rate pc) (bounded : shared.tokens.toNat ≤ capacity.toNat) :
    StepEffect capacity rate shared pc event shared' pc' := by
  cases step with
  | callFree => exact stepEffect_of_same bounded trivial rfl rfl le_rfl
  | call cost currentTime _ =>
      exact stepEffect_of_same bounded (consistent_callPass _ _ _) rfl rfl
        (pending_callPass _ _ _).le
  | loadTime fits =>
      exact stepEffect_of_same bounded (consistent_refillPass _ fits) rfl rfl
        (pending_refillPass _ _ _ _).le
  | exchangeTime =>
      obtain ⟨hattempt, fits⟩ := consistent
      exact ⟨trivial, bounded, by simp [admittedBy, wonBy, pending],
        refillAttempt_le fits hattempt, .inr rfl, fun h => absurd h (lt_irrefl _),
        fun _ h => by cases h⟩
  | exchangeTimeFails fits =>
      exact stepEffect_of_same bounded (consistent_refillPass _ fits) rfl rfl
        (pending_refillPass _ _ _ _).le
  | loadCredit fits => exact stepEffect_of_same bounded fits rfl rfl le_rfl
  | @exchangeCredit cost tokensToAdd =>
      have hcredit := creditedTokens_le capacity shared.tokens tokensToAdd
      have hkeep := le_creditedTokens consistent bounded
      refine ⟨trivial, hcredit.1, ?_, le_rfl, .inl ⟨rfl, rfl⟩, fun h => ?_, fun _ h => by cases h⟩
      · simp only [admittedBy, wonBy, pending]
        omega
      · simp only at h
        omega
  | exchangeCreditFails fits => exact stepEffect_of_same bounded fits rfl rfl le_rfl
  | loadTokens enough => exact stepEffect_of_same bounded enough rfl rfl le_rfl
  | loadRejects _ => exact stepEffect_of_same bounded trivial rfl rfl le_rfl
  | @exchangeTokens cost =>
      have hsub := UInt64.toNat_sub_of_le shared.tokens cost consistent
      have hle := UInt64.le_iff_toNat_le.mp consistent
      refine ⟨trivial, ?_, ?_, le_rfl, .inl ⟨rfl, rfl⟩, fun _ => ⟨cost, rfl, ?_⟩,
        fun _ h => by cases h⟩
      · simp only [hsub]
        omega
      · simp only [hsub, admittedBy, wonBy, pending]
        omega
      · simp only [hsub]
        omega
  | exchangeTokensFails enough => exact stepEffect_of_same bounded enough rfl rfl le_rfl
  | exchangeTokensRejects _ => exact stepEffect_of_same bounded trivial rfl rfl (Nat.zero_le _)

section Runs

variable {ι : Type} [DecidableEq ι] [Fintype ι] {capacity rate : UInt64} {start : Int64}

theorem sum_pending_update (pc : ι → Pc) (i : ι) (pc' : Pc) :
    ∑ j, pending (Function.update pc i pc' j) + pending (pc i) =
      ∑ j, pending (pc j) + pending pc' := by
  rw [← Finset.add_sum_erase Finset.univ _ (Finset.mem_univ i),
    ← Finset.add_sum_erase Finset.univ (fun j => pending (pc j)) (Finset.mem_univ i),
    Function.update_self]
  have hrest : ∑ j ∈ Finset.univ.erase i, pending (Function.update pc i pc' j) =
      ∑ j ∈ Finset.univ.erase i, pending (pc j) :=
    Finset.sum_congr rfl fun j hj => by
      rw [Function.update_of_ne (Finset.ne_of_mem_erase hj)]
  rw [hrest]
  ring

/-- The credits won and not yet applied are part of the balance. -/
structure Conserved (capacity rate : UInt64) (start : Int64) (trace : List (ι × Event))
    (s : State ι) : Prop where
  consistent : ∀ i, Consistent rate (s.pc i)
  bounded : s.shared.tokens.toNat ≤ capacity.toNat
  balance : s.shared.tokens.toNat + admitted trace + ∑ i, pending (s.pc i) ≤
    capacity.toNat + won trace
  consecutive : Consecutive start.toInt (spans trace) s.shared.lastRefillTimeNs.toInt

omit [DecidableEq ι] in
theorem conserved_initial :
    Conserved capacity rate start [] (initial capacity start : State ι) where
  consistent _ := trivial
  bounded := le_rfl
  balance := by simp [initial, admitted, won, pending]
  consecutive := rfl

theorem conserved_step {trace : List (ι × Event)} {s s' : State ι} {label : ι × Event}
    (inv : Conserved capacity rate start trace s) (step : Step capacity rate s label s') :
    Conserved capacity rate start (trace ++ [label]) s' := by
  obtain ⟨pc', hthread, hpc⟩ := step
  have effect := stepEffect hthread (inv.consistent label.1) inv.bounded
  have hsum := sum_pending_update s.pc label.1 pc'
  have hbalance := effect.balance
  have hold := inv.balance
  refine ⟨fun i => ?_, effect.bounded, ?_, ?_⟩
  · rw [hpc]
    by_cases hi : i = label.1
    · rw [hi, Function.update_self]
      exact effect.consistent
    · rw [Function.update_of_ne hi]
      exact inv.consistent i
  · rw [hpc, admitted_snoc, won_snoc]
    omega
  · rw [spans_snoc]
    rcases effect.span with ⟨hnone, hsame⟩ | hspan
    · simpa [hnone, hsame] using inv.consecutive
    · simpa [hspan] using inv.consecutive.snoc effect.forward

theorem conserved_run {trace : List (ι × Event)} {s : State ι}
    (run : Run (Step capacity rate) (initial capacity start) trace s) :
    Conserved capacity rate start trace s :=
  run.invariant conserved_initial fun _ _ _ _ inv step => conserved_step inv step

/-- In every reachable state the tokens are bounded and conserved and the
credited spans are consecutive; no step moves the timestamp back, and only an
acquire that returns true takes tokens, exactly its cost. -/
theorem conservation {trace : List (ι × Event)} {s : State ι}
    (run : Run (Step capacity rate) (initial capacity start) trace s) :
    s.shared.tokens.toNat ≤ capacity.toNat ∧
    s.shared.tokens.toNat + admitted trace ≤ capacity.toNat + won trace ∧
    Consecutive start.toInt (spans trace) s.shared.lastRefillTimeNs.toInt ∧
    (spans trace).Pairwise (fun earlier later => earlier.2 ≤ later.1) ∧
    ∀ label s', Step capacity rate s label s' →
      s.shared.lastRefillTimeNs ≤ s'.shared.lastRefillTimeNs ∧
      (s'.shared.tokens < s.shared.tokens → ∃ cost, label.2 = .returned cost true ∧
        s'.shared.tokens.toNat + cost.toNat = s.shared.tokens.toNat) ∧
      ∀ cost, label.2 = .returned cost false → s'.shared = s.shared := by
  have inv := conserved_run run
  refine ⟨inv.bounded, ?_, inv.consecutive, inv.consecutive.disjoint, ?_⟩
  · have hbalance := inv.balance
    omega
  · rintro label s' ⟨pc', hthread, -⟩
    have effect := stepEffect hthread (inv.consistent label.1) inv.bounded
    exact ⟨Int64.le_iff_toInt_le.mpr effect.forward,
      fun h => effect.taken (UInt64.lt_iff_toNat_lt.mp h), effect.rejected⟩

end Runs

section Alone

variable {capacity rate : UInt64}

def acquire (shared : Shared) (cost : UInt64) : Shared × Bool :=
  if shared.tokens < cost then (shared, false)
  else ({ shared with tokens := shared.tokens - cost }, true)

def credit (capacity : UInt64) (shared : Shared) (tokensToAdd : UInt64) : Shared :=
  { shared with tokens := creditedTokens capacity shared.tokens tokensToAdd }

def rest (capacity rate : UInt64) (shared : Shared) : Pc → Shared × Bool
  | .idle => (shared, true)
  | .refillLoad cost currentTime =>
      match refillAttempt rate currentTime shared.lastRefillTimeNs with
      | none => acquire shared cost
      | some (newTimestamp, tokensToAdd) =>
          acquire (credit capacity { shared with lastRefillTimeNs := newTimestamp } tokensToAdd)
            cost
  | .refillExchange cost _ _ newTimestamp tokensToAdd =>
      acquire (credit capacity { shared with lastRefillTimeNs := newTimestamp } tokensToAdd) cost
  | .creditLoad cost tokensToAdd => acquire (credit capacity shared tokensToAdd) cost
  | .creditExchange cost tokensToAdd _ => acquire (credit capacity shared tokensToAdd) cost
  | .acquireLoad cost => acquire shared cost
  | .acquireExchange cost _ => acquire shared cost

def Undisturbed (rate : UInt64) (shared : Shared) : Pc → Prop
  | .idle => False
  | .refillExchange _ currentTime previousTime newTimestamp tokensToAdd =>
      previousTime = shared.lastRefillTimeNs ∧
        refillAttempt rate currentTime previousTime = some (newTimestamp, tokensToAdd)
  | .creditExchange _ _ currentTokens => currentTokens = shared.tokens
  | .acquireExchange cost currentTokens => currentTokens = shared.tokens ∧ cost ≤ currentTokens
  | _ => True

theorem refillPass_alone (capacity rate : UInt64) (shared : Shared) (cost : UInt64)
    (currentTime : Int64) :
    Undisturbed rate shared (refillPass rate cost currentTime shared.lastRefillTimeNs) ∧
      rest capacity rate shared (refillPass rate cost currentTime shared.lastRefillTimeNs) =
        rest capacity rate shared (.refillLoad cost currentTime) := by
  cases h : refillAttempt rate currentTime shared.lastRefillTimeNs with
  | none => simp [refillPass, h, Undisturbed, rest]
  | some exchange => simp [refillPass, h, Undisturbed, rest]

theorem acquire_of_lt {shared : Shared} {cost : UInt64} (h : shared.tokens < cost) :
    acquire shared cost = (shared, false) := if_pos h

theorem acquire_of_le {shared : Shared} {cost : UInt64} (h : cost ≤ shared.tokens) :
    acquire shared cost = ({ shared with tokens := shared.tokens - cost }, true) :=
  if_neg (UInt64.not_lt.mpr h)

theorem step_alone {shared shared' : Shared} {pc pc' : Pc} {event : Event}
    (step : ThreadStep capacity rate shared pc event shared' pc')
    (alone : Undisturbed rate shared pc) :
    (∃ cost granted, event = .returned cost granted ∧
      rest capacity rate shared pc = (shared', granted)) ∨
    ((∀ cost granted, event ≠ .returned cost granted) ∧ Undisturbed rate shared' pc' ∧
      rest capacity rate shared' pc' = rest capacity rate shared pc) := by
  cases step with
  | callFree => exact alone.elim
  | call cost currentTime _ => exact alone.elim
  | @loadTime cost currentTime _ =>
      exact .inr ⟨nofun, refillPass_alone capacity rate shared cost currentTime⟩
  | exchangeTime => exact .inr ⟨nofun, trivial, rfl⟩
  | @exchangeTimeFails cost currentTime previousTime newTimestamp tokensToAdd _ =>
      obtain ⟨rfl, hattempt⟩ := alone
      have hpass := refillPass_alone capacity rate shared cost currentTime
      refine .inr ⟨nofun, hpass.1, hpass.2.trans ?_⟩
      simp only [rest, hattempt]
  | loadCredit _ => exact .inr ⟨nofun, rfl, rfl⟩
  | exchangeCredit => exact .inr ⟨nofun, trivial, rfl⟩
  | exchangeCreditFails _ => exact .inr ⟨nofun, rfl, rfl⟩
  | loadTokens enough => exact .inr ⟨nofun, ⟨rfl, enough⟩, rfl⟩
  | loadRejects few => exact .inl ⟨_, _, rfl, acquire_of_lt few⟩
  | exchangeTokens => exact .inl ⟨_, _, rfl, acquire_of_le alone.2⟩
  | exchangeTokensFails enough => exact .inr ⟨nofun, ⟨rfl, enough⟩, rfl⟩
  | exchangeTokensRejects few => exact .inl ⟨_, _, rfl, acquire_of_lt few⟩

inductive CallAlone (capacity rate : UInt64) : Shared → Pc → Shared → Bool → Prop where
  | done {shared pc cost granted shared' pc'} :
      ThreadStep capacity rate shared pc (.returned cost granted) shared' pc' →
      CallAlone capacity rate shared pc shared' granted
  | more {shared pc event shared' pc' shared'' granted} :
      ThreadStep capacity rate shared pc event shared' pc' →
      (∀ cost granted, event ≠ .returned cost granted) →
      CallAlone capacity rate shared' pc' shared'' granted →
      CallAlone capacity rate shared pc shared'' granted

theorem rest_of_callAlone {shared shared' : Shared} {pc : Pc} {granted : Bool}
    (call : CallAlone capacity rate shared pc shared' granted)
    (alone : Undisturbed rate shared pc) :
    rest capacity rate shared pc = (shared', granted) := by
  induction call with
  | done step =>
      rcases step_alone step alone with ⟨_, _, hevent, hrest⟩ | ⟨hnot, -⟩
      · cases hevent
        exact hrest
      · exact absurd rfl (hnot _ _)
  | more step hnot _ ih =>
      rcases step_alone step alone with ⟨_, _, hevent, -⟩ | ⟨-, halone, hrest⟩
      · exact absurd hevent (hnot _ _)
      · exact hrest ▸ ih halone

def limiterOf (capacity rate : UInt64) (shared : Shared) : RateLimiter :=
  ⟨capacity, rate, shared.tokens, shared.lastRefillTimeNs⟩

theorem tryAcquire_of_refill {shared : Shared} (refilled : Shared) {cost : UInt64}
    {currentTime : Int64}
    (hcost : cost ≠ 0) (hrefill : (limiterOf capacity rate shared).refill currentTime =
      limiterOf capacity rate refilled) :
    (limiterOf capacity rate shared).tryAcquire cost currentTime =
      (limiterOf capacity rate (acquire refilled cost).1, (acquire refilled cost).2) := by
  rw [RateLimiter.tryAcquire, if_neg hcost, hrefill, acquire]
  by_cases few : refilled.tokens < cost
  · rw [if_pos few]
    exact if_pos few
  · rw [if_neg few]
    exact if_neg few

theorem tryAcquire_of_callAlone {shared shared' : Shared} {cost : UInt64} {currentTime : Int64}
    {granted : Bool} (hcost : cost ≠ 0)
    (call : CallAlone capacity rate shared (callPass rate cost currentTime) shared' granted) :
    (limiterOf capacity rate shared).tryAcquire cost currentTime =
      (limiterOf capacity rate shared', granted) := by
  by_cases hrate : rate = 0
  · rw [callPass, if_pos hrate] at call
    have hrest : acquire shared cost = (shared', granted) := rest_of_callAlone call trivial
    rw [tryAcquire_of_refill shared hcost (if_pos hrate), hrest]
  · rw [callPass, if_neg hrate] at call
    have hrest := rest_of_callAlone call trivial
    cases hattempt : refillAttempt rate currentTime shared.lastRefillTimeNs with
    | none =>
        simp only [rest, hattempt] at hrest
        rw [tryAcquire_of_refill shared hcost, hrest]
        simp [RateLimiter.refill, limiterOf, hrate, hattempt]
    | some exchange =>
        simp only [rest, hattempt] at hrest
        rw [tryAcquire_of_refill (credit capacity
          { shared with lastRefillTimeNs := exchange.1 } exchange.2) hcost, hrest]
        simp [RateLimiter.refill, limiterOf, hrate, hattempt, credit]

end Alone

theorem run_snoc {ι : Type} [DecidableEq ι] {capacity rate : UInt64} {start s : State ι}
    {trace : List (ι × Event)} (run : Run (Step capacity rate) start trace s) (i : ι) (pc : Pc)
    {event : Event} {shared' : Shared} {pc' : Pc} (here : s.pc i = pc)
    (step : ThreadStep capacity rate s.shared pc event shared' pc') :
    Run (Step capacity rate) start (trace ++ [(i, event)])
      ⟨shared', Function.update s.pc i pc'⟩ :=
  .snoc run ⟨pc', by rw [here]; exact step, rfl⟩

def overtaken : List (Bool × Event) :=
  [(true, .silent), (true, .silent), (true, .exchanged 0 333333333 1), (false, .silent),
    (false, .silent), (false, .silent), (false, .returned 1 true), (true, .silent),
    (true, .silent), (true, .silent), (true, .returned 1 true)]

theorem run_overtaken :
    ∃ s, Run (Step 1 3) (initial 1 0) overtaken s ∧ s.shared = ⟨0, 333333333⟩ := by
  have h0 : Run (Step 1 3) (initial 1 0 : State Bool) [] (initial 1 0) := .nil
  have h1 := run_snoc h0 true .idle rfl (.call 1 333333334 (by decide))
  have h2 := run_snoc h1 true (.refillLoad 1 333333334) rfl (.loadTime (by decide))
  have h3 := run_snoc h2 true (.refillExchange 1 333333334 0 333333333 1) (by decide) .exchangeTime
  have h4 := run_snoc h3 false .idle rfl (.call 1 333333334 (by decide))
  have h5 := run_snoc h4 false (.refillLoad 1 333333334) rfl (.loadTime (by decide))
  have h6 := run_snoc h5 false (.acquireLoad 1) (by decide) (.loadTokens (by decide))
  have h7 := run_snoc h6 false (.acquireExchange 1 1) rfl .exchangeTokens
  have h8 := run_snoc h7 true (.creditLoad 1 1) rfl (.loadCredit (by decide))
  have h9 := run_snoc h8 true (.creditExchange 1 1 0) rfl .exchangeCredit
  have h10 := run_snoc h9 true (.acquireLoad 1) rfl (.loadTokens (by decide))
  have h11 := run_snoc h10 true (.acquireExchange 1 1) rfl .exchangeTokens
  exact ⟨_, h11, by decide⟩

theorem conservation_overtaken : ∃ s : State Bool,
    Run (Step 1 3) (initial 1 0) overtaken s ∧ s.shared.tokens.toNat ≤ 1 ∧
    s.shared.tokens.toNat + admitted overtaken ≤ 1 + won overtaken ∧
    Consecutive 0 (spans overtaken) s.shared.lastRefillTimeNs.toInt := by
  obtain ⟨s, run, -⟩ := run_overtaken
  obtain ⟨bounded, balance, consecutive, -⟩ := conservation run
  exact ⟨s, run, bounded, balance, consecutive⟩

end ApiGateway.RateInterleaving
