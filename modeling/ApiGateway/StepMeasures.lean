import Mathlib.Algebra.BigOperators.Group.Finset.Piecewise
import Mathlib.Algebra.Order.BigOperators.Group.List
import Mathlib.Data.Fintype.Basic
import Mathlib.Tactic.Abel
import ApiGateway.StepRuns

/-! Step relations with a measure. Each step is paid for by the measure and by what the
step itself brings, so that a run has few steps that cost and bring nothing, and such steps
come to an end. -/

namespace ApiGateway.StepMeasures
open StepRuns

variable {σ α : Type*}

/-- Along the states of an invariant, the measure pays the cost of a step that its gain does
not cover. -/
structure Paid (step : σ → α → σ → Prop) (Inv : σ → Prop) (measure : σ → Nat)
    (cost gain : α → Nat) : Prop where
  kept : ∀ s label s', Inv s → step s label s' → Inv s'
  pays : ∀ s label s', Inv s → step s label s' → measure s' + cost label ≤ measure s + gain label

section Rules

variable {step : σ → α → σ → Prop} {Inv : σ → Prop} {measure : σ → Nat} {cost gain : α → Nat}

theorem Paid.inv (paid : Paid step Inv measure cost gain) {start s : σ} {trace : List α}
    (base : Inv start) (run : Run step start trace s) : Inv s :=
  @Run.invariant _ _ _ _ (fun _ s => Inv s) base (fun _ s label s' => paid.kept s label s') _ _ run

theorem Paid.run (paid : Paid step Inv measure cost gain) {start s : σ} {trace : List α}
    (base : Inv start) (run : Run step start trace s) :
    measure s + (trace.map cost).sum ≤ measure start + (trace.map gain).sum := by
  induction run with
  | nil => simp
  | snoc earlier next ih =>
      have hstep := paid.pays _ _ _ (paid.inv base earlier) next
      simp only [List.map_append, List.map_cons, List.map_nil, List.sum_append, List.sum_cons,
        List.sum_nil]
      omega

theorem Paid.length_le (paid : Paid step Inv measure cost gain) {start s : σ} {trace : List α}
    (base : Inv start) (run : Run step start trace s)
    (spends : ∀ label ∈ trace, 1 ≤ cost label ∧ gain label = 0) :
    trace.length + measure s ≤ measure start := by
  have hpaid := paid.run base run
  have hgain : (trace.map gain).sum = 0 :=
    List.sum_eq_zero (List.forall_mem_map.mpr fun label hlabel => (spends label hlabel).2)
  have hcost : trace.length ≤ (trace.map cost).sum := by
    have hle := List.length_le_sum_of_one_le (trace.map cost)
      (List.forall_mem_map.mpr fun label hlabel => (spends label hlabel).1)
    rwa [List.length_map] at hle
  omega

theorem Paid.completes (paid : Paid step Inv measure cost gain) (Goal : σ → Prop)
    (own : α → Prop) (spends : ∀ label, own label → gain label < cost label)
    (progress : ∀ s, Inv s → ¬ Goal s → ∃ label s', own label ∧ step s label s')
    (start : σ) (base : Inv start) :
    ∃ trace s, Run step start trace s ∧ (∀ label ∈ trace, own label) ∧ Goal s := by
  induction hmeasure : measure start using Nat.strong_induction_on generalizing start with
  | _ bound ih =>
      by_cases hgoal : Goal start
      · exact ⟨[], start, .nil, by simp, hgoal⟩
      · obtain ⟨label, s, hown, hstep⟩ := progress start base hgoal
        have hpays := paid.pays _ _ _ base hstep
        have hspends := spends label hown
        obtain ⟨trace, s', hrun, howns, hdone⟩ :=
          ih (measure s) (by omega) s (paid.kept _ _ _ base hstep) rfl
        refine ⟨label :: trace, s', ?_, List.forall_mem_cons.mpr ⟨hown, howns⟩, hdone⟩
        exact run_append (.snoc .nil hstep) hrun

theorem Paid.rests (paid : Paid step Inv measure cost gain) (own : α → Prop)
    (spends : ∀ label, own label → 1 ≤ cost label ∧ gain label = 0) {start : σ}
    (base : Inv start) :
    (∀ trace s, Run step start trace s → (∀ label ∈ trace, own label) →
        trace.length ≤ measure start) ∧
      ∃ trace s, Run step start trace s ∧ (∀ label ∈ trace, own label) ∧
        ∀ label s', own label → ¬ step s label s' := by
  refine ⟨fun trace s run howned => ?_, ?_⟩
  · have hlength := paid.length_le base run fun label hlabel => spends label (howned label hlabel)
    omega
  · refine paid.completes (fun s => ∀ label s', own label → ¬ step s label s') own
      (fun label howned => ?_) (fun s _ hmoves => ?_) start base
    · have hspends := spends label howned
      omega
    · push Not at hmoves
      exact hmoves

end Rules

section Parties

variable {ι β M : Type*} [Fintype ι] [DecidableEq ι] [AddCommMonoid M]

theorem sum_update (state : ι → β) (party : ι) (new : β) (weight : β → M) :
    ∑ i, weight (Function.update state party new i) + weight (state party) =
      ∑ i, weight (state i) + weight new := by
  have hrest : ∀ i ∈ Finset.univ.erase party,
      weight (Function.update state party new i) = weight (state i) := by
    intro i hi
    rw [Function.update_of_ne (Finset.ne_of_mem_erase hi)]
  rw [← Finset.add_sum_erase _ _ (Finset.mem_univ party), Function.update_self,
    Finset.sum_congr rfl hrest, ← Finset.add_sum_erase _ (fun i => weight (state i))
    (Finset.mem_univ party)]
  abel

end Parties

end ApiGateway.StepMeasures
