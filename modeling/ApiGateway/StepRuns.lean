import Mathlib.Order.Basic

/-! Finite runs of a labelled step relation, and invariants that may speak about
the labels seen so far. -/

namespace ApiGateway.StepRuns

variable {σ α : Type*}

inductive Run (step : σ → α → σ → Prop) (start : σ) : List α → σ → Prop where
  | nil : Run step start [] start
  | snoc {trace s label s'} : Run step start trace s → step s label s' →
      Run step start (trace ++ [label]) s'

theorem Run.invariant {step : σ → α → σ → Prop} {start : σ} {Inv : List α → σ → Prop}
    (base : Inv [] start)
    (preserved : ∀ trace s label s', Inv trace s → step s label s' → Inv (trace ++ [label]) s')
    {trace : List α} {s : σ} (run : Run step start trace s) : Inv trace s := by
  induction run with
  | nil => exact base
  | snoc _ next ih => exact preserved _ _ _ _ ih next

theorem Run.imp {step step' : σ → α → σ → Prop} (h : ∀ s label s', step s label s' →
    step' s label s') {start s : σ} {trace : List α} (run : Run step start trace s) :
    Run step' start trace s := by
  induction run with
  | nil => exact .nil
  | snoc _ next ih => exact .snoc ih (h _ _ _ next)

theorem Run.project {τ β : Type*} {step : σ → α → σ → Prop} {step' : τ → β → τ → Prop}
    {start : σ} {image : α → Option β} (view : σ → τ)
    (simulated : ∀ s label s', step s label s' →
      match image label with
      | some coarse => step' (view s) coarse (view s')
      | none => view s' = view s)
    {trace : List α} {s : σ} (run : Run step start trace s) :
    Run step' (view start) (trace.filterMap image) (view s) := by
  induction run with
  | nil => exact .nil
  | @snoc trace s label s' _ next ih =>
      have hstep := simulated s label s' next
      rw [List.filterMap_append]
      cases himage : image label with
      | none =>
          rw [himage] at hstep
          simp only [List.filterMap_cons, himage, List.filterMap_nil, List.append_nil]
          rwa [hstep]
      | some coarse =>
          rw [himage] at hstep
          simp only [List.filterMap_cons, himage, List.filterMap_nil]
          exact .snoc ih hstep

theorem Run.refine {step step' : σ → α → σ → Prop} {start : σ} {Inv : σ → Prop}
    (base : Inv start) (preserved : ∀ s label s', Inv s → step s label s' → Inv s')
    {trace : List α} {s : σ} (run : Run step start trace s)
    (narrow : ∀ s label s', Inv s → label ∈ trace → step s label s' → step' s label s') :
    Run step' start trace s := by
  have h : Inv s ∧ Run step' start trace s := by
    induction run with
    | nil => exact ⟨base, .nil⟩
    | @snoc trace s label s' _ next ih =>
        have ⟨hinv, hrun⟩ := ih fun s label s' hinv hmem =>
          narrow s label s' hinv (List.mem_append_left _ hmem)
        exact ⟨preserved s label s' hinv next,
          .snoc hrun (narrow s label s' hinv (by simp) next)⟩
  exact h.2

theorem Run.restrict {step : σ → α → σ → Prop} {P Q : σ → α → Prop} {start s : σ} {trace : List α}
    (run : Run (fun s label s' => step s label s' ∧ P s label) start trace s)
    (narrow : ∀ before label s, (before ++ [label]) <+: trace → Run step start before s →
      P s label → Q s label) :
    Run (fun s label s' => step s label s' ∧ Q s label) start trace s := by
  induction run with
  | nil => exact .nil
  | @snoc before s label s' earlier next ih =>
      have hrun := ih fun before label s hbegins =>
        narrow before label s (hbegins.trans (List.prefix_append _ _))
      have hholds := narrow before label s (List.prefix_refl _)
        (earlier.imp fun _ _ _ h => h.1) next.2
      exact .snoc hrun ⟨next.1, hholds⟩

theorem Run.forall_label {step : σ → α → σ → Prop} {start : σ} {P : α → Prop}
    (allowed : ∀ s label s', step s label s' → P label) {trace : List α} {s : σ}
    (run : Run step start trace s) : ∀ label ∈ trace, P label := by
  induction run with
  | nil => simp
  | snoc _ next ih =>
      intro label hmem
      cases List.mem_append.mp hmem with
      | inl hbefore => exact ih label hbefore
      | inr hlast =>
          rw [List.mem_singleton.mp hlast]
          exact allowed _ _ _ next

/-- Runs one event after another; `none` if one is not possible. -/
def exec (step : σ → α → Option σ) (start : σ) : List α → Option σ
  | [] => some start
  | label :: rest => (step start label).bind fun s => exec step s rest

theorem run_append {step : σ → α → σ → Prop} {start middle : σ} {trace : List α}
    (run : Run step start trace middle) {rest : List α} {s : σ} (next : Run step middle rest s) :
    Run step start (trace ++ rest) s := by
  induction next with
  | nil =>
      rw [List.append_nil]
      exact run
  | snoc _ last ih =>
      rw [← List.append_assoc]
      exact .snoc ih last

theorem run_of_exec {step : σ → α → Option σ} {start s : σ} {trace : List α}
    (h : exec step start trace = some s) : Run (fun s e s' => step s e = some s') start trace s := by
  induction trace generalizing start with
  | nil =>
      cases h
      exact .nil
  | cons label rest ih =>
      have ⟨middle, hfirst, hrest⟩ := Option.bind_eq_some_iff.mp h
      exact run_append (.snoc .nil hfirst) (ih hrest)

theorem Run.last {step : σ → α → σ → Prop} {start s' : σ} {trace : List α} {label : α}
    (run : Run step start (trace ++ [label]) s') :
    ∃ s, Run step start trace s ∧ step s label s' := by
  generalize htrace : trace ++ [label] = whole at run
  cases run with
  | nil => simp at htrace
  | snoc before next =>
      obtain ⟨rfl, hlabel⟩ := List.append_inj' htrace rfl
      cases hlabel
      exact ⟨_, before, next⟩

theorem Run.eq_start {step : σ → α → σ → Prop} {start s : σ} (run : Run step start [] s) :
    s = start := by
  generalize htrace : ([] : List α) = whole at run
  cases run with
  | nil => rfl
  | snoc _ _ => simp at htrace

theorem exec_append (step : σ → α → Option σ) (start : σ) (trace rest : List α) :
    exec step start (trace ++ rest) = (exec step start trace).bind fun s => exec step s rest := by
  induction trace generalizing start with
  | nil => rfl
  | cons label trace ih =>
      rw [List.cons_append, exec, exec, Option.bind_assoc]
      exact congrArg (step start label).bind (funext ih)

theorem exec_snoc {step : σ → α → Option σ} {start s : σ} {trace : List α} {label : α}
    (h : exec step start trace = some s) :
    exec step start (trace ++ [label]) = step s label := by
  rw [exec_append, h]
  exact Option.bind_fun_some _

theorem exec_of_run {step : σ → α → Option σ} {start s : σ} {trace : List α}
    (run : Run (fun s e s' => step s e = some s') start trace s) :
    exec step start trace = some s := by
  induction run with
  | nil => rfl
  | snoc _ next ih => exact (exec_snoc ih).trans next

theorem snoc_split {trace before after : List α} {last label : α}
    (h : trace ++ [last] = before ++ label :: after) :
    (trace = before ∧ last = label) ∨ ∃ earlier, trace = before ++ label :: earlier := by
  cases after.eq_nil_or_concat with
  | inl hnil =>
      rw [hnil] at h
      have ⟨hbefore, hlast⟩ := List.append_inj' h rfl
      exact .inl ⟨hbefore, List.singleton_inj.mp hlast⟩
  | inr hmore =>
      obtain ⟨earlier, final, hafter⟩ := hmore
      rw [hafter, List.concat_eq_append, ← List.cons_append, ← List.append_assoc] at h
      exact .inr ⟨earlier, (List.append_inj' h rfl).1⟩

theorem exec_perm {step : σ → α → Option σ}
    (exchange : ∀ s a b s', exec step s [a, b] = some s' → exec step s [b, a] = some s')
    {trace trace' : List α} (perm : trace.Perm trace') {start s : σ}
    (h : exec step start trace = some s) : exec step start trace' = some s := by
  induction perm generalizing start with
  | nil => exact h
  | cons label _ ih =>
      have ⟨middle, hfirst, hrest⟩ := Option.bind_eq_some_iff.mp h
      exact Option.bind_eq_some_iff.mpr ⟨middle, hfirst, ih hrest⟩
  | swap a b rest =>
      have hsplit : ∀ a b, exec step start (a :: b :: rest) =
          (exec step start [a, b]).bind fun middle => exec step middle rest := by
        intro a b
        cases hfirst : step start a with
        | none => simp [exec, hfirst]
        | some middle => cases hsecond : step middle b <;> simp [exec, hfirst, hsecond]
      rw [hsplit] at h ⊢
      have ⟨middle, hpair, hrest⟩ := Option.bind_eq_some_iff.mp h
      rw [exchange start b a middle hpair]
      exact hrest
  | trans _ _ ih ih' => exact ih' (ih h)

variable {τ : Type*} [Preorder τ]

def Consecutive : τ → List (τ × τ) → τ → Prop
  | start, [], finish => start = finish
  | start, (first, last) :: rest, finish =>
      first = start ∧ first ≤ last ∧ Consecutive last rest finish

theorem Consecutive.snoc {start middle finish : τ} {spans : List (τ × τ)}
    (h : Consecutive start spans middle) (hle : middle ≤ finish) :
    Consecutive start (spans ++ [(middle, finish)]) finish := by
  induction spans generalizing start with
  | nil => exact ⟨h.symm, hle, rfl⟩
  | cons span rest ih => exact ⟨h.1, h.2.1, ih h.2.2⟩

theorem Consecutive.first_le {start finish : τ} {spans : List (τ × τ)}
    (h : Consecutive start spans finish) : ∀ span ∈ spans, start ≤ span.1 := by
  induction spans generalizing start with
  | nil => simp
  | cons span rest ih =>
      obtain ⟨rfl, hle, hrest⟩ := h
      intro other hmem
      rcases List.mem_cons.mp hmem with rfl | hmem
      · exact le_rfl
      · exact hle.trans (ih hrest other hmem)

theorem Consecutive.disjoint {start finish : τ} {spans : List (τ × τ)}
    (h : Consecutive start spans finish) :
    spans.Pairwise fun earlier later => earlier.2 ≤ later.1 := by
  induction spans generalizing start with
  | nil => exact .nil
  | cons span rest ih => exact .cons (h.2.2.first_le) (ih h.2.2)

end ApiGateway.StepRuns
