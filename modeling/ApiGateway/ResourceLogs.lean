import Mathlib.Data.List.Induction
import Mathlib.Data.List.Nodup
import Mathlib.Logic.Function.Basic

/-! Logs of handles that are given out, used and given back, where a handle that
is free can be given out anew, and accounts of the places that have them. -/

namespace ApiGateway.ResourceLogs

inductive Operation (H P : Type*) where
  | acquire (handle : H)
  | use (handle : H)
  | attach (handle : H) (label : P)
  | release (handle : H)
  deriving DecidableEq

variable {H P O : Type*} [DecidableEq H]

def Operation.handle : Operation H P → H
  | .acquire h => h
  | .use h => h
  | .attach h _ => h
  | .release h => h

def after (table : H → Option (Option P)) : Operation H P → H → Option (Option P)
  | .acquire h => Function.update table h (some none)
  | .use _ => table
  | .attach h label => Function.update table h ((table h).map fun _ => some label)
  | .release h => Function.update table h none

def held (log : List (Operation H P)) : H → Option (Option P) := log.foldl after fun _ => none

/-- Only a free handle is given out; only one that is out is used or given back. -/
def Allowed (table : H → Option (Option P)) : Operation H P → Prop
  | .acquire h => table h = none
  | .use h => table h ≠ none
  | .attach h _ => table h ≠ none
  | .release h => table h ≠ none

inductive Proper : List (Operation H P) → Prop where
  | nil : Proper []
  | snoc {log : List (Operation H P)} {op : Operation H P} :
      Proper log → Allowed (held log) op → Proper (log ++ [op])

theorem held_append (log ops : List (Operation H P)) :
    held (log ++ ops) = ops.foldl after (held log) := by
  rw [held, held, List.foldl_append]

@[simp] theorem held_acquire (log : List (Operation H P)) (h : H) :
    held (log ++ [Operation.acquire h]) = Function.update (held log) h (some none) := by
  rw [held_append]
  rfl

@[simp] theorem held_use (log : List (Operation H P)) (h : H) :
    held (log ++ [Operation.use h]) = held log := by
  rw [held_append]
  rfl

@[simp] theorem held_attach (log : List (Operation H P)) (h : H) (label : P) :
    held (log ++ [Operation.attach h label]) =
      Function.update (held log) h ((held log h).map fun _ => some label) := by
  rw [held_append]
  rfl

@[simp] theorem held_release (log : List (Operation H P)) (h : H) :
    held (log ++ [Operation.release h]) = Function.update (held log) h none := by
  rw [held_append]
  rfl

theorem foldl_after_none {ops : List (Operation H P)} {table : H → Option (Option P)} {h : H}
    (free : table h = none) (never : .acquire h ∉ ops) : ops.foldl after table h = none := by
  induction ops generalizing table with
  | nil => exact free
  | cons op rest ih =>
      refine ih ?_ fun hmem => never (by simp [hmem])
      cases op with
      | acquire h' =>
          have hne : h ≠ h' := by
            rintro rfl
            exact never (by simp)
          rw [after, Function.update_of_ne hne, free]
      | use h' => exact free
      | attach h' label =>
          by_cases hh : h = h'
          · rw [after, ← hh, Function.update_self, free, Option.map_none]
          · rw [after, Function.update_of_ne hh, free]
      | release h' =>
          by_cases hh : h = h'
          · rw [after, hh, Function.update_self]
          · rw [after, Function.update_of_ne hh, free]

theorem Proper.allowed {before later : List (Operation H P)} {op : Operation H P}
    (proper : Proper (before ++ op :: later)) : Allowed (held before) op := by
  induction later using List.reverseRecOn with
  | nil =>
      generalize hlog : before ++ [op] = log at proper
      cases proper with
      | nil => simp at hlog
      | snoc _ allowed =>
          have ⟨hbefore, hop⟩ := List.append_inj' hlog rfl
          rw [hbefore, List.singleton_inj.mp hop]
          exact allowed
  | append_singleton later last ih =>
      refine ih ?_
      generalize hlog : before ++ op :: (later ++ [last]) = log at proper
      cases proper with
      | nil => simp at hlog
      | @snoc log' op' proper' _ =>
          have hsplit : (before ++ op :: later) ++ [last] = log' ++ [op'] := by
            rw [← hlog]
            simp
          rw [(List.append_inj' hsplit rfl).1]
          exact proper'

theorem Proper.anew {before between later : List (Operation H P)} {h : H} {op : Operation H P}
    (proper : Proper (before ++ .release h :: (between ++ op :: later))) (same : op.handle = h) :
    op = .acquire h ∨ .acquire h ∈ between := by
  by_contra hnot
  have hacquire : op ≠ .acquire h := fun hop => hnot (.inl hop)
  have hnever : .acquire h ∉ between := fun hmem => hnot (.inr hmem)
  have hlog : before ++ .release h :: (between ++ op :: later) =
      (before ++ .release h :: between) ++ op :: later := by simp
  rw [hlog] at proper
  have hfree : held (before ++ .release h :: between) h = none := by
    have hsplit : before ++ .release h :: between =
        (before ++ [Operation.release h]) ++ between := by simp
    rw [hsplit, held_append, held_release]
    exact foldl_after_none (Function.update_self _ _ _) hnever
  have hallowed := proper.allowed
  cases op with
  | acquire h' =>
      rw [Operation.handle] at same
      exact hacquire (by rw [same])
  | use h' =>
      rw [Operation.handle] at same
      exact hallowed (same ▸ hfree)
  | attach h' label =>
      rw [Operation.handle] at same
      exact hallowed (same ▸ hfree)
  | release h' =>
      rw [Operation.handle] at same
      exact hallowed (same ▸ hfree)

/-- What is out is in some place. -/
structure Account (log : List (Operation H P)) (place : H → Option O) : Prop where
  proper : Proper log
  out : ∀ h, held log h = none ↔ place h = none

section Rules

variable {log : List (Operation H P)} {place : H → Option O}

theorem Account.start : Account (P := P) [] (fun _ : H => (none : Option O)) :=
  ⟨.nil, fun _ => iff_of_true rfl rfl⟩

theorem Account.held_ne (account : Account log place) {h : H} (out : place h ≠ none) :
    held log h ≠ none :=
  fun hfree => out ((account.out h).mp hfree)

theorem Account.use (account : Account log place) {h : H} (out : place h ≠ none) :
    Account (log ++ [Operation.use h]) place := by
  refine ⟨account.proper.snoc (account.held_ne out), ?_⟩
  rw [held_use]
  exact account.out

theorem Account.uses (account : Account log place) (handles : List H)
    (out : ∀ h ∈ handles, place h ≠ none) :
    Account (log ++ handles.map fun h => Operation.use h) place := by
  induction handles generalizing log with
  | nil => simpa using account
  | cons first rest ih =>
      obtain ⟨hfirst, hrest⟩ := List.forall_mem_cons.mp out
      rw [List.map_cons, List.append_cons]
      exact ih (account.use hfirst) hrest

theorem Account.attach (account : Account log place) {h : H} (out : place h ≠ none) (label : P) :
    Account (log ++ [Operation.attach h label]) place := by
  refine ⟨account.proper.snoc (account.held_ne out), fun h' => ?_⟩
  rw [held_attach, ← account.out]
  by_cases hh : h' = h
  · rw [hh, Function.update_self, Option.map_eq_none_iff]
  · rw [Function.update_of_ne hh]

theorem Account.acquire (account : Account log place) {h : H} (free : held log h = none) (o : O) :
    Account (log ++ [Operation.acquire h]) (Function.update place h (some o)) := by
  refine ⟨account.proper.snoc free, fun h' => ?_⟩
  rw [held_acquire]
  by_cases hh : h' = h
  · rw [hh, Function.update_self, Function.update_self]
    simp
  · rw [Function.update_of_ne hh, Function.update_of_ne hh]
    exact account.out h'

theorem Account.release (account : Account log place) {h : H} (out : place h ≠ none) :
    Account (log ++ [Operation.release h]) (Function.update place h none) := by
  refine ⟨account.proper.snoc (account.held_ne out), fun h' => ?_⟩
  rw [held_release]
  by_cases hh : h' = h
  · rw [hh, Function.update_self, Function.update_self]
    simp
  · rw [Function.update_of_ne hh, Function.update_of_ne hh]
    exact account.out h'

theorem Account.move (account : Account log place) {place' : H → Option O}
    (same : ∀ h, place' h = none ↔ place h = none) : Account log place' :=
  ⟨account.proper, fun h => (account.out h).trans (same h).symm⟩

theorem Account.releaseAll (account : Account log place) {gone : List H} (nodup : gone.Nodup)
    (out : ∀ h ∈ gone, place h ≠ none) {closing : H → List (Operation H P)}
    (closes : ∀ h, closing h = [.release h] ∨ closing h = [.use h, .release h]) :
    Account (log ++ gone.flatMap closing) (fun h => if h ∈ gone then none else place h) ∧
      ∀ h ∉ gone, held (log ++ gone.flatMap closing) h = held log h := by
  induction gone generalizing log place with
  | nil => simpa using account
  | cons first rest ih =>
      have ⟨hnew, hrest⟩ := List.nodup_cons.mp nodup
      have hfirst : Account (log ++ closing first) (Function.update place first none) ∧
          held (log ++ closing first) = Function.update (held log) first none := by
        have hout := out first (by simp)
        cases closes first with
        | inl hclose =>
            rw [hclose]
            exact ⟨account.release hout, held_release log first⟩
        | inr hclose =>
            have hlog : log ++ [Operation.use first, .release first] =
                (log ++ [Operation.use first]) ++ [Operation.release first] := by simp
            rw [hclose, hlog]
            refine ⟨(account.use hout).release hout, ?_⟩
            rw [held_release, held_use]
      have hout : ∀ h ∈ rest, Function.update place first none h ≠ none := by
        intro h hmem
        rw [Function.update_of_ne (ne_of_mem_of_not_mem hmem hnew)]
        exact out h (by simp [hmem])
      have ⟨haccount, hheld⟩ := ih hfirst.1 hrest hout
      rw [List.flatMap_cons, ← List.append_assoc]
      refine ⟨haccount.move fun h => ?_, fun h hh => ?_⟩
      · by_cases hmem : h ∈ rest
        · simp [hmem]
        · by_cases heq : h = first
          · simp [heq]
          · simp [hmem, heq]
      · rw [List.mem_cons, not_or] at hh
        rw [hheld h hh.2, hfirst.2, Function.update_of_ne hh.1]

end Rules

structure Placed (listed : O → List H) (place : H → Option O) : Prop where
  once : ∀ o, (listed o).Nodup
  here : ∀ o h, h ∈ listed o ↔ place h = some o

end ApiGateway.ResourceLogs
