import Mathlib.Data.Finset.Sort
import Mathlib.Data.List.MinMax

/-! Lists that hold the elements of a finite set in increasing order, and what the
operations on either end of such a list do to the set. -/

namespace ApiGateway.SortedEnumeration

variable {α : Type*} [LinearOrder α]

structure Enumerates (s : Finset α) (l : List α) : Prop where
  sorted : l.Pairwise (· < ·)
  mem_iff : ∀ a, a ∈ l ↔ a ∈ s

section Ends

variable {s : Finset α} {l l' : List α} {a : α}

theorem enumerates_nil : Enumerates (∅ : Finset α) [] where
  sorted := .nil
  mem_iff := by simp

theorem Enumerates.push (h : Enumerates s l) (greatest : ∀ b ∈ s, b < a) :
    Enumerates (insert a s) (l ++ [a]) where
  sorted := by
    rw [List.pairwise_append]
    refine ⟨h.sorted, List.pairwise_singleton _ a, fun b hb c hc => ?_⟩
    rw [List.mem_singleton.mp hc]
    exact greatest b ((h.mem_iff b).mp hb)
  mem_iff b := by
    rw [List.mem_append, List.mem_singleton, h.mem_iff, Finset.mem_insert]
    exact or_comm

theorem Enumerates.least (h : Enumerates s (a :: l)) : IsLeast (s : Set α) a := by
  refine ⟨(h.mem_iff a).mp List.mem_cons_self, fun b hb => ?_⟩
  cases List.mem_cons.mp ((h.mem_iff b).mpr hb) with
  | inl heq => exact heq.ge
  | inr hmem => exact (List.rel_of_pairwise_cons h.sorted hmem).le

theorem Enumerates.pop (h : Enumerates s (a :: l)) : Enumerates (s.erase a) l where
  sorted := h.sorted.of_cons
  mem_iff b := by
    rw [Finset.mem_erase, ← h.mem_iff, List.mem_cons]
    constructor
    · exact fun hmem => ⟨(List.rel_of_pairwise_cons h.sorted hmem).ne', .inr hmem⟩
    · exact fun hmem => hmem.2.resolve_left hmem.1

theorem Enumerates.filter (h : Enumerates s l) (p : α → Prop) [DecidablePred p] :
    Enumerates {a ∈ s | p a} (l.filter p) where
  sorted := h.sorted.filter _
  mem_iff b := by
    rw [List.mem_filter, h.mem_iff, decide_eq_true_eq, Finset.mem_filter]

theorem Enumerates.split (h : Enumerates s (l ++ a :: l')) :
    a ∈ s ∧ Enumerates {b ∈ s | b < a} l ∧ Enumerates {b ∈ s | a < b} l' := by
  obtain ⟨hbefore, hbehind, hacross⟩ := List.pairwise_append.mp h.sorted
  have hlater : ∀ b ∈ l', a < b := fun b hb => List.rel_of_pairwise_cons hbehind hb
  have hmem : ∀ b, b ∈ s ↔ b ∈ l ∨ b = a ∨ b ∈ l' := fun b => by
    rw [← h.mem_iff, List.mem_append, List.mem_cons]
  refine ⟨(hmem a).mpr (.inr (.inl rfl)), ⟨hbefore, fun b => ?_⟩,
    ⟨hbehind.of_cons, fun b => ?_⟩⟩
  · rw [Finset.mem_filter, hmem]
    constructor
    · exact fun hb => ⟨.inl hb, hacross b hb a List.mem_cons_self⟩
    · rintro ⟨hb | rfl | hb, hlt⟩
      · exact hb
      · exact absurd hlt (lt_irrefl b)
      · exact absurd hlt (hlater b hb).asymm
  · rw [Finset.mem_filter, hmem]
    constructor
    · exact fun hb => ⟨.inr (.inr hb), hlater b hb⟩
    · rintro ⟨hb | rfl | hb, hlt⟩
      · exact absurd hlt (hacross b hb a List.mem_cons_self).asymm
      · exact absurd hlt (lt_irrefl b)
      · exact hb

theorem Enumerates.eq_sort (h : Enumerates s l) : l = s.sort := by
  have hset : l.toFinset = s := by
    ext a
    rw [List.mem_toFinset, h.mem_iff]
  rw [← hset]
  exact ((List.toFinset_sort (· ≤ ·) h.sorted.nodup).mpr (h.sorted.imp le_of_lt)).symm

end Ends

theorem enumerates_sort (s : Finset α) : Enumerates s s.sort where
  sorted := (Finset.sortedLT_sort s).pairwise
  mem_iff _ := Finset.mem_sort _

theorem argmin_cons_of_pairwise {β : Type*} {f : β → α} {b : β} {l : List β}
    (sorted : (b :: l).Pairwise fun c d => f c ≤ f d) : (b :: l).argmin f = some b := by
  rw [List.argmin_cons]
  cases hrest : l.argmin f with
  | none => rfl
  | some c => exact if_neg (not_lt.mpr (List.rel_of_pairwise_cons sorted (List.argmin_mem hrest)))

end ApiGateway.SortedEnumeration
