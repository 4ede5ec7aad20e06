import Mathlib

/-! A reader that judges all it has read after every chunk and stops at the first verdict.
When the bytes are given, the chunks come down to their lengths and what is judged to a
position, so that how a stream is cut is a question about numbers. -/

namespace ApiGateway.CutPositions

variable {ω : Type*} {verdict : Nat → Option ω} {largest total p q : Nat} {w : ω}

def firstVerdict (verdict : Nat → Option ω) (position : Nat) : List Nat → Option ω
  | [] => none
  | gap :: rest =>
      (verdict (position + gap)).or (firstVerdict verdict (position + gap) rest)

structure Gaps (largest : Nat) (gaps : List Nat) (total : Nat) : Prop where
  sizes : ∀ gap ∈ gaps, 0 < gap ∧ gap ≤ largest
  sum : gaps.sum = total

theorem Gaps.nil (largest : Nat) : Gaps largest [] 0 :=
  ⟨fun _ h => absurd h List.not_mem_nil, rfl⟩

theorem Gaps.append {gaps more : List Nat} (first : Gaps largest gaps p)
    (later : Gaps largest more q) : Gaps largest (gaps ++ more) (p + q) := by
  refine ⟨fun gap hgap => ?_, ?_⟩
  · cases List.mem_append.mp hgap with
    | inl hfirst => exact first.sizes gap hfirst
    | inr hlater => exact later.sizes gap hlater
  · rw [List.sum_append, first.sum, later.sum]

theorem Gaps.single (positive : 0 < q) (short : q ≤ largest) : Gaps largest [q] q := by
  refine ⟨fun gap hgap => ?_, List.sum_singleton⟩
  rw [List.mem_singleton.mp hgap]
  exact ⟨positive, short⟩

theorem Gaps.ones (positive : 0 < largest) (total : Nat) :
    Gaps largest (List.replicate total 1) total := by
  refine ⟨fun gap hgap => ?_, by simp⟩
  rw [(List.mem_replicate.mp hgap).2]
  exact ⟨Nat.one_pos, positive⟩

theorem firstVerdict_append (verdict : Nat → Option ω) (position : Nat)
    (gaps more : List Nat) :
    firstVerdict verdict position (gaps ++ more) = (firstVerdict verdict position gaps).or
      (firstVerdict verdict (position + gaps.sum) more) := by
  induction gaps generalizing position with
  | nil => simp [firstVerdict]
  | cons gap rest ih =>
      rw [List.cons_append, firstVerdict, firstVerdict, ih, Option.or_assoc, List.sum_cons,
        Nat.add_assoc]

theorem firstVerdict_none {gaps : List Nat} (sizes : ∀ gap ∈ gaps, 0 < gap)
    (pending : ∀ k, p < k → k ≤ p + gaps.sum → verdict k = none) :
    firstVerdict verdict p gaps = none := by
  induction gaps generalizing p with
  | nil => rfl
  | cons gap rest ih =>
      have hgap := sizes gap (by simp)
      rw [List.sum_cons] at pending
      rw [firstVerdict, pending (p + gap) (by omega) (by omega), Option.none_or]
      exact ih (fun g hg => sizes g (by simp [hg])) fun k hk hend =>
        pending k (by omega) (by omega)

theorem firstVerdict_settled {gaps : List Nat} (sizes : ∀ gap ∈ gaps, 0 < gap)
    (only : ∀ k, p < k → k ≤ p + gaps.sum → verdict k = none ∨ verdict k = some w)
    (last : verdict (p + gaps.sum) = some w) (later : 0 < gaps.sum) :
    firstVerdict verdict p gaps = some w := by
  induction gaps generalizing p with
  | nil => exact absurd later (Nat.lt_irrefl 0)
  | cons gap rest ih =>
      have hgap := sizes gap (by simp)
      rw [List.sum_cons] at only last
      rw [firstVerdict]
      cases only (p + gap) (by omega) (by omega) with
      | inl hnone =>
          rw [hnone, Option.none_or]
          rw [← Nat.add_assoc] at last
          refine ih (fun g hg => sizes g (by simp [hg])) (fun k hk hend =>
            only k (by omega) (by omega)) last ?_
          by_contra hzero
          rw [Nat.eq_zero_of_not_pos hzero, Nat.add_zero, hnone] at last
          cases last
      | inr hsome => rw [hsome, Option.some_or]

theorem firstVerdict_crossing {bar : Nat} {gaps : List Nat}
    (sizes : ∀ gap ∈ gaps, 0 < gap ∧ gap ≤ largest)
    (pending : ∀ k, p < k → k < bar → verdict k = none)
    (decided : ∀ k, bar ≤ k → k < bar + largest → k ≤ p + gaps.sum → verdict k = some w)
    (before : p < bar) (crossed : bar ≤ p + gaps.sum) :
    firstVerdict verdict p gaps = some w := by
  induction gaps generalizing p with
  | nil =>
      rw [List.sum_nil] at crossed
      omega
  | cons gap rest ih =>
      have hgap := sizes gap (by simp)
      rw [List.sum_cons] at decided crossed
      rw [firstVerdict]
      by_cases hbar : bar ≤ p + gap
      · rw [decided (p + gap) hbar (by omega) (by omega), Option.some_or]
      · rw [pending (p + gap) (by omega) (by omega), Option.none_or]
        exact ih (fun g hg => sizes g (by simp [hg])) (fun k hk => pending k (by omega))
          (fun k hk hshort hend => decided k hk hshort (by omega)) (by omega) (by omega)

/-- By some cuts the reader gets here without a verdict. -/
def Reachable (largest : Nat) (verdict : Nat → Option ω) (position : Nat) : Prop :=
  ∃ gaps, Gaps largest gaps position ∧ firstVerdict verdict 0 gaps = none

theorem reachable_zero (largest : Nat) (verdict : Nat → Option ω) :
    Reachable largest verdict 0 :=
  ⟨[], Gaps.nil largest, rfl⟩

theorem Reachable.step (reached : Reachable largest verdict p) (later : p < q)
    (short : q ≤ p + largest) (pending : verdict q = none) : Reachable largest verdict q := by
  have ⟨gaps, hgaps, hnone⟩ := reached
  have hsingle : Gaps largest [q - p] (q - p) := Gaps.single (by omega) (by omega)
  have hplace : p + (q - p) = q := by omega
  have hall := hgaps.append hsingle
  rw [hplace] at hall
  refine ⟨_, hall, ?_⟩
  rw [firstVerdict_append, hnone, hgaps.sum, Option.none_or, Nat.zero_add, firstVerdict, hplace,
    pending]
  rfl

theorem Reachable.walk (reached : Reachable largest verdict p) (positive : 0 < largest)
    (later : p ≤ q) (pending : ∀ k, p < k → k ≤ q → verdict k = none) :
    Reachable largest verdict q := by
  induction q, later using Nat.le_induction with
  | base => exact reached
  | succ q hle ih =>
      have hreached := ih fun k hk hkq => pending k hk (by omega)
      exact hreached.step (by omega) (by omega) (pending (q + 1) (by omega) le_rfl)

theorem Reachable.stop (reached : Reachable largest verdict p) (later : p < q)
    (short : q ≤ p + largest) (whole : q ≤ total) (stopped : verdict q = some w) :
    ∃ gaps, Gaps largest gaps total ∧ firstVerdict verdict 0 gaps = some w := by
  have ⟨gaps, hgaps, hnone⟩ := reached
  have hsingle : Gaps largest [q - p] (q - p) := Gaps.single (by omega) (by omega)
  have hrest : Gaps largest (List.replicate (total - q) 1) (total - q) :=
    Gaps.ones (by omega) (total - q)
  have hplace : p + (q - p) = q := by omega
  have hend : q + (total - q) = total := by omega
  have hall := (hgaps.append hsingle).append hrest
  rw [hplace, hend] at hall
  refine ⟨_, hall, ?_⟩
  rw [firstVerdict_append, firstVerdict_append, hnone, hgaps.sum, Option.none_or, Nat.zero_add,
    firstVerdict, hplace, stopped, Option.some_or, Option.some_or]

variable {β : Type*}

structure Partition (largest : Nat) (stream : List β) (chunks : List (List β)) : Prop where
  sizes : ∀ chunk ∈ chunks, 0 < chunk.length ∧ chunk.length ≤ largest
  whole : chunks.flatten = stream

theorem Partition.gaps {stream : List β} {chunks : List (List β)}
    (partition : Partition largest stream chunks) :
    Gaps largest (chunks.map List.length) stream.length := by
  refine ⟨fun gap hgap => ?_, ?_⟩
  · have ⟨chunk, hchunk, hlength⟩ := List.mem_map.mp hgap
    rw [← hlength]
    exact partition.sizes chunk hchunk
  · rw [← partition.whole, List.length_flatten]

theorem Gaps.partition {stream : List β} {gaps : List Nat}
    (h : Gaps largest gaps stream.length) :
    Partition largest stream (gaps.splitLengths stream) := by
  refine ⟨fun chunk hchunk => ?_, List.flatten_splitLengths stream gaps h.sum.ge⟩
  have hmem : chunk.length ∈ (gaps.splitLengths stream).map List.length :=
    List.mem_map_of_mem hchunk
  rw [List.map_splitLengths_length stream gaps h.sum.le] at hmem
  exact h.sizes _ hmem

end ApiGateway.CutPositions
