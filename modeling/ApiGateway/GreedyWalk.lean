import Mathlib

/-! Greedy walks through a set of words. At each input symbol the walk takes
the first candidate letter that stays inside the set and never goes back.
Membership of longer words does not influence a choice already made. -/

namespace ApiGateway.GreedyWalk

variable {σ κ : Type*}

/-- `d` is tried before `c` at the symbol `s`. -/
def Earlier (candidates : σ → List κ) (s : σ) (d c : κ) : Prop :=
  ∃ skipped later, candidates s = skipped ++ c :: later ∧ d ∈ skipped

def Follows (candidates : σ → List κ) (p : List σ) (y : List κ) : Prop :=
  List.Forall₂ (fun s c => c ∈ candidates s) p y

/-- From the word `q` the input `p` is consumed along the letters `y`. -/
inductive Greedy (candidates : σ → List κ) (S : List κ → Prop) :
    List κ → List σ → List κ → Prop
  | nil (q : List κ) : Greedy candidates S q [] []
  | cons {q : List κ} {s : σ} {p : List σ} {skipped later : List κ} {c : κ} {y : List κ}
      (split : candidates s = skipped ++ c :: later) (taken : S (q ++ [c]))
      (refused : ∀ d ∈ skipped, ¬ S (q ++ [d]))
      (rest : Greedy candidates S (q ++ [c]) p y) :
      Greedy candidates S q (s :: p) (c :: y)

variable {candidates : σ → List κ} {S : List κ → Prop}

theorem Greedy.follows {q : List κ} {p : List σ} {y : List κ}
    (h : Greedy candidates S q p y) : Follows candidates p y := by
  induction h with
  | nil q => exact .nil
  | cons split taken refused rest ih => exact .cons (by rw [split]; simp) ih

theorem Greedy.unshadowed (nodup : ∀ s, (candidates s).Nodup) {q : List κ} {p : List σ}
    {y : List κ} (h : Greedy candidates S q p y) :
    ∀ i s c d, p[i]? = some s → y[i]? = some c → Earlier candidates s d c →
      ¬ S (q ++ y.take i ++ [d]) := by
  induction h with
  | nil q => simp
  | @cons q s p skipped later c y split taken refused rest ih =>
    intro i s' c' d hs hc hd
    cases i with
    | zero =>
      obtain rfl : s = s' := by simpa using hs
      obtain rfl : c = c' := by simpa using hc
      obtain ⟨skipped', later', split', hmem⟩ := hd
      have hsame : skipped = skipped' := by
        have hn := nodup s
        rw [split, List.nodup_append] at hn
        have hbefore : c ∉ skipped := fun hm => hn.2.2 c hm c (by simp) rfl
        have hafter : c ∉ later := (List.nodup_cons.mp hn.2.1).1
        exact ((List.append_cons_inj_of_notMem hbefore hafter).mp (split.symm.trans split')).1
      subst hsame
      simpa using refused d hmem
    | succ i => simpa using ih i s' c' d (by simpa using hs) (by simpa using hc) hd

theorem greedy_of_unshadowed {q : List κ} {p : List σ} {y : List κ}
    (follows : Follows candidates p y) (inside : ∀ i < y.length, S (q ++ y.take (i + 1)))
    (unshadowed : ∀ i s c d, p[i]? = some s → y[i]? = some c → Earlier candidates s d c →
      ¬ S (q ++ y.take i ++ [d])) : Greedy candidates S q p y := by
  induction follows generalizing q with
  | nil => exact .nil q
  | @cons s c p y hc follows ih =>
    obtain ⟨skipped, later, split⟩ := List.append_of_mem hc
    refine .cons split (by simpa using inside 0 (by simp)) ?_ (ih ?_ ?_)
    · intro d hd
      simpa using unshadowed 0 s c d rfl rfl ⟨skipped, later, split, hd⟩
    · intro i hi
      simpa using inside (i + 1) (by simpa using hi)
    · intro i s' c' d hs' hc' hd
      simpa using unshadowed (i + 1) s' c' d (by simpa using hs') (by simpa using hc') hd

theorem exists_first_difference {x y : List κ} (len : x.length = y.length) (ne : x ≠ y) :
    ∃ i c d, x[i]? = some c ∧ y[i]? = some d ∧ x.take i = y.take i ∧ c ≠ d := by
  induction x generalizing y with
  | nil =>
    cases y with
    | nil => exact absurd rfl ne
    | cons d y => simp at len
  | cons c x ih =>
    cases y with
    | nil => simp at len
    | cons d y =>
      by_cases hcd : c = d
      · subst hcd
        obtain ⟨i, c', d', hc, hd, htake, hne⟩ :=
          ih (by simpa using len) fun h => ne (by rw [h])
        exact ⟨i + 1, c', d', by simpa using hc, by simpa using hd, by simpa using htake, hne⟩
      · exact ⟨0, c, d, rfl, rfl, rfl, hcd⟩

theorem Greedy.precedence (nodup : ∀ s, (candidates s).Nodup) {p : List σ} {x y : List κ}
    (h : Greedy candidates S [] p x) (inside : ∀ i < y.length, S (y.take (i + 1)))
    {i : Nat} {s : σ} {c d : κ} (hs : p[i]? = some s) (hc : x[i]? = some c)
    (hd : y[i]? = some d) (agree : x.take i = y.take i) : ¬ Earlier candidates s d c := by
  intro earlier
  have hlt : i < y.length := (List.getElem?_eq_some_iff.mp hd).1
  have hin := inside i hlt
  rw [List.take_add_one, hd, ← agree] at hin
  exact h.unshadowed nodup i s c d hs hc earlier (by simpa using hin)

end ApiGateway.GreedyWalk
