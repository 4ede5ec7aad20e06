import Mathlib

/-! Byte strings with first-occurrence search. A position is the number of
bytes before it, as in `std::string`. -/

namespace ApiGateway.ByteText

abbrev Bytes := List UInt8

def ascii (text : String) : Bytes :=
  text.toList.map fun c => UInt8.ofNat c.toNat

section Search

variable {α : Type*} [DecidableEq α]

/-- Position of the first occurrence of `pat`, as `std::string::find`. -/
def find (pat : List α) : List α → Option Nat
  | [] => if pat = [] then some 0 else none
  | b :: rest =>
      if pat.isPrefixOf (b :: rest) then some 0 else (find pat rest).map (· + 1)

theorem find_at_start {pat s : List α} (h : pat <+: s) : find pat s = some 0 := by
  cases s with
  | nil => simp [find, List.prefix_nil.mp h]
  | cons b rest => simp [find, List.isPrefixOf_iff_prefix.mpr h]

theorem find_cons {pat rest : List α} {b : α} (h : ¬ pat <+: b :: rest) :
    find pat (b :: rest) = (find pat rest).map (· + 1) := by
  have hb : pat.isPrefixOf (b :: rest) = false := by
    rw [Bool.eq_false_iff]
    exact fun ht => h (List.isPrefixOf_iff_prefix.mp ht)
  simp [find, hb]

theorem find_eq_some_iff {pat s : List α} {i : Nat} :
    find pat s = some i ↔
      i ≤ s.length ∧ pat <+: s.drop i ∧ ∀ j < i, ¬ pat <+: s.drop j := by
  induction s generalizing i with
  | nil =>
    by_cases hp : pat = []
    · subst hp
      cases i <;> simp [find]
    · simp [find, hp, List.prefix_nil]
  | cons b rest ih =>
    by_cases hp : pat <+: b :: rest
    · rw [find_at_start hp]
      constructor
      · intro h
        cases h
        simpa using hp
      · rintro ⟨-, -, hmin⟩
        cases i with
        | zero => rfl
        | succ i => exact absurd hp (by simpa using hmin 0 (Nat.succ_pos i))
    · rw [find_cons hp, Option.map_eq_some_iff]
      constructor
      · rintro ⟨k, hk, rfl⟩
        obtain ⟨hle, hat, hmin⟩ := ih.mp hk
        refine ⟨by simpa using hle, by simpa using hat, fun j hj => ?_⟩
        cases j with
        | zero => simpa using hp
        | succ j => simpa using hmin j (by omega)
      · rintro ⟨hle, hat, hmin⟩
        cases i with
        | zero => exact absurd (by simpa using hat) hp
        | succ i =>
          refine ⟨i, ih.mpr ⟨by simpa using hle, by simpa using hat, fun j hj => ?_⟩, rfl⟩
          simpa using hmin (j + 1) (by omega)

theorem find_eq_none_iff {pat s : List α} :
    find pat s = none ↔ ∀ j ≤ s.length, ¬ pat <+: s.drop j := by
  constructor
  · intro h
    by_contra hex
    have hex' : ∃ j, j ≤ s.length ∧ pat <+: s.drop j := by
      simpa only [not_forall, not_not, exists_prop] using hex
    classical
    obtain ⟨hle, hat⟩ := Nat.find_spec hex'
    have hmin : ∀ j < Nat.find hex', ¬ pat <+: s.drop j := fun j hj hp =>
      Nat.find_min hex' hj ⟨by omega, hp⟩
    rw [find_eq_some_iff.mpr ⟨hle, hat, hmin⟩] at h
    cases h
  · intro h
    cases hf : find pat s with
    | none => rfl
    | some i =>
      obtain ⟨hle, hat, -⟩ := find_eq_some_iff.mp hf
      exact absurd hat (h i hle)

theorem find_isSome_iff {pat s : List α} : (find pat s).isSome ↔ pat <:+: s := by
  constructor
  · intro h
    obtain ⟨i, hi⟩ := Option.isSome_iff_exists.mp h
    obtain ⟨-, hat, -⟩ := find_eq_some_iff.mp hi
    exact hat.isInfix.trans (List.drop_suffix i s).isInfix
  · rintro ⟨before, after, rfl⟩
    rw [Option.isSome_iff_ne_none]
    intro hnone
    refine find_eq_none_iff.mp hnone before.length (by simp) ?_
    rw [List.append_assoc, List.drop_left]
    exact List.prefix_append _ _

theorem find_add_length_le {pat s : List α} {i : Nat} (h : find pat s = some i) :
    i + pat.length ≤ s.length := by
  obtain ⟨hle, hat, -⟩ := find_eq_some_iff.mp h
  have := hat.length_le
  rw [List.length_drop] at this
  omega

theorem find_split {pat s : List α} {i : Nat} (h : find pat s = some i) :
    s = s.take i ++ pat ++ s.drop (i + pat.length) := by
  obtain ⟨-, ⟨rest, hrest⟩, -⟩ := find_eq_some_iff.mp h
  have hdrop : s.drop (i + pat.length) = rest := by
    rw [← List.drop_drop, ← hrest, List.drop_left]
  rw [hdrop, List.append_assoc, hrest, List.take_append_drop]

theorem find_append {pat s : List α} {i : Nat} (h : find pat s = some i) (t : List α) :
    find pat (s ++ t) = some i := by
  obtain ⟨hle, hat, hmin⟩ := find_eq_some_iff.mp h
  have hlen := find_add_length_le h
  refine find_eq_some_iff.mpr ⟨by simp; omega, ?_, fun j hj hp => hmin j hj ?_⟩
  · rw [List.drop_append_of_le_length hle]
    exact hat.trans (List.prefix_append _ _)
  · rw [List.drop_append_of_le_length (by omega)] at hp
    exact List.prefix_of_prefix_length_le hp (List.prefix_append _ _)
      (by rw [List.length_drop]; omega)

theorem find_of_append {pat s t : List α} {i : Nat} (h : find pat (s ++ t) = some i)
    (hi : i + pat.length ≤ s.length) : find pat s = some i := by
  obtain ⟨-, hat, hmin⟩ := find_eq_some_iff.mp h
  refine find_eq_some_iff.mpr ⟨by omega, ?_, fun j hj hp => hmin j hj ?_⟩
  · rw [List.drop_append_of_le_length (by omega)] at hat
    exact List.prefix_of_prefix_length_le hat (List.prefix_append _ _)
      (by rw [List.length_drop]; omega)
  · rw [List.drop_append_of_le_length (by omega)]
    exact hp.trans (List.prefix_append _ _)

omit [DecidableEq α] in
theorem singleton_prefix_drop {b : α} {s : List α} {j : Nat} : [b] <+: s.drop j ↔ s[j]? = some b := by
  rw [List.prefix_iff_eq_take, ← List.head?_drop]
  cases s.drop j <;> simp [eq_comm]

theorem find_byte {b : α} {before : List α} (h : b ∉ before) (after : List α) :
    find [b] (before ++ b :: after) = some before.length := by
  refine find_eq_some_iff.mpr ⟨by simp, by simp, fun j hj hp => h ?_⟩
  rw [singleton_prefix_drop, List.getElem?_append_left hj] at hp
  exact List.mem_of_getElem? hp

theorem find_byte_eq_none {b : α} {s : List α} : find [b] s = none ↔ b ∉ s := by
  rw [← Option.not_isSome_iff_eq_none, find_isSome_iff, List.singleton_infix_iff]

theorem not_mem_take_of_find {b : α} {s : List α} {i : Nat} (h : find [b] s = some i) :
    b ∉ s.take i := by
  intro hmem
  obtain ⟨j, hj⟩ := List.mem_iff_getElem?.mp hmem
  have hlt : j < i := by
    by_contra hge
    rw [List.getElem?_take_eq_none (by omega)] at hj
    cases hj
  rw [List.getElem?_take_of_lt hlt] at hj
  exact (find_eq_some_iff.mp h).2.2 j hlt (singleton_prefix_drop.mpr hj)

/-- What stands before the first `b`, everything if there is none. -/
def before (b : α) (s : List α) : List α := s.takeWhile fun c => decide (c ≠ b)

def behind (b : α) (s : List α) : List α := (s.dropWhile fun c => decide (c ≠ b)).drop 1

theorem before_of_not_mem {b : α} {s : List α} (h : b ∉ s) : before b s = s := by
  rw [before, List.takeWhile_eq_self_iff]
  intro c hc
  simpa using ne_of_mem_of_not_mem hc h

theorem behind_of_not_mem {b : α} {s : List α} (h : b ∉ s) : behind b s = [] := by
  rw [behind, List.dropWhile_eq_nil_iff.mpr]
  · rfl
  · intro c hc
    simpa using ne_of_mem_of_not_mem hc h

theorem before_append {b : α} {s : List α} (h : b ∉ s) (t : List α) :
    before b (s ++ b :: t) = s := by
  have hs : ∀ c ∈ s, decide (c ≠ b) = true := by
    intro c hc
    simpa using ne_of_mem_of_not_mem hc h
  rw [before, List.takeWhile_append_of_pos hs]
  simp

theorem behind_append {b : α} {s : List α} (h : b ∉ s) (t : List α) :
    behind b (s ++ b :: t) = t := by
  have hs : ∀ c ∈ s, decide (c ≠ b) = true := by
    intro c hc
    simpa using ne_of_mem_of_not_mem hc h
  rw [behind, List.dropWhile_append_of_pos hs]
  simp

theorem before_inside (b : α) (s : List α) : before b s <:+: s :=
  (List.takeWhile_prefix _).isInfix

theorem behind_inside (b : α) (s : List α) : behind b s <:+: s :=
  ((List.drop_suffix _ _).trans (List.dropWhile_suffix _)).isInfix

theorem take_of_find {b : α} {s : List α} {i : Nat} (h : find [b] s = some i) :
    s.take i = before b s := by
  have hsplit := find_split h
  rw [List.append_assoc, List.singleton_append] at hsplit
  conv_rhs => rw [hsplit]
  rw [before_append (not_mem_take_of_find h)]

theorem drop_of_find {b : α} {s : List α} {i : Nat} (h : find [b] s = some i) :
    s.drop (i + 1) = behind b s := by
  have hsplit := find_split h
  rw [List.append_assoc, List.singleton_append] at hsplit
  conv_rhs => rw [hsplit]
  rw [behind_append (not_mem_take_of_find h)]
  rfl

theorem before_behind {b : α} {s : List α} (h : b ∈ s) : s = before b s ++ b :: behind b s := by
  cases hfind : find [b] s with
  | none => exact absurd h (find_byte_eq_none.mp hfind)
  | some i =>
      have hsplit := find_split hfind
      rwa [take_of_find hfind, List.length_singleton, drop_of_find hfind, List.append_assoc,
        List.singleton_append] at hsplit

omit [DecidableEq α] in
theorem last_split {b : α} {s t s' t' : List α} (ht : b ∉ t) (ht' : b ∉ t')
    (same : s ++ b :: t = s' ++ b :: t') : s = s' ∧ t = t' := by
  classical
  have hreverse := congrArg List.reverse same
  rw [List.reverse_append, List.reverse_append, List.reverse_cons, List.reverse_cons,
    List.append_assoc, List.append_assoc, List.singleton_append, List.singleton_append] at hreverse
  have hbefore := congrArg (before b) hreverse
  have hbehind := congrArg (behind b) hreverse
  rw [before_append (by simpa using ht), before_append (by simpa using ht')] at hbefore
  rw [behind_append (by simpa using ht), behind_append (by simpa using ht')] at hbehind
  exact ⟨List.reverse_injective hbehind, List.reverse_injective hbefore⟩

def findFrom (pat s : List α) (pos : Nat) : Option Nat := (find pat (s.drop pos)).map (· + pos)

theorem find_skip {pat s : List α} {n : Nat} (h : ∀ j < n, ¬ pat <+: s.drop j)
    (hn : n ≤ s.length) : find pat s = (find pat (s.drop n)).map (· + n) := by
  induction n generalizing s with
  | zero => simp
  | succ n ih =>
      cases s with
      | nil => simp at hn
      | cons b rest =>
          have hrest := ih (s := rest) (fun j hj => by simpa using h (j + 1) (by omega))
            (by simpa using hn)
          rw [find_cons (by simpa using h 0 (by omega)), hrest, Option.map_map, List.drop_succ_cons]
          congr 1

theorem find_resume {pat s : List α} (h : find pat s = none) (t : List α) :
    (find pat ((s ++ t).drop (s.length - (pat.length - 1)))).isSome =
      (find pat (s ++ t)).isSome := by
  rw [Bool.eq_iff_iff]
  constructor
  · intro hsome
    obtain ⟨i, hi⟩ := Option.isSome_iff_exists.mp hsome
    by_contra hnone
    have hnot := find_eq_none_iff.mp (Option.not_isSome_iff_eq_none.mp hnone)
    obtain ⟨hle, hat, -⟩ := find_eq_some_iff.mp hi
    rw [List.drop_drop] at hat
    rw [List.length_drop] at hle
    exact hnot _ (by rw [List.length_append] at hle ⊢; omega) hat
  · intro hsome
    obtain ⟨i, hi⟩ := Option.isSome_iff_exists.mp hsome
    by_contra hnone
    have hnot := find_eq_none_iff.mp (Option.not_isSome_iff_eq_none.mp hnone)
    obtain ⟨hle, hat, -⟩ := find_eq_some_iff.mp hi
    have hfar : s.length < i + pat.length := by
      by_contra hin
      rw [find_of_append hi (by omega)] at h
      cases h
    refine hnot (i - (s.length - (pat.length - 1))) (by rw [List.length_drop]; omega) ?_
    rw [List.drop_drop, show s.length - (pat.length - 1) + (i - (s.length - (pat.length - 1))) = i by
      omega]
    exact hat

end Search

section Ended

variable {α : Type*} [DecidableEq α]

def endEach (b : α) (pieces : List (List α)) : List α := pieces.flatMap fun piece => piece ++ [b]

theorem splitOn_endEach {b : α} {pieces : List (List α)} (h : ∀ piece ∈ pieces, b ∉ piece) :
    (endEach b pieces).splitOn b = pieces ++ [[]] := by
  induction pieces with
  | nil => rfl
  | cons piece rest ih =>
      have hsplit : endEach b (piece :: rest) = piece ++ b :: endEach b rest := by simp [endEach]
      rw [hsplit, List.splitOn_append_cons_self_of_not_mem (h piece (by simp)),
        ih fun piece hpiece => h piece (by simp [hpiece])]
      rfl

theorem length_splitOn (b : α) (s : List α) : (s.splitOn b).length = s.count b + 1 := by
  induction s with
  | nil => rfl
  | cons c s ih =>
      rw [List.splitOn, List.splitOnP_cons_eq_if_modifyHead, List.count_cons]
      split_ifs with hc
      · rw [List.length_cons]
        exact congrArg (· + 1) ih
      · rw [List.length_modifyHead]
        exact ih

theorem count_endEach (b : α) (pieces : List (List α)) :
    (endEach b pieces).count b = pieces.length + (pieces.map (List.count b)).sum := by
  induction pieces with
  | nil => rfl
  | cons piece rest ih =>
      have hsplit : endEach b (piece :: rest) = piece ++ b :: endEach b rest := by simp [endEach]
      rw [hsplit, List.count_append, List.count_cons_self, ih, List.length_cons, List.map_cons,
        List.sum_cons]
      omega

theorem not_mem_of_length_splitOn {b : α} {pieces : List (List α)}
    (h : ((endEach b pieces).splitOn b).length = pieces.length + 1) :
    ∀ piece ∈ pieces, b ∉ piece := by
  rw [length_splitOn, count_endEach] at h
  have hsum : (pieces.map (List.count b)).sum = 0 := by omega
  intro piece hpiece
  rw [← List.count_eq_zero]
  exact List.sum_eq_zero_iff.mp hsum _ (List.mem_map_of_mem hpiece)

end Ended

end ApiGateway.ByteText
