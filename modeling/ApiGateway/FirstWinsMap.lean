import ApiGateway.ByteText

/-! Finite maps filled by `emplace`: the first value given for a key stays.
The entry list records the insertion order; an iteration visits the entries
in an order of its own, which is any permutation of that list. -/

namespace ApiGateway

/-- A map as its entries in insertion order; no key occurs twice. -/
structure FirstWinsMap (κ ν : Type*) where
  entries : List (κ × ν)
  nodup : (entries.map Prod.fst).Nodup
  deriving DecidableEq

namespace FirstWinsMap

variable {κ ν : Type*}

@[ext] theorem ext {m m' : FirstWinsMap κ ν} (h : m.entries = m'.entries) :
    m = m' := by
  cases m
  cases m'
  congr

def empty : FirstWinsMap κ ν := ⟨[], List.nodup_nil⟩

instance : Inhabited (FirstWinsMap κ ν) := ⟨empty⟩

@[simp] theorem empty_entries : (empty : FirstWinsMap κ ν).entries = [] := rfl

section Emplace

variable [DecidableEq κ]

/-- Insert unless the key is present, as `unordered_map::emplace`. -/
def emplace (m : FirstWinsMap κ ν) (k : κ) (v : ν) : FirstWinsMap κ ν :=
  if h : k ∈ m.entries.map Prod.fst then m
  else ⟨m.entries ++ [(k, v)], by
    rw [List.map_append, List.nodup_append]
    refine ⟨m.nodup, by simp, ?_⟩
    rintro a ha b hb rfl
    obtain rfl : a = k := by simpa using hb
    exact h ha⟩

/-- Replace the value of a present key, else insert, as `operator[]` assigned to. -/
def assign (m : FirstWinsMap κ ν) (k : κ) (v : ν) : FirstWinsMap κ ν :=
  if k ∈ m.entries.map Prod.fst then
    ⟨m.entries.map fun e => if e.1 = k then (k, v) else e, by
      have hkeys : (m.entries.map fun e => if e.1 = k then (k, v) else e).map Prod.fst =
          m.entries.map Prod.fst := by
        rw [List.map_map]
        refine List.map_congr_left fun e _ => ?_
        by_cases he : e.1 = k <;> simp [he]
      rw [hkeys]
      exact m.nodup⟩
  else m.emplace k v

def lookup (m : FirstWinsMap κ ν) (k : κ) : Option ν :=
  (m.entries.find? fun e => decide (e.1 = k)).map Prod.snd

def ofList (pairs : List (κ × ν)) : FirstWinsMap κ ν :=
  pairs.foldl (fun m e => emplace m e.1 e.2) empty

@[simp] theorem lookup_empty (k : κ) : lookup (empty : FirstWinsMap κ ν) k = none := rfl

theorem emplace_entries_of_mem {m : FirstWinsMap κ ν} {k : κ} {v : ν}
    (h : k ∈ m.entries.map Prod.fst) : (emplace m k v).entries = m.entries := by
  rw [emplace, dif_pos h]

theorem emplace_entries_of_not_mem {m : FirstWinsMap κ ν} {k : κ} {v : ν}
    (h : k ∉ m.entries.map Prod.fst) : (emplace m k v).entries = m.entries ++ [(k, v)] := by
  rw [emplace, dif_neg h]

theorem lookup_eq_none_iff {m : FirstWinsMap κ ν} {k : κ} :
    lookup m k = none ↔ k ∉ m.entries.map Prod.fst := by
  rw [lookup, Option.map_eq_none_iff, List.find?_eq_none, List.mem_map]
  constructor
  · rintro h ⟨e, he, rfl⟩
    exact h e he (by simp)
  · intro h e he
    simpa using fun hk => h ⟨e, he, hk⟩

theorem lookup_emplace (m : FirstWinsMap κ ν) (k k' : κ) (v : ν) :
    lookup (emplace m k v) k' = (lookup m k').or (if k' = k then some v else none) := by
  by_cases h : k ∈ m.entries.map Prod.fst
  · have hsame : lookup (emplace m k v) k' = lookup m k' := by
      rw [lookup, emplace_entries_of_mem h, lookup]
    rw [hsame]
    by_cases hk : k' = k
    · subst hk
      cases hl : lookup m k' with
      | none => exact absurd h (lookup_eq_none_iff.mp hl)
      | some w => rfl
    · simp [hk]
  · rw [lookup, emplace_entries_of_not_mem h, List.find?_append, Option.map_or, ← lookup]
    by_cases hk : k' = k <;> simp [hk, eq_comm]

theorem lookup_foldl_emplace (pairs : List (κ × ν)) (m : FirstWinsMap κ ν) (k : κ) :
    lookup (pairs.foldl (fun m e => emplace m e.1 e.2) m) k =
      (lookup m k).or ((pairs.find? fun e => decide (e.1 = k)).map Prod.snd) := by
  induction pairs generalizing m with
  | nil => simp
  | cons e rest ih =>
    rw [List.foldl_cons, ih, lookup_emplace, Option.or_assoc]
    congr 1
    by_cases he : e.1 = k
    · simp [he]
    · have hk : ¬ k = e.1 := fun h => he h.symm
      simp [he, hk]

theorem lookup_ofList (pairs : List (κ × ν)) (k : κ) :
    lookup (ofList pairs) k = (pairs.find? fun e => decide (e.1 = k)).map Prod.snd := by
  rw [ofList, lookup_foldl_emplace, lookup_empty, Option.none_or]

def firsts : List (κ × ν) → List (κ × ν)
  | [] => []
  | e :: rest => e :: (firsts rest).filter fun e' => decide (e'.1 ≠ e.1)

theorem mem_firsts {pairs : List (κ × ν)} {e : κ × ν} :
    e ∈ firsts pairs ↔ (pairs.find? fun e' => decide (e'.1 = e.1)) = some e := by
  induction pairs with
  | nil => simp [firsts]
  | cons first rest ih =>
    by_cases hkey : first.1 = e.1
    · have hnot : e ∉ (firsts rest).filter fun e' => decide (e'.1 ≠ first.1) := by
        simp [hkey]
      rw [firsts, List.mem_cons, or_iff_left hnot, List.find?_cons_of_pos (by simpa using hkey),
        Option.some.injEq]
      exact eq_comm
    · have hne : e ≠ first := fun h => hkey (by rw [h])
      have hkey' : e.1 ≠ first.1 := fun h => hkey h.symm
      simp [firsts, hne, hkey, hkey', ih]

theorem mem_of_mem_firsts {pairs : List (κ × ν)} {e : κ × ν} (h : e ∈ firsts pairs) : e ∈ pairs :=
  List.mem_of_find?_eq_some (mem_firsts.mp h)

theorem exists_mem_firsts {pairs : List (κ × ν)} {e : κ × ν} (h : e ∈ pairs) :
    ∃ e' ∈ firsts pairs, e'.1 = e.1 := by
  cases hfind : pairs.find? fun e' => decide (e'.1 = e.1) with
  | none => simpa using List.find?_eq_none.mp hfind e h
  | some e' =>
      have hkey : e'.1 = e.1 := by simpa using List.find?_some hfind
      exact ⟨e', mem_firsts.mpr (by rw [hkey]; exact hfind), hkey⟩

theorem firsts_filter (p : κ → Bool) (pairs : List (κ × ν)) :
    firsts (pairs.filter fun e => p e.1) = (firsts pairs).filter fun e => p e.1 := by
  induction pairs with
  | nil => rfl
  | cons e rest ih =>
    simp only [List.filter_cons, firsts]
    by_cases he : p e.1 = true
    · rw [if_pos he, if_pos he, firsts, ih, List.filter_comm]
    · have hkept : ∀ e' ∈ firsts rest, p e'.1 = true → e'.1 ≠ e.1 := by
        intro e' _ hp hkey
        rw [hkey] at hp
        exact he hp
      rw [if_neg he, if_neg he, ih, List.filter_filter]
      refine List.filter_congr fun e' he' => ?_
      by_cases hp : p e'.1 = true
      · simp [hp, hkept e' he' hp]
      · simp [hp]

theorem firsts_of_nodup {pairs : List (κ × ν)} (h : (pairs.map Prod.fst).Nodup) :
    firsts pairs = pairs := by
  induction pairs with
  | nil => rfl
  | cons e rest ih =>
    have ⟨hne, hrest⟩ := List.nodup_cons.mp h
    rw [firsts, ih hrest, List.filter_eq_self.mpr]
    intro e' he'
    simpa using fun hk => hne (List.mem_map.mpr ⟨e', he', hk⟩)

theorem entries_foldl_emplace (pairs : List (κ × ν)) (m : FirstWinsMap κ ν) :
    (pairs.foldl (fun m e => emplace m e.1 e.2) m).entries =
      m.entries ++ (firsts pairs).filter fun e => decide (e.1 ∉ m.entries.map Prod.fst) := by
  induction pairs generalizing m with
  | nil => simp [firsts]
  | cons e rest ih =>
    rw [List.foldl_cons, ih, firsts]
    by_cases h : e.1 ∈ m.entries.map Prod.fst
    · rw [emplace_entries_of_mem h, List.filter_cons_of_neg (by simpa using h), List.filter_filter]
      congr 1
      apply List.filter_congr
      intro e' _
      by_cases hk : e'.1 = e.1
      · simp [hk, h]
      · simp [hk]
    · rw [emplace_entries_of_not_mem h, List.filter_cons_of_pos (by simpa using h),
        List.filter_filter, List.append_assoc, List.singleton_append]
      congr 2
      apply List.filter_congr
      intro e' _
      simp only [List.map_append, List.mem_append, List.map_cons, List.map_nil,
        List.mem_singleton, not_or, Bool.decide_and]

theorem entries_ofList (pairs : List (κ × ν)) : (ofList pairs).entries = firsts pairs := by
  rw [ofList, entries_foldl_emplace]
  simp

end Emplace

end FirstWinsMap

/-- The order in which an iteration visits a map's entries: some permutation
of them, determined by what was inserted. -/
structure IterationOrder (κ ν : Type*) where
  order : List (κ × ν) → List (κ × ν)
  perm : ∀ entries, (order entries).Perm entries

instance : Inhabited (IterationOrder κ ν) := ⟨⟨id, fun _ => List.Perm.refl _⟩⟩

namespace FirstWinsMap

variable {κ ν : Type*}

def iterate (ord : IterationOrder κ ν) (m : FirstWinsMap κ ν) : List (κ × ν) :=
  ord.order m.entries

theorem iterate_perm (ord : IterationOrder κ ν) (m : FirstWinsMap κ ν) :
    (iterate ord m).Perm m.entries :=
  ord.perm _

theorem iterate_nodup (ord : IterationOrder κ ν) (m : FirstWinsMap κ ν) :
    ((iterate ord m).map Prod.fst).Nodup :=
  ((iterate_perm ord m).map Prod.fst).nodup_iff.mpr m.nodup

theorem mem_iterate {ord : IterationOrder κ ν} {m : FirstWinsMap κ ν} {e : κ × ν} :
    e ∈ iterate ord m ↔ e ∈ m.entries :=
  (iterate_perm ord m).mem_iff

end FirstWinsMap

end ApiGateway
