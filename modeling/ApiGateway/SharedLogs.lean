import ApiGateway.ResourceLogs

/-! One log of several parties that are given handles from the same numbering. A handle that one
of them gives back may be given to another; if each works with its own and nothing is given out
that any of them has, then together they are as one. -/

namespace ApiGateway.SharedLogs
open ResourceLogs

variable {H P Q T : Type*}

def relabel (f : P → Q) : Operation H P → Operation H Q
  | .acquire h => .acquire h
  | .use h => .use h
  | .attach h label => .attach h (f label)
  | .release h => .release h

theorem relabel_eq_acquire {f : P → Q} {op : Operation H P} {h : H} :
    relabel f op = .acquire h ↔ op = .acquire h := by
  cases op <;> simp [relabel]

section Relabelled

variable [DecidableEq H]

theorem held_relabel (f : P → Q) (log : List (Operation H P)) (h : H) :
    held (log.map (relabel f)) h = (held log h).map (Option.map f) := by
  induction log using List.reverseRecOn generalizing h with
  | nil => rfl
  | append_singleton log op ih =>
      rw [List.map_append, List.map_singleton]
      cases op with
      | acquire h' =>
          rw [relabel, held_acquire, held_acquire]
          by_cases hh : h = h'
          · rw [hh, Function.update_self, Function.update_self]
            rfl
          · rw [Function.update_of_ne hh, Function.update_of_ne hh, ih]
      | use h' => rw [relabel, held_use, held_use, ih]
      | attach h' label =>
          rw [relabel, held_attach, held_attach]
          by_cases hh : h = h'
          · rw [hh, Function.update_self, Function.update_self, ih]
            cases held log h' <;> rfl
          · rw [Function.update_of_ne hh, Function.update_of_ne hh, ih]
      | release h' =>
          rw [relabel, held_release, held_release]
          by_cases hh : h = h'
          · rw [hh, Function.update_self, Function.update_self]
            rfl
          · rw [Function.update_of_ne hh, Function.update_of_ne hh, ih]

theorem allowed_relabel {f : P → Q} {log : List (Operation H P)} {op : Operation H P}
    (allowed : Allowed (held log) op) : Allowed (held (log.map (relabel f))) (relabel f op) := by
  cases op with
  | acquire h =>
      change held (log.map (relabel f)) h = none
      rw [held_relabel, show held log h = none from allowed]
      rfl
  | use h | attach h label | release h =>
      change held (log.map (relabel f)) h ≠ none
      rw [held_relabel]
      simpa using (show held log h ≠ none from allowed)

theorem proper_relabel (f : P → Q) {log : List (Operation H P)} (proper : Proper log) :
    Proper (log.map (relabel f)) := by
  induction proper with
  | nil => exact .nil
  | snoc _ allowed ih =>
      rw [List.map_append, List.map_singleton]
      exact ih.snoc (allowed_relabel allowed)

end Relabelled

section Parts

variable [DecidableEq T]

def part (t : T) (log : List (T × Operation H P)) : List (Operation H P) :=
  (log.filter fun entry => entry.1 = t).map Prod.snd

@[simp] theorem part_append (t : T) (log more : List (T × Operation H P)) :
    part t (log ++ more) = part t log ++ part t more := by
  simp [part]

theorem part_tagged (t : T) (ops : List (Operation H P)) : part t (ops.map (Prod.mk t)) = ops := by
  induction ops with
  | nil => rfl
  | cons op rest ih => simpa [part] using ih

theorem part_tagged_of_ne {t t' : T} (other : t' ≠ t) (ops : List (Operation H P)) :
    part t' (ops.map (Prod.mk t)) = [] := by
  induction ops with
  | nil => rfl
  | cons op rest ih => simp [part, other.symm]

theorem part_snoc (t : T) (log : List (T × Operation H P)) (op : Operation H P) :
    part t (log ++ [(t, op)]) = part t log ++ [op] := by
  rw [part_append]
  exact congrArg _ (part_tagged t [op])

theorem part_snoc_of_ne {t t' : T} (other : t' ≠ t) (log : List (T × Operation H P))
    (op : Operation H P) : part t' (log ++ [(t, op)]) = part t' log := by
  rw [part_append]
  exact (congrArg _ (part_tagged_of_ne other [op])).trans (List.append_nil _)

end Parts

variable [DecidableEq H] [DecidableEq T]

/-- Each party works with what it has, and is only given what none of them has. -/
inductive Shared : List (T × Operation H P) → Prop where
  | nil : Shared []
  | snoc {log : List (T × Operation H P)} {t : T} {op : Operation H P} :
      Shared log → Allowed (held (part t log)) op →
        (∀ h, op = .acquire h → ∀ t', held (part t' log) h = none) → Shared (log ++ [(t, op)])

theorem Shared.proper_part {log : List (T × Operation H P)} (shared : Shared log) (t : T) :
    Proper (part t log) := by
  induction shared with
  | nil => exact .nil
  | @snoc log t' op _ allowed _ ih =>
      by_cases hsame : t = t'
      · subst hsame
        rw [part_snoc]
        exact ih.snoc allowed
      · rwa [part_snoc_of_ne hsame]

theorem held_snoc_of_ne {log : List (Operation H P)} {op : Operation H P} {h : H}
    (other : h ≠ op.handle) : held (log ++ [op]) h = held log h := by
  cases op with
  | acquire h' =>
      rw [held_acquire]
      exact Function.update_of_ne other _ _
  | use h' => rw [held_use]
  | attach h' label =>
      rw [held_attach]
      exact Function.update_of_ne other _ _
  | release h' =>
      rw [held_release]
      exact Function.update_of_ne other _ _

theorem held_snoc_congr {log log' : List (Operation H P)} {op : Operation H P}
    (same : held log op.handle = held log' op.handle) :
    held (log ++ [op]) op.handle = held (log' ++ [op]) op.handle := by
  cases op with
  | acquire h => rw [held_acquire, held_acquire, Operation.handle, Function.update_self,
      Function.update_self]
  | use h => rwa [held_use, held_use]
  | attach h label =>
      rw [Operation.handle] at same
      rw [held_attach, held_attach, Operation.handle, Function.update_self, Function.update_self,
        same]
  | release h => rw [held_release, held_release, Operation.handle, Function.update_self,
      Function.update_self]

section Rules

variable {log : List (T × Operation H P)} {t t' : T} {op : Operation H P} {h : H}

theorem others_of_alone
    (alone : ∀ t t' h, held (part t log) h ≠ none → held (part t' log) h ≠ none → t = t')
    (allowed : Allowed (held (part t log)) op)
    (fresh : ∀ h, op = .acquire h → ∀ t', held (part t' log) h = none) (other : t' ≠ t) :
    held (part t' log) op.handle = none := by
  by_contra hheld
  cases op with
  | acquire h => exact hheld (fresh h rfl t')
  | use h | attach h label | release h => exact other (alone t' t h hheld allowed)

theorem Shared.alone (shared : Shared log) :
    ∀ t t' h, held (part t log) h ≠ none → held (part t' log) h ≠ none → t = t' := by
  induction shared with
  | nil => exact fun t t' h hheld => absurd rfl hheld
  | @snoc log t op earlier allowed fresh ih =>
      have honly : ∀ t' h, held (part t' (log ++ [(t, op)])) h ≠ none →
          h = op.handle → t' = t := by
        rintro t' h hheld rfl
        by_contra hother
        rw [part_snoc_of_ne hother] at hheld
        exact hheld (others_of_alone ih allowed fresh hother)
      have hbefore : ∀ t' h, h ≠ op.handle →
          held (part t' (log ++ [(t, op)])) h = held (part t' log) h := by
        intro t' h hne
        by_cases ht : t' = t
        · rw [ht, part_snoc, held_snoc_of_ne hne]
        · rw [part_snoc_of_ne ht]
      intro t₁ t₂ h hheld₁ hheld₂
      by_cases hh : h = op.handle
      · rw [honly t₁ h hheld₁ hh, honly t₂ h hheld₂ hh]
      · rw [hbefore _ _ hh] at hheld₁ hheld₂
        exact ih t₁ t₂ h hheld₁ hheld₂

theorem Shared.others (shared : Shared log) (allowed : Allowed (held (part t log)) op)
    (fresh : ∀ h, op = .acquire h → ∀ t', held (part t' log) h = none) (other : t' ≠ t) :
    held (part t' log) op.handle = none :=
  others_of_alone shared.alone allowed fresh other

theorem Shared.whole (shared : Shared log) (h : H) (label : Option P) :
    held (log.map Prod.snd) h = some label ↔ ∃ t, held (part t log) h = some label := by
  induction shared generalizing h label with
  | nil => exact iff_of_false (by simp [held]) (by simp [part, held])
  | @snoc log t op earlier allowed fresh ih =>
      rw [List.map_append, List.map_singleton]
      by_cases hh : h = op.handle
      · have hnone : ∀ t' ≠ t, held (part t' log) op.handle = none :=
          fun t' hother => earlier.others allowed fresh hother
        -- the handle is with this party, or with none
        have hsame : held (log.map Prod.snd) op.handle = held (part t log) op.handle := by
          ext label
          rw [ih]
          constructor
          · rintro ⟨t', ht'⟩
            by_cases hother : t' = t
            · rwa [hother] at ht'
            · rw [hnone t' hother] at ht'
              cases ht'
          · exact fun ht => ⟨t, ht⟩
        rw [hh, held_snoc_congr hsame]
        constructor
        · intro hheld
          exact ⟨t, by rwa [part_snoc]⟩
        · rintro ⟨t', ht'⟩
          by_cases hother : t' = t
          · rwa [hother, part_snoc] at ht'
          · rw [part_snoc_of_ne hother, hnone t' hother] at ht'
            cases ht'
      · rw [held_snoc_of_ne hh, ih]
        refine exists_congr fun t' => ?_
        by_cases hother : t' = t
        · rw [hother, part_snoc, held_snoc_of_ne hh]
        · rw [part_snoc_of_ne hother]

theorem Shared.free_iff (shared : Shared log) (h : H) :
    held (log.map Prod.snd) h = none ↔ ∀ t, held (part t log) h = none := by
  simp only [Option.eq_none_iff_forall_ne_some, ne_eq, shared.whole, not_exists]
  exact forall_comm

theorem Shared.proper (shared : Shared log) : Proper (log.map Prod.snd) := by
  induction shared with
  | nil => exact .nil
  | @snoc log t op earlier allowed fresh ih =>
      rw [List.map_append, List.map_singleton]
      refine ih.snoc ?_
      cases op with
      | acquire h => exact (earlier.free_iff h).mpr (fresh h rfl)
      | use h | attach h label | release h =>
          exact fun hfree => allowed ((earlier.free_iff h).mp hfree t)

theorem Shared.untouched {before later : List (T × Operation H P)}
    (shared : Shared (before ++ (t, op) :: later)) (other : t' ≠ t) :
    held (part t' before) op.handle = none := by
  induction later using List.reverseRecOn with
  | nil =>
      generalize hlog : before ++ [(t, op)] = log at shared
      cases shared with
      | nil => simp at hlog
      | snoc earlier allowed fresh =>
          obtain ⟨rfl, hlast⟩ := List.append_inj' hlog rfl
          cases hlast
          exact earlier.others allowed fresh other
  | append_singleton later last ih =>
      refine ih ?_
      generalize hlog : before ++ (t, op) :: (later ++ [last]) = log at shared
      cases shared with
      | nil => simp at hlog
      | @snoc log' t₂ op₂ earlier _ _ =>
          have hsplit : (before ++ (t, op) :: later) ++ [last] = log' ++ [(t₂, op₂)] := by
            rw [← hlog]
            simp
          rw [(List.append_inj' hsplit rfl).1]
          exact earlier

theorem Shared.extend (shared : Shared log) {ops : List (Operation H P)}
    (proper : Proper (part t log ++ ops))
    (fresh : ∀ h, .acquire h ∈ ops → ∀ t' ≠ t, held (part t' log) h = none) :
    Shared (log ++ ops.map (Prod.mk t)) := by
  induction ops generalizing log with
  | nil => simpa using shared
  | cons op rest ih =>
      have hallowed := proper.allowed
      have hfirst : Shared (log ++ [(t, op)]) := by
        refine shared.snoc hallowed fun h hop t' => ?_
        by_cases ht : t' = t
        · rw [hop] at hallowed
          exact ht ▸ hallowed
        · exact fresh h (by simp [hop]) t' ht
      rw [List.map_cons, List.append_cons]
      refine ih hfirst ?_ fun h hmem t' ht => ?_
      · rw [part_snoc, ← List.append_cons]
        exact proper
      · rw [part_snoc_of_ne ht]
        exact fresh h (List.mem_cons_of_mem _ hmem) t' ht

def Grown (given : List H) (log log' : List (Operation H P)) : Prop :=
  ∃ ops, log' = log ++ ops ∧ ∀ h, .acquire h ∈ ops → h ∈ given

omit [DecidableEq H] in
theorem Grown.refl (given : List H) (log : List (Operation H P)) : Grown given log log :=
  ⟨[], (List.append_nil log).symm, by simp⟩

omit [DecidableEq H] in
theorem Grown.trans {given : List H} {log log' log'' : List (Operation H P)}
    (first : Grown given log log') (second : Grown given log' log'') : Grown given log log'' := by
  obtain ⟨ops, rfl, hops⟩ := first
  obtain ⟨ops', rfl, hops'⟩ := second
  refine ⟨ops ++ ops', List.append_assoc _ _ _, fun h hmem => ?_⟩
  exact (List.mem_append.mp hmem).elim (hops h) (hops' h)

omit [DecidableEq H] in
theorem grown_append {given : List H} {ops : List (Operation H P)}
    (only : ∀ h, .acquire h ∈ ops → h ∈ given) (log : List (Operation H P)) :
    Grown given log (log ++ ops) :=
  ⟨ops, rfl, only⟩

omit [DecidableEq H] in
theorem Grown.mono {given given' : List H} {log log' : List (Operation H P)}
    (grown : Grown given log log') (sub : ∀ h ∈ given, h ∈ given') : Grown given' log log' := by
  obtain ⟨ops, hlog, hops⟩ := grown
  exact ⟨ops, hlog, fun h hmem => sub h (hops h hmem)⟩

def news (t : T) (f : Q → P) (before after : List (Operation H Q)) : List (T × Operation H P) :=
  ((after.drop before.length).map (relabel f)).map (Prod.mk t)

theorem Shared.grow (shared : Shared log) {f : Q → P} {before after : List (Operation H Q)}
    {given : List H} (same : part t log = before.map (relabel f))
    (grown : Grown given before after) (proper : Proper after)
    (free : ∀ h ∈ given, held (log.map Prod.snd) h = none) :
    Shared (log ++ news t f before after) ∧
      part t (log ++ news t f before after) = after.map (relabel f) ∧
      ∀ t' ≠ t, part t' (log ++ news t f before after) = part t' log := by
  obtain ⟨ops, rfl, hgiven⟩ := grown
  have hnews : news t f before (before ++ ops) = (ops.map (relabel f)).map (Prod.mk t) := by
    rw [news, List.drop_left]
  rw [hnews]
  refine ⟨shared.extend ?_ fun h hmem t' _ => ?_, ?_, fun t' hother => ?_⟩
  · rw [same, ← List.map_append]
    exact proper_relabel f proper
  · obtain ⟨op, hop, hrelabel⟩ := List.mem_map.mp hmem
    rw [relabel_eq_acquire] at hrelabel
    rw [hrelabel] at hop
    exact (shared.free_iff h).mp (free h (hgiven h hop)) t'
  · rw [part_append, part_tagged, same, List.map_append]
  · rw [part_append, part_tagged_of_ne hother, List.append_nil]

end Rules

end ApiGateway.SharedLogs
