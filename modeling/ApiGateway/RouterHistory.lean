import ApiGateway.RouteTrieShape

/-! What the trie holds after any sequence of registration calls, successful
or throwing: exactly the entries of the successful calls, each at its own
pattern. Throwing calls may leave nodes without handlers. -/

namespace ApiGateway.RouterHistory
open ByteText HttpText RouteTrie RouteTrieShape

variable {H : Type}

def method : Registration H → HttpMethod
  | .route m _ _ => m
  | .params m _ _ => m
  | .proxy m _ _ _ => m

def routePath : Registration H → Bytes
  | .route _ p _ => p
  | .params _ p _ => p
  | .proxy _ p _ _ => p

/-- The entry a call supplies; none when its own argument check throws. -/
def entry : Registration H → Option (RouteEntry H)
  | .route _ _ handler => handler.map fun h => ⟨some h, false, none⟩
  | .params _ _ typed => typed.map fun h => ⟨some h, true, none⟩
  | .proxy _ _ host port => if host = [] then none else some ⟨none, false, some ⟨host, port⟩⟩

def pattern (c : Registration H) : List Bytes :=
  match splitPath (routePath c) with
  | .ok segments => segments
  | .error _ => []

theorem pattern_of_split {c : Registration H} {segments : List Bytes}
    (h : splitPath (routePath c) = .ok segments) : pattern c = segments := by
  rw [pattern, h]

theorem register_insert {router : Router H} {c : Registration H} {e : RouteEntry H}
    {segments : List Bytes} (he : entry c = some e)
    (hs : splitPath (routePath c) = .ok segments) :
    router.register c =
      (⟨(insertEntry (routePath c) (method c) e segments router.root).1⟩,
        (insertEntry (routePath c) (method c) e segments router.root).2) := by
  cases c with
  | route m path handler =>
    obtain ⟨h, rfl, rfl⟩ := Option.map_eq_some_iff.mp he
    simp only [routePath] at hs
    simp only [Router.register, Router.addRoute, Router.resolveOrCreateNode, hs, insertEntry,
      routePath, method]
  | params m path typed =>
    obtain ⟨h, rfl, rfl⟩ := Option.map_eq_some_iff.mp he
    simp only [routePath] at hs
    simp only [Router.register, Router.addParamsRoute, Router.resolveOrCreateNode, hs, insertEntry,
      routePath, method]
  | proxy m path host port =>
    simp only [entry] at he
    split at he
    · cases he
    · next hhost =>
      cases he
      simp only [routePath] at hs
      simp only [Router.register, Router.addProxyRoute, if_neg hhost,
        Router.resolveOrCreateNode, hs, insertEntry, routePath, method]
      rfl

theorem register_refused {router : Router H} {c : Registration H}
    (h : entry c = none ∨ ∃ e, splitPath (routePath c) = .error e) :
    ∃ e, router.register c = (router, .error e) := by
  cases c with
  | route m path handler =>
    cases handler with
    | none => exact ⟨_, rfl⟩
    | some f =>
      obtain ⟨e, he⟩ := h.resolve_left (by simp [entry])
      simp only [routePath] at he
      exact ⟨e, by simp only [Router.register, Router.addRoute, Router.resolveOrCreateNode, he]⟩
  | params m path typed =>
    cases typed with
    | none => exact ⟨_, rfl⟩
    | some f =>
      obtain ⟨e, he⟩ := h.resolve_left (by simp [entry])
      simp only [routePath] at he
      exact ⟨e, by
        simp only [Router.register, Router.addParamsRoute, Router.resolveOrCreateNode, he]⟩
  | proxy m path host port =>
    by_cases hhost : host = []
    · simp only [Router.register, Router.addProxyRoute, if_pos hhost]
      exact ⟨_, rfl⟩
    · obtain ⟨e, he⟩ := h.resolve_left (by simp [entry, hhost])
      simp only [routePath] at he
      exact ⟨e, by simp only [Router.register, Router.addProxyRoute, if_neg hhost,
        Router.resolveOrCreateNode, he]⟩

theorem register_cases (router : Router H) (c : Registration H) :
    (∃ e, router.register c = (router, .error e)) ∨
    ∃ e segments, entry c = some e ∧ splitPath (routePath c) = .ok segments ∧
      router.register c =
        (⟨(insertEntry (routePath c) (method c) e segments router.root).1⟩,
          (insertEntry (routePath c) (method c) e segments router.root).2) := by
  cases he : entry c with
  | none => exact .inl (register_refused (.inl he))
  | some e =>
    cases hs : splitPath (routePath c) with
    | error err => exact .inl (register_refused (.inr ⟨err, hs⟩))
    | ok segments => exact .inr ⟨e, segments, rfl, rfl, register_insert he hs⟩

theorem registerAll_concat (router : Router H) (calls : List (Registration H))
    (c : Registration H) :
    router.registerAll (calls ++ [c]) = ((router.registerAll calls).register c).1 := by
  simp [Router.registerAll]

/-- The `i`-th call of the sequence is `c`, and it returned without an exception. -/
def Succeeds (calls : List (Registration H)) (i : Nat) (c : Registration H) : Prop :=
  calls[i]? = some c ∧ ((Router.empty.registerAll (calls.take i)).register c).2 = .ok ()

theorem Succeeds.lt {calls : List (Registration H)} {i : Nat} {c : Registration H}
    (h : Succeeds calls i c) : i < calls.length :=
  (List.getElem?_eq_some_iff.mp h.1).1

theorem succeeds_concat {calls : List (Registration H)} {c d : Registration H} {i : Nat} :
    Succeeds (calls ++ [c]) i d ↔ Succeeds calls i d ∨
      (i = calls.length ∧ d = c ∧
        ((Router.empty.registerAll calls).register c).2 = .ok ()) := by
  rcases lt_trichotomy i calls.length with hi | hi | hi
  · rw [Succeeds, Succeeds, List.getElem?_append_left hi,
      List.take_append_of_le_length (by omega)]
    exact ⟨.inl, fun h => h.resolve_right (by omega)⟩
  · subst hi
    have hnone : ¬ Succeeds calls calls.length d := fun h => lt_irrefl _ h.lt
    rw [Succeeds, List.getElem?_concat_length, List.take_left', Option.some.injEq]
    · constructor
      · rintro ⟨rfl, hok⟩
        exact .inr ⟨rfl, rfl, hok⟩
      · intro h
        obtain ⟨-, rfl, hok⟩ := h.resolve_left hnone
        exact ⟨rfl, hok⟩
    · rfl
  · have hout : ¬ Succeeds (calls ++ [c]) i d := fun h => by
      have := h.lt
      simp at this
      omega
    have hout' : ¬ Succeeds calls i d := fun h => by
      have := h.lt
      omega
    simp only [hout, hout', false_or, false_iff, not_and]
    omega

/-- The trie stores the successful calls and nothing else. -/
structure Represents (root : TrieNode H) (calls : List (Registration H)) : Prop where
  stored : ∀ i c, Succeeds calls i c → ∃ e n, entry c = some e ∧
    splitPath (routePath c) = .ok (pattern c) ∧
    patternNode (pattern c) root = some n ∧ n.handlers (method c) = some e
  justified : ∀ ks n m e, nodeAt ks root = some n → n.handlers m = some e →
    ∃ i c, Succeeds calls i c ∧ (pattern c).map keyOf = ks ∧ method c = m ∧ entry c = some e
  distinct : ∀ i j c d, Succeeds calls i c → Succeeds calls j d → method c = method d →
    (pattern c).map keyOf = (pattern d).map keyOf → i = j

theorem represents_empty : Represents (Router.empty : Router H).root [] where
  stored i c h := absurd h.lt (by simp)
  justified ks n m e hn he := by
    cases ks with
    | nil =>
      obtain rfl : TrieNode.fresh [] = n := by simpa [nodeAt, Router.empty] using hn
      cases he
    | cons key rest => simp [nodeAt, Router.empty] at hn
  distinct i j c d h := absurd h.lt (by simp)

theorem represents_step {calls : List (Registration H)} (c : Registration H)
    (inv : Represents (Router.empty.registerAll calls).root calls) :
    Represents (Router.empty.registerAll (calls ++ [c])).root (calls ++ [c]) := by
  rw [registerAll_concat]
  rcases register_cases (Router.empty.registerAll calls) c with
    ⟨err, herr⟩ | ⟨e, segments, he, hs, hreg⟩
  · have hsame : ∀ i d, Succeeds (calls ++ [c]) i d ↔ Succeeds calls i d := fun i d => by
      rw [succeeds_concat, herr]
      simp
    rw [herr]
    exact ⟨fun i d h => inv.stored i d ((hsame i d).mp h),
      fun ks n m e' hn he' => by
        obtain ⟨i, d, h, hrest⟩ := inv.justified ks n m e' hn he'
        exact ⟨i, d, (hsame i d).mpr h, hrest⟩,
      fun i j d d' h h' => inv.distinct i j d d' ((hsame i d).mp h) ((hsame j d').mp h')⟩
  · rw [hreg]
    have hpat : pattern c = segments := pattern_of_split hs
    have hlast : ∀ {i d}, Succeeds (calls ++ [c]) i d → Succeeds calls i d ∨
        (i = calls.length ∧ d = c ∧
          (insertEntry (routePath c) (method c) e segments
            (Router.empty.registerAll calls).root).2 = .ok ()) := fun h => by
      simpa [hreg] using succeeds_concat.mp h
    -- an earlier successful call of the same method and pattern would make this one throw
    have hnew : ∀ {i d}, Succeeds calls i d → method d = method c →
        (pattern d).map keyOf = (pattern c).map keyOf →
        (insertEntry (routePath c) (method c) e segments
          (Router.empty.registerAll calls).root).2 ≠ .ok () := fun hd hm hk hok => by
      obtain ⟨e', n, -, -, hn, hh⟩ := inv.stored _ _ hd
      have hfree := (insertEntry_ok hok).2 n (by rw [← hpat, ← hk]; exact nodeAt_of_patternNode hn)
      rw [hm, hfree] at hh
      cases hh
    refine ⟨fun i d h => ?_, fun ks n m e' hn he' => ?_, fun i j d d' h h' hm hk => ?_⟩
    · rcases hlast h with hold | ⟨rfl, rfl, hok⟩
      · obtain ⟨e', n, he', hs', hn, hh⟩ := inv.stored i d hold
        obtain ⟨n', hn', hkeep⟩ :=
          (insertEntry_extends (routePath c) (method c) e segments _).patternNode hn
        exact ⟨e', n', he', hs', hn', hkeep _ _ hh⟩
      · obtain ⟨⟨n, hn, hh⟩, -⟩ := insertEntry_ok hok
        exact ⟨e, n, he, by rw [hpat]; exact hs, by rw [hpat]; exact hn, hh⟩
    · rcases insertEntry_handlers hn he' with ⟨old, hold, hsame⟩ | ⟨hok, rfl, rfl, rfl⟩
      · obtain ⟨i, d, hd, hrest⟩ := inv.justified ks old m e' hold hsame
        exact ⟨i, d, succeeds_concat.mpr (.inl hd), hrest⟩
      · refine ⟨calls.length, c, succeeds_concat.mpr (.inr ⟨rfl, rfl, ?_⟩), ?_, rfl, he⟩
        · rw [hreg]
          exact hok
        · rw [hpat]
    · rcases hlast h with hi | ⟨rfl, rfl, hok⟩ <;> rcases hlast h' with hj | ⟨rfl, rfl, hok'⟩
      · exact inv.distinct i j d d' hi hj hm hk
      · exact absurd hok' (hnew hi hm hk)
      · exact absurd hok (hnew hj hm.symm hk.symm)
      · rfl

theorem represents_registerAll (calls : List (Registration H)) :
    Represents (Router.empty.registerAll calls).root calls := by
  induction calls using List.reverseRecOn with
  | nil => exact represents_empty
  | append_singleton calls c ih => exact represents_step c ih

end ApiGateway.RouterHistory
