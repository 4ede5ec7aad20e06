import ApiGateway.GreedyWalk
import ApiGateway.RouterHistory

/-! Which route `match` returns. The trie walk is the greedy walk of the known
key sequences with the literal edge before the parameter edge. Soundness and
precedence need only the stored entries; completeness also depends on every
other registered pattern, since a literal edge taken is never given back. -/

namespace ApiGateway.RouterSelection
open ByteText HttpText RouteTrie RouteTrieShape RouterHistory GreedyWalk

variable {H : Type}

def Admits (q s : Bytes) : Prop := isParamSegment q = true ∨ q = s

def Matches (pattern path : List Bytes) : Prop := List.Forall₂ Admits pattern path

instance : DecidableRel Admits := fun q s =>
  inferInstanceAs (Decidable (isParamSegment q = true ∨ q = s))

instance : DecidableRel Matches := fun pattern path =>
  inferInstanceAs (Decidable (List.Forall₂ Admits pattern path))

def candidates (segment : Bytes) : List SegmentKey := [.literal segment, .param]

theorem candidates_nodup (segment : Bytes) : (candidates segment).Nodup := by
  simp [candidates]

theorem keyOf_mem_candidates (q s : Bytes) : keyOf q ∈ candidates s ↔ Admits q s := by
  by_cases hp : isParamSegment q = true
  · simp [keyOf, candidates, Admits, hp]
  · simp [keyOf, candidates, Admits, hp]

theorem matches_iff_follows (pattern path : List Bytes) :
    Matches pattern path ↔ Follows candidates path (pattern.map keyOf) := by
  rw [Matches, Follows, List.forall₂_map_right_iff]
  simp only [keyOf_mem_candidates]
  exact ⟨List.Forall₂.flip, List.Forall₂.flip⟩

theorem earlier_iff {s : Bytes} {d c : SegmentKey} :
    Earlier candidates s d c ↔ d = .literal s ∧ c = .param := by
  constructor
  · rintro ⟨skipped, later, split, hd⟩
    match skipped, later, split, hd with
    | [a], [], split, hd =>
      simp only [candidates, List.cons_append, List.nil_append, List.cons.injEq, and_true] at split
      obtain ⟨rfl, rfl⟩ := split
      exact ⟨by simpa using hd, rfl⟩
    | [a], b :: later, split, hd => simp [candidates] at split
    | a :: b :: skipped, later, split, hd => simp [candidates] at split
  · rintro ⟨rfl, rfl⟩
    exact ⟨[.literal s], [], rfl, by simp⟩

/-- The key sequences that lead to a node. -/
def Known (root : TrieNode H) (ks : List SegmentKey) : Prop := (nodeAt ks root).isSome

theorem Known.of_append {root : TrieNode H} {ks ks' : List SegmentKey}
    (h : Known root (ks ++ ks')) : Known root ks := by
  rw [Known, nodeAt_append] at h
  cases hk : nodeAt ks root with
  | none => simp [hk] at h
  | some n => simp [Known, hk]

theorem known_take {root n : TrieNode H} {ks : List SegmentKey} (h : nodeAt ks root = some n)
    (i : Nat) : Known root (ks.take i) := by
  have hk : Known root (ks.take i ++ ks.drop i) := by simp [Known, h]
  exact hk.of_append

theorem known_concat {root t : TrieNode H} {q : List SegmentKey} (hq : nodeAt q root = some t)
    (key : SegmentKey) : Known root (q ++ [key]) ↔ (child t key).isSome := by
  cases h : child t key <;> simp [Known, nodeAt_append, hq, nodeAt, h]

theorem nodeAt_concat {root t below : TrieNode H} {q : List SegmentKey} {key : SegmentKey}
    (hq : nodeAt q root = some t) (h : child t key = some below) :
    nodeAt (q ++ [key]) root = some below := by
  simp [nodeAt_append, hq, nodeAt, h]

/-- The names of a pattern's parameter segments with the path segments there. -/
def bindings : List Bytes → List Bytes → List (Bytes × Bytes)
  | q :: pattern, s :: path =>
      if isParamSegment q then (q.tail, s) :: bindings pattern path else bindings pattern path
  | _, _ => []

theorem isParamSegment_iff {q : Bytes} : isParamSegment q = true ↔ ∃ name, q = 58 :: name := by
  cases q with
  | nil => simp [isParamSegment]
  | cons b name => simp [isParamSegment]

/-- `value` is the path segment at the first position of the pattern named `name`. -/
def FirstBinding (pattern path : List Bytes) (name value : Bytes) : Prop :=
  ∃ k : Nat, pattern[k]? = some (58 :: name) ∧ path[k]? = some value ∧
    ∀ l < k, pattern[l]? ≠ some (58 :: name)

theorem firstBinding_cons {q s : Bytes} {pattern path : List Bytes} {name value : Bytes} :
    FirstBinding (q :: pattern) (s :: path) name value ↔
      (q = 58 :: name ∧ s = value) ∨ (q ≠ 58 :: name ∧ FirstBinding pattern path name value) := by
  constructor
  · rintro ⟨k, hq, hs, hmin⟩
    cases k with
    | zero => exact .inl ⟨by simpa using hq, by simpa using hs⟩
    | succ k =>
      refine .inr ⟨by simpa using hmin 0 (Nat.succ_pos k), k, by simpa using hq,
        by simpa using hs, fun l hl => ?_⟩
      simpa using hmin (l + 1) (by omega)
  · rintro (⟨rfl, rfl⟩ | ⟨hne, k, hq, hs, hmin⟩)
    · exact ⟨0, rfl, rfl, by simp⟩
    · refine ⟨k + 1, by simpa using hq, by simpa using hs, fun l hl => ?_⟩
      cases l with
      | zero => simpa using hne
      | succ l => simpa using hmin l (by omega)

theorem bindings_find (pattern path : List Bytes) (name value : Bytes) :
    ((bindings pattern path).find? fun e => decide (e.1 = name)).map Prod.snd = some value ↔
      FirstBinding pattern path name value := by
  induction pattern generalizing path with
  | nil => simp [bindings, FirstBinding]
  | cons q pattern ih =>
    cases path with
    | nil => simp [bindings, FirstBinding]
    | cons s path =>
      rw [firstBinding_cons, ← ih, bindings]
      by_cases hp : isParamSegment q = true
      · obtain ⟨name', rfl⟩ := isParamSegment_iff.mp hp
        by_cases hn : name' = name <;> simp [isParamSegment, hn]
      · have hne : q ≠ 58 :: name := fun h => hp (isParamSegment_iff.mpr ⟨name, h⟩)
        simp [hp, hne]

theorem matchWalk_greedy {root n : TrieNode H} {segments : List Bytes} :
    ∀ {t : TrieNode H} {q : List SegmentKey} {params params' : RouteParams},
      nodeAt q root = some t → matchWalk segments t params = some (n, params') →
      ∃ y, Greedy candidates (Known root) q segments y ∧ nodeAt y t = some n ∧
        ∀ pattern n', pattern.map keyOf = y → patternNode pattern t = some n' →
          params' = (bindings pattern segments).foldl (fun m e => m.emplace e.1 e.2) params := by
  induction segments with
  | nil =>
    intro t q params params' hq hwalk
    simp only [matchWalk, Option.some.injEq, Prod.mk.injEq] at hwalk
    obtain ⟨rfl, rfl⟩ := hwalk
    refine ⟨[], .nil q, rfl, fun pattern n' hpat _ => ?_⟩
    rw [List.map_eq_nil_iff.mp hpat]
    rfl
  | cons s rest ih =>
    intro t q params params' hq hwalk
    rw [matchWalk] at hwalk
    cases hlit : t.children s with
    | some below =>
      have hchild : child t (.literal s) = some below := hlit
      rw [hlit] at hwalk
      obtain ⟨y, hy, hn, hparams⟩ := ih (nodeAt_concat hq hchild) hwalk
      have hsplit : candidates s = [] ++ .literal s :: [.param] := rfl
      refine ⟨.literal s :: y, .cons hsplit ?_ (by simp) hy, ?_, ?_⟩
      · rw [known_concat hq, hchild]; rfl
      · simp [nodeAt, hchild, hn]
      · intro pattern n' hpat hpn
        obtain ⟨q₀, more, rfl, hkey, hmore⟩ := List.map_eq_cons_iff.mp hpat
        obtain ⟨below', hbelow, -, hrest⟩ := patternNode_cons.mp hpn
        rw [hkey, hchild, Option.some.injEq] at hbelow
        rw [← hbelow] at hrest
        obtain ⟨rfl, hplain⟩ := keyOf_eq_literal.mp hkey
        simp only [bindings, hplain]
        exact hparams more n' hmore hrest
    | none =>
      rw [hlit] at hwalk
      have hno : child t (.literal s) = none := hlit
      cases hpar : t.paramChild with
      | none => simp [hpar] at hwalk
      | some below =>
        have hchild : child t .param = some below := hpar
        rw [hpar] at hwalk
        obtain ⟨y, hy, hn, hparams⟩ := ih (nodeAt_concat hq hchild) hwalk
        have hsplit : candidates s = [.literal s] ++ .param :: [] := rfl
        refine ⟨.param :: y, .cons hsplit ?_ ?_ hy, ?_, ?_⟩
        · rw [known_concat hq, hchild]; rfl
        · intro d hd
          obtain rfl : d = .literal s := by simpa using hd
          rw [known_concat hq, hno]
          simp
        · simp [nodeAt, hchild, hn]
        · intro pattern n' hpat hpn
          obtain ⟨q₀, more, rfl, hkey, hmore⟩ := List.map_eq_cons_iff.mp hpat
          obtain ⟨below', hbelow, hname, hrest⟩ := patternNode_cons.mp hpn
          have hparam := keyOf_eq_param.mp hkey
          rw [hkey, hchild, Option.some.injEq] at hbelow
          rw [← hbelow] at hname hrest
          simp only [bindings, hparam, if_true, List.foldl_cons, ← hname hparam]
          exact hparams more n' hmore hrest

theorem matchWalk_of_greedy {root : TrieNode H} {q : List SegmentKey} {segments : List Bytes}
    {y : List SegmentKey} (h : Greedy candidates (Known root) q segments y) :
    ∀ {t : TrieNode H} (params : RouteParams), nodeAt q root = some t →
      ∃ n params', matchWalk segments t params = some (n, params') ∧ nodeAt y t = some n := by
  induction h with
  | nil q => exact fun params hq => ⟨_, params, rfl, rfl⟩
  | @cons q s p skipped later c y split taken refused rest ih =>
    intro t params hq
    obtain ⟨below, hbelow⟩ := Option.isSome_iff_exists.mp ((known_concat hq c).mp taken)
    match skipped, split with
    | [], split =>
      obtain rfl : .literal s = c := by simpa [candidates] using (List.cons.inj split).1
      have hlit : t.children s = some below := hbelow
      obtain ⟨n, params', hwalk, hn⟩ := ih params (nodeAt_concat hq hbelow)
      exact ⟨n, params', by simp [matchWalk, hlit, hwalk], by simp [nodeAt, hbelow, hn]⟩
    | [a], split =>
      simp only [candidates, List.cons_append, List.nil_append, List.cons.injEq] at split
      obtain ⟨rfl, rfl, rfl⟩ := split
      have hlit : t.children s = none := by
        simpa [known_concat hq, child] using refused (.literal s) (by simp)
      have hpar : t.paramChild = some below := hbelow
      obtain ⟨n, params', hwalk, hn⟩ :=
        ih (params.emplace below.paramName s) (nodeAt_concat hq hbelow)
      exact ⟨n, params', by simp [matchWalk, hlit, hpar, hwalk], by simp [nodeAt, hbelow, hn]⟩
    | a :: b :: skipped, split => simp [candidates] at split

theorem pattern_eq_of_keys {pattern pattern' : List Bytes} {t n n' : TrieNode H}
    (h : patternNode pattern t = some n) (h' : patternNode pattern' t = some n')
    (keys : pattern.map keyOf = pattern'.map keyOf) : pattern = pattern' := by
  induction pattern generalizing t pattern' with
  | nil => simpa using keys.symm
  | cons q pattern ih =>
    cases pattern' with
    | nil => simp at keys
    | cons q' pattern' =>
      simp only [List.map_cons, List.cons.injEq] at keys
      obtain ⟨below, hbelow, hname, hrest⟩ := patternNode_cons.mp h
      obtain ⟨below', hbelow', hname', hrest'⟩ := patternNode_cons.mp h'
      rw [← keys.1, hbelow, Option.some.injEq] at hbelow'
      rw [← hbelow'] at hname' hrest'
      rw [ih hrest hrest' keys.2]
      congr 1
      by_cases hparam : isParamSegment q = true
      · have hparam' : isParamSegment q' = true :=
          keyOf_eq_param.mp (keys.1.symm.trans (keyOf_eq_param.mpr hparam))
        have htail : q.tail = q'.tail := (hname hparam).symm.trans (hname' hparam')
        obtain ⟨name, rfl⟩ := isParamSegment_iff.mp hparam
        obtain ⟨name', rfl⟩ := isParamSegment_iff.mp hparam'
        rw [List.tail_cons, List.tail_cons] at htail
        rw [htail]
      · have hliteral : keyOf q = .literal q :=
          keyOf_eq_literal.mpr ⟨rfl, Bool.eq_false_iff.mpr hparam⟩
        exact (keyOf_eq_literal.mp (keys.1.symm.trans hliteral)).1.symm

theorem patternNode_take {pattern : List Bytes} {t n : TrieNode H}
    (h : patternNode pattern t = some n) (i : Nat) :
    ∃ n', patternNode (pattern.take i) t = some n' := by
  induction pattern generalizing t i with
  | nil => exact ⟨t, by simp [patternNode]⟩
  | cons q pattern ih =>
    cases i with
    | zero => exact ⟨t, by simp [patternNode]⟩
    | succ i =>
      obtain ⟨below, hbelow, hname, hrest⟩ := patternNode_cons.mp h
      obtain ⟨n', hn'⟩ := ih hrest i
      exact ⟨n', patternNode_cons.mpr ⟨below, hbelow, hname, hn'⟩⟩

/-- The `i`-th call, `c`, is the registration the result of a match reports. -/
structure Selected (calls : List (Registration H)) (m : HttpMethod) (segments : List Bytes)
    (result : RouteMatch H) (i : Nat) (c : Registration H) : Prop where
  succeeded : Succeeds calls i c
  sameMethod : method c = m
  matched : Matches (pattern c) segments
  reported : ∃ e, entry c = some e ∧ result.echoResponse = e.echoResponse ∧
    result.proxyTarget = e.proxyTarget ∧
    result.handler = if e.proxyTarget.isSome then none else e.handler
  bound : ∀ name value, result.params.lookup name = some value ↔
    FirstBinding (pattern c) segments name value
  preferred : ∀ j d, Succeeds calls j d → method d = m → Matches (pattern d) segments →
    ∀ k q q', (pattern c)[k]? = some q → (pattern d)[k]? = some q' →
      (pattern c).take k = (pattern d).take k → isParamSegment q = true →
      isParamSegment q' = true

theorem walk_of_found {calls : List (Registration H)} {m : HttpMethod} {p : Bytes}
    (found : ((Router.empty.registerAll calls).matchRoute m p).found = true) :
    ∃ segments y n e params, splitPath p = .ok segments ∧
      Greedy candidates (Known (Router.empty.registerAll calls).root) [] segments y ∧
      nodeAt y (Router.empty.registerAll calls).root = some n ∧ n.handlers m = some e ∧
      (Router.empty.registerAll calls).matchRoute m p = .ofEntry e params ∧
      ∀ pattern n', pattern.map keyOf = y →
        patternNode pattern (Router.empty.registerAll calls).root = some n' →
        params = FirstWinsMap.ofList (bindings pattern segments) := by
  rw [Router.matchRoute] at found ⊢
  cases hs : splitPath p with
  | error e => simp [hs, RouteMatch.notFound] at found
  | ok segments =>
    simp only [hs] at found ⊢
    cases hw : matchWalk segments (Router.empty.registerAll calls).root .empty with
    | none => simp [hw, RouteMatch.notFound] at found
    | some hit =>
      obtain ⟨n, params⟩ := hit
      simp only [hw] at found ⊢
      cases he : n.handlers m with
      | none => simp [he, RouteMatch.notFound] at found
      | some e =>
        obtain ⟨y, hy, hn, hparams⟩ := matchWalk_greedy (nodeAt_nil _) hw
        exact ⟨segments, y, n, e, params, rfl, hy, hn, he, rfl, hparams⟩

theorem inside_of_stored {calls : List (Registration H)} {j : Nat} {d : Registration H}
    (h : Succeeds calls j d) : ∀ i < ((pattern d).map keyOf).length,
      Known (Router.empty.registerAll calls).root (((pattern d).map keyOf).take (i + 1)) := by
  intro i _
  obtain ⟨e, n, -, -, hn, -⟩ := (represents_registerAll calls).stored j d h
  exact known_take (nodeAt_of_patternNode hn) (i + 1)

theorem selected_of_walk {calls : List (Registration H)} {m : HttpMethod} {p : Bytes}
    {segments : List Bytes} {y : List SegmentKey} {n : TrieNode H} {e : RouteEntry H}
    {params : RouteParams}
    (walk : Greedy candidates (Known (Router.empty.registerAll calls).root) [] segments y)
    (hn : nodeAt y (Router.empty.registerAll calls).root = some n)
    (he : n.handlers m = some e)
    (hresult : (Router.empty.registerAll calls).matchRoute m p = .ofEntry e params)
    (hparams : ∀ pattern n', pattern.map keyOf = y →
      patternNode pattern (Router.empty.registerAll calls).root = some n' →
      params = FirstWinsMap.ofList (bindings pattern segments)) :
    ∃ i c, Selected calls m segments ((Router.empty.registerAll calls).matchRoute m p) i c ∧
      (pattern c).map keyOf = y := by
  have inv := represents_registerAll calls
  obtain ⟨i, c, hc, hkeys, hmethod, hentry⟩ := inv.justified y n m e hn he
  obtain ⟨-, n', -, -, hn', -⟩ := inv.stored i c hc
  refine ⟨i, c, ⟨hc, hmethod, ?_, ⟨e, hentry, ?_⟩, fun name value => ?_, ?_⟩, hkeys⟩
  · rw [matches_iff_follows, hkeys]
    exact walk.follows
  · rw [hresult]
    exact ⟨rfl, rfl, rfl⟩
  · rw [hresult, ← bindings_find, ← FirstWinsMap.lookup_ofList, ← hparams _ n' hkeys hn']
    rfl
  · intro j d hd _ hmatch k q q' hq hq' agree hparam
    by_contra hlit
    have hlen := hmatch.length_eq
    have hk : k < segments.length := by
      rw [← hlen]
      exact (List.getElem?_eq_some_iff.mp hq').1
    obtain ⟨s, hs⟩ : ∃ s, segments[k]? = some s := ⟨_, List.getElem?_eq_getElem hk⟩
    have hadmit : Admits q' s := by
      obtain ⟨hl, hq''⟩ := List.getElem?_eq_some_iff.mp hq'
      obtain ⟨hl', hs'⟩ := List.getElem?_eq_some_iff.mp hs
      rw [← hq'', ← hs']
      exact hmatch.get hl hl'
    obtain rfl : q' = s := hadmit.resolve_left hlit
    refine walk.precedence candidates_nodup (inside_of_stored hd) hs
      (c := .param) (d := .literal q') ?_ ?_ ?_ (earlier_iff.mpr ⟨rfl, rfl⟩)
    · rw [← hkeys, List.getElem?_map, hq]
      simp [keyOf, hparam]
    · rw [List.getElem?_map, hq']
      simp [keyOf, hlit]
    · rw [← hkeys, ← List.map_take, ← List.map_take, agree]

/-- A match reports the entry of exactly one successful registration: of the
method, matching the path, with its parameters bound to the first position of
each name, and literal wherever another matching route first departs from it. -/
theorem match_selects_unique_registration (calls : List (Registration H)) (m : HttpMethod)
    (p : Bytes) (found : ((Router.empty.registerAll calls).matchRoute m p).found = true) :
    ∃ segments, splitPath p = .ok segments ∧ ∃! i, ∃ c,
      Selected calls m segments ((Router.empty.registerAll calls).matchRoute m p) i c := by
  obtain ⟨segments, y, n, e, params, hs, walk, hn, he, hresult, hparams⟩ := walk_of_found found
  obtain ⟨i, c, hsel, hkeys⟩ := selected_of_walk walk hn he hresult hparams
  refine ⟨segments, hs, i, ⟨c, hsel⟩, fun j ⟨d, hd⟩ => ?_⟩
  have inv := represents_registerAll calls
  refine inv.distinct j i d c hd.succeeded hsel.succeeded
    (hd.sameMethod.trans hsel.sameMethod.symm) ?_
  by_contra hne
  have hlen : ((pattern d).map keyOf).length = ((pattern c).map keyOf).length := by
    rw [List.length_map, List.length_map, hd.matched.length_eq, hsel.matched.length_eq]
  obtain ⟨k, kd, kc, hkd, hkc, agree, hdiff⟩ := exists_first_difference hlen hne
  rw [List.getElem?_map, Option.map_eq_some_iff] at hkd hkc
  obtain ⟨qd, hqd, rfl⟩ := hkd
  obtain ⟨qc, hqc, rfl⟩ := hkc
  -- up to the difference the two patterns agree in their parameter names as well
  have htake : (pattern d).take k = (pattern c).take k := by
    obtain ⟨_, nd, -, -, hnd, -⟩ := inv.stored j d hd.succeeded
    obtain ⟨_, nc, -, -, hnc, -⟩ := inv.stored i c hsel.succeeded
    obtain ⟨_, hnd'⟩ := patternNode_take hnd k
    obtain ⟨_, hnc'⟩ := patternNode_take hnc k
    exact pattern_eq_of_keys hnd' hnc' (by rw [List.map_take, List.map_take, agree])
  have hd' := hd.preferred i c hsel.succeeded hsel.sameMethod hsel.matched k qd qc hqd hqc htake
  have hc' := hsel.preferred j d hd.succeeded hd.sameMethod hd.matched k qc qd hqc hqd htake.symm
  have hiff : isParamSegment qd = true ↔ isParamSegment qc = true := ⟨hd', hc'⟩
  by_cases hp : isParamSegment qd = true
  · exact hdiff (by simp [keyOf, hp, hiff.mp hp])
  · have hp' : ¬ isParamSegment qc = true := fun h => hp (hiff.mpr h)
    have hk : k < segments.length := by
      rw [← hd.matched.length_eq]
      exact (List.getElem?_eq_some_iff.mp hqd).1
    obtain ⟨hl, hqd'⟩ := List.getElem?_eq_some_iff.mp hqd
    obtain ⟨hl', hqc'⟩ := List.getElem?_eq_some_iff.mp hqc
    have had : Admits qd segments[k] := by rw [← hqd']; exact hd.matched.get hl hk
    have hac : Admits qc segments[k] := by rw [← hqc']; exact hsel.matched.get hl' hk
    rw [had.resolve_left hp, hac.resolve_left hp'] at hdiff
    exact hdiff rfl

def userCalls : List (Registration Unit) :=
  [.params .GET (ascii "/users/:id") (some ()), .proxy .GET (ascii "/users/:name") (ascii "h") 1,
    .route .GET (ascii "/users/me") (some ())]

theorem match_selects_user :
    ∃ segments, splitPath (ascii "/users/7") = .ok segments ∧ ∃! i, ∃ c,
      Selected userCalls .GET segments
        ((Router.empty.registerAll userCalls).matchRoute .GET (ascii "/users/7")) i c :=
  match_selects_unique_registration userCalls .GET (ascii "/users/7") (by decide)

/-- Some registered route, of any method, has a literal equal to the path's
segment where the pattern has a parameter and agrees with the pattern before. -/
def Shadowed (calls : List (Registration H)) (route path : List Bytes) : Prop :=
  ∃ d ∈ calls, ∃ k q s, route[k]? = some q ∧ isParamSegment q = true ∧ path[k]? = some s ∧
    ((pattern d).map keyOf).take (k + 1) = (route.map keyOf).take k ++ [.literal s]

theorem outcomes_getElem? (router : Router H) (calls : List (Registration H)) (i : Nat) :
    (router.outcomes calls)[i]? =
      calls[i]?.map fun c => ((router.registerAll (calls.take i)).register c).2 := by
  induction calls generalizing router i with
  | nil => simp [Router.outcomes]
  | cons c calls ih =>
    cases i with
    | zero => simp [Router.outcomes, Router.registerAll]
    | succ i => simpa [Router.outcomes, Router.registerAll] using ih (router.register c).1 i

theorem succeeds_of_outcomes {calls : List (Registration H)}
    (registered : ∀ o ∈ Router.empty.outcomes calls, o = .ok ()) {i : Nat}
    {c : Registration H} (hc : calls[i]? = some c) : Succeeds calls i c := by
  refine ⟨hc, registered _ (List.mem_iff_getElem?.mpr ⟨i, ?_⟩)⟩
  rw [outcomes_getElem?, hc]
  rfl

theorem node_on_pattern (calls : List (Registration H)) {ks : List SegmentKey}
    {n : TrieNode H} (hn : nodeAt ks (Router.empty.registerAll calls).root = some n) :
    ks = [] ∨ ∃ d ∈ calls, ks <+: (pattern d).map keyOf := by
  induction calls using List.reverseRecOn generalizing ks n with
  | nil =>
    cases ks with
    | nil => exact .inl rfl
    | cons key rest => simp [nodeAt, Router.registerAll, Router.empty] at hn
  | append_singleton calls c ih =>
    rw [registerAll_concat] at hn
    have old : (nodeAt ks (Router.empty.registerAll calls).root).isSome →
        ks = [] ∨ ∃ d ∈ calls ++ [c], ks <+: (pattern d).map keyOf := fun h => by
      obtain ⟨n', hn'⟩ := Option.isSome_iff_exists.mp h
      cases ih hn' with
      | inl hempty => exact .inl hempty
      | inr hsome =>
          obtain ⟨d, hd, hk⟩ := hsome
          exact .inr ⟨d, List.mem_append_left _ hd, hk⟩
    rcases register_cases (Router.empty.registerAll calls) c with
      ⟨err, herr⟩ | ⟨e, segments, he, hs, hreg⟩
    · rw [herr] at hn
      exact old (Option.isSome_of_eq_some hn)
    · rw [hreg] at hn
      refine (insertEntry_nodes hn).elim old fun hk => .inr ⟨c, by simp, ?_⟩
      rw [pattern_of_split hs]
      exact hk

/-- A path is found exactly when some route of the method matches it and no
registered route hides that one behind a literal. -/
theorem match_found_iff_unshadowed (calls : List (Registration H))
    (registered : ∀ o ∈ Router.empty.outcomes calls, o = .ok ()) (m : HttpMethod) (p : Bytes)
    (segments : List Bytes) (split : splitPath p = .ok segments) :
    ((Router.empty.registerAll calls).matchRoute m p).found = true ↔
      ∃ c ∈ calls, method c = m ∧ Matches (pattern c) segments ∧
        ¬ Shadowed calls (pattern c) segments := by
  have inv := represents_registerAll calls
  constructor
  · intro found
    obtain ⟨segments', y, n, e, params, hs, walk, hn, he, hresult, hparams⟩ :=
      walk_of_found found
    obtain rfl : segments' = segments := by simpa [split] using hs.symm
    obtain ⟨i, c, hsel, hkeys⟩ := selected_of_walk walk hn he hresult hparams
    refine ⟨c, List.mem_of_getElem? hsel.succeeded.1, hsel.sameMethod, hsel.matched, ?_⟩
    rintro ⟨d, hd, k, q, s, hq, hparam, hs, htake⟩
    obtain ⟨j, hj⟩ := List.mem_iff_getElem?.mp hd
    obtain ⟨_, nd, -, -, hnd, -⟩ := inv.stored j d (succeeds_of_outcomes registered hj)
    have hknown := known_take (nodeAt_of_patternNode hnd) (k + 1)
    rw [htake, hkeys] at hknown
    refine walk.unshadowed candidates_nodup k s .param (.literal s) hs ?_
      (earlier_iff.mpr ⟨rfl, rfl⟩) hknown
    rw [← hkeys, List.getElem?_map, hq]
    simp [keyOf, hparam]
  · rintro ⟨c, hc, hmethod, hmatch, hclear⟩
    obtain ⟨i, hi⟩ := List.mem_iff_getElem?.mp hc
    have hsucc := succeeds_of_outcomes registered hi
    obtain ⟨e, n, -, -, hn, he⟩ := inv.stored i c hsucc
    have walk : Greedy candidates (Known (Router.empty.registerAll calls).root) [] segments
        ((pattern c).map keyOf) := by
      refine greedy_of_unshadowed ((matches_iff_follows _ _).mp hmatch)
        (inside_of_stored hsucc) fun k s key literal hs hkey hearlier hknown => ?_
      obtain ⟨rfl, rfl⟩ := earlier_iff.mp hearlier
      obtain ⟨q, hq, hparam⟩ := Option.map_eq_some_iff.mp ((List.getElem?_map ..).symm.trans hkey)
      obtain ⟨n', hn'⟩ := Option.isSome_iff_exists.mp hknown
      obtain ⟨d, hd, hprefix⟩ := (node_on_pattern calls hn').resolve_left (by simp)
      refine hclear ⟨d, hd, k, q, s, hq, ?_, hs, ?_⟩
      · by_contra hp
        simp [keyOf, hp] at hparam
      · have hk : k < ((pattern c).map keyOf).length := (List.getElem?_eq_some_iff.mp hkey).1
        have hlen : (([] ++ ((pattern c).map keyOf).take k ++ [SegmentKey.literal s]).length) =
            k + 1 := by
          rw [List.nil_append, List.length_append, List.length_take, List.length_singleton]
          omega
        rw [← hlen, ← List.prefix_iff_eq_take.mp hprefix, List.nil_append]
    obtain ⟨n', params', hwalk, hn'⟩ := matchWalk_of_greedy walk .empty (nodeAt_nil _)
    rw [nodeAt_of_patternNode hn] at hn'
    obtain rfl : n = n' := by simpa using hn'
    simp only [Router.matchRoute, split, hwalk, ← hmethod, he]
    rfl

theorem match_found_iff_user :
    ((Router.empty.registerAll [userCalls[0], userCalls[2]]).matchRoute .GET
        (ascii "/users/7")).found = true ↔
      ∃ c ∈ [userCalls[0], userCalls[2]], method c = .GET ∧
        Matches (pattern c) [ascii "users", ascii "7"] ∧
        ¬ Shadowed [userCalls[0], userCalls[2]] (pattern c) [ascii "users", ascii "7"] :=
  match_found_iff_unshadowed [userCalls[0], userCalls[2]] (by decide) .GET (ascii "/users/7")
    [ascii "users", ascii "7"] (by decide)

def shadowingCalls : List (Registration Unit) :=
  [.proxy .GET (ascii "/:x/c") (ascii "h") 1, .proxy .GET (ascii "/a/b") (ascii "h") 2]

theorem shadowed_route_not_found :
    (∀ o ∈ Router.empty.outcomes shadowingCalls, o = .ok ()) ∧
    splitPath (ascii "/a/c") = .ok [ascii "a", ascii "c"] ∧
    (∃ c ∈ shadowingCalls, method c = .GET ∧ Matches (pattern c) [ascii "a", ascii "c"]) ∧
    ((Router.empty.registerAll (shadowingCalls.take 1)).matchRoute .GET
      (ascii "/a/c")).found = true ∧
    ((Router.empty.registerAll shadowingCalls).matchRoute .GET (ascii "/a/c")).found = false := by
  decide

end ApiGateway.RouterSelection
