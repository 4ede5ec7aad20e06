import ApiGateway.PathSplitting
import ApiGateway.RouterSelection

/-! The path from the parameters of its match. Registration compares the name of a parameter
only with the names at its own place, and `match` keeps the first value of a name. -/

namespace ApiGateway.PathRestoring
open ByteText HttpText RouteTrie RouterHistory RouterSelection RoutePaths PathSplitting

/-- The pattern with the parameters in the places of their names. -/
def substitute (params : RouteParams) (pattern : List Bytes) : List Bytes :=
  pattern.map fun segment =>
    if isParamSegment segment then (params.lookup segment.tail).getD segment else segment

def Restores (segments : List Bytes) (path : Bytes) : Prop :=
  path = joinPath segments ∨ path = joinPath segments ++ [47]

/-- Where the pattern has one name twice, the path has one segment twice. -/
def Agrees (pattern segments : List Bytes) : Prop :=
  ∀ (k l : Nat) (name : Bytes), pattern[k]? = some (58 :: name) → pattern[l]? = some (58 :: name) →
    segments[k]? = segments[l]?

theorem restores_iff {segments segments' : List Bytes} {path : Bytes}
    (split : splitPath path = .ok segments) (valid : ∀ s ∈ segments', ValidSegment s)
    (same : segments' = [] → segments = []) : Restores segments' path ↔ segments' = segments := by
  constructor
  · intro restores
    by_cases hempty : segments' = []
    · rw [hempty, same hempty]
    · have hsplit : splitPath path = .ok segments' :=
        splitPath_ok_iff.mpr ⟨valid, restores.imp_left fun hpath => ⟨hpath, hempty⟩⟩
      rw [split, Except.ok.injEq] at hsplit
      exact hsplit.symm
  · rintro rfl
    exact splitPath_writes split

section Substitution

variable {pattern segments : List Bytes} {params : RouteParams}

theorem Matches.getElem? (h : Matches pattern segments) {k : Nat} {q : Bytes}
    (hq : pattern[k]? = some q) : ∃ s, segments[k]? = some s ∧ Admits q s := by
  obtain ⟨hk, rfl⟩ := List.getElem?_eq_some_iff.mp hq
  have hk' : k < segments.length := h.length_eq ▸ hk
  exact ⟨segments[k], List.getElem?_eq_getElem hk', h.get hk hk'⟩

theorem exists_firstBinding (h : Matches pattern segments) {k : Nat} {name : Bytes}
    (hk : pattern[k]? = some (58 :: name)) :
    ∃ (first : Nat) (value : Bytes), pattern[first]? = some (58 :: name) ∧
      segments[first]? = some value ∧ FirstBinding pattern segments name value := by
  have hexists : ∃ l, pattern[l]? = some (58 :: name) := ⟨k, hk⟩
  have hfirst := Nat.find_spec hexists
  obtain ⟨value, hvalue, -⟩ := Matches.getElem? h hfirst
  exact ⟨_, value, hfirst, hvalue, _, hfirst, hvalue, fun l hl => Nat.find_min hexists hl⟩

variable (matched : Matches pattern segments)
  (bound : ∀ name value, params.lookup name = some value ↔
    FirstBinding pattern segments name value)

include matched bound

theorem substitute_param {k : Nat} {name : Bytes} (hk : pattern[k]? = some (58 :: name)) :
    ∃ first : Nat, pattern[first]? = some (58 :: name) ∧
      (substitute params pattern)[k]? = segments[first]? := by
  obtain ⟨first, value, hfirst, hvalue, hbinding⟩ := exists_firstBinding matched hk
  refine ⟨first, hfirst, ?_⟩
  rw [substitute, List.getElem?_map, hk, hvalue, Option.map_some,
    if_pos (isParamSegment_iff.mpr ⟨name, rfl⟩), List.tail_cons, (bound name value).mpr hbinding]
  rfl

theorem substitute_eq_iff : substitute params pattern = segments ↔ Agrees pattern segments := by
  constructor
  · intro hsame k l name hk hl
    have hplace : ∀ m : Nat, pattern[m]? = some (58 :: name) →
        segments[m]? = (params.lookup name).getD (58 :: name) := by
      intro m hm
      rw [← hsame, substitute, List.getElem?_map, hm, Option.map_some,
        if_pos (isParamSegment_iff.mpr ⟨name, rfl⟩), List.tail_cons]
    rw [hplace k hk, hplace l hl]
  · intro hagrees
    refine List.ext_getElem? fun k => ?_
    cases hq : pattern[k]? with
    | none =>
        have hout : segments[k]? = none := by
          rw [List.getElem?_eq_none_iff] at hq ⊢
          exact matched.length_eq ▸ hq
        rw [substitute, List.getElem?_map, hq, hout]
        rfl
    | some q =>
        obtain ⟨s, hs, hadmits⟩ := Matches.getElem? matched hq
        by_cases hparam : isParamSegment q = true
        · obtain ⟨name, rfl⟩ := isParamSegment_iff.mp hparam
          obtain ⟨first, hfirst, hvalue⟩ := substitute_param matched bound hq
          rw [hvalue, hagrees first k name hfirst hq]
        · rw [substitute, List.getElem?_map, hq, Option.map_some, if_neg hparam,
            hadmits.resolve_left hparam, hs]

theorem substitute_valid (written : ∀ q ∈ pattern, ValidSegment q)
    (valid : ∀ s ∈ segments, ValidSegment s) :
    ∀ s ∈ substitute params pattern, ValidSegment s := by
  intro s hs
  obtain ⟨k, hk⟩ := List.mem_iff_getElem?.mp hs
  obtain ⟨q, hq, hvalue⟩ : ∃ q, pattern[k]? = some q ∧ _ = s := by
    rw [substitute, List.getElem?_map] at hk
    exact Option.map_eq_some_iff.mp hk
  by_cases hparam : isParamSegment q = true
  · obtain ⟨name, rfl⟩ := isParamSegment_iff.mp hparam
    obtain ⟨first, -, hfirst⟩ := substitute_param matched bound hq
    exact valid s (List.mem_of_getElem? (hfirst.symm.trans hk))
  · rw [if_neg hparam] at hvalue
    rw [← hvalue]
    exact written q (List.mem_of_getElem? hq)

end Substitution

/-- A match has a registration, and its parameters give the path back if and only if the
places with one name hold one segment. -/
theorem params_restore_path_iff {H : Type} (calls : List (Registration H)) (m : HttpMethod)
    (p : Bytes) (found : ((Router.empty.registerAll calls).matchRoute m p).found = true) :
    ∃ segments, splitPath p = .ok segments ∧
      (∃ i c, Selected calls m segments ((Router.empty.registerAll calls).matchRoute m p) i c) ∧
      ∀ i c, Selected calls m segments ((Router.empty.registerAll calls).matchRoute m p) i c →
        (Restores (substitute ((Router.empty.registerAll calls).matchRoute m p).params
            (pattern c)) p ↔ Agrees (pattern c) segments) := by
  obtain ⟨segments, y, n, e, params, hsplit, walk, hn, he, hresult, hparams⟩ := walk_of_found found
  obtain ⟨i, c, hselected, -⟩ := selected_of_walk walk hn he hresult hparams
  refine ⟨segments, hsplit, ⟨i, c, hselected⟩, fun j d hd => ?_⟩
  obtain ⟨-, -, -, hpattern, -, -⟩ := (represents_registerAll calls).stored j d hd.succeeded
  have hvalid := substitute_valid hd.matched hd.bound (splitPath_valid hpattern)
    (splitPath_valid hsplit)
  have hroot : substitute ((Router.empty.registerAll calls).matchRoute m p).params (pattern d) = []
      → segments = [] := by
    intro hempty
    have hnone : pattern d = [] := List.map_eq_nil_iff.mp hempty
    have hlength := hd.matched.length_eq
    rw [hnone] at hlength
    exact List.length_eq_zero_iff.mp hlength.symm
  rw [restores_iff hsplit hvalid hroot, substitute_eq_iff hd.matched hd.bound]

def pairCalls : List (Registration Unit) :=
  [.params .GET (ascii "/twice/:a/:a") (some ()), .params .GET (ascii "/typed/:a/:b") (some ())]

theorem params_restore_path_typed :
    ∃ segments, splitPath (ascii "/typed/x1/y%202") = .ok segments ∧
      (∃ i c, Selected pairCalls .GET segments
        ((Router.empty.registerAll pairCalls).matchRoute .GET (ascii "/typed/x1/y%202")) i c) ∧
      ∀ i c, Selected pairCalls .GET segments
        ((Router.empty.registerAll pairCalls).matchRoute .GET (ascii "/typed/x1/y%202")) i c →
        (Restores (substitute ((Router.empty.registerAll pairCalls).matchRoute .GET
            (ascii "/typed/x1/y%202")).params (pattern c)) (ascii "/typed/x1/y%202") ↔
          Agrees (pattern c) segments) :=
  params_restore_path_iff pairCalls .GET (ascii "/typed/x1/y%202") (by decide)

theorem second_value_lost : ¬ ∀ (calls : List (Registration Unit)) (m : HttpMethod) (p : Bytes),
    ((Router.empty.registerAll calls).matchRoute m p).found = true →
      ∀ segments i c,
        Selected calls m segments ((Router.empty.registerAll calls).matchRoute m p) i c →
        Restores (substitute ((Router.empty.registerAll calls).matchRoute m p).params
          (pattern c)) p := by
  intro h
  have hfound : ((Router.empty.registerAll [pairCalls[0]]).matchRoute .GET
      (ascii "/twice/x/y")).found = true := by
    decide
  obtain ⟨segments, y, n, e, params, hsplit, walk, hn, he, hresult, hparams⟩ :=
    walk_of_found hfound
  obtain ⟨i, c, hselected, -⟩ := selected_of_walk walk hn he hresult hparams
  have hrestores := h _ _ _ hfound segments i c hselected
  have honly : c = pairCalls[0] :=
    List.mem_singleton.mp (List.mem_of_getElem? hselected.succeeded.1)
  rw [honly] at hrestores
  unfold Restores at hrestores
  revert hrestores
  decide

end ApiGateway.PathRestoring
