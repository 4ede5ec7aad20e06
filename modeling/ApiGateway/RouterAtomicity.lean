import ApiGateway.RoutePaths
import ApiGateway.RouterSelection

/-! When a registration that throws can be observed afterwards. Every check
but one comes before the first node is created or sees only nodes that exist
already. The check for an unnamed parameter runs inside the descent: what was
created before it stays, and a leftover node is always visible to some later
call. -/

namespace ApiGateway.RouterAtomicity
open ByteText HttpText RouteTrie RouteTrieShape RoutePaths RouterHistory RouterSelection

variable {H : Type}

/-- No later sequence of calls tells the two routers apart: each call succeeds
in both or throws in both, and every match afterwards gives the same result. -/
def ObservedEqual (r r' : Router H) : Prop :=
  ∀ later : List (Registration H),
    (r.outcomes later).map Except.isOk = (r'.outcomes later).map Except.isOk ∧
    ∀ m p, (r.registerAll later).matchRoute m p = (r'.registerAll later).matchRoute m p

/-- The descent reaches a missing node and an unnamed parameter comes after it. -/
def createsBeforeThrow : List Bytes → TrieNode H → Bool
  | [], _ => false
  | segment :: rest, node =>
      if isParamSegment segment && (segment.tail == [] ||
          node.paramChild.any fun below => below.paramName != segment.tail) then false
      else
        match child node (keyOf segment) with
        | none => rest.contains [58]
        | some below => createsBeforeThrow rest below

/-- The call passes its argument and path checks and then leaves a node behind. -/
def LeavesNodes (router : Router H) (c : Registration H) : Prop :=
  (entry c).isSome ∧ ∃ segments, splitPath (routePath c) = .ok segments ∧
    createsBeforeThrow segments router.root = true

theorem createsBeforeThrow_blocked {node : TrieNode H} {segment : Bytes} (rest : List Bytes)
    (h : Blocked node segment) : createsBeforeThrow (segment :: rest) node = false := by
  obtain ⟨hp, hcase⟩ := h
  have htest : (isParamSegment segment && (segment.tail == [] ||
      node.paramChild.any fun below => below.paramName != segment.tail)) = true := by
    rcases hcase with hname | ⟨below, hbelow, hne⟩
    · simp [hp, hname]
    · simp [hp, hbelow, hne]
  rw [createsBeforeThrow, if_pos htest]

theorem createsBeforeThrow_open {node : TrieNode H} {segment : Bytes} (rest : List Bytes)
    (h : ¬ Blocked node segment) :
    createsBeforeThrow (segment :: rest) node =
      match child node (keyOf segment) with
      | none => rest.contains [58]
      | some below => createsBeforeThrow rest below := by
  have htest : ¬ (isParamSegment segment && (segment.tail == [] ||
      node.paramChild.any fun below => below.paramName != segment.tail)) = true := by
    intro ht
    rw [Bool.and_eq_true, Bool.or_eq_true] at ht
    refine h ⟨ht.1, ht.2.imp (by simp) fun hany => ?_⟩
    cases hc : node.paramChild with
    | none => simp [hc] at hany
    | some below => exact ⟨below, rfl, by simpa [hc] using hany⟩
  rw [createsBeforeThrow, if_neg htest]

section Descent

variable (path : Bytes) (m : HttpMethod) (e : RouteEntry H)

theorem not_blocked_fresh {segment name : Bytes} (h : segment ≠ [58]) :
    ¬ Blocked (TrieNode.fresh name : TrieNode H) segment := by
  rintro ⟨hp, hname | ⟨below, hbelow, -⟩⟩
  · obtain ⟨tail, rfl⟩ := isParamSegment_iff.mp hp
    rw [List.tail_cons] at hname
    exact h (by rw [hname])
  · cases hbelow

theorem insertEntry_fresh {pattern : List Bytes} (h : [58] ∉ pattern) (name : Bytes) :
    (insertEntry path m e pattern (TrieNode.fresh name)).2 = .ok () := by
  induction pattern generalizing name with
  | nil => rw [insertEntry_nil_free path m e rfl]
  | cons segment rest ih =>
    have hb : ¬ Blocked (TrieNode.fresh name : TrieNode H) segment :=
      not_blocked_fresh fun hs => h (by simp [hs])
    rw [insertEntry_open path m e rest hb, nextNode_of_missing (by simp)]
    exact ih (fun hmem => h (by simp [hmem])) _

theorem insertEntry_unchanged {pattern : List Bytes} {node : TrieNode H} {err : InvalidArgument}
    (failed : (insertEntry path m e pattern node).2 = .error err)
    (h : createsBeforeThrow pattern node = false) :
    (insertEntry path m e pattern node).1 = node := by
  induction pattern generalizing node with
  | nil =>
    cases hm : node.handlers m with
    | none =>
      rw [insertEntry_nil_free path m e hm] at failed
      cases failed
    | some old =>
      obtain ⟨err', herr⟩ := insertEntry_nil_taken path m e (Option.isSome_of_eq_some hm)
      rw [herr]
  | cons segment rest ih =>
    by_cases hb : Blocked node segment
    · obtain ⟨err', herr⟩ := insertEntry_blocked path m e rest hb
      rw [herr]
    · rw [insertEntry_open path m e rest hb] at failed ⊢
      rw [createsBeforeThrow_open rest hb] at h
      cases hc : child node (keyOf segment) with
      | none =>
        simp only [hc] at h
        rw [nextNode_of_missing hc] at failed
        have hnot : [58] ∉ rest := by simpa using h
        rw [insertEntry_fresh path m e hnot] at failed
        cases failed
      | some below =>
        simp only [hc] at h
        rw [nextNode_of_child hc] at failed ⊢
        rw [ih failed h]
        exact setKey_child hc

end Descent

theorem failed_call_unchanged {router : Router H} {c : Registration H} {err : InvalidArgument}
    (failed : (router.register c).2 = .error err) (h : ¬ LeavesNodes router c) :
    (router.register c).1 = router := by
  rcases register_cases router c with ⟨err', herr⟩ | ⟨e, segments, he, hs, hreg⟩
  · rw [herr]
  · rw [hreg] at failed ⊢
    have hcreates : createsBeforeThrow segments router.root = false := by
      by_contra hne
      exact h ⟨Option.isSome_of_eq_some he, segments, hs, by simpa using hne⟩
    rw [insertEntry_unchanged _ _ _ failed hcreates]

def ValidName (name : Bytes) : Prop := name ≠ [] ∧ 47 ∉ name

def WellFormed (t : TrieNode H) : Prop :=
  ∀ ks n, nodeAt ks t = some n →
    (∀ s, (child n (.literal s)).isSome → isParamSegment s = false) ∧
    ∀ below, child n .param = some below → ValidName below.paramName

theorem WellFormed.child {t below : TrieNode H} {key : SegmentKey} (h : WellFormed t)
    (hc : RouteTrieShape.child t key = some below) : WellFormed below :=
  fun ks n hn => h (key :: ks) n (by simp [nodeAt, hc, hn])

theorem wellFormed_fresh (name : Bytes) : WellFormed (TrieNode.fresh name : TrieNode H) := by
  intro ks n hn
  cases ks with
  | nil =>
    obtain rfl : TrieNode.fresh name = n := by simpa using hn
    simp
  | cons key rest => simp [nodeAt] at hn

theorem wellFormed_setHandler {t : TrieNode H} (m : HttpMethod) (e : RouteEntry H)
    (h : WellFormed t) : WellFormed (t.setHandler m e) := by
  intro ks n hn
  cases ks with
  | nil =>
    obtain rfl : t.setHandler m e = n := by simpa using hn
    simpa using h [] t rfl
  | cons key rest => exact h (key :: rest) n (by simpa [nodeAt] using hn)

theorem wellFormed_setKey {t below : TrieNode H} {key : SegmentKey} (h : WellFormed t)
    (hb : WellFormed below) (hlit : ∀ s, key = .literal s → isParamSegment s = false)
    (hname : key = .param → ValidName below.paramName) : WellFormed (setKey t key below) := by
  intro ks n hn
  cases ks with
  | nil =>
    obtain rfl : setKey t key below = n := by simpa using hn
    refine ⟨fun s hs => ?_, fun below' hbelow' => ?_⟩
    · by_cases hk : .literal s = key
      · exact hlit s hk.symm
      · exact (h [] t rfl).1 s (by simpa [hk] using hs)
    · by_cases hk : .param = key
      · rw [child_setKey, if_pos hk, Option.some.injEq] at hbelow'
        rw [← hbelow']
        exact hname hk.symm
      · exact (h [] t rfl).2 below' (by simpa [hk] using hbelow')
  | cons key' rest =>
    by_cases hk : key' = key
    · exact hb rest n (by simpa [nodeAt, hk] using hn)
    · exact h (key' :: rest) n (by simpa [nodeAt, hk] using hn)

theorem validName_tail {node : TrieNode H} {segment : Bytes} (hv : ValidSegment segment)
    (hb : ¬ Blocked node segment) (hp : isParamSegment segment = true) :
    ValidName segment.tail :=
  ⟨fun h => hb ⟨hp, .inl h⟩, fun h => hv.2 (List.mem_of_mem_tail h)⟩

theorem wellFormed_insertEntry (path : Bytes) (m : HttpMethod) (e : RouteEntry H)
    {pattern : List Bytes} (hv : ∀ s ∈ pattern, ValidSegment s) {t : TrieNode H}
    (h : WellFormed t) : WellFormed (insertEntry path m e pattern t).1 := by
  induction pattern generalizing t with
  | nil =>
    cases hm : t.handlers m with
    | none =>
      rw [insertEntry_nil_free path m e hm]
      exact wellFormed_setHandler m e h
    | some old =>
      obtain ⟨err, herr⟩ := insertEntry_nil_taken path m e (Option.isSome_of_eq_some hm)
      rw [herr]
      exact h
  | cons segment rest ih =>
    by_cases hb : Blocked t segment
    · obtain ⟨err, herr⟩ := insertEntry_blocked path m e rest hb
      rw [herr]
      exact h
    · rw [insertEntry_open path m e rest hb]
      have hnext : WellFormed (nextNode t segment) := by
        cases hc : child t (keyOf segment) with
        | none =>
          rw [nextNode_of_missing hc]
          exact wellFormed_fresh _
        | some below =>
          rw [nextNode_of_child hc]
          exact h.child hc
      refine wellFormed_setKey h (ih (fun s hs => hv s (by simp [hs])) hnext)
        (fun s hs => (keyOf_eq_literal.mp hs).2) fun hk => ?_
      have hp := keyOf_eq_param.mp hk
      rw [insertEntry_paramName, nextNode_paramName hb hp]
      exact validName_tail (hv segment (by simp)) hb hp

theorem wellFormed_registerAll (calls : List (Registration H)) :
    WellFormed (Router.empty.registerAll calls).root := by
  induction calls using List.reverseRecOn with
  | nil => exact wellFormed_fresh []
  | append_singleton calls c ih =>
    rw [registerAll_concat]
    rcases register_cases (Router.empty.registerAll calls) c with
      ⟨err, herr⟩ | ⟨e, segments, he, hs, hreg⟩
    · rw [herr]
      exact ih
    · rw [hreg]
      exact wellFormed_insertEntry _ _ _ (splitPath_valid hs) ih

def landing : List Bytes → TrieNode H → Option (TrieNode H)
  | [], t => some t
  | s :: rest, t =>
      match t.children s with
      | some below => landing rest below
      | none =>
          match t.paramChild with
          | some below => landing rest below
          | none => none

theorem landing_literal {s : Bytes} (rest : List Bytes) {t below : TrieNode H}
    (h : child t (.literal s) = some below) : landing (s :: rest) t = landing rest below := by
  rw [landing, show t.children s = some below from h]

theorem landing_setParam {s : Bytes} (rest : List Bytes) {t : TrieNode H} (below : TrieNode H)
    (h : child t (.literal s) = none) :
    landing (s :: rest) (setKey t .param below) = landing rest below := by
  rw [landing, setKey, show (t.setParamChild below).children s = none from h]
  rfl

theorem matchWalk_landing (p : List Bytes) (t : TrieNode H) (params : RouteParams) :
    (matchWalk p t params).map Prod.fst = landing p t := by
  induction p generalizing t params with
  | nil => rfl
  | cons s rest ih =>
    rw [matchWalk, landing]
    cases hs : t.children s with
    | some below => simp [ih]
    | none => cases hp : t.paramChild <;> simp [ih]

def Answers (p : List Bytes) (t : TrieNode H) : Prop :=
  ∃ n, landing p t = some n ∧ (n.handlers .GET).isSome

theorem found_iff_answers {t : TrieNode H} {path : Bytes} {p : List Bytes}
    (hs : splitPath path = .ok p) :
    ((⟨t⟩ : Router H).matchRoute .GET path).found = true ↔ Answers p t := by
  have hl := matchWalk_landing p t .empty
  simp only [Router.matchRoute, hs, Answers, ← hl]
  cases hw : matchWalk p t .empty with
  | none => simp [RouteMatch.notFound]
  | some hit =>
    cases he : hit.1.handlers .GET with
    | none => simp [he, RouteMatch.notFound]
    | some e => simp [he, RouteMatch.ofEntry]

/-- One GET registration along a pattern and one path that tell two tries apart. -/
def Distinguished (e : RouteEntry H) (a b : TrieNode H) : Prop :=
  ∃ pattern p, pattern ≠ [] ∧ (∀ s ∈ pattern, ValidSegment s) ∧ p ≠ [] ∧
    (∀ s ∈ p, ValidSegment s) ∧ ∀ path,
      ((insertEntry path .GET e pattern a).2 = .ok () ∧
        (insertEntry path .GET e pattern b).2 ≠ .ok ()) ∨
      (Answers p (insertEntry path .GET e pattern a).1 ∧
        ¬ Answers p (insertEntry path .GET e pattern b).1)

theorem insertEntry_nil_answers (path : Bytes) (e : RouteEntry H) (t : TrieNode H) :
    ((insertEntry path .GET e [] t).1.handlers .GET).isSome := by
  cases hm : t.handlers .GET with
  | none =>
    rw [insertEntry_nil_free path .GET e hm]
    simp [TrieNode.setHandler, TrieNode.handlers]
  | some old =>
    obtain ⟨err, herr⟩ := insertEntry_nil_taken path .GET e (Option.isSome_of_eq_some hm)
    rw [herr, hm]
    rfl

theorem insertEntry_cons_handlers (path : Bytes) (m : HttpMethod) (e : RouteEntry H)
    (segment : Bytes) (rest : List Bytes) (t : TrieNode H) :
    (insertEntry path m e (segment :: rest) t).1.handlers = t.handlers := by
  by_cases hb : Blocked t segment
  · obtain ⟨err, herr⟩ := insertEntry_blocked path m e rest hb
    rw [herr]
  · rw [insertEntry_open path m e rest hb, setKey_handlers]

theorem distinguished_literal (e : RouteEntry H) {t stub : TrieNode H} {s : Bytes}
    (wf : WellFormed t) (hv : ValidSegment s) (missing : child t (.literal s) = none)
    (bare : stub.handlers .GET = none) : Distinguished e t (setKey t (.literal s) stub) := by
  obtain ⟨name, hname, hsame⟩ : ∃ name, ValidName name ∧
      ∀ below, t.paramChild = some below → below.paramName = name := by
    cases hc : t.paramChild with
    | none => exact ⟨[120], by simp [ValidName], by simp⟩
    | some below =>
      exact ⟨below.paramName, (wf [] t rfl).2 below hc, fun b hb => by cases hb; rfl⟩
  have hopen : ∀ u : TrieNode H, u.paramChild = t.paramChild → ¬ Blocked u (58 :: name) := by
    rintro u hu ⟨-, hn | ⟨below, hbelow, hne⟩⟩
    · exact hname.1 hn
    · exact hne (hsame below (hu ▸ hbelow))
  have hsegment : ValidSegment (58 :: name) := ⟨by simp, by simpa using hname.2⟩
  refine ⟨[58 :: name], [s], by simp, by simpa using hsegment, by simp, by simpa using hv,
    fun path => .inr ⟨?_, ?_⟩⟩
  · rw [insertEntry_open path .GET e [] (hopen t rfl)]
    refine ⟨_, ?_, insertEntry_nil_answers path e (nextNode t (58 :: name))⟩
    exact landing_setParam [] _ missing
  · rw [insertEntry_open path .GET e [] (hopen (setKey t (.literal s) stub) (by rfl))]
    rintro ⟨n, hn, hh⟩
    rw [landing_literal [] (by simp [keyOf, isParamSegment]; exact rfl)] at hn
    obtain rfl : stub = n := Option.some.inj hn
    rw [bare] at hh
    cases hh

theorem distinguished_param (e : RouteEntry H) {t stub : TrieNode H} {name : Bytes}
    (hv : ValidName name) (missing : t.paramChild = none) (named : stub.paramName = name) :
    Distinguished e t (setKey t .param stub) := by
  have hsegment : ValidSegment (58 :: (name ++ [120])) := ⟨by simp, by simpa using hv.2⟩
  refine ⟨[58 :: (name ++ [120])], [[120]], by simp, by simpa using hsegment, by simp,
    by simp [ValidSegment], fun path => .inl ⟨?_, ?_⟩⟩
  · have hopen : ¬ Blocked t (58 :: (name ++ [120])) := by
      rintro ⟨-, hn | ⟨below, hbelow, -⟩⟩
      · simp at hn
      · rw [missing] at hbelow
        cases hbelow
    have hmissing : child t (keyOf (58 :: (name ++ [120]))) = none := missing
    rw [insertEntry_open path .GET e [] hopen, nextNode_of_missing hmissing,
      insertEntry_nil_free path .GET e rfl]
  · have hblocked : Blocked (setKey t .param stub) (58 :: (name ++ [120])) :=
      ⟨rfl, .inr ⟨stub, rfl, by simp [named]⟩⟩
    obtain ⟨err, herr⟩ := insertEntry_blocked path .GET e [] hblocked
    rw [herr]
    simp

theorem distinguished_below (e : RouteEntry H) {t below below' : TrieNode H} {segment : Bytes}
    (wf : WellFormed t) (hv : ValidSegment segment) (hb : ¬ Blocked t segment)
    (hc : child t (keyOf segment) = some below) (named : below'.paramName = below.paramName)
    (h : Distinguished e below below') :
    Distinguished e t (setKey t (keyOf segment) below') := by
  obtain ⟨pattern, p, hpat, hpatv, hp, hpv, hdiff⟩ := h
  have hb' : ¬ Blocked (setKey t (keyOf segment) below') segment := by
    rintro ⟨hparam, hn | ⟨other, hother, hne⟩⟩
    · exact hb ⟨hparam, .inl hn⟩
    · have hkey : keyOf segment = .param := if_pos hparam
      rw [hkey] at hc
      obtain rfl : below' = other := by
        simpa [hkey, setKey, TrieNode.setParamChild, TrieNode.paramChild] using hother
      exact hb ⟨hparam, .inr ⟨below, hc, named ▸ hne⟩⟩
  have hchild' : child (setKey t (keyOf segment) below') (keyOf segment) = some below' := by simp
  -- the path follows the pattern's own text; no literal edge looks like a parameter
  have hlanding : ∀ u x : TrieNode H, (∀ s, (child u (.literal s)).isSome →
      isParamSegment s = false) → landing (segment :: p) (setKey u (keyOf segment) x) =
      landing p x := by
    intro u x hu
    by_cases hparam : isParamSegment segment = true
    · have hnone : child u (.literal segment) = none := by
        by_contra hne
        have := hu segment (Option.isSome_iff_ne_none.mpr hne)
        rw [hparam] at this
        cases this
      rw [show keyOf segment = .param from if_pos hparam, landing_setParam p x hnone]
    · rw [show keyOf segment = .literal segment from if_neg hparam]
      exact landing_literal p (by simp)
  have hlit : ∀ x : TrieNode H, ∀ s, (child (setKey t (keyOf segment) x) (.literal s)).isSome →
      isParamSegment s = false := by
    intro x s hs
    by_cases hk : .literal s = keyOf segment
    · exact (keyOf_eq_literal.mp hk.symm).2
    · exact (wf [] t rfl).1 s (by simpa [hk] using hs)
  refine ⟨segment :: pattern, segment :: p, by simp,
    fun s hs => (List.mem_cons.mp hs).elim (fun h => h ▸ hv) (hpatv s), by simp,
    fun s hs => (List.mem_cons.mp hs).elim (fun h => h ▸ hv) (hpv s), fun path => ?_⟩
  rw [insertEntry_open path .GET e pattern hb, insertEntry_open path .GET e pattern hb',
    nextNode_of_child hc, nextNode_of_child hchild', Answers, Answers,
    hlanding t _ (wf [] t rfl).1, hlanding _ _ (hlit below')]
  exact hdiff path

theorem distinguished_of_creates (path : Bytes) (m : HttpMethod) (e e' : RouteEntry H)
    {pattern : List Bytes} (hv : ∀ s ∈ pattern, ValidSegment s) {t : TrieNode H}
    (wf : WellFormed t) (h : createsBeforeThrow pattern t = true) :
    Distinguished e' t (insertEntry path m e pattern t).1 := by
  induction pattern generalizing t with
  | nil => simp [createsBeforeThrow] at h
  | cons segment rest ih =>
    have hvs := hv segment (by simp)
    by_cases hb : Blocked t segment
    · rw [createsBeforeThrow_blocked rest hb] at h
      cases h
    · rw [createsBeforeThrow_open rest hb] at h
      rw [insertEntry_open path m e rest hb]
      cases hc : child t (keyOf segment) with
      | some below =>
        simp only [hc] at h
        rw [nextNode_of_child hc]
        exact distinguished_below e' wf hvs hb hc (insertEntry_paramName path m e rest below)
          (ih (fun s hs => hv s (by simp [hs])) (wf.child hc) h)
      | none =>
        simp only [hc] at h
        have hnext := nextNode_of_missing hc
        obtain ⟨s, rest', rfl⟩ : ∃ s rest', rest = s :: rest' := by
          cases rest with
          | nil => simp at h
          | cons s rest' => exact ⟨s, rest', rfl⟩
        by_cases hparam : isParamSegment segment = true
        · have hkey : keyOf segment = .param := if_pos hparam
          rw [hkey] at hc ⊢
          refine distinguished_param e' (validName_tail hvs hb hparam) hc ?_
          rw [insertEntry_paramName, nextNode_paramName hb hparam]
        · have hkey : keyOf segment = .literal segment := if_neg hparam
          rw [hkey] at hc ⊢
          refine distinguished_literal e' wf hvs hc ?_
          rw [insertEntry_cons_handlers, hnext]
          rfl

def observer : RouteEntry H := ⟨none, false, some ⟨[120], 1⟩⟩

theorem register_observer (router : Router H) {pattern : List Bytes} (ne : pattern ≠ [])
    (hv : ∀ s ∈ pattern, ValidSegment s) :
    router.register (.proxy .GET (joinPath pattern) [120] 1) =
      (⟨(insertEntry (joinPath pattern) .GET observer pattern router.root).1⟩,
        (insertEntry (joinPath pattern) .GET observer pattern router.root).2) :=
  register_insert (c := .proxy .GET (joinPath pattern) [120] 1) rfl (splitPath_join ne hv)

theorem not_observedEqual_of_distinguished {r r' : Router H}
    (h : Distinguished observer r.root r'.root) : ¬ ObservedEqual r' r := by
  intro hequal
  obtain ⟨pattern, p, hpat, hpatv, hp, hpv, hdiff⟩ := h
  obtain ⟨hout, hmatch⟩ := hequal [.proxy .GET (joinPath pattern) [120] 1]
  have hfound := congrArg RouteMatch.found (hmatch .GET (joinPath p))
  simp only [Router.outcomes, Router.registerAll, List.foldl_cons, List.foldl_nil,
    register_observer _ hpat hpatv, List.map_cons, List.map_nil, List.cons.injEq,
    and_true] at hout hfound
  rcases hdiff (joinPath pattern) with ⟨hok, hbad⟩ | ⟨hyes, hno⟩
  · rw [hok] at hout
    cases hr : (insertEntry (joinPath pattern) .GET observer pattern r'.root).2 with
    | ok u => exact hbad hr
    | error err =>
      rw [hr] at hout
      cases hout
  · have hsplit := splitPath_join hp hpv
    rw [(found_iff_answers hsplit).mpr hyes] at hfound
    exact hno ((found_iff_answers hsplit).mp hfound)

/-- A throwing call is invisible afterwards exactly when it leaves no node behind. -/
theorem failed_call_invisible_iff (calls : List (Registration H)) (c : Registration H)
    (err : InvalidArgument)
    (failed : ((Router.empty.registerAll calls).register c).2 = .error err) :
    ObservedEqual ((Router.empty.registerAll calls).register c).1
        (Router.empty.registerAll calls) ↔
      ¬ LeavesNodes (Router.empty.registerAll calls) c := by
  constructor
  · rintro hequal ⟨hentry, segments, hs, hcreates⟩
    obtain ⟨e, he⟩ := Option.isSome_iff_exists.mp hentry
    rw [register_insert he hs] at hequal
    exact not_observedEqual_of_distinguished
      (distinguished_of_creates (routePath c) (method c) e observer (splitPath_valid hs)
        (wellFormed_registerAll calls) hcreates) hequal
  · intro h
    rw [failed_call_unchanged failed h]
    exact fun later => ⟨rfl, fun m p => rfl⟩

theorem failed_conflict_invisible :
    ObservedEqual
        ((Router.empty.registerAll (userCalls.take 1)).register userCalls[1]).1
        (Router.empty.registerAll (userCalls.take 1)) ↔
      ¬ LeavesNodes (Router.empty.registerAll (userCalls.take 1)) userCalls[1] :=
  failed_call_invisible_iff (userCalls.take 1) userCalls[1]
    ⟨ascii "Conflicting parameter name at same path position: expected ':id' but got ':name'" ++
      ascii " in path: /users/:name"⟩ (by decide)

def anyRoute : List (Registration Unit) := [.proxy .GET (ascii "/:x") (ascii "h") 1]

theorem failed_unnamed_parameter_visible :
    ((Router.empty.registerAll anyRoute).register
      (.proxy .GET (ascii "/a/:") (ascii "h") 2)).2 =
        .error ⟨ascii "Parameter segment must have a name in path: /a/:"⟩ ∧
    ¬ ObservedEqual
        ((Router.empty.registerAll anyRoute).register
          (.proxy .GET (ascii "/a/:") (ascii "h") 2)).1
        (Router.empty.registerAll anyRoute) :=
  ⟨by decide, fun equal => absurd ((equal []).2 .GET (ascii "/a")) (by decide)⟩

end ApiGateway.RouterAtomicity
