import ApiGateway.RouterHistory
import ApiGateway.StepRuns

/-! Registrations that succeed can be exchanged. Two insertions below one node
either part there, and then they change different children, or go on in the same
child under the same name. -/

namespace ApiGateway.RouterOrder
open ByteText HttpText RouteTrie RouteTrieShape RouterHistory StepRuns

variable {H : Type}

/-- A successful insertion, from a node to what becomes of it. -/
inductive Grows (method : HttpMethod) (entry : RouteEntry H) :
    List Bytes → TrieNode H → TrieNode H → Prop where
  | here {node : TrieNode H} (free : node.handlers method = none) :
      Grows method entry [] node (node.setHandler method entry)
  | along {segment : Bytes} {rest : List Bytes} {node below : TrieNode H}
      (opened : ¬ Blocked node segment)
      (grows : Grows method entry rest (nextNode node segment) below) :
      Grows method entry (segment :: rest) node (setKey node (keyOf segment) below)

theorem insertEntry_grows {path : Bytes} {method : HttpMethod} {entry : RouteEntry H}
    {pattern : List Bytes} {node after : TrieNode H} :
    insertEntry path method entry pattern node = (after, .ok ()) ↔
      Grows method entry pattern node after := by
  constructor
  · intro h
    induction pattern generalizing node after with
    | nil =>
        cases hfree : node.handlers method with
        | none =>
            rw [insertEntry_nil_free path method entry hfree] at h
            cases h
            exact .here hfree
        | some old =>
            have ⟨e, he⟩ := insertEntry_nil_taken path method entry (Option.isSome_of_eq_some hfree)
            rw [he] at h
            cases h
    | cons segment rest ih =>
        by_cases hblocked : Blocked node segment
        · have ⟨e, he⟩ := insertEntry_blocked path method entry rest hblocked
          rw [he] at h
          cases h
        · rw [insertEntry_open path method entry rest hblocked, Prod.mk.injEq] at h
          rw [← h.1]
          exact .along hblocked (ih (Prod.ext rfl h.2))
  · intro h
    induction h with
    | here hfree => exact insertEntry_nil_free path method entry hfree
    | along hopened _ ih => rw [insertEntry_open path method entry _ hopened, ih]

theorem setKey_setKey (node a b : TrieNode H) (key : SegmentKey) :
    setKey (setKey node key a) key b = setKey node key b := by
  cases key with
  | literal text =>
      simp only [setKey, TrieNode.setChild, TrieNode.mk.injEq, TrieNode.children,
        TrieNode.paramChild, TrieNode.paramName, TrieNode.handlers, and_true]
      funext k
      split_ifs <;> rfl
  | param => rfl

theorem setKey_comm (node a b : TrieNode H) {key key' : SegmentKey} (h : key ≠ key') :
    setKey (setKey node key a) key' b = setKey (setKey node key' b) key a := by
  cases key with
  | literal text =>
      cases key' with
      | literal text' =>
          have hne : text ≠ text' := fun heq => h (congrArg _ heq)
          simp only [setKey, TrieNode.setChild, TrieNode.mk.injEq, TrieNode.children,
            TrieNode.paramChild, TrieNode.paramName, TrieNode.handlers, and_true]
          funext k
          split_ifs with hk hk'
          · exact absurd (hk'.symm.trans hk) hne
          · rfl
          · rfl
          · rfl
      | param => rfl
  | param =>
      cases key' with
      | literal text' => rfl
      | param => exact absurd rfl h

theorem setKey_setHandler (node below : TrieNode H) (key : SegmentKey) (method : HttpMethod)
    (entry : RouteEntry H) : setKey (node.setHandler method entry) key below =
      (setKey node key below).setHandler method entry := by
  cases key <;> rfl

theorem setHandler_comm (node : TrieNode H) {method method' : HttpMethod} (h : method ≠ method')
    (entry entry' : RouteEntry H) : (node.setHandler method entry).setHandler method' entry' =
      (node.setHandler method' entry').setHandler method entry := by
  simp only [TrieNode.setHandler, TrieNode.mk.injEq, TrieNode.children, TrieNode.paramChild,
    TrieNode.paramName, TrieNode.handlers, true_and]
  funext m
  split_ifs with hm hm'
  · exact absurd (hm'.symm.trans hm) h
  · rfl
  · rfl
  · rfl

theorem blocked_congr {node node' : TrieNode H} {segment : Bytes}
    (same : child node' (keyOf segment) = child node (keyOf segment)) :
    (Blocked node' segment ↔ Blocked node segment) ∧
      nextNode node' segment = nextNode node segment := by
  refine ⟨?_, by rw [nextNode, nextNode, same]⟩
  unfold Blocked
  by_cases hp : isParamSegment segment = true
  · rw [keyOf, if_pos hp] at same
    change node'.paramChild = node.paramChild at same
    rw [same]
  · simp [hp]

theorem segment_eq {node below : TrieNode H} {segment segment' : Bytes}
    (opened : ¬ Blocked node segment) (named : below.paramName = (nextNode node segment).paramName)
    (opened' : ¬ Blocked (setKey node (keyOf segment) below) segment')
    (same : keyOf segment' = keyOf segment) : segment' = segment := by
  have hnext : nextNode (setKey node (keyOf segment) below) segment' = below :=
    nextNode_of_child (by rw [same, child_setKey, if_pos rfl])
  by_cases hp : isParamSegment segment = true
  · by_cases hp' : isParamSegment segment' = true
    · have htail : segment'.tail = segment.tail := by
        rw [← nextNode_paramName opened' hp', hnext, named, nextNode_paramName opened hp]
      have hhead : ∀ s : Bytes, isParamSegment s = true → s = 58 :: s.tail := by
        intro s hs
        cases s with
        | nil => cases hs
        | cons b rest =>
            have hb : b = 58 := by simpa [isParamSegment] using hs
            rw [hb, List.tail_cons]
      rw [hhead segment hp, hhead segment' hp', htail]
    · rw [keyOf, keyOf, if_pos hp, if_neg hp'] at same
      cases same
  · by_cases hp' : isParamSegment segment' = true
    · rw [keyOf, keyOf, if_neg hp, if_pos hp'] at same
      cases same
    · rw [keyOf, keyOf, if_neg hp, if_neg hp', SegmentKey.literal.injEq] at same
      exact same

theorem Grows.paramName {method : HttpMethod} {entry : RouteEntry H} {pattern : List Bytes}
    {node after : TrieNode H} (h : Grows method entry pattern node after) :
    after.paramName = node.paramName := by
  cases h with
  | here => rfl
  | along => exact setKey_paramName _ _ _

theorem reopened {node below : TrieNode H} {segment : Bytes} (opened : ¬ Blocked node segment)
    (named : below.paramName = (nextNode node segment).paramName) :
    ¬ Blocked (setKey node (keyOf segment) below) segment ∧
      nextNode (setKey node (keyOf segment) below) segment = below := by
  refine ⟨fun hblocked => ?_, nextNode_of_child (by rw [child_setKey, if_pos rfl])⟩
  have ⟨hp, hcase⟩ := hblocked
  cases hcase with
  | inl hempty => exact opened ⟨hp, .inl hempty⟩
  | inr hother =>
      have ⟨old, hold, hne⟩ := hother
      rw [keyOf, if_pos hp] at hold
      cases hold
      exact hne (named.trans (nextNode_paramName opened hp))

theorem Grows.exchange {m m' : HttpMethod} {e e' : RouteEntry H} {pattern pattern' : List Bytes}
    {node middle after : TrieNode H} (first : Grows m e pattern node middle)
    (second : Grows m' e' pattern' middle after) :
    ∃ middle', Grows m' e' pattern' node middle' ∧ Grows m e pattern middle' after := by
  induction first generalizing pattern' after with
  | @here node hfree =>
      cases second with
      | here hfree' =>
          have hne : m ≠ m' := by
            intro h
            simp [TrieNode.setHandler, TrieNode.handlers, h] at hfree'
          have hold : node.handlers m' = none := by
            simpa [TrieNode.setHandler, TrieNode.handlers, hne.symm] using hfree'
          refine ⟨node.setHandler m' e', .here hold, ?_⟩
          rw [setHandler_comm node hne]
          refine .here ?_
          simpa [TrieNode.setHandler, TrieNode.handlers, hne] using hfree
      | @along segment rest _ below hopened hgrows =>
          obtain ⟨hblocked, hnext⟩ := blocked_congr (child_setHandler node m e (keyOf segment))
          rw [hnext] at hgrows
          refine ⟨_, .along (fun h => hopened (hblocked.mpr h)) hgrows, ?_⟩
          rw [setKey_setHandler]
          exact .here (by rw [setKey_handlers]; exact hfree)
  | @along segment rest node below hopened hgrows ih =>
      cases second with
      | here hfree =>
          rw [setKey_handlers] at hfree
          refine ⟨_, .here hfree, ?_⟩
          rw [← setKey_setHandler]
          obtain ⟨hblocked, hnext⟩ := blocked_congr (child_setHandler node m' e' (keyOf segment))
          exact .along (fun h => hopened (hblocked.mp h)) (by rw [hnext]; exact hgrows)
      | @along segment' rest' _ below' hopened' hgrows' =>
          by_cases hkey : keyOf segment' = keyOf segment
          · have hseg := segment_eq hopened hgrows.paramName hopened' hkey
            rw [hseg] at hgrows' ⊢
            rw [(reopened hopened hgrows.paramName).2] at hgrows'
            obtain ⟨middle', hfirst, hsecond⟩ := ih hgrows'
            obtain ⟨hagain, hnext⟩ := reopened hopened hfirst.paramName
            refine ⟨_, .along hopened hfirst, ?_⟩
            rw [setKey_setKey node below below', ← setKey_setKey node middle' below']
            exact .along hagain (by rw [hnext]; exact hsecond)
          · -- the two part at this node
            obtain ⟨hblocked, hnext⟩ : (Blocked (setKey node (keyOf segment) below) segment' ↔
                Blocked node segment') ∧ nextNode (setKey node (keyOf segment) below) segment' =
                nextNode node segment' :=
              blocked_congr (by rw [child_setKey, if_neg hkey])
            obtain ⟨hblocked', hnext'⟩ : (Blocked (setKey node (keyOf segment') below') segment ↔
                Blocked node segment) ∧ nextNode (setKey node (keyOf segment') below') segment =
                nextNode node segment :=
              blocked_congr (by rw [child_setKey, if_neg (Ne.symm hkey)])
            rw [hnext] at hgrows'
            refine ⟨_, .along (fun h => hopened' (hblocked.mpr h)) hgrows', ?_⟩
            rw [setKey_comm node below below' (Ne.symm hkey)]
            exact .along (fun h => hopened (hblocked'.mp h)) (by rw [hnext']; exact hgrows)

def registered (router : Router H) (c : Registration H) : Option (Router H) :=
  match router.register c with
  | (router', .ok ()) => some router'
  | (_, .error _) => none

theorem registered_iff {router router' : Router H} {c : Registration H} :
    registered router c = some router' ↔ router.register c = (router', .ok ()) := by
  unfold registered
  cases router.register c with
  | mk after outcome => cases outcome <;> simp

theorem registered_grows {router router' : Router H} {c : Registration H} :
    registered router c = some router' ↔ ∃ e segments, entry c = some e ∧
      splitPath (routePath c) = .ok segments ∧
      Grows (method c) e segments router.root router'.root := by
  rw [registered_iff]
  constructor
  · intro h
    rcases register_cases router c with ⟨err, herr⟩ | ⟨e, segments, he, hs, hreg⟩
    · rw [herr] at h
      cases h
    · rw [hreg, Prod.mk.injEq] at h
      have hinsert : insertEntry (routePath c) (method c) e segments router.root =
          (router'.root, .ok ()) := by
        rw [← h.1]
        exact Prod.ext rfl h.2
      exact ⟨e, segments, he, hs, insertEntry_grows.mp hinsert⟩
  · intro ⟨e, segments, he, hs, hgrows⟩
    rw [register_insert he hs, insertEntry_grows.mpr hgrows]

theorem registered_exchange (router : Router H) (a b : Registration H) (router' : Router H)
    (h : exec registered router [a, b] = some router') :
    exec registered router [b, a] = some router' := by
  have ⟨middle, hfirst, hlast⟩ := Option.bind_eq_some_iff.mp h
  have ⟨after, hsecond, hafter⟩ := Option.bind_eq_some_iff.mp hlast
  cases hafter
  have ⟨e, segments, he, hs, hgrows⟩ := registered_grows.mp hfirst
  have ⟨e', segments', he', hs', hgrows'⟩ := registered_grows.mp hsecond
  have ⟨node, hnode, hnode'⟩ := hgrows.exchange hgrows'
  have hb : registered router b = some ⟨node⟩ := registered_grows.mpr ⟨e', segments', he', hs', hnode⟩
  have ha : registered ⟨node⟩ a = some router' := registered_grows.mpr ⟨e, segments, he, hs, hnode'⟩
  simp [exec, hb, ha]

theorem outcomes_ok_iff {router : Router H} {calls : List (Registration H)} :
    (∀ outcome ∈ router.outcomes calls, outcome = .ok ()) ↔
      exec registered router calls = some (router.registerAll calls) := by
  induction calls generalizing router with
  | nil => simp [Router.outcomes, exec, Router.registerAll]
  | cons c rest ih =>
      cases hreg : router.register c with
      | mk after outcome =>
          have hall : router.registerAll (c :: rest) = after.registerAll rest := by
            rw [Router.registerAll, List.foldl_cons, hreg]
            rfl
          rw [hall, Router.outcomes, List.forall_mem_cons, hreg, exec]
          cases outcome with
          | ok value =>
              rw [registered_iff.mpr hreg, Option.bind_some, ← ih]
              simp
          | error ex =>
              have hnone : registered router c = none := by
                unfold registered
                rw [hreg]
              simp [hnone]

theorem registerAll_of_exec {router router' : Router H} {calls : List (Registration H)}
    (h : exec registered router calls = some router') : router' = router.registerAll calls := by
  induction calls generalizing router with
  | nil => exact (Option.some.inj h).symm
  | cons c rest ih =>
      have ⟨middle, hfirst, hrest⟩ := Option.bind_eq_some_iff.mp h
      rw [ih hrest, Router.registerAll, Router.registerAll, List.foldl_cons,
        registered_iff.mp hfirst]

/-- Registrations that succeed in one order succeed in every order, and leave a router
that matches alike. -/
theorem registration_order_irrelevant (calls calls' : List (Registration H))
    (perm : calls.Perm calls')
    (succeed : ∀ outcome ∈ Router.empty.outcomes calls, outcome = .ok ()) :
    (∀ outcome ∈ Router.empty.outcomes calls', outcome = .ok ()) ∧
      ∀ m p, (Router.empty.registerAll calls').matchRoute m p =
        (Router.empty.registerAll calls).matchRoute m p := by
  have hexec := exec_perm registered_exchange perm (outcomes_ok_iff.mp succeed)
  have hsame := registerAll_of_exec hexec
  refine ⟨outcomes_ok_iff.mpr ?_, fun m p => by rw [hsame]⟩
  rw [← hsame]
  exact hexec

def threeCalls : List (Registration Unit) :=
  [.proxy .GET (ascii "/users/:id") (ascii "h") 1, .route .GET (ascii "/users/me") (some ()),
    .params .POST (ascii "/users/:id") (some ())]

theorem registration_order_irrelevant_three :
    ((Router.empty.registerAll threeCalls.reverse).matchRoute .POST (ascii "/users/7")).found =
      true ∧
    (Router.empty.registerAll threeCalls.reverse).matchRoute .POST (ascii "/users/7") =
      (Router.empty.registerAll threeCalls).matchRoute .POST (ascii "/users/7") := by
  refine ⟨by decide, ?_⟩
  exact (registration_order_irrelevant threeCalls threeCalls.reverse
    (List.reverse_perm threeCalls).symm (by decide)).2 _ _

end ApiGateway.RouterOrder
