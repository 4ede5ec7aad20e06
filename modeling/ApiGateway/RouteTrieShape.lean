import ApiGateway.RouteTrie

/-! What one registration call can do to the trie. A call either stops at a
blocked segment and changes nothing from there on, or replaces one child and
continues in it. Everything proved about insertions is derived from that
alternative, so the loop itself is unfolded only here. -/

namespace ApiGateway.RouteTrieShape
open ByteText HttpText RouteTrie

/-- An edge of the trie: a literal child or the parameter child. -/
inductive SegmentKey where
  | literal (text : Bytes)
  | param
  deriving DecidableEq

def keyOf (segment : Bytes) : SegmentKey :=
  if isParamSegment segment then .param else .literal segment

theorem keyOf_eq_param {segment : Bytes} :
    keyOf segment = .param ↔ isParamSegment segment = true := by
  by_cases hparam : isParamSegment segment = true
  · simp [keyOf, hparam]
  · simp [keyOf, hparam]

theorem keyOf_eq_literal {segment text : Bytes} :
    keyOf segment = .literal text ↔ segment = text ∧ isParamSegment text = false := by
  by_cases hparam : isParamSegment segment = true
  · simp only [keyOf, if_pos hparam, reduceCtorEq, false_iff, not_and, Bool.not_eq_false]
    exact fun hsame => hsame ▸ hparam
  · simp only [keyOf, if_neg hparam, SegmentKey.literal.injEq]
    exact ⟨fun hsame => ⟨hsame, hsame ▸ Bool.eq_false_iff.mpr hparam⟩, And.left⟩

variable {H : Type}

def child (node : TrieNode H) : SegmentKey → Option (TrieNode H)
  | .literal text => node.children text
  | .param => node.paramChild

def setKey (node : TrieNode H) : SegmentKey → TrieNode H → TrieNode H
  | .literal text, below => node.setChild text below
  | .param, below => node.setParamChild below

@[simp] theorem child_setKey (node below : TrieNode H) (key key' : SegmentKey) :
    child (setKey node key below) key' = if key' = key then some below else child node key' := by
  cases key <;> cases key' <;> simp [setKey, child, TrieNode.setChild, TrieNode.setParamChild,
    TrieNode.children, TrieNode.paramChild]

@[simp] theorem setKey_paramName (node below : TrieNode H) (key : SegmentKey) :
    (setKey node key below).paramName = node.paramName := by cases key <;> rfl

@[simp] theorem setKey_handlers (node below : TrieNode H) (key : SegmentKey) :
    (setKey node key below).handlers = node.handlers := by cases key <;> rfl

@[simp] theorem child_fresh (name : Bytes) (key : SegmentKey) :
    child (TrieNode.fresh name : TrieNode H) key = none := by cases key <;> rfl

@[simp] theorem fresh_handlers (name : Bytes) (method : HttpMethod) :
    (TrieNode.fresh name : TrieNode H).handlers method = none := rfl

@[simp] theorem fresh_paramName (name : Bytes) :
    (TrieNode.fresh name : TrieNode H).paramName = name := rfl

@[simp] theorem child_setHandler (node : TrieNode H) (method : HttpMethod)
    (entry : RouteEntry H) (key : SegmentKey) :
    child (node.setHandler method entry) key = child node key := by cases key <;> rfl

theorem setKey_child {node below : TrieNode H} {key : SegmentKey}
    (h : child node key = some below) : setKey node key below = node := by
  obtain ⟨children, paramChild, paramName, handlers⟩ := node
  cases key with
  | literal text =>
    simp only [child, TrieNode.children] at h
    simp only [setKey, TrieNode.setChild, TrieNode.children, TrieNode.paramChild,
      TrieNode.paramName, TrieNode.handlers, TrieNode.mk.injEq, and_true]
    funext k
    split_ifs with hk
    · rw [hk, h]
    · rfl
  | param =>
    simp only [child, TrieNode.paramChild] at h
    simp [setKey, TrieNode.setParamChild, h, TrieNode.children, TrieNode.paramName,
      TrieNode.handlers]

def nodeAt : List SegmentKey → TrieNode H → Option (TrieNode H)
  | [], node => some node
  | key :: rest, node => (child node key).bind (nodeAt rest)

@[simp] theorem nodeAt_nil (node : TrieNode H) : nodeAt [] node = some node := rfl

theorem nodeAt_append (ks ks' : List SegmentKey) (node : TrieNode H) :
    nodeAt (ks ++ ks') node = (nodeAt ks node).bind (nodeAt ks') := by
  induction ks generalizing node with
  | nil => rfl
  | cons key ks ih => cases h : child node key <;> simp [nodeAt, h, ih]

/-- The node a pattern leads to when its parameter names are the stored ones. -/
def patternNode : List Bytes → TrieNode H → Option (TrieNode H)
  | [], node => some node
  | segment :: rest, node =>
      match child node (keyOf segment) with
      | none => none
      | some below =>
          if isParamSegment segment ∧ below.paramName ≠ segment.tail then none
          else patternNode rest below

theorem patternNode_cons {segment : Bytes} {rest : List Bytes} {node n : TrieNode H} :
    patternNode (segment :: rest) node = some n ↔
      ∃ below, child node (keyOf segment) = some below ∧
        (isParamSegment segment = true → below.paramName = segment.tail) ∧
        patternNode rest below = some n := by
  rw [patternNode]
  cases child node (keyOf segment) with
  | none => simp
  | some below => simp

theorem nodeAt_of_patternNode {pattern : List Bytes} {node n : TrieNode H}
    (h : patternNode pattern node = some n) : nodeAt (pattern.map keyOf) node = some n := by
  induction pattern generalizing node with
  | nil => exact h
  | cons segment rest ih =>
    obtain ⟨below, hbelow, -, hrest⟩ := patternNode_cons.mp h
    simp [nodeAt, hbelow, ih hrest]

def Blocked (node : TrieNode H) (segment : Bytes) : Prop :=
  isParamSegment segment = true ∧
    (segment.tail = [] ∨ ∃ below, node.paramChild = some below ∧ below.paramName ≠ segment.tail)

def nextNode (node : TrieNode H) (segment : Bytes) : TrieNode H :=
  (child node (keyOf segment)).getD
    (TrieNode.fresh (if isParamSegment segment then segment.tail else []))

theorem nextNode_of_child {node below : TrieNode H} {segment : Bytes}
    (h : child node (keyOf segment) = some below) : nextNode node segment = below := by
  rw [nextNode, h, Option.getD_some]

theorem nextNode_of_missing {node : TrieNode H} {segment : Bytes}
    (h : child node (keyOf segment) = none) :
    nextNode node segment =
      TrieNode.fresh (if isParamSegment segment then segment.tail else []) := by
  rw [nextNode, h, Option.getD_none]

theorem nodeAt_nextNode {node n : TrieNode H} {segment : Bytes} {tail : List SegmentKey}
    (h : nodeAt tail (nextNode node segment) = some n) :
    nodeAt (keyOf segment :: tail) node = some n ∨
      tail = [] ∧ ∃ paramName, n = TrieNode.fresh paramName := by
  cases hc : child node (keyOf segment) with
  | some below =>
    rw [nextNode_of_child hc] at h
    exact .inl (by simp [nodeAt, hc, h])
  | none =>
    rw [nextNode_of_missing hc] at h
    cases tail with
    | nil => exact .inr ⟨rfl, _, (Option.some.inj h).symm⟩
    | cons key tail => simp [nodeAt] at h

theorem nextNode_paramName {node : TrieNode H} {segment : Bytes} (h : ¬ Blocked node segment)
    (hp : isParamSegment segment = true) : (nextNode node segment).paramName = segment.tail := by
  cases hc : child node (keyOf segment) with
  | none => simp [nextNode_of_missing hc, hp]
  | some below =>
    rw [nextNode_of_child hc]
    by_contra hne
    rw [keyOf, if_pos hp] at hc
    exact h ⟨hp, .inr ⟨below, hc, hne⟩⟩

section Descent

variable {path : Bytes} {found : TrieNode H → TrieNode H × Except InvalidArgument Unit}

theorem descend_blocked {node : TrieNode H} {segment : Bytes} (rest : List Bytes)
    (h : Blocked node segment) :
    ∃ e, descendOrCreate path found (segment :: rest) node = (node, .error e) := by
  obtain ⟨hp, hcase⟩ := h
  rw [descendOrCreate, if_pos hp]
  by_cases hname : segment.tail = []
  · exact ⟨_, if_pos hname⟩
  · obtain ⟨below, hbelow, hne⟩ := hcase.resolve_left hname
    simp only [if_neg hname, hbelow, if_pos hne]
    exact ⟨_, rfl⟩

theorem descend_open {node : TrieNode H} {segment : Bytes} (rest : List Bytes)
    (h : ¬ Blocked node segment) :
    descendOrCreate path found (segment :: rest) node =
      (setKey node (keyOf segment) (descendOrCreate path found rest (nextNode node segment)).1,
        (descendOrCreate path found rest (nextNode node segment)).2) := by
  rw [descendOrCreate]
  by_cases hp : isParamSegment segment = true
  · have hname : segment.tail ≠ [] := fun hn => h ⟨hp, .inl hn⟩
    have hkey : keyOf segment = .param := if_pos hp
    cases hc : node.paramChild with
    | none =>
      have hnext : nextNode node segment = TrieNode.fresh segment.tail := by
        simp [nextNode, hkey, child, hc, hp]
      simp only [if_pos hp, if_neg hname, hkey, hnext, setKey]
    | some below =>
      have hsame : ¬ below.paramName ≠ segment.tail := fun hne => h ⟨hp, .inr ⟨below, hc, hne⟩⟩
      have hnext : nextNode node segment = below := by simp [nextNode, hkey, child, hc]
      simp only [if_pos hp, if_neg hname, hkey, hnext, setKey, if_neg hsame]
  · have hkey : keyOf segment = .literal segment := if_neg hp
    simp only [if_neg hp, hkey, nextNode, setKey, child]

end Descent

/-- Every node is still there, under the same name and with its handlers. -/
def Extends (before after : TrieNode H) : Prop :=
  ∀ ks n, nodeAt ks before = some n → ∃ n', nodeAt ks after = some n' ∧
    n'.paramName = n.paramName ∧ ∀ m e, n.handlers m = some e → n'.handlers m = some e

theorem Extends.refl (node : TrieNode H) : Extends node node :=
  fun _ n h => ⟨n, h, rfl, fun _ _ he => he⟩

theorem Extends.child {before after below : TrieNode H} {key : SegmentKey}
    (h : Extends before after) (hc : child before key = some below) :
    ∃ below', RouteTrieShape.child after key = some below' ∧ Extends below below' := by
  obtain ⟨below', hb, -⟩ := h [key] below (by simp [nodeAt, hc])
  have hb' : RouteTrieShape.child after key = some below' := by
    simpa [nodeAt] using hb
  refine ⟨below', hb', fun ks n hn => ?_⟩
  simpa [nodeAt, hb'] using h (key :: ks) n (by simp [nodeAt, hc, hn])

theorem Extends.patternNode {pattern : List Bytes} {before after n : TrieNode H}
    (h : Extends before after) (hn : patternNode pattern before = some n) :
    ∃ n', RouteTrieShape.patternNode pattern after = some n' ∧
      ∀ m e, n.handlers m = some e → n'.handlers m = some e := by
  induction pattern generalizing before after with
  | nil =>
    obtain rfl : before = n := by simpa [RouteTrieShape.patternNode] using hn
    obtain ⟨n', hn', -, hh⟩ := h [] before rfl
    exact ⟨n', by simpa [nodeAt, RouteTrieShape.patternNode] using hn', hh⟩
  | cons segment rest ih =>
    obtain ⟨below, hbelow, hname, hrest⟩ := patternNode_cons.mp hn
    obtain ⟨below', hbelow', hext⟩ := h.child hbelow
    obtain ⟨_, hroot, hsame, -⟩ := hext [] below rfl
    obtain rfl : below' = _ := by simpa [nodeAt] using hroot
    obtain ⟨n', hn', hh⟩ := ih hext hrest
    exact ⟨n', patternNode_cons.mpr ⟨below', hbelow', by rwa [hsame], hn'⟩, hh⟩

theorem extends_setKey {node below : TrieNode H} {key : SegmentKey}
    (h : ∀ old, child node key = some old → Extends old below) :
    Extends node (setKey node key below) := by
  intro ks n hn
  cases ks with
  | nil =>
    obtain rfl : node = n := by simpa [nodeAt] using hn
    exact ⟨setKey node key below, rfl, by simp, by simp⟩
  | cons key' rest =>
    obtain ⟨old, hold, hrest⟩ := Option.bind_eq_some_iff.mp hn
    by_cases hk : key' = key
    · subst hk
      simpa [nodeAt] using h old hold rest n hrest
    · exact ⟨n, by simp [nodeAt, hk, hold, hrest], rfl, fun _ _ he => he⟩

theorem extends_setHandler {node : TrieNode H} {method : HttpMethod} (entry : RouteEntry H)
    (h : node.handlers method = none) : Extends node (node.setHandler method entry) := by
  intro ks n hn
  cases ks with
  | nil =>
    obtain rfl : node = n := by simpa [nodeAt] using hn
    refine ⟨_, rfl, rfl, fun m e he => ?_⟩
    by_cases hm : m = method
    · rw [hm, h] at he
      cases he
    · simpa [TrieNode.setHandler, TrieNode.handlers, hm] using he
  | cons key rest => exact ⟨n, by simpa [nodeAt] using hn, rfl, fun _ _ he => he⟩

section Insertion

variable (path : Bytes) (method : HttpMethod) (entry : RouteEntry H)

/-- The descent of a registration that supplies `entry`. -/
def insertEntry (pattern : List Bytes) (node : TrieNode H) :
    TrieNode H × Except InvalidArgument Unit :=
  descendOrCreate path (addHandlerEntry method path entry) pattern node

theorem insertEntry_nil_taken {node : TrieNode H} (h : (node.handlers method).isSome) :
    ∃ e, insertEntry path method entry [] node = (node, .error e) :=
  ⟨_, by rw [insertEntry, descendOrCreate, addHandlerEntry, if_pos h]⟩

theorem insertEntry_nil_free {node : TrieNode H} (h : node.handlers method = none) :
    insertEntry path method entry [] node = (node.setHandler method entry, .ok ()) := by
  rw [insertEntry, descendOrCreate, addHandlerEntry, h]
  rfl

theorem insertEntry_blocked {node : TrieNode H} {segment : Bytes} (rest : List Bytes)
    (h : Blocked node segment) :
    ∃ e, insertEntry path method entry (segment :: rest) node = (node, .error e) :=
  descend_blocked rest h

theorem insertEntry_open {node : TrieNode H} {segment : Bytes} (rest : List Bytes)
    (h : ¬ Blocked node segment) :
    insertEntry path method entry (segment :: rest) node =
      (setKey node (keyOf segment) (insertEntry path method entry rest (nextNode node segment)).1,
        (insertEntry path method entry rest (nextNode node segment)).2) :=
  descend_open rest h

theorem insertEntry_paramName (pattern : List Bytes) (node : TrieNode H) :
    (insertEntry path method entry pattern node).1.paramName = node.paramName := by
  cases pattern with
  | nil =>
    cases h : node.handlers method with
    | none => rw [insertEntry_nil_free path method entry h]; rfl
    | some old =>
      obtain ⟨e, he⟩ := insertEntry_nil_taken path method entry
        (Option.isSome_of_eq_some h)
      rw [he]
  | cons segment rest =>
    by_cases hb : Blocked node segment
    · obtain ⟨e, he⟩ := insertEntry_blocked path method entry rest hb
      rw [he]
    · rw [insertEntry_open path method entry rest hb, setKey_paramName]

theorem insertEntry_extends (pattern : List Bytes) (node : TrieNode H) :
    Extends node (insertEntry path method entry pattern node).1 := by
  induction pattern generalizing node with
  | nil =>
    cases h : node.handlers method with
    | none =>
      rw [insertEntry_nil_free path method entry h]
      exact extends_setHandler entry h
    | some old =>
      obtain ⟨e, he⟩ := insertEntry_nil_taken path method entry
        (Option.isSome_of_eq_some h)
      rw [he]
      exact Extends.refl node
  | cons segment rest ih =>
    by_cases hb : Blocked node segment
    · obtain ⟨e, he⟩ := insertEntry_blocked path method entry rest hb
      rw [he]
      exact Extends.refl node
    · rw [insertEntry_open path method entry rest hb]
      refine extends_setKey fun old hold => ?_
      rw [← nextNode_of_child hold]
      exact ih _

variable {path method entry}

theorem insertEntry_handlers {pattern : List Bytes} {node : TrieNode H} {ks : List SegmentKey}
    {n : TrieNode H} {m : HttpMethod} {e : RouteEntry H}
    (hn : nodeAt ks (insertEntry path method entry pattern node).1 = some n)
    (he : n.handlers m = some e) :
    (∃ old, nodeAt ks node = some old ∧ old.handlers m = some e) ∨
      ((insertEntry path method entry pattern node).2 = .ok () ∧ ks = pattern.map keyOf ∧
        m = method ∧ e = entry) := by
  induction pattern generalizing node ks with
  | nil =>
    cases h : node.handlers method with
    | none =>
      rw [insertEntry_nil_free path method entry h] at hn ⊢
      cases ks with
      | nil =>
        obtain rfl : node.setHandler method entry = n := by simpa [nodeAt] using hn
        by_cases hm : m = method
        · subst hm
          have hentry : entry = e := by
            simpa [TrieNode.setHandler, TrieNode.handlers] using he
          exact .inr ⟨rfl, rfl, rfl, hentry.symm⟩
        · exact .inl ⟨node, rfl, by simpa [TrieNode.setHandler, TrieNode.handlers, hm] using he⟩
      | cons key rest => exact .inl ⟨n, by simpa [nodeAt] using hn, he⟩
    | some old =>
      obtain ⟨err, herr⟩ := insertEntry_nil_taken path method entry
        (Option.isSome_of_eq_some h)
      rw [herr] at hn
      exact .inl ⟨n, hn, he⟩
  | cons segment rest ih =>
    by_cases hb : Blocked node segment
    · obtain ⟨err, herr⟩ :=
        insertEntry_blocked path method entry rest hb
      rw [herr] at hn
      exact .inl ⟨n, hn, he⟩
    · rw [insertEntry_open path method entry rest hb] at hn ⊢
      cases ks with
      | nil =>
        obtain rfl : setKey node _ _ = n := by simpa [nodeAt] using hn
        exact .inl ⟨node, rfl, by simpa using he⟩
      | cons key tail =>
        by_cases hk : key = keyOf segment
        · subst hk
          have hbelow : nodeAt tail (insertEntry path method entry rest (nextNode node segment)).1 =
              some n := by simpa [nodeAt] using hn
          rcases ih hbelow with ⟨old, hold, hsame⟩ | ⟨hok, rfl, rfl, rfl⟩
          · obtain hthere | ⟨-, paramName, rfl⟩ := nodeAt_nextNode hold
            · exact .inl ⟨old, hthere, hsame⟩
            · cases hsame
          · exact .inr ⟨hok, rfl, rfl, rfl⟩
        · exact .inl ⟨n, by simpa [nodeAt, hk] using hn, he⟩

theorem insertEntry_nodes {pattern : List Bytes} {node : TrieNode H} {ks : List SegmentKey}
    {n : TrieNode H} (hn : nodeAt ks (insertEntry path method entry pattern node).1 = some n) :
    (nodeAt ks node).isSome ∨ ks <+: pattern.map keyOf := by
  induction pattern generalizing node ks with
  | nil =>
    cases ks with
    | nil => exact .inl rfl
    | cons key tail =>
      left
      cases h : node.handlers method with
      | none =>
        rw [insertEntry_nil_free path method entry h] at hn
        have hn' : nodeAt (key :: tail) node = some n := by simpa [nodeAt] using hn
        exact Option.isSome_of_eq_some hn'
      | some old =>
        obtain ⟨err, herr⟩ := insertEntry_nil_taken path method entry
          (Option.isSome_of_eq_some h)
        rw [herr] at hn
        exact Option.isSome_of_eq_some hn
  | cons segment rest ih =>
    by_cases hb : Blocked node segment
    · obtain ⟨err, herr⟩ :=
        insertEntry_blocked path method entry rest hb
      rw [herr] at hn
      exact .inl (Option.isSome_of_eq_some hn)
    · rw [insertEntry_open path method entry rest hb] at hn
      cases ks with
      | nil => exact .inl rfl
      | cons key tail =>
        by_cases hk : key = keyOf segment
        · subst hk
          have hbelow : nodeAt tail (insertEntry path method entry rest (nextNode node segment)).1 =
              some n := by simpa [nodeAt] using hn
          rcases ih hbelow with hold | hprefix
          · obtain ⟨old, hold⟩ := Option.isSome_iff_exists.mp hold
            obtain hthere | ⟨rfl, -⟩ := nodeAt_nextNode hold
            · exact .inl (Option.isSome_of_eq_some hthere)
            · exact .inr ⟨rest.map keyOf, rfl⟩
          · exact .inr (by simpa using hprefix)
        · exact .inl (Option.isSome_of_eq_some (by simpa [nodeAt, hk] using hn))

theorem insertEntry_ok {pattern : List Bytes} {node : TrieNode H}
    (h : (insertEntry path method entry pattern node).2 = .ok ()) :
    (∃ n, patternNode pattern (insertEntry path method entry pattern node).1 = some n ∧
      n.handlers method = some entry) ∧
    ∀ old, nodeAt (pattern.map keyOf) node = some old → old.handlers method = none := by
  induction pattern generalizing node with
  | nil =>
    cases hm : node.handlers method with
    | none =>
      rw [insertEntry_nil_free path method entry hm]
      refine ⟨⟨_, rfl, by simp [TrieNode.setHandler, TrieNode.handlers]⟩, fun old hold => ?_⟩
      obtain rfl : node = old := by simpa [nodeAt] using hold
      exact hm
    | some old =>
      obtain ⟨err, herr⟩ := insertEntry_nil_taken path method entry
        (Option.isSome_of_eq_some hm)
      rw [herr] at h
      cases h
  | cons segment rest ih =>
    by_cases hb : Blocked node segment
    · obtain ⟨err, herr⟩ :=
        insertEntry_blocked path method entry rest hb
      rw [herr] at h
      cases h
    · rw [insertEntry_open path method entry rest hb] at h ⊢
      obtain ⟨⟨n, hn, he⟩, hfree⟩ := ih h
      refine ⟨⟨n, ?_, he⟩, fun old hold => ?_⟩
      · refine patternNode_cons.mpr ⟨_, by rw [child_setKey, if_pos rfl], fun hparam => ?_, hn⟩
        rw [insertEntry_paramName]
        exact nextNode_paramName hb hparam
      · obtain ⟨below, hbelow, hrest⟩ := Option.bind_eq_some_iff.mp hold
        exact hfree old (by rw [nextNode_of_child hbelow]; exact hrest)

end Insertion

end ApiGateway.RouteTrieShape
