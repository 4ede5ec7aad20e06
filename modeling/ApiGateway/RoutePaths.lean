import ApiGateway.RouteTrie

/-! Paths and their segments. A list of nonempty slash-free segments is what
`splitPath` returns for the path that writes a slash before each of them. -/

namespace ApiGateway.RoutePaths
open ByteText HttpText RouteTrie

def ValidSegment (s : Bytes) : Prop := s ≠ [] ∧ 47 ∉ s

def joinPath (segments : List Bytes) : Bytes := segments.flatMap fun s => 47 :: s

theorem splitFrom_append (path segment s rest : Bytes) (h : 47 ∉ s) :
    splitFrom path segment (s ++ rest) = splitFrom path (segment ++ s) rest := by
  induction s generalizing segment with
  | nil => simp
  | cons b s ih =>
    have hb : b ≠ 47 := fun hb => h (by simp [hb])
    rw [List.cons_append, splitFrom, if_neg hb, ih _ fun hs => h (by simp [hs])]
    simp

theorem splitFrom_join (path : Bytes) {segments : List Bytes}
    (h : ∀ s ∈ segments, ValidSegment s) {first : Bytes} (hf : ValidSegment first) :
    splitFrom path [] (first ++ joinPath segments) = .ok (first :: segments) := by
  induction segments generalizing first with
  | nil =>
    rw [splitFrom_append path [] first _ hf.2]
    simp [joinPath, splitFrom, hf.1]
  | cons s rest ih =>
    rw [splitFrom_append path [] first _ hf.2, joinPath, List.flatMap_cons, List.nil_append,
      List.cons_append, splitFrom, if_pos rfl, if_neg hf.1]
    rw [← joinPath, ih (fun t ht => h t (by simp [ht])) (h s (by simp))]
    rfl

theorem splitPath_join {segments : List Bytes} (ne : segments ≠ [])
    (h : ∀ s ∈ segments, ValidSegment s) : splitPath (joinPath segments) = .ok segments := by
  cases segments with
  | nil => exact absurd rfl ne
  | cons first rest =>
    rw [joinPath, List.flatMap_cons, List.cons_append, splitPath, if_pos rfl, ← joinPath]
    exact splitFrom_join _ (fun s hs => h s (by simp [hs])) (h first (by simp))

theorem splitFrom_valid {path segment rest : Bytes} {segments : List Bytes}
    (hs : 47 ∉ segment) (h : splitFrom path segment rest = .ok segments) :
    ∀ s ∈ segments, ValidSegment s := by
  induction rest generalizing segment segments with
  | nil =>
    rw [splitFrom, Except.ok.injEq] at h
    subst h
    split_ifs with hne
    · simp
    · simpa using ⟨hne, hs⟩
  | cons b rest ih =>
    rw [splitFrom] at h
    split_ifs at h with hb hne
    · cases hrest : splitFrom path [] rest with
      | error e => simp [hrest, Except.map] at h
      | ok tail =>
        simp only [hrest, Except.map, Except.ok.injEq] at h
        subst h
        intro s hmem
        rcases List.mem_cons.mp hmem with rfl | hmem
        · exact ⟨hne, hs⟩
        · exact ih (by simp) hrest s hmem
    · exact ih (by simpa using ⟨hs, fun h => hb h.symm⟩) h

theorem splitPath_valid {path : Bytes} {segments : List Bytes}
    (h : splitPath path = .ok segments) : ∀ s ∈ segments, ValidSegment s := by
  cases path with
  | nil => simp [splitPath] at h
  | cons b rest =>
    rw [splitPath] at h
    split_ifs at h
    exact splitFrom_valid (by simp) h

end ApiGateway.RoutePaths
