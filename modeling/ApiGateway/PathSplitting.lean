import ApiGateway.RoutePaths

/-! `splitPath` exactly: which paths it refuses, and that the segments of the others
write them again. The loop of the source, with its positions, comes first. -/

namespace ApiGateway.PathSplitting
open ByteText HttpText RouteTrie RoutePaths

/-- `end` of the source: the next slash, or the size of the path. -/
def segmentEnd (path : Bytes) (start : Nat) : Nat :=
  match findFrom [47] path start with
  | none => path.length
  | some position => position

theorem le_segmentEnd {path : Bytes} {start : Nat} (inside : start ≤ path.length) :
    start ≤ segmentEnd path start := by
  unfold segmentEnd findFrom
  cases find [47] (path.drop start) with
  | none => exact inside
  | some position => exact Nat.le_add_left _ _

def splitLoop (path : Bytes) (start : Nat) : Except InvalidArgument (List Bytes) :=
  if inside : start ≤ path.length then
    if segmentEnd path start > start then
      (splitLoop path (segmentEnd path start + 1)).map
        ((path.drop start).take (segmentEnd path start - start) :: ·)
    else if segmentEnd path start = start ∧ segmentEnd path start ≠ path.length then
      .error ⟨ascii "Route path contains an empty segment: " ++ path⟩
    else splitLoop path (segmentEnd path start + 1)
  else .ok []
termination_by path.length + 1 - start
decreasing_by all_goals have := le_segmentEnd inside; omega

theorem splitLoop_end {path : Bytes} {start : Nat} (h : path.length < start) :
    splitLoop path start = .ok [] := by
  rw [splitLoop, dif_neg (by omega)]

theorem splitLoop_eq (path : Bytes) {start : Nat} (inside : start ≤ path.length) :
    splitLoop path start = splitFrom path [] (path.drop start) := by
  induction hsize : path.length - start using Nat.strong_induction_on generalizing start with
  | _ size ih =>
    rw [splitLoop, dif_pos inside]
    cases hfind : find [47] (path.drop start) with
    | none =>
        have hend : segmentEnd path start = path.length := by
          simp [segmentEnd, findFrom, hfind]
        have hlast := splitFrom_append path [] (path.drop start) [] (find_byte_eq_none.mp hfind)
        rw [List.append_nil] at hlast
        rw [hlast, hend, splitLoop_end (Nat.lt_succ_self _), List.nil_append, splitFrom]
        by_cases hempty : start = path.length
        · rw [if_neg (by omega), if_neg (by omega), hempty, List.drop_length, if_pos rfl]
        · have hmore : path.drop start ≠ [] := by
            rw [ne_eq, List.drop_eq_nil_iff]
            omega
          rw [if_pos (by omega), if_neg hmore, List.take_of_length_le (by simp)]
          rfl
    | some position =>
        have hend : segmentEnd path start = position + start := by
          simp [segmentEnd, findFrom, hfind]
        have hfits := find_add_length_le hfind
        rw [List.length_singleton, List.length_drop] at hfits
        have hrest : path.drop start = (path.drop start).take position ++
            47 :: path.drop (position + start + 1) := by
          have hsplit := find_split hfind
          rw [List.length_singleton, List.drop_drop, List.append_assoc] at hsplit
          rw [show position + start + 1 = start + (position + 1) by omega]
          exact hsplit
        have hnext := @ih _ (by omega) (position + start + 1) (by omega) rfl
        have hsplit : splitFrom path [] (path.drop start) =
            splitFrom path ((path.drop start).take position)
              (47 :: path.drop (position + start + 1)) := by
          conv_lhs => rw [hrest]
          rw [splitFrom_append _ _ _ _ (not_mem_take_of_find hfind), List.nil_append]
        rw [hsplit, splitFrom, if_pos rfl, hend]
        by_cases hzero : position = 0
        · rw [if_neg (by omega), if_pos (by omega), hzero, List.take_zero, if_pos rfl]
        · have hmore : (path.drop start).take position ≠ [] := by
            rw [ne_eq, List.take_eq_nil_iff, List.drop_eq_nil_iff]
            omega
          rw [if_pos (by omega), if_neg hmore, hnext, Nat.add_sub_cancel]

theorem splitPath_eq (path : Bytes) :
    splitPath path =
      if path = [] then .error ⟨ascii "Route path must not be empty"⟩
      else if path.head? ≠ some 47 then
        .error ⟨ascii "Route path must start with '/': " ++ path⟩
      else splitLoop path 1 := by
  cases path with
  | nil => rfl
  | cons b rest =>
      rw [if_neg (List.cons_ne_nil _ _), splitPath]
      by_cases hslash : b = 47
      · rw [if_pos hslash, if_neg (by simp [hslash]), splitLoop_eq _ (by simp)]
        rfl
      · rw [if_neg hslash, if_pos (by simpa using hslash)]

theorem doubled_append {s : Bytes} (h : 47 ∉ s) (rest : Bytes) :
    [47, 47] <:+: s ++ rest ↔ [47, 47] <:+: rest := by
  induction s with
  | nil => rfl
  | cons b s ih =>
      have hb : (47 : UInt8) ≠ b := fun hb => h (by simp [hb])
      rw [List.cons_append, List.infix_cons_iff, ih fun hs => h (by simp [hs])]
      exact or_iff_right fun hfront => hb (List.cons_prefix_cons.mp hfront).1

theorem doubled_segment {s : Bytes} (ne : s ≠ []) (h : 47 ∉ s) (rest : Bytes) :
    [47, 47] <:+: 47 :: (s ++ rest) ↔ [47, 47] <:+: rest := by
  rw [List.infix_cons_iff, doubled_append h]
  refine or_iff_right fun hfront => ?_
  cases s with
  | nil => exact ne rfl
  | cons b s =>
      rw [List.cons_append, List.cons_prefix_cons, List.cons_prefix_cons] at hfront
      exact h (by simp [← hfront.2.1])

theorem splitFrom_error_iff (path : Bytes) {segment : Bytes} (rest : Bytes) (h : 47 ∉ segment) :
    (∃ e, splitFrom path segment rest = .error e) ↔ [47, 47] <:+: 47 :: (segment ++ rest) := by
  induction rest generalizing segment with
  | nil =>
      rw [splitFrom]
      refine iff_of_false (by simp) ?_
      by_cases hempty : segment = []
      · rw [hempty]
        exact fun hdoubled => absurd hdoubled.length_le (by simp)
      · rw [doubled_segment hempty h]
        exact fun hdoubled => absurd hdoubled.length_le (by simp)
  | cons b rest ih =>
      rw [splitFrom]
      by_cases hslash : b = 47
      · rw [if_pos hslash, hslash]
        by_cases hempty : segment = []
        · rw [if_pos hempty, hempty]
          exact iff_of_true ⟨_, rfl⟩ ⟨[], rest, rfl⟩
        · have hrest := @ih [] (by simp)
          rw [List.nil_append] at hrest
          rw [if_neg hempty, doubled_segment hempty h, ← hrest]
          cases splitFrom path [] rest with
          | error e => simp [Except.map]
          | ok segments => simp [Except.map]
      · rw [if_neg hslash, ih (by simpa using ⟨h, fun hb => hslash hb.symm⟩), List.append_assoc]
        rfl

theorem splitPath_error_iff (path : Bytes) : (∃ e, splitPath path = .error e) ↔
    path = [] ∨ path.head? ≠ some 47 ∨ [47, 47] <:+: path := by
  cases path with
  | nil => exact iff_of_true ⟨_, rfl⟩ (.inl rfl)
  | cons b rest =>
      rw [splitPath]
      by_cases hslash : b = 47
      · rw [if_pos hslash, splitFrom_error_iff _ _ (by simp), hslash]
        simp
      · rw [if_neg hslash]
        exact iff_of_true ⟨_, rfl⟩ (.inr (.inl (by simpa using hslash)))

theorem splitFrom_writes {path segment rest : Bytes} {segments : List Bytes}
    (h : splitFrom path segment rest = .ok segments) :
    47 :: (segment ++ rest) = joinPath segments ∨
      47 :: (segment ++ rest) = joinPath segments ++ [47] := by
  induction rest generalizing segment segments with
  | nil =>
      rw [splitFrom, Except.ok.injEq] at h
      rw [← h]
      split_ifs with hempty
      · exact .inr (by simp [hempty, joinPath])
      · exact .inl (by simp [joinPath])
  | cons b rest ih =>
      rw [splitFrom] at h
      split_ifs at h with hslash hempty
      · cases hrest : splitFrom path [] rest with
        | error e => simp [hrest, Except.map] at h
        | ok tail =>
            simp only [hrest, Except.map, Except.ok.injEq] at h
            rw [← h, hslash, joinPath, List.flatMap_cons, List.append_assoc, ← joinPath]
            exact (ih hrest).imp (fun hwrites => by simp [← hwrites])
              fun hwrites => by simp [← hwrites]
      · rw [List.append_cons]
        exact ih h

theorem splitPath_writes {path : Bytes} {segments : List Bytes}
    (h : splitPath path = .ok segments) :
    path = joinPath segments ∨ path = joinPath segments ++ [47] := by
  cases path with
  | nil => cases h
  | cons b rest =>
      rw [splitPath] at h
      split_ifs at h with hslash
      rw [hslash]
      exact splitFrom_writes h

theorem splitFrom_closed (path : Bytes) {segments : List Bytes}
    (valid : ∀ s ∈ segments, ValidSegment s) {first : Bytes} (hfirst : ValidSegment first) :
    splitFrom path [] (first ++ (joinPath segments ++ [47])) = .ok (first :: segments) := by
  induction segments generalizing first with
  | nil =>
      rw [splitFrom_append path [] first _ hfirst.2]
      simp [joinPath, splitFrom, hfirst.1, Except.map]
  | cons s rest ih =>
      rw [splitFrom_append path [] first _ hfirst.2, joinPath, List.flatMap_cons, List.nil_append,
        List.append_assoc, List.cons_append, splitFrom, if_pos rfl, if_neg hfirst.1, ← joinPath,
        ih (fun t ht => valid t (by simp [ht])) (valid s (by simp))]
      rfl

theorem splitPath_closed {segments : List Bytes} (valid : ∀ s ∈ segments, ValidSegment s) :
    splitPath (joinPath segments ++ [47]) = .ok segments := by
  cases segments with
  | nil => rfl
  | cons first rest =>
      rw [joinPath, List.flatMap_cons, List.append_assoc, List.cons_append, splitPath, if_pos rfl,
        ← joinPath]
      exact splitFrom_closed _ (fun s hs => valid s (by simp [hs])) (valid first (by simp))

theorem splitPath_ok_iff {path : Bytes} {segments : List Bytes} :
    splitPath path = .ok segments ↔ (∀ s ∈ segments, ValidSegment s) ∧
      (path = joinPath segments ∧ segments ≠ [] ∨ path = joinPath segments ++ [47]) := by
  constructor
  · intro h
    refine ⟨splitPath_valid h, (splitPath_writes h).imp_left fun hwrites => ⟨hwrites, ?_⟩⟩
    rintro rfl
    rw [hwrites] at h
    cases h
  · rintro ⟨hvalid, ⟨rfl, hne⟩ | rfl⟩
    · exact splitPath_join hne hvalid
    · exact splitPath_closed hvalid

theorem joinPath_last {segments : List Bytes} (valid : ∀ s ∈ segments, ValidSegment s) :
    (joinPath segments).getLast? ≠ some 47 := by
  cases segments using List.reverseRecOn with
  | nil => simp [joinPath]
  | append_singleton front last =>
      have hlast := valid last (by simp)
      rw [joinPath, List.flatMap_append, List.flatMap_singleton, List.append_cons,
        List.getLast?_append_of_ne_nil _ hlast.1]
      exact fun hslash => hlast.2 (List.mem_of_getLast? hslash)

theorem splitPath_append {path : Bytes} (ne : path ≠ []) (noSlash : path.getLast? ≠ some 47)
    (segments : List Bytes) :
    splitPath (path ++ [47]) = .ok segments ↔ splitPath path = .ok segments := by
  rw [splitPath_ok_iff, splitPath_ok_iff]
  refine and_congr_right fun hvalid => ?_
  have hclosed : path ++ [47] ≠ joinPath segments :=
    fun h => joinPath_last hvalid (by simp [← h])
  have hopen : path ≠ joinPath segments ++ [47] := fun h => noSlash (by simp [h])
  constructor
  · rintro (⟨h, -⟩ | h)
    · exact absurd h hclosed
    · have hpath := List.append_cancel_right h
      refine .inl ⟨hpath, ?_⟩
      rintro rfl
      exact ne hpath
  · rintro (⟨h, -⟩ | h)
    · exact .inr (by rw [h])
    · exact absurd h hopen

theorem matchRoute_append {H : Type} (router : Router H) (method : HttpMethod) {path : Bytes}
    (ne : path ≠ []) (noSlash : path.getLast? ≠ some 47) :
    router.matchRoute method (path ++ [47]) = router.matchRoute method path := by
  have hsame := splitPath_append ne noSlash
  unfold Router.matchRoute
  cases hsplit : splitPath path with
  | ok segments => rw [(hsame segments).mpr hsplit]
  | error e =>
      cases hclosed : splitPath (path ++ [47]) with
      | error _ => rfl
      | ok segments =>
          rw [(hsame segments).mp hclosed] at hsplit
          cases hsplit

def written (segments : List Bytes) : Bytes := 47 :: [47].intercalate segments

theorem written_eq {segments : List Bytes} (ne : segments ≠ []) :
    written segments = joinPath segments := by
  induction segments with
  | nil => exact absurd rfl ne
  | cons first rest ih =>
      cases rest with
      | nil => simp [written, joinPath, List.intercalate]
      | cons second rest =>
          have hrest := ih (List.cons_ne_nil _ _)
          rw [joinPath, List.flatMap_cons, ← joinPath, ← hrest, written, written,
            List.intercalate_cons_cons]
          simp

/-- Exactly the paths without segments between their slashes are refused; the segments of
another path write it, without a slash at its end, which `match` does not see either. -/
theorem path_split_exact {H : Type} (path : Bytes) :
    ((∃ e, splitPath path = .error e) ↔
        path = [] ∨ path.head? ≠ some 47 ∨ [47, 47] <:+: path) ∧
      (∀ segments, splitPath path = .ok segments →
        (∀ s ∈ segments, s ≠ [] ∧ 47 ∉ s) ∧
          written segments =
            if path.getLast? = some 47 ∧ path ≠ [47] then path.dropLast else path) ∧
      ∀ (router : Router H) (method : HttpMethod), path ≠ [] → path.getLast? ≠ some 47 →
        router.matchRoute method path = router.matchRoute method (path ++ [47]) := by
  refine ⟨splitPath_error_iff path, fun segments h => ?_, fun router method ne noSlash =>
    (matchRoute_append router method ne noSlash).symm⟩
  obtain ⟨hvalid, hwrites⟩ := splitPath_ok_iff.mp h
  refine ⟨hvalid, ?_⟩
  rcases hwrites with ⟨rfl, hne⟩ | rfl
  · rw [if_neg fun hslash => joinPath_last hvalid hslash.1, written_eq hne]
  · by_cases hroot : segments = []
    · rw [hroot]
      rfl
    · have hmore : joinPath segments ≠ [] := by
        rw [← written_eq hroot]
        exact List.cons_ne_nil _ _
      rw [if_pos ⟨by simp, by simp [hmore]⟩, List.dropLast_concat, written_eq hroot]

end ApiGateway.PathSplitting
