import ApiGateway.ByteText

/-! Text divided by CRLF. `lines` gives the pieces a loop meets that searches
for the next CRLF from the end of the one before and stops at the end of the
text; a bare CR or LF belongs to its line. -/

namespace ApiGateway.CrlfLines
open ByteText

def crlf : Bytes := [13, 10]

def blankLine : Bytes := [13, 10, 13, 10]

def lines : Bytes → List Bytes
  | [] => []
  | [b] => [[b]]
  | b :: c :: rest =>
      if b = 13 ∧ c = 10 then [] :: lines rest
      else
        match lines (c :: rest) with
        | [] => [[b]]
        | line :: more => (b :: line) :: more

theorem crlf_prefix_iff {s : Bytes} : crlf <+: s ↔ ∃ rest, s = 13 :: 10 :: rest := by
  constructor
  · rintro ⟨rest, rfl⟩
    exact ⟨rest, rfl⟩
  · rintro ⟨rest, rfl⟩
    exact ⟨rest, rfl⟩

theorem lines_of_none {s : Bytes} (ne : s ≠ []) (h : find crlf s = none) : lines s = [s] := by
  induction s with
  | nil => exact absurd rfl ne
  | cons b s ih =>
      have hnot : ¬ crlf <+: b :: s := by
        intro hp
        rw [find_at_start hp] at h
        cases h
      rw [find_cons hnot, Option.map_eq_none_iff] at h
      cases s with
      | nil => rfl
      | cons c rest =>
          have hcrlf : ¬ (b = 13 ∧ c = 10) := by
            rintro ⟨rfl, rfl⟩
            exact hnot ⟨rest, rfl⟩
          rw [lines, if_neg hcrlf, ih (by simp) h]

theorem lines_of_some {s : Bytes} {i : Nat} (h : find crlf s = some i) :
    lines s = s.take i :: lines (s.drop (i + 2)) := by
  induction s generalizing i with
  | nil => simp [find, crlf] at h
  | cons b s ih =>
      by_cases hp : crlf <+: b :: s
      · obtain ⟨rest, hrest⟩ := crlf_prefix_iff.mp hp
        rw [find_at_start hp, Option.some.injEq] at h
        rw [hrest, ← h]
        simp [lines]
      · rw [find_cons hp, Option.map_eq_some_iff] at h
        obtain ⟨k, hk, rfl⟩ := h
        cases s with
        | nil => simp [find, crlf] at hk
        | cons c rest =>
            have hcrlf : ¬ (b = 13 ∧ c = 10) := by
              rintro ⟨rfl, rfl⟩
              exact hp ⟨rest, rfl⟩
            rw [lines, if_neg hcrlf, ih hk]
            simp

theorem lines_eq {s : Bytes} (ne : s ≠ []) :
    lines s = s.take ((find crlf s).getD s.length) ::
      lines (s.drop (((find crlf s).map (· + 2)).getD s.length)) := by
  cases h : find crlf s with
  | none => simp [lines_of_none ne h, lines]
  | some i => rw [lines_of_some h, Option.getD_some, Option.map_some, Option.getD_some]

theorem crlf_infix_iff {s : Bytes} :
    crlf <:+: s ↔ ∃ i : Nat, s[i]? = some 13 ∧ s[i + 1]? = some 10 := by
  constructor
  · rintro ⟨before, after, rfl⟩
    refine ⟨before.length, ?_, ?_⟩ <;> simp [crlf]
  · rintro ⟨i, hcr, hlf⟩
    obtain ⟨hi, hcr'⟩ := List.getElem?_eq_some_iff.mp hcr
    obtain ⟨hi', hlf'⟩ := List.getElem?_eq_some_iff.mp hlf
    refine ⟨s.take i, s.drop (i + 2), ?_⟩
    rw [crlf, ← hcr', ← hlf', List.append_assoc, List.cons_append, List.cons_append,
      List.nil_append, ← List.drop_eq_getElem_cons hi', ← List.drop_eq_getElem_cons hi,
      List.take_append_drop]

theorem noCrlf_of_mem_lines {s line : Bytes} (h : line ∈ lines s) : ¬ crlf <:+: line := by
  induction hn : s.length using Nat.strong_induction_on generalizing s with
  | _ n ih =>
      have hne : s ≠ [] := by
        intro hnil
        simp [hnil, lines] at h
      cases hfind : find crlf s with
      | none =>
          rw [lines_of_none hne hfind, List.mem_singleton] at h
          rw [h, ← find_isSome_iff, hfind]
          simp
      | some i =>
          have hlen : i + 2 ≤ s.length := find_add_length_le hfind
          rw [lines_of_some hfind, List.mem_cons] at h
          cases h with
          | inl hline =>
              rw [hline]
              intro hin
              have ⟨j, hj⟩ := Option.isSome_iff_exists.mp (find_isSome_iff.mpr hin)
              have hshort : j + 2 ≤ (s.take i).length := find_add_length_le hj
              rw [List.length_take_of_le (by omega)] at hshort
              have hlater := find_append hj (s.drop i)
              rw [List.take_append_drop, hfind, Option.some.injEq] at hlater
              omega
          | inr hrest => exact ih _ (by rw [List.length_drop]; omega) hrest rfl

theorem crlf_infix_append {s t : Bytes} (h : crlf <:+: s ++ t) :
    crlf <:+: s ∨ crlf <:+: t ∨ (s.getLast? = some 13 ∧ t.head? = some 10) := by
  obtain ⟨i, hcr, hlf⟩ := crlf_infix_iff.mp h
  rcases Nat.lt_trichotomy (i + 1) s.length with hlt | heq | hgt
  · rw [List.getElem?_append_left (by omega)] at hcr
    rw [List.getElem?_append_left (by omega)] at hlf
    exact .inl (crlf_infix_iff.mpr ⟨i, hcr, hlf⟩)
  · rw [List.getElem?_append_left (by omega)] at hcr
    rw [List.getElem?_append_right (by omega), heq, Nat.sub_self] at hlf
    refine .inr (.inr ⟨?_, ?_⟩)
    · rw [List.getLast?_eq_getElem?, ← heq, Nat.add_sub_cancel]
      exact hcr
    · rw [List.head?_eq_getElem?]
      exact hlf
  · rw [List.getElem?_append_right (by omega)] at hcr
    rw [List.getElem?_append_right (by omega)] at hlf
    refine .inr (.inl (crlf_infix_iff.mpr ⟨i - s.length, hcr, ?_⟩))
    rw [← hlf]
    congr 1
    omega

theorem noCrlf_of_noCr {s : Bytes} (h : 13 ∉ s) : ¬ crlf <:+: s :=
  fun hin => h (hin.subset (by simp [crlf]))

theorem noCrlf_append {s t : Bytes} (hs : 13 ∉ s) (ht : ¬ crlf <:+: t) : ¬ crlf <:+: s ++ t := by
  intro hin
  rcases crlf_infix_append hin with hin | hin | ⟨hlast, -⟩
  · exact noCrlf_of_noCr hs hin
  · exact ht hin
  · exact hs (List.mem_of_getLast? hlast)

/-- A CRLF written behind these bytes is the first one in the text. -/
structure IsLine (line : Bytes) : Prop where
  noCrlf : ¬ crlf <:+: line
  noCr : line.getLast? ≠ some 13

theorem IsLine.find {line : Bytes} (h : IsLine line) (rest : Bytes) :
    ByteText.find crlf (line ++ crlf ++ rest) = some line.length := by
  refine find_append (find_eq_some_iff.mpr ⟨by simp, by simp, fun j hj hp => ?_⟩) rest
  rw [List.drop_append_of_le_length hj.le] at hp
  obtain ⟨tail, htail⟩ := crlf_prefix_iff.mp hp
  cases hdrop : line.drop j with
  | nil =>
      rw [List.drop_eq_nil_iff] at hdrop
      omega
  | cons b more =>
      rw [hdrop, List.cons_append, List.cons.injEq] at htail
      obtain ⟨rfl, hmore⟩ := htail
      cases more with
      | nil =>
          refine h.noCr ?_
          have hlast : (line.drop j).getLast? = some 13 := by rw [hdrop]; rfl
          rwa [List.getLast?_drop, if_neg (by omega)] at hlast
      | cons c more =>
          rw [List.cons_append, List.cons.injEq] at hmore
          obtain ⟨rfl, -⟩ := hmore
          refine h.noCrlf ?_
          have hprefix : crlf <+: line.drop j := by
            rw [hdrop]
            exact ⟨more, rfl⟩
          exact hprefix.isInfix.trans (List.drop_suffix j line).isInfix

def joinLines (written : List Bytes) : Bytes := written.flatMap fun line => line ++ crlf

theorem joinLines_cons (line : Bytes) (rest : List Bytes) :
    joinLines (line :: rest) = line ++ crlf ++ joinLines rest := by
  simp [joinLines]

theorem joinLines_append (first second : List Bytes) :
    joinLines (first ++ second) = joinLines first ++ joinLines second := by
  simp [joinLines]

theorem blankLine_at {s : Bytes} (h : blankLine <+: s) :
    crlf <+: s ∧ crlf <+: s.drop 2 := by
  obtain ⟨rest, rfl⟩ := h
  exact ⟨⟨13 :: 10 :: rest, rfl⟩, ⟨rest, rfl⟩⟩

theorem crlf_not_at {line : Bytes} (h : IsLine line) (ne : line ≠ []) (rest : Bytes) :
    ¬ crlf <+: line ++ crlf ++ rest := by
  intro hp
  have hfind := find_at_start hp
  rw [h.find rest, Option.some.injEq] at hfind
  exact ne (List.eq_nil_of_length_eq_zero hfind)

theorem find_blankLine {line : Bytes} (h : IsLine line) (rest : Bytes) :
    find blankLine (line ++ crlf ++ rest) =
      if crlf <+: rest then some line.length
      else (find blankLine rest).map (· + (line.length + 2)) := by
  have hfirst := find_eq_some_iff.mp (h.find rest)
  have hlength : line.length + 2 ≤ (line ++ crlf ++ rest).length := by simp [crlf]
  split_ifs with hrest
  · obtain ⟨tail, rfl⟩ := crlf_prefix_iff.mp hrest
    refine find_eq_some_iff.mpr ⟨by omega, ?_, fun j hj hp => ?_⟩
    · rw [List.append_assoc, List.drop_left]
      exact ⟨tail, rfl⟩
    · exact hfirst.2.2 j hj (blankLine_at hp).1
  · have hdrop : (line ++ crlf ++ rest).drop (line.length + 2) = rest := by
      rw [show line.length + 2 = (line ++ crlf).length by simp [crlf], List.drop_left]
    have hskip : ∀ j < line.length + 2, ¬ blankLine <+: (line ++ crlf ++ rest).drop j := by
      intro j hj hp
      obtain ⟨hat, hnext⟩ := blankLine_at hp
      rcases Nat.lt_trichotomy j line.length with hlt | rfl | hgt
      · exact hfirst.2.2 j hlt hat
      · rw [List.drop_drop, hdrop] at hnext
        exact hrest hnext
      · have hlf : (line ++ crlf ++ rest).drop (line.length + 1) = 10 :: rest := by
          simp [List.append_assoc, List.drop_append, crlf]
        rw [show j = line.length + 1 by omega, hlf] at hat
        obtain ⟨tail, htail⟩ := crlf_prefix_iff.mp hat
        simp at htail
    rw [find_skip hskip hlength, hdrop]

/-- The lines of a message head, up to the empty line. -/
def headLines (message : Bytes) : List Bytes :=
  match find blankLine message with
  | none => []
  | some headEnd => lines (message.take headEnd)

theorem noCrlf_of_mem_headLines {message line : Bytes} (h : line ∈ headLines message) :
    ¬ crlf <:+: line := by
  unfold headLines at h
  split at h
  · simp at h
  · exact noCrlf_of_mem_lines h

def bodyOf (message : Bytes) : Bytes :=
  match find blankLine message with
  | none => []
  | some headEnd => message.drop (headEnd + 4)

theorem read_written {written : List Bytes} (ne : written ≠ [])
    (ok : ∀ line ∈ written, IsLine line ∧ line ≠ []) (body : Bytes) :
    ∃ headEnd, find blankLine (joinLines written ++ crlf ++ body) = some headEnd ∧
      lines ((joinLines written ++ crlf ++ body).take headEnd) = written ∧
      (joinLines written ++ crlf ++ body).drop (headEnd + 4) = body := by
  induction written with
  | nil => exact absurd rfl ne
  | cons line rest ih =>
      obtain ⟨hline, hne⟩ := ok line (by simp)
      cases rest with
      | nil =>
          have hmessage : joinLines [line] ++ crlf ++ body = line ++ crlf ++ (crlf ++ body) := by
            simp [joinLines]
          rw [hmessage, find_blankLine hline, if_pos (List.prefix_append crlf body)]
          refine ⟨line.length, rfl, ?_, ?_⟩
          · have hnone : find crlf line = none := by
              rw [← Option.not_isSome_iff_eq_none, find_isSome_iff]
              exact hline.noCrlf
            rw [List.append_assoc, List.take_left, lines_of_none hne hnone]
          · rw [List.append_assoc, List.drop_append]
            simp [crlf]
      | cons next more =>
          obtain ⟨hnext, hnextne⟩ := ok next (by simp)
          obtain ⟨headEnd, hfind, hlines, hbody⟩ := ih (by simp) fun l hl => ok l (by simp [hl])
          have htail : joinLines (next :: more) ++ crlf ++ body =
              next ++ crlf ++ (joinLines more ++ crlf ++ body) := by
            simp [joinLines_cons]
          have hmessage : joinLines (line :: next :: more) ++ crlf ++ body =
              line ++ crlf ++ (joinLines (next :: more) ++ crlf ++ body) := by
            simp [joinLines_cons]
          have hnot : ¬ crlf <+: joinLines (next :: more) ++ crlf ++ body := by
            rw [htail]
            exact crlf_not_at hnext hnextne _
          rw [hmessage, find_blankLine hline, if_neg hnot, hfind]
          have hlength : (line ++ crlf).length = line.length + 2 := by simp [crlf]
          refine ⟨headEnd + (line.length + 2), rfl, ?_, ?_⟩
          · have htake : (line ++ crlf ++ (joinLines (next :: more) ++ crlf ++ body)).take
                (headEnd + (line.length + 2)) =
                line ++ crlf ++ (joinLines (next :: more) ++ crlf ++ body).take headEnd := by
              rw [List.take_append, hlength, List.take_of_length_le (by omega)]
              congr 2
              omega
            rw [htake, lines_of_some (hline.find _), ← hlength, List.drop_left, hlines,
              List.append_assoc, List.take_left]
          · rw [show headEnd + (line.length + 2) + 4 =
              (line ++ crlf).length + (headEnd + 4) by omega, List.drop_length_add_append, hbody]

theorem headLines_written {written : List Bytes} (ne : written ≠ [])
    (ok : ∀ line ∈ written, IsLine line ∧ line ≠ []) (body : Bytes) :
    headLines (joinLines written ++ crlf ++ body) = written := by
  obtain ⟨headEnd, hfind, hlines, -⟩ := read_written ne ok body
  simp only [headLines, hfind, hlines]

theorem bodyOf_written {written : List Bytes} (ne : written ≠ [])
    (ok : ∀ line ∈ written, IsLine line ∧ line ≠ []) (body : Bytes) :
    bodyOf (joinLines written ++ crlf ++ body) = body := by
  obtain ⟨headEnd, hfind, -, hbody⟩ := read_written ne ok body
  simp only [bodyOf, hfind, hbody]

def Unbroken (s : Bytes) : Prop := 13 ∉ s ∧ 10 ∉ s

instance (s : Bytes) : Decidable (Unbroken s) := inferInstanceAs (Decidable (_ ∧ _))

theorem unbroken_append {s t : Bytes} : Unbroken (s ++ t) ↔ Unbroken s ∧ Unbroken t := by
  simp only [Unbroken, List.mem_append, not_or]
  exact and_and_and_comm

theorem Unbroken.isLine {line : Bytes} (h : Unbroken line) : IsLine line :=
  ⟨noCrlf_of_noCr h.1, fun hlast => h.1 (List.mem_of_getLast? hlast)⟩

theorem head_unique {written written' : List Bytes} {body : Bytes} (ne : written ≠ [])
    (ne' : written' ≠ []) (ok : ∀ line ∈ written, IsLine line ∧ line ≠ [])
    (ok' : ∀ line ∈ written', IsLine line ∧ line ≠ [])
    (same : joinLines written ++ crlf ++ body = joinLines written' ++ crlf ++ body) :
    written = written' := by
  rw [← headLines_written ne ok body, same, headLines_written ne' ok' body]

/-- A CR before the line end is not part of the line. -/
def stripCr (line : Bytes) : Bytes := if line.getLast? = some 13 then line.dropLast else line

def lenientLines (message : Bytes) : List Bytes :=
  ((message.splitOn 10).map stripCr).takeWhile fun line => decide (line ≠ [])

theorem splitOn_line {line : Bytes} (h : 10 ∉ line) (rest : Bytes) :
    ((line ++ crlf ++ rest).splitOn 10).map stripCr = line :: (rest.splitOn 10).map stripCr := by
  have hlf : line ++ crlf ++ rest = (line ++ [13]) ++ 10 :: rest := by simp [crlf]
  have hnot : 10 ∉ line ++ [13] := by simp [h]
  rw [hlf, List.splitOn_append_cons_self_of_not_mem hnot, List.map_cons]
  simp [stripCr]

theorem lenientLines_written {written : List Bytes}
    (ok : ∀ line ∈ written, Unbroken line ∧ line ≠ []) (body : Bytes) :
    lenientLines (joinLines written ++ crlf ++ body) = written := by
  induction written with
  | nil =>
      have hempty := @splitOn_line [] (by simp) body
      rw [List.nil_append] at hempty
      simp [lenientLines, joinLines, hempty]
  | cons line rest ih =>
      have ⟨hline, hne⟩ := ok line (by simp)
      have hmessage : joinLines (line :: rest) ++ crlf ++ body =
          line ++ crlf ++ (joinLines rest ++ crlf ++ body) := by
        simp [joinLines_cons]
      rw [hmessage, lenientLines, splitOn_line hline.2, List.takeWhile_cons_of_pos (by simpa using hne),
        ← lenientLines, ih fun l hl => ok l (by simp [hl])]

end ApiGateway.CrlfLines
