import ApiGateway.CrlfLines
import ApiGateway.HttpText

/-! The header loop, which requests and responses are read with, and the header
lines of a message as pairs. The loop keeps the first value of each name; the
pairs are all of them. -/

namespace ApiGateway.MessageHeaders
open ByteText HttpText CrlfLines

/-- The header loop over the lines it meets, with the texts of its two errors.
Empty lines are skipped. -/
def headerLoop (missingColon emptyKey : Bytes) :
    List Bytes → FirstWinsMap Bytes Bytes → Except InvalidArgument (FirstWinsMap Bytes Bytes)
  | [], headers => .ok headers
  | line :: rest, headers =>
      if line = [] then headerLoop missingColon emptyKey rest headers
      else
        match find [58] line with
        | none => .error ⟨missingColon⟩
        | some colon =>
            let key := trimView (line.take colon)
            let value := trimView (line.drop (colon + 1))
            if key = [] then .error ⟨emptyKey⟩
            else headerLoop missingColon emptyKey rest (headers.emplace key value)

def fieldOf (line : Bytes) : Option (Bytes × Bytes) :=
  match find [58] line with
  | none => none
  | some colon =>
      if trimView (line.take colon) = [] then none
      else some (trimView (line.take colon), trimView (line.drop (colon + 1)))

def fieldsOf (headerLines : List Bytes) : List (Bytes × Bytes) :=
  (headerLines.filter (· ≠ [])).filterMap fieldOf

theorem fieldsOf_cons (line : Bytes) (rest : List Bytes) :
    fieldsOf (line :: rest) =
      if line = [] then fieldsOf rest else (fieldOf line).toList ++ fieldsOf rest := by
  by_cases h : line = []
  · simp [fieldsOf, h]
  · cases hf : fieldOf line <;> simp [fieldsOf, h, hf]

theorem headerLoop_ok {missingColon emptyKey : Bytes} {headerLines : List Bytes}
    {headers result : FirstWinsMap Bytes Bytes}
    (ok : headerLoop missingColon emptyKey headerLines headers = .ok result) :
    result = (fieldsOf headerLines).foldl (fun m e => m.emplace e.1 e.2) headers := by
  induction headerLines generalizing headers with
  | nil =>
      cases ok
      rfl
  | cons line rest ih =>
      rw [headerLoop] at ok
      rw [fieldsOf_cons]
      split_ifs at ok ⊢ with hempty
      · exact ih ok
      · split at ok
        · cases ok
        · next colon hcolon =>
          simp only at ok
          split_ifs at ok with hkey
          rw [ih ok, fieldOf, hcolon]
          simp [hkey]

theorem headerLoop_read {missingColon emptyKey : Bytes} {headerLines : List Bytes}
    (read : ∀ line ∈ headerLines, line ≠ [] → fieldOf line ≠ none)
    (headers : FirstWinsMap Bytes Bytes) :
    headerLoop missingColon emptyKey headerLines headers =
      .ok ((fieldsOf headerLines).foldl (fun m e => m.emplace e.1 e.2) headers) := by
  induction headerLines generalizing headers with
  | nil => rfl
  | cons line rest ih =>
      have hrest := ih fun l hl => read l (by simp [hl])
      rw [headerLoop, fieldsOf_cons]
      split_ifs with hempty
      · exact hrest headers
      · have hline := read line (by simp) hempty
        rw [fieldOf] at hline ⊢
        split
        · next hnone => simp [hnone] at hline
        · next colon hcolon =>
          simp only [hcolon] at hline ⊢
          split_ifs at hline ⊢ with hkey
          · exact absurd rfl hline
          · exact hrest _

theorem read_of_headerLoop_ok {missingColon emptyKey : Bytes} {headerLines : List Bytes}
    {headers result : FirstWinsMap Bytes Bytes}
    (ok : headerLoop missingColon emptyKey headerLines headers = .ok result) :
    ∀ line ∈ headerLines, line ≠ [] → fieldOf line ≠ none := by
  induction headerLines generalizing headers with
  | nil => simp
  | cons first rest ih =>
      intro line hline hne
      rw [headerLoop] at ok
      split_ifs at ok with hempty
      · rcases List.mem_cons.mp hline with rfl | hrest
        · exact absurd hempty hne
        · exact ih ok line hrest hne
      · split at ok
        · cases ok
        · next colon hcolon =>
          simp only at ok
          split_ifs at ok with hkey
          rcases List.mem_cons.mp hline with rfl | hrest
          · simp [fieldOf, hcolon, hkey]
          · exact ih ok line hrest hne

structure IsField (field : Bytes × Bytes) : Prop where
  named : field.1 ≠ []
  noColon : 58 ∉ field.1
  trimmed : trimView field.1 = field.1
  trimmed' : trimView field.2 = field.2

theorem isField_of_fieldOf {line : Bytes} {field : Bytes × Bytes} (h : fieldOf line = some field) :
    IsField field ∧ field.1 <:+: line ∧ field.2 <:+: line := by
  rw [fieldOf] at h
  split at h
  · cases h
  · next colon hcolon =>
    split_ifs at h with hkey
    cases h
    refine ⟨⟨hkey, fun hmem => ?_, trimView_idem _, trimView_idem _⟩, ?_, ?_⟩
    · exact not_mem_take_of_find hcolon ((trimView_inside _).subset hmem)
    · exact (trimView_inside _).trans (List.take_prefix _ _).isInfix
    · exact (trimView_inside _).trans (List.drop_suffix _ _).isInfix

theorem mem_fieldsOf {headerLines : List Bytes} {field : Bytes × Bytes}
    (h : field ∈ fieldsOf headerLines) :
    IsField field ∧ ∃ line ∈ headerLines, field.1 <:+: line ∧ field.2 <:+: line := by
  obtain ⟨line, hline, hfield⟩ := List.mem_filterMap.mp h
  obtain ⟨hisField, hinfix⟩ := isField_of_fieldOf hfield
  exact ⟨hisField, line, List.mem_of_mem_filter hline, hinfix⟩

/-- The text between the first two spaces of a line: the target of a request,
the status code of a response. -/
def secondPart (line : Bytes) : Bytes := before 32 (behind 32 line)

def thirdPart (line : Bytes) : Bytes := behind 32 (behind 32 line)

theorem findFrom_space {line : Bytes} {firstSpace : Nat} (h : find [32] line = some firstSpace) :
    findFrom [32] line (firstSpace + 1) =
      (find [32] (behind 32 line)).map (· + (firstSpace + 1)) := by
  rw [findFrom, drop_of_find h]

theorem secondPart_of_find {line : Bytes} {firstSpace secondSpace : Nat}
    (first : find [32] line = some firstSpace)
    (second : findFrom [32] line (firstSpace + 1) = some secondSpace) :
    (line.drop (firstSpace + 1)).take (secondSpace - firstSpace - 1) = secondPart line ∧
      line.drop (secondSpace + 1) = thirdPart line := by
  rw [findFrom_space first, Option.map_eq_some_iff] at second
  have ⟨k, hk, hsecond⟩ := second
  have hdrop : line.drop (secondSpace + 1) = (line.drop (firstSpace + 1)).drop (k + 1) := by
    rw [List.drop_drop]
    congr 1
    omega
  rw [hdrop, drop_of_find first, drop_of_find hk, show secondSpace - firstSpace - 1 = k by omega,
    take_of_find hk]
  exact ⟨rfl, rfl⟩

theorem statusLine_parts (statusCode : Nat) (reasonPhrase : Bytes) :
    secondPart (ascii "HTTP/1.1 " ++ toDecimal statusCode ++ ascii " " ++ reasonPhrase) =
        toDecimal statusCode ∧
      thirdPart (ascii "HTTP/1.1 " ++ toDecimal statusCode ++ ascii " " ++ reasonPhrase) =
        reasonPhrase := by
  have hline : ascii "HTTP/1.1 " ++ toDecimal statusCode ++ ascii " " ++ reasonPhrase =
      ascii "HTTP/1.1" ++ 32 :: (toDecimal statusCode ++ 32 :: reasonPhrase) := by
    have hfront : ascii "HTTP/1.1 " = ascii "HTTP/1.1" ++ [32] := rfl
    have hspace : ascii " " = [32] := rfl
    rw [hfront, hspace]
    simp
  have hversion : (32 : UInt8) ∉ ascii "HTTP/1.1" := by decide
  have hcode : 32 ∉ toDecimal statusCode := not_mem_toDecimal (by decide) _
  rw [secondPart, thirdPart, hline, behind_append hversion, before_append hcode,
    behind_append hcode]
  exact ⟨rfl, rfl⟩

/-- The fields that the hop-by-hop filter leaves. -/
def passedOn (fields : List (Bytes × Bytes)) : List (Bytes × Bytes) :=
  fields.filter fun field => !isHopByHopHeader field.1

theorem passedOn_append_nodup {fields added : List (Bytes × Bytes)}
    (names : (fields.map Prod.fst).Nodup) (addedNames : (added.map Prod.fst).Nodup)
    (hop : ∀ field ∈ added, isHopByHopHeader field.1 = true) :
    ((passedOn fields ++ added).map Prod.fst).Nodup := by
  have hpassed : ((passedOn fields).map Prod.fst).Nodup := names.sublist (List.filter_sublist.map _)
  rw [List.map_append]
  refine List.nodup_append.mpr ⟨hpassed, addedNames, fun name hname added hadded same => ?_⟩
  have ⟨field, hfield, hkey⟩ := List.mem_map.mp hname
  have ⟨own, hown, hownKey⟩ := List.mem_map.mp hadded
  have hkept : isHopByHopHeader field.1 = false := by simpa using List.of_mem_filter hfield
  rw [hkey, same, ← hownKey, hop own hown] at hkept
  cases hkept

def startLine (message : Bytes) : Bytes := (headLines message).headD []

def headerFields (message : Bytes) : List (Bytes × Bytes) := fieldsOf (headLines message).tail

theorem mem_headerFields {message : Bytes} {field : Bytes × Bytes}
    (h : field ∈ headerFields message) :
    IsField field ∧ ¬ crlf <:+: field.1 ∧ ¬ crlf <:+: field.2 := by
  have ⟨hisField, line, hline, hname, hvalue⟩ := mem_fieldsOf h
  have hnoCrlf := noCrlf_of_mem_headLines (List.mem_of_mem_tail hline)
  exact ⟨hisField, fun hin => hnoCrlf (hin.trans hname), fun hin => hnoCrlf (hin.trans hvalue)⟩

theorem startLine_headerFields {message line : Bytes} {rest : List Bytes}
    (h : headLines message = line :: rest) :
    startLine message = line ∧ headerFields message = fieldsOf rest := by
  rw [startLine, headerFields, h]
  exact ⟨rfl, rfl⟩

/-- `key: value`, as both directions write it. -/
def renderField (field : Bytes × Bytes) : Bytes := field.1 ++ ascii ": " ++ field.2

theorem renderField_eq (field : Bytes × Bytes) :
    renderField field = field.1 ++ 58 :: 32 :: field.2 := by
  rw [renderField, show ascii ": " = [58, 32] from by decide]
  simp

structure IsName (name : Bytes) : Prop where
  named : name ≠ []
  noColon : 58 ∉ name
  trimmed : trimView name = name

theorem fieldOf_written {field : Bytes × Bytes} (h : IsName field.1) :
    fieldOf (renderField field) = some (field.1, trimView field.2) := by
  rw [renderField_eq, fieldOf, find_byte h.noColon]
  have hvalue : trimView ((field.1 ++ 58 :: 32 :: field.2).drop (field.1.length + 1)) =
      trimView field.2 := by
    rw [List.drop_append, List.drop_of_length_le (by omega),
      show field.1.length + 1 - field.1.length = 1 by omega]
    rfl
  simp only [List.take_left, h.trimmed, if_neg h.named, hvalue]

theorem fieldsOf_map_written {fields : List (Bytes × Bytes)}
    (h : ∀ field ∈ fields, IsName field.1) :
    fieldsOf (fields.map renderField) = fields.map fun field => (field.1, trimView field.2) := by
  induction fields with
  | nil => rfl
  | cons field rest ih =>
      have hne : renderField field ≠ [] := by simp [renderField_eq]
      rw [List.map_cons, fieldsOf_cons, if_neg hne, fieldOf_written (h field (by simp)),
        ih fun f hf => h f (by simp [hf])]
      rfl

theorem fieldsOf_map_renderField {fields : List (Bytes × Bytes)}
    (h : ∀ field ∈ fields, IsField field) : fieldsOf (fields.map renderField) = fields := by
  have hnames : ∀ field ∈ fields, IsName field.1 := fun field hf =>
    ⟨(h field hf).named, (h field hf).noColon, (h field hf).trimmed⟩
  have hvalues : ∀ field ∈ fields, (field.1, trimView field.2) = field := fun field hf => by
    rw [(h field hf).trimmed']
  rw [fieldsOf_map_written hnames, List.map_congr_left hvalues, List.map_id']

theorem joinLines_map_renderField (fields : List (Bytes × Bytes)) :
    joinLines (fields.map renderField) =
      fields.flatMap fun field => field.1 ++ ascii ": " ++ field.2 ++ ascii "\r\n" := by
  rw [joinLines, List.flatMap_map]
  rfl

theorem getLast_of_trimmed {s : Bytes} (h : trimView s = s) {b : UInt8}
    (hb : isspace b = true) : s.getLast? ≠ some b := by
  intro hlast
  have hne : s ≠ [] := by
    rintro rfl
    cases hlast
  have hspace := trimView_getLast (s := s) (by rw [h]; exact hne)
  rw [List.getLast?_eq_some_getLast hne, Option.some.injEq] at hlast
  simp only [h, hlast, hb] at hspace
  cases hspace

theorem isLine_renderField {field : Bytes × Bytes} (h : IsField field)
    (name : ¬ crlf <:+: field.1) (value : ¬ crlf <:+: field.2) :
    IsLine (renderField field) ∧ renderField field ≠ [] := by
  have hcolon : ¬ crlf <:+: 58 :: 32 :: field.2 := by
    intro hin
    rcases crlf_infix_append (s := [58, 32]) hin with hin | hin | ⟨hlast, -⟩
    · exact absurd hin (by decide)
    · exact value hin
    · cases hlast
  rw [renderField_eq]
  refine ⟨⟨fun hin => ?_, ?_⟩, by simp⟩
  · rcases crlf_infix_append hin with hin | hin | ⟨-, hhead⟩
    · exact name hin
    · exact hcolon hin
    · cases hhead
  · rw [List.getLast?_append_of_ne_nil _ (by simp), List.getLast?_cons_cons]
    cases hv : field.2 with
    | nil => simp
    | cons b rest =>
        rw [List.getLast?_cons_cons, ← hv]
        exact getLast_of_trimmed h.trimmed' rfl

end ApiGateway.MessageHeaders
