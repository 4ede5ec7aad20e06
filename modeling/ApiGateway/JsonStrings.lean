import Mathlib.Data.List.Basic

/-! What stands between the quotes of a JSON string, and the text it denotes. -/

namespace ApiGateway.JsonStrings

def hexValue (c : Char) : Option Nat :=
  if '0' ≤ c ∧ c ≤ '9' then some (c.toNat - '0'.toNat)
  else if 'a' ≤ c ∧ c ≤ 'f' then some (c.toNat - 'a'.toNat + 10)
  else if 'A' ≤ c ∧ c ≤ 'F' then some (c.toNat - 'A'.toNat + 10)
  else none

def codeUnit : List Char → Option (Nat × List Char)
  | a :: b :: c :: d :: rest =>
      match hexValue a, hexValue b, hexValue c, hexValue d with
      | some a, some b, some c, some d => some (((a * 16 + b) * 16 + c) * 16 + d, rest)
      | _, _, _, _ => none
  | _ => none

def lowSurrogate : List Char → Option (Nat × List Char)
  | '\\' :: 'u' :: rest =>
      (codeUnit rest).bind fun low => if 0xDC00 ≤ low.1 ∧ low.1 < 0xE000 then some low else none
  | _ => none

/-- The character of an escape whose `\u` has been read; half a surrogate pair is none. -/
def unicodeEscape (text : List Char) : Option (Char × List Char) :=
  (codeUnit text).bind fun first =>
    if 0xD800 ≤ first.1 ∧ first.1 < 0xDC00 then
      (lowSurrogate first.2).map fun low =>
        (Char.ofNat (0x10000 + (first.1 - 0xD800) * 0x400 + (low.1 - 0xDC00)), low.2)
    else if 0xDC00 ≤ first.1 ∧ first.1 < 0xE000 then none
    else some (Char.ofNat first.1, first.2)

def shortEscape (c : Char) : Option Char :=
  if c = '"' then some '"'
  else if c = '\\' then some '\\'
  else if c = '/' then some '/'
  else if c = 'b' then some (Char.ofNat 8)
  else if c = 'f' then some (Char.ofNat 12)
  else if c = 'n' then some (Char.ofNat 10)
  else if c = 'r' then some (Char.ofNat 13)
  else if c = 't' then some (Char.ofNat 9)
  else none

/-- The first character of the text, and what is behind it; `none` if no string goes on so. -/
def unescapeChar : List Char → Option (Char × List Char)
  | [] => none
  | c :: rest =>
      if c = '\\' then
        match rest with
        | [] => none
        | e :: rest =>
            if e = 'u' then unicodeEscape rest
            else (shortEscape e).map fun escaped => (escaped, rest)
      else if c = '"' ∨ c.toNat < 0x20 then none
      else some (c, rest)

theorem codeUnit_shorter {text rest : List Char} {unit : Nat}
    (h : codeUnit text = some (unit, rest)) : rest.length < text.length := by
  unfold codeUnit at h
  split at h
  · split at h
    · cases h
      simp only [List.length_cons]
      omega
    · cases h
  · cases h

theorem lowSurrogate_shorter {text rest : List Char} {low : Nat}
    (h : lowSurrogate text = some (low, rest)) : rest.length < text.length := by
  unfold lowSurrogate at h
  split at h
  · obtain ⟨unit, hunit, hlow⟩ := Option.bind_eq_some_iff.mp h
    split_ifs at hlow
    cases hlow
    have hshorter := codeUnit_shorter hunit
    simp only [List.length_cons]
    omega
  · cases h

theorem unicodeEscape_shorter {text rest : List Char} {c : Char}
    (h : unicodeEscape text = some (c, rest)) : rest.length < text.length := by
  obtain ⟨first, hfirst, hescape⟩ := Option.bind_eq_some_iff.mp h
  have hshorter := codeUnit_shorter hfirst
  split_ifs at hescape
  · obtain ⟨low, hlow, hchar⟩ := Option.map_eq_some_iff.mp hescape
    have hrest : low.2 = rest := congrArg Prod.snd hchar
    have hlowShorter := lowSurrogate_shorter hlow
    rw [← hrest]
    omega
  · have hrest : first.2 = rest := congrArg Prod.snd (Option.some.inj hescape)
    rw [← hrest]
    exact hshorter

theorem unescapeChar_shorter {text rest : List Char} {c : Char}
    (h : unescapeChar text = some (c, rest)) : rest.length < text.length := by
  unfold unescapeChar at h
  split at h
  · cases h
  · split_ifs at h
    · split at h
      · cases h
      · split_ifs at h
        · have hshorter := unicodeEscape_shorter h
          simp only [List.length_cons]
          omega
        · obtain ⟨escaped, -, hchar⟩ := Option.map_eq_some_iff.mp h
          cases hchar
          simp only [List.length_cons]
          omega
    · cases h
      simp

def unescape (text : List Char) : Option (List Char) :=
  if text = [] then some []
  else
    match _h : unescapeChar text with
    | none => none
    | some (c, rest) => (unescape rest).map fun decoded => c :: decoded
termination_by text.length
decreasing_by exact unescapeChar_shorter _h

@[simp] theorem unescape_nil : unescape [] = some [] := by
  rw [unescape, if_pos rfl]

theorem unescape_of_char {text rest decoded : List Char} {c : Char}
    (first : unescapeChar text = some (c, rest)) (more : unescape rest = some decoded) :
    unescape text = some (c :: decoded) := by
  have hsome : text ≠ [] := by
    intro hnil
    rw [hnil] at first
    cases first
  rw [unescape, if_neg hsome]
  split
  next hnone =>
    rw [first] at hnone
    cases hnone
  next c' rest' hfirst =>
    cases first.symm.trans hfirst
    rw [more]
    rfl

theorem codeUnit_append {text rest : List Char} {unit : Nat}
    (h : codeUnit text = some (unit, rest)) (more : List Char) :
    codeUnit (text ++ more) = some (unit, rest ++ more) := by
  unfold codeUnit at h
  split at h
  · next a b c d text =>
    split at h
    · next ha hb hc hd =>
      cases h
      simp only [List.cons_append, codeUnit, ha, hb, hc, hd]
    · cases h
  · cases h

theorem lowSurrogate_append {text rest : List Char} {low : Nat}
    (h : lowSurrogate text = some (low, rest)) (more : List Char) :
    lowSurrogate (text ++ more) = some (low, rest ++ more) := by
  unfold lowSurrogate at h
  split at h
  · obtain ⟨unit, hunit, hlow⟩ := Option.bind_eq_some_iff.mp h
    split_ifs at hlow with hrange
    cases hlow
    simp only [List.cons_append, lowSurrogate, codeUnit_append hunit, Option.bind_some,
      if_pos hrange]
  · cases h

theorem unicodeEscape_append {text rest : List Char} {c : Char}
    (h : unicodeEscape text = some (c, rest)) (more : List Char) :
    unicodeEscape (text ++ more) = some (c, rest ++ more) := by
  obtain ⟨first, hfirst, hescape⟩ := Option.bind_eq_some_iff.mp h
  rw [unicodeEscape, codeUnit_append hfirst, Option.bind_some]
  split_ifs at hescape with hhigh hlow
  · obtain ⟨low, hlow, hchar⟩ := Option.map_eq_some_iff.mp hescape
    rw [Prod.mk.injEq] at hchar
    rw [if_pos hhigh, lowSurrogate_append hlow, Option.map_some, hchar.1, hchar.2]
  · cases hescape
    rw [if_neg hhigh, if_neg hlow]

theorem unescapeChar_append {text rest : List Char} {c : Char}
    (h : unescapeChar text = some (c, rest)) (more : List Char) :
    unescapeChar (text ++ more) = some (c, rest ++ more) := by
  unfold unescapeChar at h
  split at h
  · cases h
  · next b text =>
    split_ifs at h with hbackslash hplain
    · split at h
      · cases h
      · next e text =>
        simp only [List.cons_append, unescapeChar, if_pos hbackslash]
        split_ifs at h with hunicode
        · rw [if_pos hunicode]
          exact unicodeEscape_append h more
        · obtain ⟨escaped, hescaped, hchar⟩ := Option.map_eq_some_iff.mp h
          rw [Prod.mk.injEq] at hchar
          rw [if_neg hunicode, hescaped, Option.map_some, hchar.1, hchar.2]
    · cases h
      simp only [List.cons_append, unescapeChar, if_neg hbackslash, if_neg hplain]

theorem unescapeChar_quote (text : List Char) : unescapeChar ('"' :: text) = none := by
  simp [unescapeChar]

theorem unescapeChar_plain {c : Char} (printable : 0x20 ≤ c.toNat) (quote : c ≠ '"')
    (backslash : c ≠ '\\') (text : List Char) : unescapeChar (c :: text) = some (c, text) := by
  simp only [unescapeChar, if_neg backslash]
  rw [if_neg]
  simp only [not_or, Nat.not_lt]
  exact ⟨quote, printable⟩

theorem unescape_plain {text : List Char}
    (plain : ∀ c ∈ text, 0x20 ≤ c.toNat ∧ c ≠ '"' ∧ c ≠ '\\') : unescape text = some text := by
  induction text with
  | nil => exact unescape_nil
  | cons c text ih =>
      obtain ⟨printable, quote, backslash⟩ := plain c (by simp)
      exact unescape_of_char (unescapeChar_plain printable quote backslash text)
        (ih fun c hc => plain c (by simp [hc]))

end ApiGateway.JsonStrings
