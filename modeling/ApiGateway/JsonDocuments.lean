import ApiGateway.JsonStrings

/-! JSON documents by their tokens. White space between tokens does not count; a text denotes
the value whose tokens it is divided into, and there is at most one. -/

namespace ApiGateway.JsonDocuments
open JsonStrings

/-- At least one digit; what is behind the last. -/
def digits (text : List Char) : Option (List Char) :=
  if text.takeWhile Char.isDigit = [] then none else some (text.dropWhile Char.isDigit)

def integer : List Char → Option (List Char)
  | '0' :: rest => some rest
  | text => digits text

def fraction : List Char → Option (List Char)
  | '.' :: rest => digits rest
  | text => some text

def exponent : List Char → Option (List Char)
  | [] => some []
  | c :: rest =>
      if c = 'e' ∨ c = 'E' then
        if rest.head? = some '+' ∨ rest.head? = some '-' then digits rest.tail else digits rest
      else some (c :: rest)

def isNumber (text : List Char) : Bool :=
  let magnitude := if text.head? = some '-' then text.tail else text
  ((integer magnitude).bind fraction).bind exponent = some []

example : [isNumber "-0.5e+10".toList, isNumber "10".toList, isNumber "01".toList,
    isNumber "1.".toList, isNumber "-".toList] = [true, true, false, false, false] := by decide

abbrev NumberLiteral := { text : List Char // isNumber text = true }

inductive Token where
  | beginArray
  | endArray
  | beginObject
  | endObject
  | nameSeparator
  | valueSeparator
  | null
  | bool (value : Bool)
  | number (literal : NumberLiteral)
  | string (text : List Char)
  deriving DecidableEq

def isWhite (c : Char) : Bool := c = ' ' || c = '\t' || c = '\n' || c = '\r'

def isWordChar (c : Char) : Bool := c.isAlphanum || c = '+' || c = '-' || c = '.'

def wordToken (word : List Char) : Option Token :=
  if word = "null".toList then some .null
  else if word = "true".toList then some (.bool true)
  else if word = "false".toList then some (.bool false)
  else if h : isNumber word = true then some (.number ⟨word, h⟩)
  else none

/-- The text of a string whose opening quote has been read, and what is behind the closing one. -/
def readString (text : List Char) : Option (List Char × List Char) :=
  if text.head? = some '"' then some ([], text.tail)
  else
    match _h : unescapeChar text with
    | none => none
    | some (c, rest) => (readString rest).map fun string => (c :: string.1, string.2)
termination_by text.length
decreasing_by exact unescapeChar_shorter _h

def nextToken : List Char → Option (Token × List Char)
  | [] => none
  | c :: rest =>
      if c = '[' then some (.beginArray, rest)
      else if c = ']' then some (.endArray, rest)
      else if c = '{' then some (.beginObject, rest)
      else if c = '}' then some (.endObject, rest)
      else if c = ':' then some (.nameSeparator, rest)
      else if c = ',' then some (.valueSeparator, rest)
      else if c = '"' then (readString rest).map fun string => (.string string.1, string.2)
      else
        let word := (c :: rest).takeWhile isWordChar
        (wordToken word).map fun token => (token, (c :: rest).drop word.length)

theorem readString_shorter {text string rest : List Char}
    (h : readString text = some (string, rest)) : rest.length < text.length := by
  induction text using readString.induct generalizing string rest with
  | case1 text hquote =>
      rw [readString, if_pos hquote] at h
      cases h
      cases text with
      | nil => cases hquote
      | cons c text => simp
  | case2 text hquote hnone =>
      rw [readString, if_neg hquote] at h
      split at h
      · cases h
      · next hsome =>
        rw [hnone] at hsome
        cases hsome
  | case3 text hquote c more hchar ih =>
      rw [readString, if_neg hquote] at h
      split at h
      · cases h
      · next c' more' hsome =>
        cases hchar.symm.trans hsome
        obtain ⟨⟨string', rest'⟩, hmore, heq⟩ := Option.map_eq_some_iff.mp h
        cases heq
        exact Nat.lt_trans (ih hmore) (unescapeChar_shorter hchar)

theorem wordToken_nil : wordToken [] = none := by decide

theorem nextToken_shorter {text rest : List Char} {token : Token}
    (h : nextToken text = some (token, rest)) : rest.length < text.length := by
  cases text with
  | nil => cases h
  | cons c text =>
      rw [nextToken] at h
      split_ifs at h
      iterate 6
        · cases h
          simp
      · obtain ⟨⟨string, rest'⟩, hstring, heq⟩ := Option.map_eq_some_iff.mp h
        cases heq
        have hshorter := readString_shorter hstring
        simp only [List.length_cons]
        omega
      · obtain ⟨token', hword, heq⟩ := Option.map_eq_some_iff.mp h
        cases heq
        have hsome : (c :: text).takeWhile isWordChar ≠ [] := by
          intro hnil
          rw [hnil, wordToken_nil] at hword
          cases hword
        have hpositive := List.length_pos_of_ne_nil hsome
        simp only [List.length_drop, List.length_cons]
        omega

def tokenize : List Char → Option (List Token)
  | [] => some []
  | c :: rest =>
      if isWhite c then tokenize rest
      else
        match _h : nextToken (c :: rest) with
        | none => none
        | some (token, more) => (tokenize more).map fun tokens => token :: tokens
termination_by text => text.length
decreasing_by
  · simp
  · exact nextToken_shorter _h

inductive Json where
  | null
  | bool (value : Bool)
  | number (literal : NumberLiteral)
  | string (text : List Char)
  | array (items : List Json)
  | object (members : List (List Char × Json))

mutual

def tokensOf : Json → List Token
  | .null => [.null]
  | .bool value => [.bool value]
  | .number literal => [.number literal]
  | .string text => [.string text]
  | .array items => .beginArray :: itemTokens items
  | .object members => .beginObject :: memberTokens members

def itemTokens : List Json → List Token
  | [] => [.endArray]
  | item :: rest => tokensOf item ++ moreItemTokens rest

def moreItemTokens : List Json → List Token
  | [] => [.endArray]
  | item :: rest => .valueSeparator :: tokensOf item ++ moreItemTokens rest

def memberTokens : List (List Char × Json) → List Token
  | [] => [.endObject]
  | (name, value) :: rest =>
      .string name :: .nameSeparator :: tokensOf value ++ moreMemberTokens rest

def moreMemberTokens : List (List Char × Json) → List Token
  | [] => [.endObject]
  | (name, value) :: rest =>
      .valueSeparator :: .string name :: .nameSeparator :: tokensOf value ++ moreMemberTokens rest

end

theorem tokensOf_ne (document : Json) (before after : List Token) :
    tokensOf document ++ before ≠ .endArray :: after := by
  cases document <;> simp [tokensOf]

mutual

theorem tokensOf_unique {document document' : Json} {rest rest' : List Token}
    (same : tokensOf document ++ rest = tokensOf document' ++ rest') :
    document = document' ∧ rest = rest' := by
  cases document with
  | null => cases document' <;> simp_all [tokensOf]
  | bool value => cases document' <;> simp_all [tokensOf]
  | number literal => cases document' <;> simp_all [tokensOf]
  | string text => cases document' <;> simp_all [tokensOf]
  | array items =>
      cases document' with
      | array items' =>
          simp only [tokensOf, List.cons_append, List.cons.injEq, true_and] at same
          obtain ⟨hitems, hrest⟩ := itemTokens_unique same
          exact ⟨congrArg Json.array hitems, hrest⟩
      | _ => simp [tokensOf] at same
  | object members =>
      cases document' with
      | object members' =>
          simp only [tokensOf, List.cons_append, List.cons.injEq, true_and] at same
          obtain ⟨hmembers, hrest⟩ := memberTokens_unique same
          exact ⟨congrArg Json.object hmembers, hrest⟩
      | _ => simp [tokensOf] at same
termination_by structural document

theorem itemTokens_unique {items items' : List Json} {rest rest' : List Token}
    (same : itemTokens items ++ rest = itemTokens items' ++ rest') :
    items = items' ∧ rest = rest' := by
  cases items with
  | nil =>
      cases items' with
      | nil => exact ⟨rfl, (List.cons.inj same).2⟩
      | cons item' items' =>
          simp only [itemTokens, List.append_assoc, List.cons_append] at same
          exact absurd same.symm (tokensOf_ne _ _ _)
  | cons item items =>
      cases items' with
      | nil =>
          simp only [itemTokens, List.append_assoc, List.cons_append] at same
          exact absurd same (tokensOf_ne _ _ _)
      | cons item' items' =>
          simp only [itemTokens, List.append_assoc] at same
          obtain ⟨hitem, hmore⟩ := tokensOf_unique same
          obtain ⟨hitems, hrest⟩ := moreItemTokens_unique hmore
          rw [hitem, hitems]
          exact ⟨rfl, hrest⟩
termination_by structural items

theorem moreItemTokens_unique {items items' : List Json} {rest rest' : List Token}
    (same : moreItemTokens items ++ rest = moreItemTokens items' ++ rest') :
    items = items' ∧ rest = rest' := by
  cases items with
  | nil =>
      cases items' with
      | nil => exact ⟨rfl, (List.cons.inj same).2⟩
      | cons item' items' => simp [moreItemTokens] at same
  | cons item items =>
      cases items' with
      | nil => simp [moreItemTokens] at same
      | cons item' items' =>
          simp only [moreItemTokens, List.cons_append, List.append_assoc, List.cons.injEq,
            true_and] at same
          obtain ⟨hitem, hmore⟩ := tokensOf_unique same
          obtain ⟨hitems, hrest⟩ := moreItemTokens_unique hmore
          rw [hitem, hitems]
          exact ⟨rfl, hrest⟩
termination_by structural items

theorem memberTokens_unique {members members' : List (List Char × Json)} {rest rest' : List Token}
    (same : memberTokens members ++ rest = memberTokens members' ++ rest') :
    members = members' ∧ rest = rest' := by
  cases members with
  | nil =>
      cases members' with
      | nil => exact ⟨rfl, (List.cons.inj same).2⟩
      | cons member' members' => simp [memberTokens] at same
  | cons member members =>
      cases members' with
      | nil => simp [memberTokens] at same
      | cons member' members' =>
          obtain ⟨name, value⟩ := member
          obtain ⟨name', value'⟩ := member'
          simp only [memberTokens, List.cons_append, List.append_assoc, List.cons.injEq,
            Token.string.injEq, true_and] at same
          obtain ⟨hvalue, hmore⟩ := tokensOf_unique same.2
          obtain ⟨hmembers, hrest⟩ := moreMemberTokens_unique hmore
          rw [same.1, hvalue, hmembers]
          exact ⟨rfl, hrest⟩
termination_by structural members

theorem moreMemberTokens_unique {members members' : List (List Char × Json)}
    {rest rest' : List Token}
    (same : moreMemberTokens members ++ rest = moreMemberTokens members' ++ rest') :
    members = members' ∧ rest = rest' := by
  cases members with
  | nil =>
      cases members' with
      | nil => exact ⟨rfl, (List.cons.inj same).2⟩
      | cons member' members' => simp [moreMemberTokens] at same
  | cons member members =>
      cases members' with
      | nil => simp [moreMemberTokens] at same
      | cons member' members' =>
          obtain ⟨name, value⟩ := member
          obtain ⟨name', value'⟩ := member'
          simp only [moreMemberTokens, List.cons_append, List.append_assoc, List.cons.injEq,
            Token.string.injEq, true_and] at same
          obtain ⟨hvalue, hmore⟩ := tokensOf_unique same.2
          obtain ⟨hmembers, hrest⟩ := moreMemberTokens_unique hmore
          rw [same.1, hvalue, hmembers]
          exact ⟨rfl, hrest⟩
termination_by structural members

end

def Denotes (text : List Char) (document : Json) : Prop :=
  tokenize text = some (tokensOf document)

theorem Denotes.unique {text : List Char} {document document' : Json}
    (h : Denotes text document) (h' : Denotes text document') : document = document' := by
  have htokens := Option.some.inj (h.symm.trans h')
  have hsame : tokensOf document ++ [] = tokensOf document' ++ [] := by rw [htokens]
  exact (tokensOf_unique hsame).1

/-- Whatever comes behind the text, these tokens are read first. -/
def ReadAs (text : List Char) (tokens : List Token) : Prop :=
  ∀ rest, tokenize (text ++ rest) = (tokenize rest).map fun more => tokens ++ more

theorem ReadAs.tokenize {text : List Char} {tokens : List Token} (h : ReadAs text tokens) :
    JsonDocuments.tokenize text = some tokens := by
  have hend := h []
  rw [List.append_nil, JsonDocuments.tokenize, Option.map_some, List.append_nil] at hend
  exact hend

theorem ReadAs.append {text text' : List Char} {tokens tokens' : List Token}
    (h : ReadAs text tokens) (h' : ReadAs text' tokens') :
    ReadAs (text ++ text') (tokens ++ tokens') := by
  intro rest
  rw [List.append_assoc, h, h', Option.map_map]
  congr 1
  funext more
  simp

theorem tokenize_cons {c : Char} {rest more : List Char} {token : Token}
    (white : isWhite c = false) (next : nextToken (c :: rest) = some (token, more)) :
    tokenize (c :: rest) = (tokenize more).map fun tokens => token :: tokens := by
  rw [tokenize, if_neg (by simp [white])]
  split
  · next hnone =>
    rw [next] at hnone
    cases hnone
  · next hsome =>
    rw [next] at hsome
    cases hsome
    rfl

theorem ReadAs.structural {c : Char} {token : Token} (white : isWhite c = false)
    (next : ∀ rest, nextToken (c :: rest) = some (token, rest)) : ReadAs [c] [token] :=
  fun rest => tokenize_cons white (next rest)

theorem readString_quoted {body text : List Char} (denotes : unescape body = some text)
    (rest : List Char) : readString (body ++ '"' :: rest) = some (text, rest) := by
  induction body using unescape.induct generalizing text with
  | case1 =>
      rw [unescape_nil] at denotes
      cases denotes
      rw [List.nil_append, readString, if_pos List.head?_cons]
      rfl
  | case2 body hsome hnone =>
      rw [unescape, if_neg hsome] at denotes
      split at denotes
      · cases denotes
      · next hchar =>
        rw [hnone] at hchar
        cases hchar
  | case3 body hsome c more hchar ih =>
      rw [unescape, if_neg hsome] at denotes
      split at denotes
      · cases denotes
      · next hchar' =>
        cases hchar.symm.trans hchar'
        obtain ⟨decoded, hdecoded, htext⟩ := Option.map_eq_some_iff.mp denotes
        have hquote : (body ++ '"' :: rest).head? ≠ some '"' := by
          intro hhead
          cases body with
          | nil => exact hsome rfl
          | cons b body =>
              rw [List.cons_append, List.head?_cons, Option.some.injEq] at hhead
              rw [hhead, unescapeChar_quote] at hchar
              cases hchar
        rw [readString, if_neg hquote]
        split
        · next hnone =>
          rw [unescapeChar_append hchar] at hnone
          cases hnone
        · next hread =>
          rw [unescapeChar_append hchar] at hread
          cases hread
          rw [ih hdecoded, ← htext]
          rfl

theorem ReadAs.string {body text : List Char} (denotes : unescape body = some text) :
    ReadAs ('"' :: body ++ ['"']) [.string text] := by
  intro rest
  have hread : nextToken ('"' :: (body ++ '"' :: rest)) = some (.string text, rest) := by
    simp [nextToken, readString_quoted denotes rest]
  rw [List.append_assoc, List.cons_append, List.singleton_append, tokenize_cons rfl hread]
  rfl

end ApiGateway.JsonDocuments
