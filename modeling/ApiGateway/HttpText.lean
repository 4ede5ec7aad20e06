import ApiGateway.FirstWinsMap

/-! The small text helpers every part of the gateway uses: request methods,
trimming, case-insensitive comparison and the hop-by-hop filter. The
anonymous-namespace copies of one helper in several files share one definition.
`std::isspace` and `std::tolower` are those of the C locale, which the
program never leaves. -/

namespace ApiGateway.HttpText
open ByteText

/-- `std::invalid_argument` with its message. -/
structure InvalidArgument where
  what : Bytes
  deriving DecidableEq

inductive HttpMethod where
  | GET | POST | PUT | DELETE | PATCH | HEAD | OPTIONS
  deriving DecidableEq, Repr

def httpMethodToString : HttpMethod → Bytes
  | .GET => ascii "GET"
  | .POST => ascii "POST"
  | .PUT => ascii "PUT"
  | .DELETE => ascii "DELETE"
  | .PATCH => ascii "PATCH"
  | .HEAD => ascii "HEAD"
  | .OPTIONS => ascii "OPTIONS"

def httpMethodFromString (method : Bytes) : Except InvalidArgument HttpMethod :=
  if method = ascii "GET" then .ok .GET
  else if method = ascii "POST" then .ok .POST
  else if method = ascii "PUT" then .ok .PUT
  else if method = ascii "DELETE" then .ok .DELETE
  else if method = ascii "PATCH" then .ok .PATCH
  else if method = ascii "HEAD" then .ok .HEAD
  else if method = ascii "OPTIONS" then .ok .OPTIONS
  else .error ⟨ascii "Unrecognized HTTP method: " ++ method⟩

theorem httpMethodToString_of_ok {text : Bytes} {method : HttpMethod}
    (ok : httpMethodFromString text = .ok method) : httpMethodToString method = text := by
  unfold httpMethodFromString at ok
  split_ifs at ok with hget hpost hput hdelete hpatch hhead hoptions
  all_goals
    cases ok
    symm
    assumption

theorem httpMethodFromString_toString (method : HttpMethod) :
    httpMethodFromString (httpMethodToString method) = .ok method := by
  cases method <;> rfl

theorem httpMethodToString_injective : Function.Injective httpMethodToString := by
  intro method method' same
  have hread := httpMethodFromString_toString method
  rw [same, httpMethodFromString_toString] at hread
  exact (Except.ok.inj hread).symm

def isspace (b : UInt8) : Bool := b == 32 || (9 ≤ b && b ≤ 13)

def isdigit (b : UInt8) : Bool := 48 ≤ b && b ≤ 57

def tolower (b : UInt8) : UInt8 := if 65 ≤ b && b ≤ 90 then b + 32 else b

def trimView (s : Bytes) : Bytes := (s.dropWhile isspace).rdropWhile isspace

def caseInsensitiveEquals (a b : Bytes) : Bool := a.map tolower == b.map tolower

def digitsValue (s : Bytes) : Nat := s.foldl (fun n b => 10 * n + (b.toNat - 48)) 0

/-- `std::stoul` of a nonempty string of digits; `none` is `std::out_of_range`. -/
def stoul (s : Bytes) : Option Nat :=
  if digitsValue s < 2 ^ 64 then some (digitsValue s) else none

/-- `std::stoi` of a nonempty string of digits; `none` is `std::out_of_range`. -/
def stoi (s : Bytes) : Option Nat :=
  if digitsValue s < 2 ^ 31 then some (digitsValue s) else none

/-- `std::to_string` and the stream output of an unsigned number. -/
def toDecimal (n : Nat) : Bytes := (Nat.toDigits 10 n).map fun c => UInt8.ofNat c.toNat

def isHopByHopHeader (name : Bytes) : Bool :=
  caseInsensitiveEquals name (ascii "host") ||
    caseInsensitiveEquals name (ascii "content-length") ||
    caseInsensitiveEquals name (ascii "connection") ||
    caseInsensitiveEquals name (ascii "transfer-encoding") ||
    caseInsensitiveEquals name (ascii "keep-alive") ||
    caseInsensitiveEquals name (ascii "proxy-connection")

/-- The first header whose name compares equal, in iteration order, else empty. -/
def findHeader (order : IterationOrder Bytes Bytes) (headers : FirstWinsMap Bytes Bytes)
    (name : Bytes) : Bytes :=
  match (headers.iterate order).find? fun e => caseInsensitiveEquals e.1 name with
  | some e => e.2
  | none => []

theorem trimView_inside (s : Bytes) : trimView s <:+: s :=
  (List.rdropWhile_prefix isspace _).isInfix.trans (List.dropWhile_suffix isspace).isInfix

theorem trimView_getLast {s : Bytes} (h : trimView s ≠ []) :
    isspace ((trimView s).getLast h) = false := by
  exact Bool.eq_false_iff.mpr (List.rdropWhile_last_not isspace (s.dropWhile isspace) h)

theorem trimView_head {s : Bytes} (h : trimView s ≠ []) :
    isspace ((trimView s).head h) = false := by
  have hne : s.dropWhile isspace ≠ [] := fun hnil => h (by simp [trimView, hnil])
  have hhead : (trimView s).head h = (s.dropWhile isspace).head hne :=
    (List.rdropWhile_prefix isspace _).head h
  rw [hhead]
  exact Bool.eq_false_iff.mpr (by simpa using List.head_dropWhile_not isspace hne)

theorem trimView_idem (s : Bytes) : trimView (trimView s) = trimView s := by
  by_cases h : trimView s = []
  · rw [h]
    rfl
  · have hdrop : (trimView s).dropWhile isspace = trimView s := by
      cases hs : trimView s with
      | nil => rfl
      | cons b rest =>
          have hb : isspace b = false := by simpa [hs] using trimView_head h
          rw [List.dropWhile_cons_of_neg (by simp [hb])]
    rw [trimView, hdrop, List.rdropWhile_eq_self_iff]
    intro hne
    simpa using trimView_getLast hne

theorem trimView_of_not_space {s : Bytes} (h : ∀ b ∈ s, isspace b = false) : trimView s = s := by
  have hdrop : s.dropWhile isspace = s := by
    cases s with
    | nil => rfl
    | cons b rest => rw [List.dropWhile_cons_of_neg (by simp [h b])]
  rw [trimView, hdrop, List.rdropWhile_eq_self_iff]
  intro hne
  simpa using h _ (List.getLast_mem hne)

theorem digit_of_mem_toDigits {n : Nat} {c : Char} (h : c ∈ Nat.toDigits 10 n) :
    48 ≤ c.toNat ∧ c.toNat ≤ 57 ∧ (UInt8.ofNat c.toNat).toNat = c.toNat := by
  have hdigit := Nat.isDigit_of_mem_toDigits (by norm_num) (by norm_num) h
  simp only [Char.isDigit, Bool.and_eq_true, decide_eq_true_eq] at hdigit
  have hlow : 48 ≤ c.toNat := by simpa [UInt32.le_iff_toNat_le] using hdigit.1
  have hhigh : c.toNat ≤ 57 := by simpa [UInt32.le_iff_toNat_le] using hdigit.2
  exact ⟨hlow, hhigh, UInt8.toNat_ofNat_of_lt' (hhigh.trans_lt (by decide))⟩

theorem isdigit_of_mem_toDecimal {n : Nat} {b : UInt8} (h : b ∈ toDecimal n) :
    isdigit b = true := by
  have ⟨c, hc, hb⟩ := List.mem_map.mp h
  have ⟨hlow, hhigh, hval⟩ := digit_of_mem_toDigits hc
  simp only [← hb, isdigit, Bool.and_eq_true, decide_eq_true_eq, UInt8.le_iff_toNat_le, hval]
  exact ⟨hlow, hhigh⟩

theorem isspace_of_isdigit {b : UInt8} (h : isdigit b = true) : isspace b = false := by
  simp only [isdigit, Bool.and_eq_true, decide_eq_true_eq, UInt8.le_iff_toNat_le] at h
  simp only [isspace, Bool.or_eq_false_iff, Bool.and_eq_false_iff, beq_eq_false_iff_ne, ne_eq,
    decide_eq_false_iff_not, UInt8.le_iff_toNat_le, ← UInt8.toNat_inj]
  simp only [UInt8.reduceToNat] at h ⊢
  omega

theorem not_mem_toDecimal {b : UInt8} (hb : isdigit b = false) (n : Nat) : b ∉ toDecimal n := by
  intro hmem
  rw [isdigit_of_mem_toDecimal hmem] at hb
  cases hb

theorem toDecimal_ne_nil (n : Nat) : toDecimal n ≠ [] := by
  simp [toDecimal]

theorem length_toDecimal_le_iff {n k : Nat} (h : 0 < k) :
    (toDecimal n).length ≤ k ↔ n < 10 ^ k := by
  rw [toDecimal, List.length_map]
  exact Nat.length_toDigits_le_iff (by decide) h

theorem all_isdigit_toDecimal (n : Nat) : (toDecimal n).all isdigit = true :=
  List.all_eq_true.mpr fun _ hb => isdigit_of_mem_toDecimal hb

theorem trimView_toDecimal (n : Nat) : trimView (toDecimal n) = toDecimal n :=
  trimView_of_not_space fun _ hb => isspace_of_isdigit (isdigit_of_mem_toDecimal hb)

theorem digitsValue_toDecimal (n : Nat) : digitsValue (toDecimal n) = n := by
  have hfold : digitsValue (toDecimal n) = Nat.ofDigitChars 10 (Nat.toDigits 10 n) 0 := by
    rw [digitsValue, toDecimal, List.foldl_map, Nat.ofDigitChars_eq_foldl]
    apply List.foldl_ext
    intro value c hc
    rw [(digit_of_mem_toDigits hc).2.2]
    rfl
  rw [hfold, Nat.ofDigitChars_ten_toDigits]

end ApiGateway.HttpText
