import Mathlib.Data.List.Basic

/-! Lists of bytes read as UTF-8. A sequence is well-formed if it is the encoding of a
`Char`, which is a code point up to U+10FFFF that is no surrogate. -/

namespace ApiGateway.Utf8Text

def encodeText (text : List Char) : List UInt8 := text.flatMap String.utf8EncodeChar

def frontChar (bytes : List UInt8) : Option Char := bytes.toByteArray.utf8DecodeChar? 0

@[simp] theorem encodeText_nil : encodeText [] = [] := rfl

theorem encodeText_cons (c : Char) (text : List Char) :
    encodeText (c :: text) = String.utf8EncodeChar c ++ encodeText text := rfl

theorem encodeText_append (text more : List Char) :
    encodeText (text ++ more) = encodeText text ++ encodeText more :=
  List.flatMap_append

theorem frontChar_encode (c : Char) (rest : List UInt8) :
    frontChar (String.utf8EncodeChar c ++ rest) = some c := by
  rw [frontChar, List.toByteArray_append]
  exact ByteArray.utf8DecodeChar?_utf8EncodeChar_append

theorem encode_of_frontChar {bytes : List UInt8} {c : Char} (h : frontChar bytes = some c) :
    bytes = String.utf8EncodeChar c ++ bytes.drop c.utf8Size := by
  obtain ⟨rest, hrest⟩ := ByteArray.exists_of_utf8DecodeChar?_eq_some h
  have hbytes : bytes = String.utf8EncodeChar c ++ rest.data.toList := by
    have hdata := congrArg (fun b => b.data.toList) hrest
    simpa using hdata
  have hlength := String.length_utf8EncodeChar c
  conv_rhs => rw [hbytes]
  rw [← hlength, List.drop_left]
  exact hbytes

theorem frontChar_nil : frontChar [] = none := by
  cases h : frontChar [] with
  | none => rfl
  | some c =>
      have hlength := congrArg List.length (encode_of_frontChar h)
      have hpositive := c.utf8Size_pos
      simp at hlength
      omega

/-- Reads from left to right; a byte that begins no well-formed sequence is U+FFFD. -/
def lossyDecode : List UInt8 → List Char
  | [] => []
  | byte :: rest =>
      match frontChar (byte :: rest) with
      | some c => c :: lossyDecode ((byte :: rest).drop c.utf8Size)
      | none => Char.ofNat 0xFFFD :: lossyDecode rest
termination_by bytes => bytes.length
decreasing_by
  · have hpositive := c.utf8Size_pos
    simp only [List.length_drop, List.length_cons]
    omega
  · simp

theorem lossyDecode_char (c : Char) (rest : List UInt8) :
    lossyDecode (String.utf8EncodeChar c ++ rest) = c :: lossyDecode rest := by
  have hfront := frontChar_encode c rest
  have hlength := String.length_utf8EncodeChar c
  have hdrop : (String.utf8EncodeChar c ++ rest).drop c.utf8Size = rest := by
    rw [← hlength, List.drop_left]
  cases hbytes : String.utf8EncodeChar c ++ rest with
  | nil =>
      rw [hbytes, frontChar_nil] at hfront
      cases hfront
  | cons byte more =>
      rw [hbytes] at hfront hdrop
      rw [lossyDecode, hfront]
      simp only [hdrop]

theorem lossyDecode_bad {byte : UInt8} {rest : List UInt8}
    (bad : frontChar (byte :: rest) = none) :
    lossyDecode (byte :: rest) = Char.ofNat 0xFFFD :: lossyDecode rest := by
  rw [lossyDecode, bad]

theorem lossyDecode_encodeText (text : List Char) : lossyDecode (encodeText text) = text := by
  induction text with
  | nil => simp [lossyDecode]
  | cons c text ih => rw [encodeText_cons, lossyDecode_char, ih]

def IsTail (byte : UInt8) : Prop := 0x80 ≤ byte.toNat ∧ byte.toNat ≤ 0xBF

/-- The second byte keeps the code point in its range and off the surrogates. -/
inductive Sequence : List UInt8 → Prop where
  | one {a : UInt8} (lead : a.toNat < 0x80) : Sequence [a]
  | two {a b : UInt8} (lead : 0xC2 ≤ a.toNat ∧ a.toNat ≤ 0xDF) (second : IsTail b) :
      Sequence [a, b]
  | three {a b c : UInt8} (lead : 0xE0 ≤ a.toNat ∧ a.toNat ≤ 0xEF) (second : IsTail b)
      (low : a.toNat = 0xE0 → 0xA0 ≤ b.toNat) (high : a.toNat = 0xED → b.toNat ≤ 0x9F)
      (third : IsTail c) : Sequence [a, b, c]
  | four {a b c d : UInt8} (lead : 0xF0 ≤ a.toNat ∧ a.toNat ≤ 0xF4) (second : IsTail b)
      (low : a.toNat = 0xF0 → 0x90 ≤ b.toNat) (high : a.toNat = 0xF4 → b.toNat ≤ 0x8F)
      (third : IsTail c) (fourth : IsTail d) : Sequence [a, b, c, d]

theorem exists_char {n : Nat} (valid : n.isValidChar) : ∃ c : Char, c.val.toNat = n :=
  ⟨Char.ofNatAux n valid, rfl⟩

theorem ofNat_eq (byte : UInt8) {n : Nat} (h : n = byte.toNat) : UInt8.ofNat n = byte := by
  rw [h]
  exact UInt8.ofNat_toNat

theorem encode_one {c : Char} (small : c.val.toNat ≤ 0x7F) :
    String.utf8EncodeChar c = [UInt8.ofNat c.val.toNat] := by
  simp only [String.utf8EncodeChar, if_pos small]

theorem Sequence.char {bytes : List UInt8} (h : Sequence bytes) :
    ∃ c, String.utf8EncodeChar c = bytes := by
  cases h with
  | @one a lead =>
      obtain ⟨c, hc⟩ := exists_char (n := a.toNat) (.inl (by omega))
      refine ⟨c, ?_⟩
      rw [encode_one (by omega), ofNat_eq a hc]
  | @two a b lead second =>
      obtain ⟨hlow, hhigh⟩ := second
      obtain ⟨c, hc⟩ := exists_char (n := (a.toNat - 0xC0) * 64 + (b.toNat - 0x80))
        (.inl (by omega))
      refine ⟨c, ?_⟩
      simp only [String.utf8EncodeChar, hc]
      rw [if_neg (by omega), if_pos (by omega), ofNat_eq a (by omega),
        ofNat_eq b (by omega)]
  | @three a b d lead second low high third =>
      obtain ⟨hlow, hhigh⟩ := second
      obtain ⟨hlow', hhigh'⟩ := third
      have hvalid : ((a.toNat - 0xE0) * 4096 + (b.toNat - 0x80) * 64 +
          (d.toNat - 0x80)).isValidChar := by
        unfold Nat.isValidChar
        omega
      obtain ⟨c, hc⟩ := exists_char hvalid
      refine ⟨c, ?_⟩
      simp only [String.utf8EncodeChar, hc]
      rw [if_neg (by omega), if_neg (by omega), if_pos (by omega), ofNat_eq a (by omega),
        ofNat_eq b (by omega), ofNat_eq d (by omega)]
  | @four a b d e lead second low high third fourth =>
      obtain ⟨hlow, hhigh⟩ := second
      obtain ⟨hlow', hhigh'⟩ := third
      obtain ⟨hlow'', hhigh''⟩ := fourth
      have hvalid : ((a.toNat - 0xF0) * 262144 + (b.toNat - 0x80) * 4096 +
          (d.toNat - 0x80) * 64 + (e.toNat - 0x80)).isValidChar := by
        unfold Nat.isValidChar
        omega
      obtain ⟨c, hc⟩ := exists_char hvalid
      refine ⟨c, ?_⟩
      simp only [String.utf8EncodeChar, hc]
      rw [if_neg (by omega), if_neg (by omega), if_neg (by omega), ofNat_eq a (by omega),
        ofNat_eq b (by omega), ofNat_eq d (by omega),
        ofNat_eq e (by omega)]

theorem toNat_ofNat {n : Nat} (small : n < 256) : (UInt8.ofNat n).toNat = n :=
  UInt8.toNat_ofNat_of_lt' small

theorem sequence_char (c : Char) : Sequence (String.utf8EncodeChar c) := by
  have hvalid : c.val.toNat < 0xD800 ∨ 0xDFFF < c.val.toNat ∧ c.val.toNat < 0x110000 := c.valid
  unfold String.utf8EncodeChar
  simp only
  split_ifs with hone htwo hthree
  · refine .one ?_
    rw [toNat_ofNat (by omega)]
    omega
  · refine .two ?_ ?_
    · rw [toNat_ofNat (by omega)]
      omega
    · unfold IsTail
      rw [toNat_ofNat (by omega)]
      omega
  · refine .three ?_ ?_ ?_ ?_ ?_
    · rw [toNat_ofNat (by omega)]
      omega
    · unfold IsTail
      rw [toNat_ofNat (by omega)]
      omega
    · rw [toNat_ofNat (by omega), toNat_ofNat (by omega)]
      omega
    · rw [toNat_ofNat (by omega), toNat_ofNat (by omega)]
      omega
    · unfold IsTail
      rw [toNat_ofNat (by omega)]
      omega
  · refine .four ?_ ?_ ?_ ?_ ?_ ?_
    · rw [toNat_ofNat (by omega)]
      omega
    · unfold IsTail
      rw [toNat_ofNat (by omega)]
      omega
    · rw [toNat_ofNat (by omega), toNat_ofNat (by omega)]
      omega
    · rw [toNat_ofNat (by omega), toNat_ofNat (by omega)]
      omega
    · unfold IsTail
      rw [toNat_ofNat (by omega)]
      omega
    · unfold IsTail
      rw [toNat_ofNat (by omega)]
      omega

end ApiGateway.Utf8Text
