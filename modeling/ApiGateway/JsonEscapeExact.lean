import ApiGateway.JsonEscape
import ApiGateway.JsonStrings
import ApiGateway.Utf8Text

/-! What `appendJsonEscaped` appends is the UTF-8 of a JSON string body, and that body
denotes the text which the input is, or comes nearest to, in UTF-8. -/

namespace ApiGateway.JsonEscapeExact
open ByteText JsonEscape JsonStrings Utf8Text

theorem isContinuationByte_iff {s : Bytes} {index : Nat} :
    isContinuationByte s index = true ↔ ∃ b, s[index]? = some b ∧ IsTail b := by
  have hmask : ∀ b : UInt8, (b &&& 0xC0 == 0x80) = true ↔ 0x80 ≤ b.toNat ∧ b.toNat ≤ 0xBF := by
    decide +kernel
  unfold isContinuationByte
  cases s[index]? with
  | none => simp
  | some b => simpa [IsTail] using hmask b

theorem utf8SequenceLength_eq (a : UInt8) (rest : Bytes) :
    utf8SequenceLength (a :: rest) =
      if 0xC2 ≤ a.toNat ∧ a.toNat ≤ 0xDF then
        if isContinuationByte (a :: rest) 1 then 2 else 0
      else if 0xE0 ≤ a.toNat ∧ a.toNat ≤ 0xEF then
        if ¬ isContinuationByte (a :: rest) 1 ∨ ¬ isContinuationByte (a :: rest) 2 then 0
        else if a.toNat = 0xE0 ∧ (rest.getD 0 0).toNat < 0xA0 then 0
        else if a.toNat = 0xED ∧ (rest.getD 0 0).toNat > 0x9F then 0
        else 3
      else if 0xF0 ≤ a.toNat ∧ a.toNat ≤ 0xF4 then
        if ¬ isContinuationByte (a :: rest) 1 ∨ ¬ isContinuationByte (a :: rest) 2 ∨
          ¬ isContinuationByte (a :: rest) 3 then 0
        else if a.toNat = 0xF0 ∧ (rest.getD 0 0).toNat < 0x90 then 0
        else if a.toNat = 0xF4 ∧ (rest.getD 0 0).toNat > 0x8F then 0
        else 4
      else 0 := by
  unfold utf8SequenceLength
  simp only [List.getD_cons_zero, List.getD_cons_succ, UInt8.le_iff_toNat_le,
    UInt8.lt_iff_toNat_lt, ← UInt8.toNat_inj, gt_iff_lt, UInt8.reduceToNat]

theorem utf8SequenceLength_sequence {bytes : Bytes} (sequence : Sequence bytes)
    (many : 2 ≤ bytes.length) (rest : Bytes) :
    utf8SequenceLength (bytes ++ rest) = bytes.length := by
  cases sequence with
  | one lead => simp at many
  | @two a b lead second =>
      have hsecond : isContinuationByte (a :: b :: rest) 1 = true :=
        isContinuationByte_iff.mpr ⟨b, rfl, second⟩
      change utf8SequenceLength (a :: b :: rest) = 2
      rw [utf8SequenceLength_eq, if_pos lead, if_pos hsecond]
  | @three a b c lead second low high third =>
      have hsecond : isContinuationByte (a :: b :: c :: rest) 1 = true :=
        isContinuationByte_iff.mpr ⟨b, rfl, second⟩
      have hthird : isContinuationByte (a :: b :: c :: rest) 2 = true :=
        isContinuationByte_iff.mpr ⟨c, rfl, third⟩
      change utf8SequenceLength (a :: b :: c :: rest) = 3
      rw [utf8SequenceLength_eq, if_neg (by omega), if_pos lead, if_neg (by simp [hsecond, hthird])]
      change (if a.toNat = 0xE0 ∧ b.toNat < 0xA0 then 0
        else if a.toNat = 0xED ∧ b.toNat > 0x9F then 0 else 3) = 3
      rw [if_neg (by omega), if_neg (by omega)]
  | @four a b c d lead second low high third fourth =>
      have hsecond : isContinuationByte (a :: b :: c :: d :: rest) 1 = true :=
        isContinuationByte_iff.mpr ⟨b, rfl, second⟩
      have hthird : isContinuationByte (a :: b :: c :: d :: rest) 2 = true :=
        isContinuationByte_iff.mpr ⟨c, rfl, third⟩
      have hfourth : isContinuationByte (a :: b :: c :: d :: rest) 3 = true :=
        isContinuationByte_iff.mpr ⟨d, rfl, fourth⟩
      change utf8SequenceLength (a :: b :: c :: d :: rest) = 4
      rw [utf8SequenceLength_eq, if_neg (by omega), if_neg (by omega), if_pos lead,
        if_neg (by simp [hsecond, hthird, hfourth])]
      change (if a.toNat = 0xF0 ∧ b.toNat < 0x90 then 0
        else if a.toNat = 0xF4 ∧ b.toNat > 0x8F then 0 else 4) = 4
      rw [if_neg (by omega), if_neg (by omega)]

theorem sequence_of_length {a : UInt8} {rest : Bytes} (h : utf8SequenceLength (a :: rest) ≠ 0) :
    ∃ bytes more, Sequence bytes ∧ a :: rest = bytes ++ more := by
  rw [utf8SequenceLength_eq] at h
  split_ifs at h with htwo hsecond hthree hthirds hlow hhigh hfour hfourths hlow' hhigh'
  · obtain ⟨b, hb, hbtail⟩ := isContinuationByte_iff.mp hsecond
    cases rest with
    | nil => simp at hb
    | cons b' rest =>
        cases Option.some.inj hb
        exact ⟨[a, b], rest, .two htwo hbtail, rfl⟩
  all_goals simp only [ne_eq, not_true_eq_false] at h
  · simp only [not_or, not_not] at hthirds
    obtain ⟨b, hb, hbtail⟩ := isContinuationByte_iff.mp hthirds.1
    obtain ⟨c, hc, hctail⟩ := isContinuationByte_iff.mp hthirds.2
    match rest, hb, hc with
    | b' :: c' :: rest, hb, hc =>
        cases Option.some.inj hb
        cases Option.some.inj hc
        change ¬ (a.toNat = 0xE0 ∧ b.toNat < 0xA0) at hlow
        change ¬ (a.toNat = 0xED ∧ b.toNat > 0x9F) at hhigh
        exact ⟨[a, b, c], rest, .three hthree hbtail (by omega) (by omega) hctail, rfl⟩
  · simp only [not_or, not_not] at hfourths
    obtain ⟨b, hb, hbtail⟩ := isContinuationByte_iff.mp hfourths.1
    obtain ⟨c, hc, hctail⟩ := isContinuationByte_iff.mp hfourths.2.1
    obtain ⟨d, hd, hdtail⟩ := isContinuationByte_iff.mp hfourths.2.2
    match rest, hb, hc, hd with
    | b' :: c' :: d' :: rest, hb, hc, hd =>
        cases Option.some.inj hb
        cases Option.some.inj hc
        cases Option.some.inj hd
        change ¬ (a.toNat = 0xF0 ∧ b.toNat < 0x90) at hlow'
        change ¬ (a.toNat = 0xF4 ∧ b.toNat > 0x8F) at hhigh'
        exact ⟨[a, b, c, d], rest, .four hfour hbtail (by omega) (by omega) hctail hdtail, rfl⟩

theorem utf8SequenceLength_char {c : Char} (high : 0x80 ≤ c.val.toNat) (rest : Bytes) :
    utf8SequenceLength (String.utf8EncodeChar c ++ rest) =
      (String.utf8EncodeChar c).length := by
  refine utf8SequenceLength_sequence (sequence_char c) ?_ rest
  unfold String.utf8EncodeChar
  simp only [if_neg (show ¬ c.val.toNat ≤ 0x7F by omega)]
  split_ifs <;> simp

theorem utf8SequenceLength_bad {a : UInt8} {rest : Bytes} (bad : frontChar (a :: rest) = none) :
    utf8SequenceLength (a :: rest) = 0 := by
  by_contra hlength
  obtain ⟨bytes, more, hsequence, hsplit⟩ := sequence_of_length hlength
  obtain ⟨c, hc⟩ := hsequence.char
  rw [hsplit, ← hc, frontChar_encode] at bad
  cases bad

/-- What the loop appends for the whole of an input. -/
def escaped (input : Bytes) : Bytes := escapeLoop 0 input []

def escapedByte (byte : UInt8) : Bytes :=
  if byte = 34 then ascii "\\\""
  else if byte = 92 then ascii "\\\\"
  else if byte = 10 then ascii "\\n"
  else if byte = 13 then ascii "\\r"
  else if byte = 9 then ascii "\\t"
  else if byte = 8 then ascii "\\b"
  else if byte = 12 then ascii "\\f"
  else if byte < 0x20 ∨ byte = 0x7F then appendUnicodeEscape [] byte.toNat
  else [byte]

theorem escapeLoop_low {byte : UInt8} (low : byte < 0x80) (rest out : Bytes) :
    escapeLoop 0 (byte :: rest) out = escapeLoop 0 rest (out ++ escapedByte byte) := by
  have hunicode : appendUnicodeEscape out byte.toNat =
      out ++ appendUnicodeEscape [] byte.toNat := by
    simp only [appendUnicodeEscape, List.append_assoc, List.nil_append]
  rw [escapeLoop, escapedByte, if_pos low, hunicode]
  simp only [apply_ite (fun piece => escapeLoop 0 rest (out ++ piece))]

theorem not_escaped_of_high : ∀ b : UInt8, ¬ b < 0x80 → b ≠ 34 ∧ b ≠ 92 ∧ b ≠ 10 ∧ b ≠ 13 ∧
    b ≠ 9 ∧ b ≠ 8 ∧ b ≠ 12 ∧ ¬ (b < 0x20 ∨ b = 0x7F) := by
  decide +kernel

theorem escapeLoop_replaced {byte : UInt8} {rest : Bytes} (high : ¬ byte < 0x80)
    (length : utf8SequenceLength (byte :: rest) = 0) (out : Bytes) :
    escapeLoop 0 (byte :: rest) out = escapeLoop 0 rest (out ++ ascii "\\ufffd") := by
  obtain ⟨h1, h2, h3, h4, h5, h6, h7, h8⟩ := not_escaped_of_high byte high
  simp only [escapeLoop, h1, h2, h3, h4, h5, h6, h7, h8, high, if_false, length]

theorem escapeLoop_sequence {byte : UInt8} {rest : Bytes} {more : Nat} (high : ¬ byte < 0x80)
    (length : utf8SequenceLength (byte :: rest) = more + 1) (out : Bytes) :
    escapeLoop 0 (byte :: rest) out = escapeLoop more rest (out ++ [byte]) := by
  obtain ⟨h1, h2, h3, h4, h5, h6, h7, h8⟩ := not_escaped_of_high byte high
  simp only [escapeLoop, h1, h2, h3, h4, h5, h6, h7, h8, high, if_false, length]

theorem append_out {f : Bytes → Bytes} (h : ∀ out, f out = out ++ f []) (out piece : Bytes) :
    f (out ++ piece) = out ++ f ([] ++ piece) := by
  rw [h (out ++ piece), h ([] ++ piece), List.nil_append, List.append_assoc]

theorem escapeLoop_out (copied : Nat) (input out : Bytes) :
    escapeLoop copied input out = out ++ escapeLoop copied input [] := by
  induction input generalizing copied out with
  | nil => cases copied <;> simp [escapeLoop]
  | cons byte rest ih =>
      cases copied with
      | succ copied => exact append_out (ih copied) out [byte]
      | zero =>
          by_cases hlow : byte < 0x80
          · rw [escapeLoop_low hlow, escapeLoop_low hlow]
            exact append_out (ih 0) out _
          · cases hlength : utf8SequenceLength (byte :: rest) with
            | zero =>
                rw [escapeLoop_replaced hlow hlength, escapeLoop_replaced hlow hlength]
                exact append_out (ih 0) out _
            | succ more =>
                rw [escapeLoop_sequence hlow hlength, escapeLoop_sequence hlow hlength]
                exact append_out (ih more) out _

theorem appendJsonEscaped_eq (out input : Bytes) :
    appendJsonEscaped out input = out ++ escaped input :=
  escapeLoop_out 0 input out

theorem escaped_byte {byte : UInt8} (low : byte < 0x80) (rest : Bytes) :
    escaped (byte :: rest) = escapedByte byte ++ escaped rest := by
  rw [escaped, escapeLoop_low low]
  exact escapeLoop_out 0 rest _

theorem escaped_bad {byte : UInt8} {rest : Bytes} (high : ¬ byte < 0x80)
    (bad : frontChar (byte :: rest) = none) :
    escaped (byte :: rest) = ascii "\\ufffd" ++ escaped rest := by
  rw [escaped, escapeLoop_replaced high (utf8SequenceLength_bad bad)]
  exact escapeLoop_out 0 rest _

theorem escapeLoop_copied (copied rest out : Bytes) :
    escapeLoop copied.length (copied ++ rest) out = escapeLoop 0 rest (out ++ copied) := by
  induction copied generalizing out with
  | nil => rw [List.append_nil, List.length_nil, List.nil_append]
  | cons byte copied ih =>
      rw [List.length_cons, List.cons_append, escapeLoop, ih, List.append_assoc,
        List.singleton_append]

theorem escaped_char {c : Char} (high : 0x80 ≤ c.val.toNat) (rest : Bytes) :
    escaped (String.utf8EncodeChar c ++ rest) = String.utf8EncodeChar c ++ escaped rest := by
  have hlength := utf8SequenceLength_char high rest
  cases hbytes : String.utf8EncodeChar c with
  | nil =>
      have hpositive := c.utf8Size_pos
      rw [← String.length_utf8EncodeChar, hbytes] at hpositive
      cases hpositive
  | cons byte more =>
      have hfirst : 0xC2 ≤ byte.toNat := by
        have hsequence := sequence_char c
        rw [hbytes] at hsequence hlength
        cases hsequence with
        | one lead =>
            rw [List.singleton_append, utf8SequenceLength_eq, if_neg (by omega),
              if_neg (by omega), if_neg (by omega)] at hlength
            cases hlength
        | two lead _ => exact lead.1
        | three lead _ _ _ _ => omega
        | four lead _ _ _ _ _ => omega
      have hhigh : ¬ byte < 0x80 := by
        rw [UInt8.lt_iff_toNat_lt]
        exact Nat.not_lt.mpr (le_trans (by decide) hfirst)
      rw [hbytes, List.cons_append, List.length_cons] at hlength
      rw [escaped, List.cons_append, escapeLoop_sequence hhigh hlength, escapeLoop_copied,
        escapeLoop_out]
      simp [escaped]

def asciiChar (byte : UInt8) : Char := Char.ofNat byte.toNat

theorem asciiChar_toNat {byte : UInt8} (low : byte < 0x80) :
    (asciiChar byte).toNat = byte.toNat := by
  have hlow : byte.toNat < 0x80 := UInt8.lt_iff_toNat_lt.mp low
  have hvalid : byte.toNat.isValidChar := .inl (by omega)
  rw [asciiChar, Char.ofNat, dif_pos hvalid]
  rfl

theorem encode_asciiChar {byte : UInt8} (low : byte < 0x80) :
    String.utf8EncodeChar (asciiChar byte) = [byte] := by
  have htoNat : (asciiChar byte).val.toNat = byte.toNat := asciiChar_toNat low
  have hlow : byte.toNat < 0x80 := UInt8.lt_iff_toNat_lt.mp low
  rw [encode_one (by omega), ofNat_eq byte htoNat]

theorem encodeText_ascii {bytes : Bytes} (low : ∀ b ∈ bytes, b < 0x80) :
    encodeText (bytes.map asciiChar) = bytes := by
  induction bytes with
  | nil => rfl
  | cons b bytes ih =>
      rw [List.map_cons, encodeText_cons, encode_asciiChar (low b (by simp)),
        ih fun b hb => low b (by simp [hb]), List.singleton_append]

theorem unescapeChar_unicode {n : Nat} (small : n < 0xD800 ∨ 0xDFFF < n ∧ n < 0x10000)
    (text : List Char) :
    unescapeChar ((appendUnicodeEscape [] n).map asciiChar ++ text) =
      some (Char.ofNat n, text) := by
  have hdigit : ∀ k < 16, hexValue (asciiChar (kHexDigits.getD k 0)) = some k := by decide
  have hvalue : ∀ shift, hexValue (asciiChar (hexDigit n shift)) = some (n / 2 ^ shift % 16) :=
    fun shift => hdigit _ (Nat.mod_lt _ (by decide))
  have hunit : codeUnit ([hexDigit n 12, hexDigit n 8, hexDigit n 4, hexDigit n 0].map asciiChar ++
      text) = some (n, text) := by
    simp only [List.map_cons, List.map_nil, List.cons_append, List.nil_append, codeUnit, hvalue]
    have hsum : ((n / 2 ^ 12 % 16 * 16 + n / 2 ^ 8 % 16) * 16 + n / 2 ^ 4 % 16) * 16 +
        n / 2 ^ 0 % 16 = n := by
      omega
    rw [hsum]
  have hescape : (appendUnicodeEscape [] n).map asciiChar ++ text = '\\' :: 'u' ::
      ([hexDigit n 12, hexDigit n 8, hexDigit n 4, hexDigit n 0].map asciiChar ++ text) := by
    have hstart : (ascii "\\u").map asciiChar = ['\\', 'u'] := by decide
    rw [appendUnicodeEscape, List.nil_append, List.map_append, hstart]
    rfl
  rw [hescape]
  simp only [unescapeChar, if_true]
  rw [unicodeEscape, hunit, Option.bind_some]
  simp only
  rw [if_neg (by omega), if_neg (by omega)]

theorem unescapeChar_escapedByte {byte : UInt8} (low : byte < 0x80) (text : List Char) :
    unescapeChar ((escapedByte byte).map asciiChar ++ text) = some (asciiChar byte, text) := by
  unfold escapedByte
  split_ifs with h1 h2 h3 h4 h5 h6 h7 h8
  · rw [h1]
    rfl
  · rw [h2]
    rfl
  · rw [h3]
    rfl
  · rw [h4]
    rfl
  · rw [h5]
    rfl
  · rw [h6]
    rfl
  · rw [h7]
    rfl
  · have hsmall := byte.toNat_lt
    exact unescapeChar_unicode (.inl (by omega)) text
  · have htoNat := asciiChar_toNat low
    rw [not_or, UInt8.not_lt, UInt8.le_iff_toNat_le] at h8
    refine unescapeChar_plain ?_ ?_ ?_ text
    · rw [htoNat]
      exact h8.1
    · intro hquote
      have h34 : byte.toNat = 34 := by
        rw [← htoNat, hquote]
        rfl
      exact h1 (UInt8.toNat_inj.mp h34)
    · intro hbackslash
      have h92 : byte.toNat = 92 := by
        rw [← htoNat, hbackslash]
        rfl
      exact h2 (UInt8.toNat_inj.mp h92)

theorem hexDigit_ascii (codeUnit shift : Nat) : hexDigit codeUnit shift < 0x80 := by
  have hdigit : ∀ k < 16, kHexDigits.getD k 0 < 0x80 := by decide
  exact hdigit _ (Nat.mod_lt _ (by decide))

theorem appendUnicodeEscape_ascii (codeUnit : Nat) :
    ∀ b ∈ appendUnicodeEscape [] codeUnit, b < 0x80 := by
  have hstart : ∀ b ∈ ascii "\\u", b < 0x80 := by decide +kernel
  rw [appendUnicodeEscape, List.nil_append]
  intro b hb
  cases List.mem_append.mp hb with
  | inl hmem => exact hstart b hmem
  | inr hmem =>
      simp only [List.mem_cons, List.not_mem_nil, or_false] at hmem
      rcases hmem with rfl | rfl | rfl | rfl <;> exact hexDigit_ascii _ _

theorem escapedByte_ascii {byte : UInt8} (low : byte < 0x80) :
    ∀ b ∈ escapedByte byte, b < 0x80 := by
  unfold escapedByte
  split_ifs
  · decide +kernel
  · decide +kernel
  · decide +kernel
  · decide +kernel
  · decide +kernel
  · decide +kernel
  · decide +kernel
  · exact appendUnicodeEscape_ascii byte.toNat
  · intro b hb
    rwa [List.mem_singleton.mp hb]

theorem escaped_denotes (input : Bytes) : ∃ text, escaped input = encodeText text ∧
    unescape text = some (lossyDecode input) := by
  induction input using lossyDecode.induct with
  | case1 => exact ⟨[], rfl, by simp [lossyDecode]⟩
  | case2 byte rest c hfront ih =>
      obtain ⟨text, hescaped, hdenotes⟩ := ih
      have hbytes := encode_of_frontChar hfront
      generalize (byte :: rest).drop c.utf8Size = more at hescaped hdenotes hbytes
      by_cases hlow : byte < 0x80
      · have hascii : c = asciiChar byte ∧ rest = more := by
          have hone := frontChar_encode (asciiChar byte) rest
          rw [encode_asciiChar hlow, List.singleton_append] at hone
          have hc := Option.some.inj (hfront.symm.trans hone)
          rw [hc, encode_asciiChar hlow, List.singleton_append] at hbytes
          exact ⟨hc, (List.cons.inj hbytes).2⟩
        obtain ⟨hc, hrest⟩ := hascii
        refine ⟨(escapedByte byte).map asciiChar ++ text, ?_, ?_⟩
        · rw [escaped_byte hlow, hrest, hescaped, encodeText_append,
            encodeText_ascii (escapedByte_ascii hlow)]
        · rw [hbytes, lossyDecode_char, hc]
          exact unescape_of_char (unescapeChar_escapedByte hlow text) hdenotes
      · have hhigh : 0x80 ≤ c.val.toNat := by
          by_contra hsmall
          rw [encode_one (by omega), List.singleton_append] at hbytes
          refine hlow ?_
          rw [(List.cons.inj hbytes).1, UInt8.lt_iff_toNat_lt, toNat_ofNat (by omega)]
          exact Nat.not_le.mp hsmall
        have hne : ∀ d : Char, d.toNat < 0x80 → c ≠ d := by
          intro d hd hcd
          rw [hcd] at hhigh
          exact absurd hd (Nat.not_lt.mpr hhigh)
        refine ⟨c :: text, ?_, ?_⟩
        · rw [hbytes, escaped_char hhigh, hescaped, encodeText_cons]
        · rw [hbytes, lossyDecode_char]
          have hprintable : 0x20 ≤ c.toNat := le_trans (by decide) hhigh
          exact unescape_of_char (unescapeChar_plain hprintable (hne _ (by decide))
            (hne _ (by decide)) text) hdenotes
  | case3 byte rest hbad ih =>
      obtain ⟨text, hescaped, hdenotes⟩ := ih
      have hhigh : ¬ byte < 0x80 := by
        intro hlow
        have hone := frontChar_encode (asciiChar byte) rest
        rw [encode_asciiChar hlow, List.singleton_append, hbad] at hone
        cases hone
      refine ⟨(appendUnicodeEscape [] 0xFFFD).map asciiChar ++ text, ?_, ?_⟩
      · have hpiece : appendUnicodeEscape [] 0xFFFD = ascii "\\ufffd" := by decide +kernel
        rw [escaped_bad hhigh hbad, hescaped, encodeText_append,
          encodeText_ascii (appendUnicodeEscape_ascii 0xFFFD), hpiece]
      · rw [lossyDecode_bad hbad]
        exact unescape_of_char (unescapeChar_unicode (.inr (by omega)) text) hdenotes

/-- What is appended is the UTF-8 of a JSON string body, which denotes the lossy decoding
of the input; and that is the input's text if it has one. -/
theorem escape_exact (out input : Bytes) :
    (∃ text, appendJsonEscaped out input = out ++ encodeText text ∧
        unescape text = some (lossyDecode input)) ∧
      ∀ text, input = encodeText text → lossyDecode input = text := by
  refine ⟨?_, fun text htext => ?_⟩
  · obtain ⟨text, hescaped, hdenotes⟩ := escaped_denotes input
    refine ⟨text, ?_, hdenotes⟩
    rw [appendJsonEscaped_eq, hescaped]
  · rw [htext, lossyDecode_encodeText]

end ApiGateway.JsonEscapeExact
