import ApiGateway.ByteText

/-! `appendJsonEscaped` of `JsonEscape.cpp`. A position in the input is the rest
of it from there. -/

namespace ApiGateway.JsonEscape
open ByteText

def kHexDigits : Bytes := ascii "0123456789abcdef"

def hexDigit (codeUnit shift : Nat) : UInt8 := kHexDigits.getD (codeUnit / 2 ^ shift % 16) 0

def appendUnicodeEscape (out : Bytes) (codeUnit : Nat) : Bytes :=
  out ++ ascii "\\u" ++
    [hexDigit codeUnit 12, hexDigit codeUnit 8, hexDigit codeUnit 4, hexDigit codeUnit 0]

def isContinuationByte (s : Bytes) (index : Nat) : Bool :=
  match s[index]? with
  | none => false
  | some b => b &&& 0xC0 == 0x80

/-- The length of the well-formed UTF-8 sequence in front, or 0. -/
def utf8SequenceLength (s : Bytes) : Nat :=
  let lead := s.getD 0 0
  let second := s.getD 1 0
  if 0xC2 ≤ lead ∧ lead ≤ 0xDF then
    if isContinuationByte s 1 then 2 else 0
  else if 0xE0 ≤ lead ∧ lead ≤ 0xEF then
    if ¬ isContinuationByte s 1 ∨ ¬ isContinuationByte s 2 then 0
    else if lead = 0xE0 ∧ second < 0xA0 then 0
    else if lead = 0xED ∧ second > 0x9F then 0
    else 3
  else if 0xF0 ≤ lead ∧ lead ≤ 0xF4 then
    if ¬ isContinuationByte s 1 ∨ ¬ isContinuationByte s 2 ∨ ¬ isContinuationByte s 3 then 0
    else if lead = 0xF0 ∧ second < 0x90 then 0
    else if lead = 0xF4 ∧ second > 0x8F then 0
    else 4
  else 0

/-- The loop; `copied` bytes in front belong to a sequence that is taken over as it is. -/
def escapeLoop : (copied : Nat) → (input out : Bytes) → Bytes
  | _, [], out => out
  | copied + 1, byte :: rest, out => escapeLoop copied rest (out ++ [byte])
  | 0, byte :: rest, out =>
      if byte = 34 then escapeLoop 0 rest (out ++ ascii "\\\"")
      else if byte = 92 then escapeLoop 0 rest (out ++ ascii "\\\\")
      else if byte = 10 then escapeLoop 0 rest (out ++ ascii "\\n")
      else if byte = 13 then escapeLoop 0 rest (out ++ ascii "\\r")
      else if byte = 9 then escapeLoop 0 rest (out ++ ascii "\\t")
      else if byte = 8 then escapeLoop 0 rest (out ++ ascii "\\b")
      else if byte = 12 then escapeLoop 0 rest (out ++ ascii "\\f")
      else if byte < 0x20 ∨ byte = 0x7F then
        escapeLoop 0 rest (appendUnicodeEscape out byte.toNat)
      else if byte < 0x80 then escapeLoop 0 rest (out ++ [byte])
      else
        match utf8SequenceLength (byte :: rest) with
        | 0 => escapeLoop 0 rest (out ++ ascii "\\ufffd")
        | length + 1 => escapeLoop length rest (out ++ [byte])

def appendJsonEscaped (out input : Bytes) : Bytes := escapeLoop 0 input out

end ApiGateway.JsonEscape
