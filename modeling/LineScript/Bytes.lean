/-!
# Byte text

Scripts, lexemes, text values and messages are byte strings. A script may hold any bytes at all, so
text is kept as the list of its bytes and is decoded only where characters are counted, trimmed or
quoted (`LineScript.Text`).
-/

namespace LineScript

/-- Text as the bytes it is stored in; it need not be valid UTF-8. -/
abbrev Bytes := List UInt8

/-- The bytes of an ASCII literal. -/
def bytes (s : String) : Bytes := s.toList.map fun c => c.val.toUInt8

namespace Bytes

/-- Byte-wise lexicographic order: `le a b` holds when `a` sorts before `b` or equals it. -/
def le : Bytes → Bytes → Bool
  | [], _ => true
  | _ :: _, [] => false
  | a :: as, b :: bs => a < b || (a == b && le as bs)

/-- A decimal digit. -/
def isDigit (b : UInt8) : Bool := 0x30 ≤ b && b ≤ 0x39

/-- An ASCII letter. -/
def isLetter (b : UInt8) : Bool := (0x41 ≤ b && b ≤ 0x5a) || (0x61 ≤ b && b ≤ 0x7a)

/-- The lower-case form of an ASCII letter; other bytes stay. -/
def lower (b : UInt8) : UInt8 := if 0x41 ≤ b && b ≤ 0x5a then b + 0x20 else b

/-- The text before the first occurrence of `mark` and the text after it. -/
def cut? (mark : Bytes) : Bytes → Option (Bytes × Bytes)
  | [] => if mark.isEmpty then some ([], []) else none
  | b :: rest =>
    match mark.isPrefixOf? (b :: rest) with
    | some after => some ([], after)
    | none => (cut? mark rest).map fun (before, after) => (b :: before, after)

/-- The text with every occurrence of a non-empty `mark` replaced, read from the left. The first
argument counts the bytes of a replaced occurrence that are still to be passed over. -/
def replaceFrom (mark replacement : Bytes) : Nat → Bytes → Bytes
  | _, [] => []
  | skip + 1, _ :: rest => replaceFrom mark replacement skip rest
  | 0, b :: rest =>
    if !mark.isEmpty && mark.isPrefixOf (b :: rest) then
      replacement ++ replaceFrom mark replacement (mark.length - 1) rest
    else b :: replaceFrom mark replacement 0 rest

/-- The text with every occurrence of a non-empty `mark` replaced. -/
def replace (mark replacement text : Bytes) : Bytes := replaceFrom mark replacement 0 text

end Bytes

end LineScript
