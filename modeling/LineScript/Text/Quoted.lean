import LineScript.Number.Decimal
import LineScript.Text.Glyph
import LineScript.Text.Printable

/-!
# Quoted text

Texts are shown between double quotes with everything that would not be visible escaped: the usual
short escapes for control characters, `\x` with two digits for the other ones of ASCII and for bytes
that belong to no character, `\u` with four and `\U` with eight digits for the rest.
-/

namespace LineScript.Text

/-- The letter of a short escape. -/
def shortEscape? (n : Nat) : Option UInt8 :=
  if n = 0x07 then some 0x61
  else if n = 0x08 then some 0x62
  else if n = 0x0c then some 0x66
  else if n = 0x0a then some 0x6e
  else if n = 0x0d then some 0x72
  else if n = 0x09 then some 0x74
  else if n = 0x0b then some 0x76
  else none

/-- A glyph as it is written between two `mark` bytes. -/
def escaped (mark : UInt8) : Glyph → Bytes
  | .stray b => bytes "\\x" ++ hexadecimal 2 b.toNat
  | .char c =>
    let n := c.toNat
    if n = mark.toNat || n = 0x5c then [0x5c, n.toUInt8]
    else if isPrintable c then (Glyph.char c).bytes
    else
      match shortEscape? n with
      | some letter => [0x5c, letter]
      | none =>
        if n < 0x80 then bytes "\\x" ++ hexadecimal 2 n
        else if n < 0x10000 then bytes "\\u" ++ hexadecimal 4 n
        else bytes "\\U" ++ hexadecimal 8 n

/-- A text between double quotes. -/
def quoted (text : Bytes) : Bytes :=
  0x22 :: (Glyph.decode text).flatMap (escaped 0x22) ++ [0x22]

/-- One character between single quotes. -/
def quotedChar (c : Char) : Bytes := 0x27 :: escaped 0x27 (.char c) ++ [0x27]

end LineScript.Text
