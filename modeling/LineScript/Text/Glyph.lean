import LineScript.Bytes

/-!
# Decoded text

Reading byte text as UTF-8 gives a list of glyphs. A byte that starts no valid sequence is a glyph of
its own, so every byte string can be read and no byte is lost.
-/

namespace LineScript

/-- One unit of decoded text. -/
inductive Glyph where
  /-- A character given by a valid UTF-8 sequence. -/
  | char (c : Char)
  /-- A byte that starts no valid sequence. -/
  | stray (b : UInt8)
  deriving DecidableEq, Repr

namespace Glyph

/-- The bytes that a glyph was read from. -/
def bytes : Glyph → Bytes
  | .char c => String.utf8EncodeChar c
  | .stray b => [b]

/-- A byte that continues a sequence. -/
def continues (b : UInt8) : Bool := 0x80 ≤ b && b ≤ 0xbf

/-- The six bits that a continuing byte carries. -/
def payload (b : UInt8) : Nat := b.toNat % 64

/-- The character that starts with the byte `b`, and the number of bytes of `rest` that belong to it.
Overlong forms, surrogates and values above the last character are refused. -/
def lead? (b : UInt8) (rest : Bytes) : Option (Char × Nat) :=
  if b < 0x80 then some (Char.ofNat b.toNat, 0)
  else
    match rest with
    | [] => none
    | b1 :: rest1 =>
      if 0xc2 ≤ b && b ≤ 0xdf then
        if continues b1 then some (Char.ofNat (b.toNat % 32 * 64 + payload b1), 1) else none
      else
        match rest1 with
        | [] => none
        | b2 :: rest2 =>
          if 0xe0 ≤ b && b ≤ 0xef then
            let low : UInt8 := if b == 0xe0 then 0xa0 else 0x80
            let high : UInt8 := if b == 0xed then 0x9f else 0xbf
            if low ≤ b1 && b1 ≤ high && continues b2 then
              some (Char.ofNat ((b.toNat % 16 * 64 + payload b1) * 64 + payload b2), 2)
            else none
          else
            match rest2 with
            | [] => none
            | b3 :: _ =>
              let low : UInt8 := if b == 0xf0 then 0x90 else 0x80
              let high : UInt8 := if b == 0xf4 then 0x8f else 0xbf
              if 0xf0 ≤ b && b ≤ 0xf4 && low ≤ b1 && b1 ≤ high && continues b2 && continues b3 then
                some (Char.ofNat
                  (((b.toNat % 8 * 64 + payload b1) * 64 + payload b2) * 64 + payload b3), 3)
              else none

/-- The glyphs of a text; the first argument counts the bytes that belong to the glyph before. -/
def decodeFrom : Nat → Bytes → List Glyph
  | _, [] => []
  | skip + 1, _ :: rest => decodeFrom skip rest
  | 0, b :: rest =>
    match lead? b rest with
    | some (c, n) => .char c :: decodeFrom n rest
    | none => .stray b :: decodeFrom 0 rest

/-- The glyphs of a text, in order. -/
def decode (text : Bytes) : List Glyph := decodeFrom 0 text

/-- White space: the characters of the Unicode property `White_Space`. -/
def isBlank : Glyph → Bool
  | .stray _ => false
  | .char c =>
    let n := c.toNat
    (0x09 ≤ n && n ≤ 0x0d) || n == 0x20 || n == 0x85 || n == 0xa0 || n == 0x1680
      || (0x2000 ≤ n && n ≤ 0x200a) || n == 0x2028 || n == 0x2029 || n == 0x202f || n == 0x205f
      || n == 0x3000

end Glyph

namespace Bytes

/-- The text without the white space at its two ends. -/
def trim (text : Bytes) : Bytes :=
  let glyphs := (Glyph.decode text).dropWhile Glyph.isBlank
  (glyphs.reverse.dropWhile Glyph.isBlank).reverse.flatMap Glyph.bytes

end Bytes

end LineScript
