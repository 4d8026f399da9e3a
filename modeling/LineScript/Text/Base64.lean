import LineScript.Bytes

/-!
# Bytes written as letters

Three bytes are written as four characters of an alphabet of sixty-four, six bits each. A text that ends
with one or two bytes is filled up with equals signs. Line ends between the characters do not count, and
neither do the bits that a last incomplete group has left over.
-/

namespace LineScript.Base64

/-- The six bits of a character. -/
def value? (b : UInt8) : Option Nat :=
  if 0x41 ≤ b && b ≤ 0x5a then some (b.toNat - 0x41)
  else if 0x61 ≤ b && b ≤ 0x7a then some (b.toNat - 0x61 + 26)
  else if Bytes.isDigit b then some (b.toNat - 0x30 + 52)
  else if b = 0x2b then some 62
  else if b = 0x2f then some 63
  else none

/-- The first `count` of the three bytes of twenty-four bits. -/
def leading (count n : Nat) : Bytes :=
  [(n >>> 16).toUInt8, (n >>> 8).toUInt8, n.toUInt8].take count

/-- The bytes of a group of four characters, of which the last may be filled up. -/
def group? (last : Bool) (a b c d : UInt8) : Option Bytes := do
  let high := (← value? a) <<< 18 + (← value? b) <<< 12
  if last && d = 0x3d then
    if c = 0x3d then return leading 1 high
    return leading 2 (high + (← value? c) <<< 6)
  return leading 3 (high + (← value? c) <<< 6 + (← value? d))

/-- The bytes of groups of four characters. -/
def groups? : Bytes → Option Bytes
  | [] => some []
  | a :: b :: c :: d :: rest => do
    let first ← group? rest.isEmpty a b c d
    return first ++ (← groups? rest)
  | _ => none

/-- The bytes that a text stands for; `none` when it is not written as it should be. -/
def decode? (text : Bytes) : Option Bytes := groups? (text.filter fun b => b != 0x0a && b != 0x0d)

end LineScript.Base64
