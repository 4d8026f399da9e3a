import LineScript.Yaml.Problem

/-!
# The characters of a document

A document is a text in UTF-8 of which most control characters are excluded. It is read in portions of a
fixed number of bytes, and a character that is not allowed counts when its portion is read. Line ends
are written in five ways; three of them count as a newline, and the line and paragraph separators stay
what they are.
-/

namespace LineScript.Yaml

/-! ## Decoding -/

/-- May a character stand in a document? -/
def isAllowed (n : Nat) : Bool :=
  n == 0x09 || n == 0x0a || n == 0x0d || (0x20 ≤ n && n ≤ 0x7e) || n == 0x85
    || (0xa0 ≤ n && n ≤ 0xd7ff) || (0xe000 ≤ n && n ≤ 0xfffd) || (0x10000 ≤ n && n ≤ 0x10ffff)

/-- The number of bytes of a character, told by its first one. -/
def sequenceWidth? (b : UInt8) : Option Nat :=
  if b < 0x80 then some 1
  else if b &&& 0xe0 == 0xc0 then some 2
  else if b &&& 0xf0 == 0xe0 then some 3
  else if b &&& 0xf8 == 0xf0 then some 4
  else none

/-- The part of a character's number that its first byte carries. -/
def leadPart (width : Nat) (b : UInt8) : Nat :=
  match width with
  | 1 => b.toNat
  | 2 => b.toNat % 32
  | 3 => b.toNat % 16
  | _ => b.toNat % 8

/-- Is a character of this number written with this many bytes? -/
def fitsWidth (width n : Nat) : Bool :=
  match width with
  | 1 => true
  | 2 => 0x80 ≤ n
  | 3 => 0x800 ≤ n
  | _ => 0x10000 ≤ n

/-- The character at the start of a text that begins with `b`, and the number of its other bytes. -/
def decodeFirst (b : UInt8) (rest : Bytes) : Except Trouble (Char × Nat) :=
  match sequenceWidth? b with
  | none => .error .invalidLead
  | some width =>
    let tail := rest.take (width - 1)
    if tail.length < width - 1 then .error .incompleteCharacter
    else if tail.any fun t => t &&& 0xc0 != 0x80 then .error .invalidTrail
    else
      let n := tail.foldl (fun n t => n * 64 + t.toNat % 64) (leadPart width b)
      if !fitsWidth width n then .error .invalidLength
      else if (0xd800 ≤ n && n ≤ 0xdfff) || 0x10ffff < n then .error .invalidCharacter
      else if !isAllowed n then .error .controlCharacter
      else .ok (Char.ofNat n, width - 1)

/-- The characters of a text, up to the first that is not allowed, and the portions in which they are
read: each has a number of characters, or a trouble. -/
structure Supply where
  /-- The characters. -/
  chars : List Char
  /-- The portions. -/
  portions : List (Except Trouble Nat)

/-- The number of bytes that are read at a time. -/
def portionSize : Nat := 512

/-- The supply of a text; `skip` counts the bytes of a character that are still to be passed over,
`room` those that the portion can still take, and `count` the characters in it. A character that does
not fit goes to the next portion, and one that is cut off by the end of the text shows only there. -/
def decodeFrom : (skip room count : Nat) → Bytes → Supply
  | _, _, count, [] => ⟨[], [.ok count]⟩
  | skip + 1, room, count, _ :: rest => decodeFrom skip room count rest
  | 0, room, count, b :: rest =>
    let width := (sequenceWidth? b).getD 1
    let full := room < width
    let room := if full then portionSize else room
    let here := if full then 0 else count
    let supply : Supply :=
      match decodeFirst b rest with
      | .ok (c, skip) =>
        let later := decodeFrom skip (room - width) (here + 1) rest
        ⟨c :: later.chars, later.portions⟩
      | .error .incompleteCharacter => ⟨[], [.ok here, .error .incompleteCharacter]⟩
      | .error trouble => ⟨[], [.error trouble]⟩
    if full then ⟨supply.chars, .ok count :: supply.portions⟩ else supply

/-- The mark of the byte order. -/
def byteOrderMark : Char := '\ufeff'

/-- The supply of a document, without a mark of the byte order at its start. -/
def Supply.ofText (text : Bytes) : Supply :=
  let mark := String.utf8EncodeChar byteOrderMark
  match mark.isPrefixOf? text with
  | some rest => decodeFrom 0 (portionSize - mark.length) 0 rest
  | none => decodeFrom 0 portionSize 0 text

/-- The bytes of characters. -/
def encode (cs : List Char) : Bytes := cs.flatMap String.utf8EncodeChar

/-! ## Classes of characters -/

/-- A space or a tab. -/
def isBlank (c : Char) : Bool := c == ' ' || c == '\t'

/-- A line end, or the first character of one. -/
def isBreak (c : Char) : Bool :=
  c == '\n' || c == '\r' || c == '\u0085' || c == '\u2028' || c == '\u2029'

/-- A blank or a line end. -/
def isWhite (c : Char) : Bool := isBlank c || isBreak c

/-- A character of a name: a letter or a digit of ASCII, an underscore or a dash. -/
def isNameChar (c : Char) : Bool := c.isAlphanum || c == '_' || c == '-'

/-- Do characters begin with white space, or are there none? -/
def atBlank : List Char → Bool
  | [] => true
  | c :: _ => isWhite c

/-- The number of characters of the line end at the start; zero when there is none. -/
def breakWidth : List Char → Nat
  | '\r' :: '\n' :: _ => 2
  | c :: _ => if isBreak c then 1 else 0
  | [] => 0

/-- Characters with every line end that counts as a newline written as one. -/
def withNewlines : List Char → List Char
  | [] => []
  | '\r' :: '\n' :: rest => '\n' :: withNewlines rest
  | '\r' :: rest => '\n' :: withNewlines rest
  | '\u0085' :: rest => '\n' :: withNewlines rest
  | c :: rest => c :: withNewlines rest

end LineScript.Yaml
