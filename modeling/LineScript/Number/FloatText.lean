import LineScript.Number.Shortest

/-!
# The text of double-precision numbers

Writing takes the shortest digits and sets them positionally when the decimal exponent of the first
digit is at least minus four and below six, and with an exponent of at least two digits otherwise.

Reading takes decimal and hexadecimal numerals with an optional fraction and exponent, underscores
between digits, and the words for infinity and NaN; the result is the nearest number, and a numeral
beyond the greatest finite number is refused.
-/

namespace LineScript.Binary64

/-! ## Writing -/

/-- The digits without their trailing zeros. -/
def trimZeros (digits : Bytes) : Bytes := (digits.reverse.dropWhile (· == 0x30)).reverse

/-- The text of an exponent: a sign and at least two digits. -/
def exponentText (x : Int) : Bytes :=
  let magnitude := decimal x.natAbs
  (if x < 0 then 0x2d else 0x2b) :: if magnitude.length < 2 then 0x30 :: magnitude else magnitude

/-- The digits set without an exponent; `top` is the decimal exponent of the first one. -/
def positional (digits : Bytes) (top : Int) : Bytes :=
  if top < 0 then
    bytes "0." ++ List.replicate ((-top).toNat - 1) 0x30 ++ digits
  else
    let whole := top.toNat + 1
    let missing := whole - digits.length
    digits.take whole ++ List.replicate missing 0x30
      ++ (if whole < digits.length then 0x2e :: digits.drop whole else [])

/-- The digits set with one digit before the point and an exponent. -/
def scientific (digits : Bytes) (top : Int) : Bytes :=
  digits.take 1 ++ (if 1 < digits.length then 0x2e :: digits.drop 1 else [])
    ++ 0x65 :: exponentText top

/-- The text of a number. -/
def text (x : Binary64) : Bytes :=
  if x.isNaN then bytes "NaN"
  else if !x.isFinite then if x.isNegative then bytes "-Inf" else bytes "+Inf"
  else
    let sign : Bytes := if x.isNegative then [0x2d] else []
    if x.significand = 0 then sign ++ [0x30]
    else
      let shortest := x.shortest
      let all := decimal shortest.digits
      let top := shortest.exponent + all.length - 1
      let digits := trimZeros all
      sign ++ if top < -4 || 6 ≤ top then scientific digits top else positional digits top

/-! ## Reading -/

/-- The words for the numbers that have no digits, in lower case. -/
def word? (text : Bytes) : Option Binary64 :=
  let lowered := text.map Bytes.lower
  let (negative, body) := Numeral.sign lowered
  if body = bytes "inf" || body = bytes "infinity" then some (infinity negative)
  else if lowered = bytes "nan" then some nan
  else none

/-- The value of digits in a base, and how many stand after the point. -/
structure Mantissa where
  /-- The digits read as one number, the point left out. -/
  value : Nat := 0
  /-- Has a digit been read? -/
  started : Bool := false
  /-- The number of digits after the point, once the point has been read. -/
  places : Option Nat := none

/-- Reads digits with at most one point among them; underscores are passed over. -/
def mantissa (base : Nat) : Mantissa → Bytes → Mantissa × Bytes
  | m, [] => (m, [])
  | m, b :: rest =>
    if b == 0x5f then mantissa base m rest
    else if b == 0x2e && m.places.isNone then mantissa base { m with places := some 0 } rest
    else
      match digitValue? b with
      | some d =>
        if d < base then
          mantissa base ⟨m.value * base + d, true, m.places.map (· + 1)⟩ rest
        else (m, b :: rest)
      | none => (m, b :: rest)

/-- The exponent's digits; from ten thousand on further digits no longer matter. -/
def exponentDigits : Nat → Bytes → Option Nat
  | e, [] => some e
  | e, b :: rest =>
    if b == 0x5f then exponentDigits e rest
    else if Bytes.isDigit b then
      exponentDigits (if e < 10000 then e * 10 + (b.toNat - 0x30) else e) rest
    else none

/-- The exponent after its mark: an optional sign, then a digit, then digits and underscores. -/
def exponent? (text : Bytes) : Option Int :=
  let (negative, digits) := Numeral.sign text
  match digits with
  | b :: _ =>
    if Bytes.isDigit b then
      (exponentDigits 0 digits).map fun e => if negative then -(e : Int) else e
    else none
  | [] => none

/-- The finite number nearest to `± m * 2 ^ e`, with the power cut off where it no longer matters. -/
def nearestBinary (negative : Bool) (m : Nat) (e : Int) : Binary64 :=
  let top := (m.log2 : Int) + e
  if m = 0 || top < -1200 then zero negative
  else if 1200 < top then infinity negative
  else ofScaled negative m e

/-- The finite number nearest to `± m * 10 ^ e`, with the power cut off where it no longer matters. -/
def nearestDecimal (negative : Bool) (m : Nat) (e : Int) : Binary64 :=
  let top := ((decimal m).length : Int) + e
  if m = 0 || top < -400 then zero negative
  else if 400 < top then infinity negative
  else ofRatio negative (m * Nat.pow 10 e.toNat) (Nat.pow 10 (-e).toNat)

/-- The number that a numeral with digits stands for, infinite when it is too large. -/
def numeral? (text : Bytes) : Option Binary64 := do
  let (negative, body) := Numeral.sign text
  let hex : Bool :=
    match body with
    | 0x30 :: x :: _ :: _ => Bytes.lower x == 0x78
    | _ => false
  let (m, rest) := mantissa (if hex then 16 else 10) {} (if hex then body.drop 2 else body)
  guard m.started
  guard (!text.contains 0x5f || Numeral.underscoresPlaced text)
  let places : Int := m.places.getD 0
  match rest with
  | [] => if hex then none else some (nearestDecimal negative m.value (-places))
  | mark :: tail =>
    guard (Bytes.lower mark == if hex then 0x70 else 0x65)
    let e ← exponent? tail
    some (if hex then nearestBinary negative m.value (e - 4 * places)
      else nearestDecimal negative m.value (e - places))

/-- Reads a number. -/
def read? (text : Bytes) : Option Binary64 :=
  match word? text with
  | some x => some x
  | none => (numeral? text).filter isFinite

end LineScript.Binary64
