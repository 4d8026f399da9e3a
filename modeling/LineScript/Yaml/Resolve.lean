import LineScript.Number.FloatText
import LineScript.Text.Base64
import LineScript.Yaml.Problem
import LineScript.Yaml.Timestamp

/-!
# What scalars stand for

A plain scalar is nothing, a truth value, an integer, a floating-point number, a point in time or a
text, by its form alone. Underscores in numbers are passed over, and a leading zero announces the base
of an integer. A tag that names one of these types demands it; any other tag leaves the text as it is.
-/

namespace LineScript.Yaml

/-- What a scalar stands for. -/
inductive Meaning where
  | null
  | bool (value : Bool)
  | int (value : Int)
  | float (value : Binary64)
  | timestamp
  | text (value : Bytes)
  deriving DecidableEq, Repr

/-- The tag of a type of scalars. -/
def Meaning.tag : Meaning → Bytes
  | null => bytes "!!null"
  | bool _ => bytes "!!bool"
  | int _ => bytes "!!int"
  | float _ => bytes "!!float"
  | timestamp => bytes "!!timestamp"
  | text _ => bytes "!!str"

/-- The three ways in which a word may be written: small, capitalised, in capitals. -/
def isWord (word : String) (text : Bytes) : Bool :=
  let small := bytes word
  let upper (b : UInt8) : UInt8 := if Bytes.isLetter b then b - 0x20 else b
  let isStart (b : UInt8) : Bool := Bytes.isLetter b
  let capitalised :=
    small.takeWhile (!isStart ·) ++ (small.dropWhile (!isStart ·) |>.take 1 |>.map upper)
      ++ (small.dropWhile (!isStart ·) |>.drop 1)
  text == small || text == capitalised || text == small.map upper

/-- The words that stand for nothing, for truth values and for numbers without digits. -/
def wordMeaning? (text : Bytes) : Option Meaning :=
  if text.isEmpty || text == bytes "~" || isWord "null" text then some .null
  else if isWord "true" text then some (.bool true)
  else if isWord "false" text then some (.bool false)
  else if [bytes ".nan", bytes ".NaN", bytes ".NAN"].contains text then some (.float .nan)
  else if isWord ".inf" text || isWord "+.inf" text then some (.float (.infinity false))
  else if isWord "-.inf" text then some (.float (.infinity true))
  else none

/-- An integer whose sign stands after the announcement of its base. -/
def lateSign? (text : Bytes) : Option Int :=
  let read? (base : Nat) (digits : Bytes) : Option Int :=
    let (negative, digits) := Numeral.sign digits
    if digits.isEmpty then none
    else
      match Numeral.unsigned base digits >>= Numeral.withSign negative with
      | .ok i => some i.toInt
      | .error _ => none
  match (bytes "0b").isPrefixOf? text, (bytes "0o").isPrefixOf? text with
  | some digits, _ => read? 2 digits
  | none, some digits => read? 8 digits
  | none, none => none

/-- The number that a numeral stands for. -/
def numberMeaning? (text : Bytes) : Option Meaning :=
  let plain := text.filter (· != 0x5f)
  match Numeral.readIntAnyBase plain, Numeral.unsignedAnyBase plain with
  | .ok i, _ => some (.int i.toInt)
  | .error _, .ok n => some (.int n)
  | .error _, .error _ =>
    if plain.all fun b => Bytes.isDigit b || ([0x2e, 0x65, 0x45, 0x2b, 0x2d] : Bytes).contains b then
      (Binary64.read? plain).map .float
    else (lateSign? plain).map .int

/-- What a plain scalar stands for; points in time count only where `times` says so. -/
def plainMeaning (times : Bool) (text : Bytes) : Meaning :=
  match wordMeaning? text with
  | some meaning => meaning
  | none =>
    let number? : Option Meaning :=
      match text with
      | b :: _ =>
        if Bytes.isDigit b || b == 0x2b || b == 0x2d then
          if times && Timestamp.holds text then some .timestamp else numberMeaning? text
        else if b == 0x2e then (Binary64.read? text).map .float
        else none
      | [] => none
    number?.getD (.text text)

/-- The tags that demand a type. -/
def typeTags : List Bytes :=
  [bytes "!!bool", bytes "!!int", bytes "!!float", bytes "!!null", bytes "!!timestamp"]

/-- What a scalar with a tag stands for. An integer of sixty-four bits is also a floating-point
number. -/
def meaning (tag text : Bytes) : Except Trouble Meaning :=
  if tag == bytes "!!binary" then
    match Base64.decode? text with
    | some decoded => .ok (.text decoded)
    | none => .error .invalidBinary
  else if !typeTags.contains tag then .ok (.text text)
  else
    let found := plainMeaning (tag == bytes "!!timestamp") text
    match found with
    | .int i =>
      if tag == bytes "!!float" && i ≤ Int64.maxValue.toInt then .ok (.float (.ofInt i))
      else if tag == found.tag then .ok found
      else .error (.undecodable found.tag text tag)
    | _ => if tag == found.tag then .ok found else .error (.undecodable found.tag text tag)

end LineScript.Yaml
