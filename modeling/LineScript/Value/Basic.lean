import LineScript.Number.FloatText
import LineScript.Text.Quoted

/-!
# Values

A value is a tagged word with a text beside it. Integers, truth values and the bits of floating-point
numbers live in the word, texts in the text. Values that the language makes are *canonical*: the part
that a tag does not use is zero or empty, and a truth value is zero or one; hosts may pass in others.
-/

namespace LineScript

/-- What a value is. -/
inductive Tag where
  | int | float | text | bool
  /-- A tag that the language does not have, by its number. -/
  | other (code : Nat)
  deriving DecidableEq, Repr, Inhabited

/-- The name of a type in messages. -/
def Tag.name : Tag → Bytes
  | int => bytes "int" | float => bytes "float" | text => bytes "string" | bool => bytes "bool"
  | other _ => bytes "unknown"

/-- A value. -/
structure Value where
  /-- What it is. -/
  tag : Tag
  /-- The word: an integer, a truth value, or the bits of a floating-point number. -/
  word : UInt64 := 0
  /-- The text. -/
  text : Bytes := []
  deriving DecidableEq, Repr

namespace Value

/-- An integer. -/
def ofInt (i : Int64) : Value := ⟨.int, i.toUInt64, []⟩

/-- A floating-point number. -/
def ofFloat (x : Binary64) : Value := ⟨.float, x.bits, []⟩

/-- A text. -/
def ofText (text : Bytes) : Value := ⟨.text, 0, text⟩

/-- A truth value. -/
def ofBool (b : Bool) : Value := ⟨.bool, if b then 1 else 0, []⟩

/-- The integer zero. -/
def zero : Value := ofInt 0

instance : Inhabited Value := ⟨zero⟩

/-- The word as an integer, whatever the tag. -/
def toInt (v : Value) : Int64 := v.word.toInt64

/-- The value as a floating-point number; a word that holds none is converted as an integer. -/
def toFloat (v : Value) : Binary64 :=
  if v.tag = .float then ⟨v.word⟩ else Binary64.ofInt v.toInt.toInt

/-- Is the word different from zero? -/
def toBool (v : Value) : Bool := v.word != 0

/-- An integer or a floating-point number. -/
def isNumeric (v : Value) : Bool := v.tag == .int || v.tag == .float

/-- Same tag and same content; floating-point numbers are compared as numbers. -/
def equal (v w : Value) : Bool :=
  v.tag == w.tag &&
    match v.tag with
    | .text => v.text == w.text
    | .float => v.toFloat.eq w.toFloat
    | _ => v.word == w.word

/-- The display text of a floating-point number always shows that it is one. -/
def showFloat (x : Binary64) : Bytes :=
  let text := x.text
  if x.isFinite && !text.contains 0x2e && !text.contains 0x65 then text ++ bytes ".0" else text

/-- The display text. -/
def display (v : Value) : Bytes :=
  match v.tag with
  | .text => v.text
  | .int => signedDecimal v.toInt.toInt
  | .float => showFloat v.toFloat
  | .bool => if v.toBool then bytes "true" else bytes "false"
  | .other _ => bytes "?"

/-- The text in messages: the display text, quoted if it is a text. -/
def describe (v : Value) : Bytes :=
  if v.tag = .text then Text.quoted v.text else v.display

end Value

end LineScript
