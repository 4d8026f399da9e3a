import LineScript.Number.Decimal
import LineScript.Token.Scanner

/-!
# Tables of tokens

Tokens are shown in three columns, the first two as wide as their widest cell. A byte that cannot occur
in text, `0xff`, begins or ends a stretch that is passed on as it is: rows that start inside such a
stretch are not laid out, and do not count for the widths.
-/

namespace LineScript.TokenTable

/-- A row of a table. -/
structure Row where
  /-- The first cell. -/
  first : Bytes
  /-- The second cell. -/
  second : Bytes
  /-- The last cell, which is not padded. -/
  last : Bytes

/-- The byte that begins and ends a stretch that is passed on as it is. -/
def stretchMark : UInt8 := 0xff

/-- The rows, each with whether it starts inside a stretch. -/
def mark : Bool → List Row → List (Bool × Row)
  | _, [] => []
  | inside, r :: rest => (inside, r) :: mark (inside != (r.last.count stretchMark % 2 == 1)) rest

/-- The width of a column with space after its widest cell. -/
def width (cells : List Bytes) : Nat := (cells.map List.length).foldl max 0 + 2

/-- A cell with blanks after it. -/
def pad (width : Nat) (cell : Bytes) : Bytes := cell ++ List.replicate (width - cell.length) 0x20

/-- A table. -/
def render (rows : List Row) : Bytes :=
  let marked := mark false rows
  let laid := (marked.filter fun r => !r.1).map Prod.snd
  let width₁ := width (laid.map Row.first)
  let width₂ := width (laid.map Row.second)
  marked.flatMap fun (inside, r) =>
    (if inside then r.first ++ [0x09] ++ r.second ++ [0x09]
      else pad width₁ r.first ++ pad width₂ r.second) ++ r.last ++ bytes "\n"

/-- The row of a token. -/
def ofToken (t : Token) : Row := ⟨signedDecimal t.line, t.kind.name, t.source⟩

/-- The table of the tokens of a script, and the number of tokens of every line. -/
def ofScan (s : Scan) : Bytes :=
  render (⟨bytes "LINE", bytes "KIND", bytes "LEXEME"⟩ :: s.tokens.map ofToken)
    ++ bytes "tokens per line: [" ++ List.intercalate (bytes " ") (s.perLine.map decimal) ++ bytes "]\n"

end LineScript.TokenTable
