import LineScript.Text.Quoted

/-!
# Tokens

A token is a lexeme with its kind and the line on which it starts. Kinds and lexemes are independent
data: a parser must answer for every pair of them, whether a scanner produces it or not.
-/

namespace LineScript

/-- The kind of a token. -/
inductive Kind where
  | keyword | identifier | int | float | string | operator | lineEnd
  | lparen | rparen | lbrace | rbrace | lbracket | rbracket | comma
  /-- A kind that the language does not have, by its number. -/
  | other (code : Nat)
  deriving DecidableEq, Repr, Inhabited

namespace Kind

/-- The number of a kind. -/
def code : Kind → Nat
  | keyword => 0 | identifier => 1 | int => 2 | float => 3 | string => 4 | operator => 5
  | lineEnd => 6 | lparen => 7 | rparen => 8 | lbrace => 9 | rbrace => 10 | lbracket => 11
  | rbracket => 12 | comma => 13 | other n => n

/-- The kind with a given number. -/
def ofCode : Nat → Kind
  | 0 => keyword | 1 => identifier | 2 => int | 3 => float | 4 => string | 5 => operator
  | 6 => lineEnd | 7 => lparen | 8 => rparen | 9 => lbrace | 10 => rbrace | 11 => lbracket
  | 12 => rbracket | 13 => comma | n => other n

/-- The name of a kind. -/
def name : Kind → Bytes
  | keyword => bytes "KEYWORD" | identifier => bytes "IDENTIFIER" | int => bytes "INT"
  | float => bytes "FLOAT" | string => bytes "STRING" | operator => bytes "OPERATOR"
  | lineEnd => bytes "LINE_END" | lparen => bytes "LPAREN" | rparen => bytes "RPAREN"
  | lbrace => bytes "LBRACE" | rbrace => bytes "RBRACE" | lbracket => bytes "LBRACKET"
  | rbracket => bytes "RBRACKET" | comma => bytes "COMMA"
  | other n => bytes "Kind(" ++ decimal n ++ bytes ")"

end Kind

/-- The reserved words. -/
inductive Keyword where
  | var | afiseaza | citeste | daca | atunci | altfel | executa | cat | timp | pentru | pana | cand
  | fiecare | adevarat | fals
  deriving DecidableEq, Repr

namespace Keyword

/-- All reserved words. -/
def all : List Keyword :=
  [var, afiseaza, citeste, daca, atunci, altfel, executa, cat, timp, pentru, pana, cand, fiecare,
    adevarat, fals]

/-- The spelling of a reserved word. -/
def text : Keyword → Bytes
  | var => bytes "var" | afiseaza => bytes "afiseaza" | citeste => bytes "citeste"
  | daca => bytes "daca" | atunci => bytes "atunci" | altfel => bytes "altfel"
  | executa => bytes "executa" | cat => bytes "cat" | timp => bytes "timp"
  | pentru => bytes "pentru" | pana => bytes "pana" | cand => bytes "cand"
  | fiecare => bytes "fiecare" | adevarat => bytes "adevarat" | fals => bytes "fals"

/-- The reserved word with a given spelling. -/
def ofText? (text : Bytes) : Option Keyword := all.find? fun k => k.text == text

end Keyword

/-- A token: what was read and where it started. -/
structure Token where
  /-- The kind. -/
  kind : Kind
  /-- The text; of a string literal, what it stands for. -/
  lexeme : Bytes
  /-- The line on which the token starts. -/
  line : Int
  deriving DecidableEq, Repr, Inhabited

namespace Token

/-- The reserved word that a token is, if it is one. -/
def keyword? (t : Token) : Option Keyword :=
  if t.kind = .keyword then Keyword.ofText? t.lexeme else none

/-- Is the token the given reserved word? -/
def isKeyword (k : Keyword) (t : Token) : Bool := t.kind == .keyword && t.lexeme == k.text

/-- Is the token the given operator? -/
def isOperator (symbol : Bytes) (t : Token) : Bool := t.kind == .operator && t.lexeme == symbol

/-- The token as it stands in a script: a string literal is quoted again. -/
def source (t : Token) : Bytes :=
  if t.kind = .string then Text.quoted t.lexeme else t.lexeme

end Token

end LineScript
