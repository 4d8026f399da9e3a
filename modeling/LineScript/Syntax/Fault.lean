import LineScript.Syntax.Line

/-!
# Syntax errors

A logical line that is no statement is refused for one reason, its fault, and the diagnostic of the
line joins the fault with the line. Blocks are parsed line by line like programs, so a refused line
inside a block does not refuse the statement around it.
-/

namespace LineScript

/-- A part of the header of a counting loop. -/
inductive HeaderPart where
  | start | condition | step
  deriving DecidableEq, Repr

/-- Why a line is refused. -/
inductive Fault where
  /-- `var` stands alone. -/
  | varAlone
  /-- `var` is not followed by a name. -/
  | varName
  /-- A declared name is not followed by an equals sign. -/
  | varEquals
  /-- A declaration ends after its equals sign. -/
  | varInitializer
  /-- `afiseaza` stands alone. -/
  | printAlone
  /-- `citeste` is not followed by a name. -/
  | inputName
  /-- Something follows the name after `citeste`. -/
  | inputExtra (extra : Token) (name : Bytes)
  /-- A word is not a name. -/
  | invalidName (word : Bytes)
  /-- A name at the start of a line is followed by no assignment and no call. -/
  | missingEquals (name : Bytes)
  /-- A line computes a value and drops it. -/
  | unusedResult
  /-- An assignment ends after its operator. -/
  | missingOperand (symbol : Bytes)
  /-- Something follows an increment or a decrement. -/
  | stepExtra (extra : Token) (name symbol : Bytes)
  /-- The reserved word for loops over elements. -/
  | eachLoop
  /-- A reserved word that begins no statement. -/
  | keywordAtStart (word : Bytes)
  /-- A token that begins no statement. -/
  | tokenAtStart (t : Token)
  /-- A reserved word is not followed by its partner. -/
  | expectedWord (word after : Keyword)
  /-- No condition follows the block of `executa`. -/
  | loopEnd
  /-- The header of a counting loop does not have three parts. -/
  | forHeader
  /-- A part of the header of a counting loop is refused. -/
  | inHeader (part : HeaderPart) (fault : Fault)
  /-- The step of a counting loop is a declaration. -/
  | stepDeclares
  /-- A part of the header of a counting loop is a call. -/
  | notAssignment
  /-- A token after the end of a statement. -/
  | trailing (t : Token)
  /-- A condition is missing. -/
  | expectedCondition
  /-- A token stands where a block should begin. -/
  | braceFound (t : Token)
  /-- A line ends where a block should begin. -/
  | expectedBrace
  /-- A block has no end. -/
  | unclosedBrace
  /-- An expression is missing. -/
  | expectedExpression
  /-- An integer literal does not fit. -/
  | intRange (lexeme : Bytes)
  /-- A floating-point literal cannot be read. -/
  | floatForm (lexeme : Bytes)
  /-- A reserved word inside an expression. -/
  | keywordInExpression (word : Bytes)
  /-- A parenthesis is not closed. -/
  | unclosedParen
  /-- A token that begins no expression. -/
  | tokenInExpression (t : Token)
  /-- An operator that no expression has. -/
  | operatorInExpression (symbol : Bytes)
  /-- An argument is followed by neither a comma nor a parenthesis. -/
  | callSeparator (name : Bytes)
  deriving DecidableEq, Repr

namespace Fault

/-- A text between single quotes. -/
def mark (text : Bytes) : Bytes := bytes "'" ++ text ++ bytes "'"

/-- The message of a fault. -/
def message : Fault → Bytes
  | varAlone => bytes "Expected identifier after 'var'"
  | varName => bytes "Expected variable name after 'var'"
  | varEquals => bytes "Expected '=' after variable name"
  | varInitializer => bytes "Expected initializer after '='"
  | printAlone => bytes "Expected expression after 'afiseaza'"
  | inputName => bytes "Expected variable name after 'citeste'"
  | inputExtra extra name =>
    bytes "unexpected " ++ mark extra.source ++ bytes " after " ++ mark (bytes "citeste " ++ name)
  | invalidName word => bytes "invalid identifier " ++ mark word
  | missingEquals name => bytes "Expected '=' after " ++ mark name
  | unusedResult => bytes "expression result is not used"
  | missingOperand symbol => bytes "Expected expression after " ++ mark symbol
  | stepExtra extra name symbol =>
    bytes "unexpected " ++ mark extra.source ++ bytes " after " ++ mark (name ++ symbol)
  | eachLoop => bytes "'fiecare' loops are not supported"
  | keywordAtStart word => bytes "unexpected keyword " ++ mark word ++ bytes " at start of statement"
  | tokenAtStart t => bytes "unexpected " ++ mark t.source ++ bytes " at start of statement"
  | expectedWord word after => bytes "Expected " ++ mark word.text ++ bytes " after " ++ mark after.text
  | loopEnd => bytes "Expected 'cat timp' or 'pana cand' after 'executa' block"
  | forHeader => bytes "Expected 'pentru <init>, <condition>, <step>'"
  | inHeader .start fault => bytes "for init: " ++ fault.message
  | inHeader .condition fault => bytes "for condition: " ++ fault.message
  | inHeader .step fault => bytes "for step: " ++ fault.message
  | stepDeclares => bytes "for step must be an assignment"
  | notAssignment => bytes "expected an assignment"
  | trailing t => bytes "unexpected " ++ mark t.source
  | expectedCondition => bytes "Expected condition"
  | braceFound t => bytes "Expected '\x7b' but found " ++ mark t.source
  | expectedBrace => bytes "Expected '\x7b'"
  | unclosedBrace => bytes "Expected '\x7d' to close block"
  | expectedExpression => bytes "Expected expression"
  | intRange lexeme => bytes "integer literal " ++ lexeme ++ bytes " out of range"
  | floatForm lexeme => bytes "invalid float literal " ++ lexeme
  | keywordInExpression word => bytes "unexpected keyword " ++ mark word ++ bytes " in expression"
  | unclosedParen => bytes "Expected ')' after expression"
  | tokenInExpression t => bytes "unexpected " ++ mark t.source ++ bytes " in expression"
  | operatorInExpression symbol =>
    bytes "unexpected operator " ++ mark symbol ++ bytes " in expression"
  | callSeparator name => bytes "Expected ',' or ')' in call to " ++ name

end Fault

/-- A refused line and the reason. -/
structure Diagnostic where
  /-- The line. -/
  line : Line
  /-- Why it is refused. -/
  fault : Fault
  deriving DecidableEq, Repr

namespace Diagnostic

/-- The number of the source line on which the refused line begins. -/
def lineNumber (d : Diagnostic) : Int := d.line.first.line

/-- The refused line as script text. -/
def source (d : Diagnostic) : Bytes :=
  List.intercalate (bytes " ") (d.line.tokens.map Token.source)

/-- The text of a diagnostic after its heading. -/
def body (d : Diagnostic) : Bytes :=
  bytes " " ++ d.fault.message ++ bytes "\nOn line: " ++ signedDecimal d.lineNumber ++ bytes ": "
    ++ d.source

/-- The diagnostic as an error message. -/
def message (d : Diagnostic) : Bytes := bytes "Syntax Error:" ++ d.body

/-- The heading of a report, bold and red when it is coloured. -/
def heading (colored : Bool) : Bytes :=
  if colored then bytes "\x1b[31;1mSyntax Error:\x1b[0;22m" else bytes "Syntax Error:"

/-- The diagnostic as it is reported to the user, followed by an empty line. -/
def report (colored : Bool) (d : Diagnostic) : Bytes := heading colored ++ d.body ++ bytes "\n\n"

/-- One message for the diagnostics of a whole program. -/
def summary : List Diagnostic → Bytes
  | [] => []
  | [d] => d.message
  | d :: ds => decimal (ds.length + 1) ++ bytes " syntax errors; first: " ++ d.message

end Diagnostic

end LineScript
