import Mathlib.Algebra.Group.Int.Defs
import LineScript.Proofs.ExpressionReading
import LineScript.Proofs.Numerals
import LineScript.Proofs.Scanning
import LineScript.Proofs.TreeShape

/-!
# Printed expressions read back

An expression is printed in fully parenthesised form. The printed text scans to the tokens of the
expression (`Expr.lexemes`), and these derive the expression again, so that printing and reading
differ in nothing but tokens.
-/

namespace LineScript

/-! ## Words -/

/-- A byte of a name or a numeral. -/
def isWordByte (b : UInt8) : Bool := Bytes.isLetter b || Bytes.isDigit b || b == 0x5f

theorem isWordByte_lt {b : UInt8} (hb : isWordByte b) : b.toNat < 0x80 := by
  simp only [isWordByte, Bytes.isLetter, Bytes.isDigit, Bool.or_eq_true, Bool.and_eq_true,
    decide_eq_true_eq, beq_iff_eq, UInt8.le_iff_toNat_le] at hb
  rcases hb with ((⟨-, h⟩ | ⟨-, h⟩) | ⟨-, h⟩) | rfl
  · exact Nat.lt_of_le_of_lt h (by decide)
  · exact Nat.lt_of_le_of_lt h (by decide)
  · exact Nat.lt_of_le_of_lt h (by decide)
  · decide

theorem byteClass_word {b : UInt8} (hb : isWordByte b) : ByteClass.of b = .ordinary :=
  Text.forall_ascii (P := fun b => isWordByte b → ByteClass.of b = .ordinary) (by decide)
    (isWordByte_lt hb) hb

theorem isWordByte_of_isName {name : Bytes} (h : isName name) : ∀ b ∈ name, isWordByte b := by
  cases name with
  | nil => cases h
  | cons c rest =>
    simp only [isName, Bool.and_eq_true, Bool.or_eq_true, List.all_eq_true] at h
    simp only [List.mem_cons, isWordByte, Bool.or_eq_true]
    grind

/-- No digit begins a name. -/
theorem isDigit_eq_false {b : UInt8} (hb : Bytes.isLetter b || b == 0x5f) :
    Bytes.isDigit b = false := by
  have hword : isWordByte b := by
    simp only [isWordByte, Bool.or_eq_true] at hb ⊢
    exact hb.elim (fun h => .inl (.inl h)) .inr
  exact Text.forall_ascii
    (P := fun b => (Bytes.isLetter b || b == 0x5f) → Bytes.isDigit b = false) (by decide)
    (isWordByte_lt hword) hb

theorem Keyword.text_ne_nil (k : Keyword) : k.text ≠ [] := by cases k <;> decide

theorem Keyword.isLetter_text {k : Keyword} {b : UInt8} (hb : b ∈ k.text) : Bytes.isLetter b := by
  have hall : k.text.all Bytes.isLetter = true := by cases k <;> rfl
  exact List.all_eq_true.mp hall b hb

/-- A word with a byte that is no letter is not reserved. -/
theorem Keyword.ofText?_eq_none {w : Bytes} {b : UInt8} (hb : b ∈ w)
    (hletter : Bytes.isLetter b = false) : Keyword.ofText? w = none := by
  cases h : Keyword.ofText? w with
  | none => rfl
  | some k =>
    have htext := Keyword.text_of_ofText? h
    rw [Keyword.isLetter_text (htext ▸ hb)] at hletter
    cases hletter

theorem wordKind_digits {w : Bytes} (hne : w ≠ []) (hw : ∀ b ∈ w, Bytes.isDigit b) :
    wordKind w = .int := by
  have hkeyword : Keyword.ofText? w = none := by
    obtain ⟨b, hb⟩ := List.exists_mem_of_ne_nil _ hne
    refine Keyword.ofText?_eq_none hb ?_
    cases hletter : Bytes.isLetter b with
    | false => rfl
    | true =>
      have hdigit := isDigit_eq_false (b := b) (by simp [hletter])
      rw [hw b hb] at hdigit
      cases hdigit
  have hdigits : w.all Bytes.isDigit = true := List.all_eq_true.mpr hw
  simp [wordKind, hkeyword, hdigits]

theorem wordKind_decimal (n : Nat) : wordKind (decimal n) = .int :=
  wordKind_digits (decimal_ne_nil n) fun _ hb => isDigit_of_mem_decimal hb

theorem wordKind_name {name : Bytes} (h : isName name) (hk : Keyword.ofText? name = none) :
    wordKind name = .identifier := by
  cases name with
  | nil => cases h
  | cons b rest =>
    -- the first byte is no digit
    have hb : Bytes.isDigit b = false := by
      simp only [isName, Bool.and_eq_true] at h
      exact isDigit_eq_false h.1
    have hfloat : isFloatWord (b :: rest) = false := by
      unfold isFloatWord
      split
      · simp [List.takeWhile, hb]
      · rfl
    simp [wordKind, hk, hb, hfloat]

theorem wordKind_keyword (k : Keyword) : wordKind k.text = .keyword := by
  simp [wordKind, Keyword.ofText?_text]

/-! ## The tokens of an expression -/

/-- The lexemes of an integer: a minus sign is a token of its own. -/
def signedLexemes : Int → List (Kind × Bytes)
  | .ofNat n => [(.int, decimal n)]
  | .negSucc n => [(.operator, BinOp.sub.symbol), (.int, decimal (n + 1))]

namespace Expr

mutual

/-- Is an expression read back from its printed form? Floating-point literals are left out, the
least integer has no literal, texts must consist of shown bytes, and names must not be reserved. -/
def readable : Expr → Bool
  | .int _ value => -(2 ^ 63) < value.toInt
  | .float _ _ => false
  | .text _ value => value.all Text.isShown
  | .bool _ _ => true
  | .var _ name => isName name && (Keyword.ofText? name).isNone
  | .binary _ left _ right => left.readable && right.readable
  | .call _ name args => isName name && (Keyword.ofText? name).isNone && readableAll args

/-- Are several expressions read back from their printed forms? -/
def readableAll : List Expr → Bool
  | [] => true
  | e :: es => e.readable && readableAll es

end

mutual

/-- The lexemes of the printed form of an expression. -/
def lexemes : Expr → List (Kind × Bytes)
  | .int _ value => signedLexemes value.toInt
  | .float _ value => [(.float, value.text)]
  | .text _ value => [(.string, value)]
  | .bool _ value => [(.keyword, (if value then Keyword.adevarat else Keyword.fals).text)]
  | .var _ name => [(.identifier, name)]
  | .binary _ left op right =>
    [(.lparen, bytes "(")] ++ left.lexemes ++ [(.operator, op.symbol)] ++ right.lexemes
      ++ [(.rparen, bytes ")")]
  | .call _ name args =>
    [(.identifier, name)] ++ [(.lparen, bytes "(")] ++ argumentLexemes args
      ++ [(.rparen, bytes ")")]

/-- The lexemes of the arguments of a call. -/
def argumentLexemes : List Expr → List (Kind × Bytes)
  | [] => []
  | [e] => e.lexemes
  | e :: e' :: es => e.lexemes ++ [(.comma, bytes ",")] ++ argumentLexemes (e' :: es)

end

end Expr

/-! ## The printed form scans to these tokens -/

/-- The bytes that follow operands in printed expressions. -/
def FollowsOperand (b : UInt8) : Prop := b = 0x20 ∨ b = 0x29 ∨ b = 0x2c

namespace Scans

theorem lparen : Scans (bytes "(") [(.lparen, bytes "(")] fun _ => True :=
  (separator (c := 0x28) rfl).mono fun b _ => by simp [makesOperator]

theorem rparen : Scans (bytes ")") [(.rparen, bytes ")")] fun _ => True :=
  (separator (c := 0x29) rfl).mono fun b _ => by simp [makesOperator]

theorem comma : Scans (bytes ",") [(.comma, bytes ",")] fun _ => True :=
  (separator (c := 0x2c) rfl).mono fun b _ => by simp [makesOperator]

/-- A blank may be put wherever a text ends. -/
theorem append_blank {text : Bytes} {ts : List (Kind × Bytes)} {next : UInt8 → Prop}
    (h : Scans text ts next) (hnext : next 0x20) : Scans (text ++ bytes " ") ts fun _ => True := by
  have hscans := h.append blank (by rintro b ⟨⟩; exact hnext)
  rwa [List.append_nil] at hscans

/-- Every operator stands alone before a blank. -/
theorem symbol (op : BinOp) : Scans op.symbol [(.operator, op.symbol)] fun b => b = 0x20 := by
  have hone : ∀ {c : UInt8}, ByteClass.of c = .separator → separatorKind c = .operator →
      Scans [c] [(.operator, [c])] fun b => b = 0x20 := by
    intro c hc hkind
    rw [← hkind]
    refine (separator hc).mono fun b hb => ?_
    have hblank : c ≠ 0x20 := by
      rintro rfl
      cases hc
    simp [makesOperator, hb, hblank]
  cases op with
  | eq | ne | le | ge => exact (operator rfl rfl).mono fun _ _ => trivial
  | lt | gt | add | sub | mul | div | mod => exact hone rfl rfl

/-- A word of letters, digits and underscores. -/
theorem ofWord {w : Bytes} (hne : w ≠ []) (hw : ∀ b ∈ w, isWordByte b) :
    Scans w [(wordKind w, w)] fun b => FollowsOperand b ∨ b = 0x28 := by
  refine (word hne fun b hb => byteClass_word (hw b hb)).mono fun b hb => ?_
  rcases hb with (rfl | rfl | rfl) | rfl <;> decide

/-- A negative integer scans to a minus sign and its digits. -/
theorem ofInt (i : Int) : Scans (signedDecimal i) (signedLexemes i) FollowsOperand := by
  have hnat : ∀ n, Scans (decimal n) [(.int, decimal n)] FollowsOperand := by
    intro n
    have hword : ∀ b ∈ decimal n, isWordByte b := by
      intro b hb
      simp [isWordByte, isDigit_of_mem_decimal hb]
    have hscans := ofWord (decimal_ne_nil n) hword
    rw [wordKind_decimal] at hscans
    exact hscans.mono fun b hb => .inl hb
  cases i with
  | ofNat n => exact hnat n
  | negSucc n =>
    -- a second minus sign would make an operator, but a digit follows
    have hminus : Scans [0x2d] [(.operator, [0x2d])] fun b => Bytes.isDigit b :=
      (separator (c := 0x2d) rfl).mono fun b hb => by
        rw [isDigit_iff] at hb
        have h1 : b ≠ 0x3d := by rintro rfl; simp at hb
        have h2 : b ≠ 0x2d := by rintro rfl; simp at hb
        simp [makesOperator, h1, Ne.symm h2]
    exact hminus.append (hnat (n + 1)) fun b hb =>
      isDigit_of_mem_decimal (List.mem_of_mem_head? hb)

theorem ofName {name : Bytes} (h : isName name) (hk : Keyword.ofText? name = none) :
    Scans name [(.identifier, name)] fun b => FollowsOperand b ∨ b = 0x28 := by
  have hne : name ≠ [] := by
    rintro rfl
    cases h
  have hscans := ofWord hne (isWordByte_of_isName h)
  rwa [wordKind_name h hk] at hscans

theorem ofKeyword (k : Keyword) : Scans k.text [(.keyword, k.text)] FollowsOperand := by
  have hword : ∀ b ∈ k.text, isWordByte b := by
    intro b hb
    simp [isWordByte, Keyword.isLetter_text hb]
  have hscans := ofWord k.text_ne_nil hword
  rw [wordKind_keyword] at hscans
  exact hscans.mono fun b hb => .inl hb

end Scans

namespace Expr

mutual

/-- The printed form of an expression scans to its lexemes. -/
theorem print_scans : ∀ e : Expr, e.readable → Scans e.print e.lexemes FollowsOperand
  | .int _ value, _ => by
    simp only [print, lexemes]
    exact .ofInt value.toInt
  | .float _ _, h => by simp [readable] at h
  | .text _ value, h => by
    simp only [readable, List.all_eq_true] at h
    simp only [print, lexemes]
    exact (Scans.quoted h).mono fun _ _ => trivial
  | .bool _ value, _ => by
    simp only [print, lexemes]
    exact .ofKeyword _
  | .var _ name, h => by
    simp only [readable, Bool.and_eq_true, Option.isNone_iff_eq_none] at h
    simp only [print, lexemes]
    exact (Scans.ofName h.1 h.2).mono fun b hb => .inl hb
  | .binary _ left op right, h => by
    simp only [readable, Bool.and_eq_true] at h
    have hleft := print_scans left h.1
    have hright := print_scans right h.2
    simp only [print, lexemes]
    have hfront := (Scans.lparen.append hleft fun _ _ => trivial).append_blank (.inl rfl)
    have hmiddle := (hfront.append (.symbol op) fun _ _ => trivial).append_blank rfl
    have hback := hmiddle.append hright fun _ _ => trivial
    have hall := hback.append .rparen (by rintro b ⟨⟩; exact .inr (.inl rfl))
    exact hall.mono fun _ _ => trivial
  | .call _ name args, h => by
    simp only [readable, Bool.and_eq_true, Option.isNone_iff_eq_none] at h
    obtain ⟨⟨hname, hreserved⟩, hargs⟩ := h
    simp only [print, lexemes]
    have hopen := (Scans.ofName hname hreserved).append .lparen (by rintro b ⟨⟩; exact .inr rfl)
    cases args with
    | nil =>
      have hall := hopen.append .rparen fun _ _ => trivial
      simp only [printAll, argumentLexemes, List.intercalate_nil, List.append_nil]
      exact hall.mono fun _ _ => trivial
    | cons e es =>
      have hmiddle := hopen.append (arguments_scan (e :: es) nofun hargs) fun _ _ => trivial
      have hall := hmiddle.append .rparen (by rintro b ⟨⟩; exact .inr (.inl rfl))
      exact hall.mono fun _ _ => trivial

/-- So do the printed forms of arguments. -/
theorem arguments_scan : ∀ args : List Expr, args ≠ [] → readableAll args →
    Scans (List.intercalate (bytes ", ") (printAll args)) (argumentLexemes args) FollowsOperand
  | [], hne, _ => absurd rfl hne
  | [e], _, h => by
    simp only [readableAll, Bool.and_true] at h
    have he := print_scans e h
    simpa [printAll, argumentLexemes, List.intercalate] using he
  | e :: e' :: es, _, h => by
    rw [readableAll, Bool.and_eq_true] at h
    have he := print_scans e h.1
    have hrest := arguments_scan (e' :: es) nofun h.2
    have hcomma := (he.append .comma (by rintro b ⟨⟩; exact .inr (.inr rfl))).append_blank trivial
    have hall := hcomma.append hrest fun _ _ => trivial
    have hsep : bytes ", " = bytes "," ++ bytes " " := rfl
    have htext : List.intercalate (bytes ", ") (printAll (e :: e' :: es)) =
        e.print ++ bytes "," ++ bytes " " ++
          List.intercalate (bytes ", ") (printAll (e' :: es)) := by
      simp [printAll, List.intercalate, hsep]
    rw [htext, argumentLexemes]
    exact hall

end

/-! ## The tokens derive the expression -/

open Grammar

/-- The lexemes of an integer derive its literal. -/
theorem signedLexemes_derive (line : Int) {value : Int64} (h : -(2 ^ 63) < value.toInt) :
    ∃ t, Operand ((signedLexemes value.toInt).map (Token.ofLexeme line)) (.int t value) := by
  have hlt := value.toInt_lt
  have hvalue : Int64.ofInt value.toInt = value := Int64.ofInt_toInt value
  cases hi : value.toInt with
  | ofNat n =>
    rw [hi] at h hlt hvalue
    have hn : n < 2 ^ 63 := by
      have : (Int.ofNat n) = (n : Int) := rfl
      omega
    exact ⟨_, .int rfl (hvalue ▸ Numeral.readInt_decimal hn)⟩
  | negSucc n =>
    rw [hi] at h hlt hvalue
    have hn : n + 1 < 2 ^ 63 := by omega
    have hneg : -Int64.ofInt ((n + 1 : Nat) : Int) = value := by
      rw [← Int64.ofInt_neg]
      exact hvalue
    have hliteral : Operand [Token.ofLexeme line (.int, decimal (n + 1))] (.int _ _) :=
      .int rfl (Numeral.readInt_decimal hn)
    have hminus := Operand.minus (t := Token.ofLexeme line (.operator, BinOp.sub.symbol))
      (Token.isOperator_iff.mpr ⟨rfl, rfl⟩) hliteral
    rw [negate, hneg] at hminus
    exact ⟨_, hminus⟩

mutual

/-- The lexemes of an expression derive it again, up to tokens. -/
theorem lexemes_derive (line : Int) : ∀ e : Expr, e.readable →
    ∃ e', Operand (e.lexemes.map (Token.ofLexeme line)) e' ∧ e'.bare = e.bare
  | .int _ value, h => by
    simp only [readable, decide_eq_true_eq] at h
    obtain ⟨t, ht⟩ := signedLexemes_derive line h
    exact ⟨_, by simpa only [lexemes] using ht, by simp only [bare]⟩
  | .float _ _, h => by simp [readable] at h
  | .text _ value, _ => by
    exact ⟨_, by simpa only [lexemes] using .text rfl, by simp only [bare, Token.ofLexeme]⟩
  | .bool _ value, _ => by
    simp only [lexemes]
    cases value with
    | true => exact ⟨_, .true (Token.isKeyword_iff.mpr ⟨rfl, rfl⟩), by simp only [bare]⟩
    | false => exact ⟨_, .false (Token.isKeyword_iff.mpr ⟨rfl, rfl⟩), by simp only [bare]⟩
  | .var _ name, h => by
    simp only [readable, Bool.and_eq_true] at h
    simp only [lexemes]
    exact ⟨_, .var (isNameToken_iff.mpr ⟨rfl, h.1⟩), by simp only [bare, Token.ofLexeme]⟩
  | .binary _ left op right, h => by
    simp only [readable, Bool.and_eq_true] at h
    obtain ⟨l, hl, hleft⟩ := lexemes_derive line left h.1
    obtain ⟨r, hr, hright⟩ := lexemes_derive line right h.2
    have hstrength := BinOp.strength_lt op
    have hoperator : (Token.ofLexeme line (.operator, op.symbol)).isOperator op.symbol :=
      Token.isOperator_iff.mpr ⟨rfl, rfl⟩
    have hinner := (Layer.fold ((Layer.operand hl).lower (by omega)) hoperator rfl
      ((Layer.operand hr).lower (by omega))).lower (Nat.zero_le op.strength)
    have hparen := Operand.paren (l := Token.ofLexeme line (.lparen, bytes "("))
      (r := Token.ofLexeme line (.rparen, bytes ")")) rfl hinner rfl
    refine ⟨_, by simpa [lexemes] using hparen, ?_⟩
    simp only [bare, hleft, hright]
  | .call _ name args, h => by
    simp only [readable, Bool.and_eq_true] at h
    obtain ⟨args', hargs, hbare⟩ := argumentLexemes_derive line args h.2
    have hname : isNameToken (Token.ofLexeme line (.identifier, name)) :=
      isNameToken_iff.mpr ⟨rfl, h.1.1⟩
    have hcall := Operand.call (l := Token.ofLexeme line (.lparen, bytes "("))
      (r := Token.ofLexeme line (.rparen, bytes ")")) hname rfl hargs rfl
    refine ⟨_, by simpa [lexemes] using hcall, ?_⟩
    simp only [bare, hbare, Token.ofLexeme]

/-- The lexemes of arguments derive them again. -/
theorem argumentLexemes_derive (line : Int) : ∀ args : List Expr, readableAll args →
    ∃ args', Arguments ((argumentLexemes args).map (Token.ofLexeme line)) args' ∧
      bareAll args' = bareAll args
  | [], _ => ⟨[], by simpa only [argumentLexemes] using .none, rfl⟩
  | [e], h => by
    simp only [readableAll, Bool.and_true] at h
    obtain ⟨e', he, hbare⟩ := lexemes_derive line e h
    refine ⟨[e'], ?_, by simp only [bareAll, hbare]⟩
    rw [argumentLexemes]
    exact .last ((Layer.operand he).lower (Nat.zero_le 3))
  | e :: e' :: es, h => by
    rw [readableAll, Bool.and_eq_true] at h
    obtain ⟨d, hd, hbare⟩ := lexemes_derive line e h.1
    obtain ⟨ds, hds, hbares⟩ := argumentLexemes_derive line (e' :: es) h.2
    -- the remaining arguments are not empty, since they are as many as the ones printed
    cases ds with
    | nil => simp [bareAll] at hbares
    | cons d' ds =>
      have hmore := Arguments.more (c := Token.ofLexeme line (.comma, bytes ","))
        ((Layer.operand hd).lower (Nat.zero_le 3)) rfl hds
      refine ⟨_, by simpa [argumentLexemes] using hmore, ?_⟩
      rw [bareAll, hbares, hbare]
      rfl

end

end Expr

/-- Printing and reading an expression again changes nothing but its tokens: the printed text has no
open string literal, and its tokens are a full expression of the same shape. -/
theorem fullExpression_tokenize_print (e : Expr) (h : e.readable) :
    (tokenize e.print).unterminated = none ∧
      ∃ e', fullExpression (tokenize e.print).tokens = .ok e' ∧ e'.bare = e.bare := by
  rw [(e.print_scans h).tokenize]
  obtain ⟨e', he, hbare⟩ := e.lexemes_derive 1 h
  exact ⟨rfl, e', fullExpression_eq_ok_iff.mpr ((Grammar.Layer.operand he).lower (Nat.zero_le 3)),
    hbare⟩

/-- A call with a negative and a quoted argument, compared with a remainder. -/
theorem fullExpression_tokenize_print_comparison :
    let e : Expr := .binary default
      (.call default (bytes "f") [.int default (-7), .text default (bytes "a\"\n")]) .le
      (.binary default (.var default (bytes "x")) .mod (.bool default true))
    e.readable ∧ (tokenize e.print).unterminated = none ∧
      ∃ e', fullExpression (tokenize e.print).tokens = .ok e' ∧ e'.bare = e.bare := by
  intro e
  have he : e.readable := by decide
  exact ⟨he, fullExpression_tokenize_print e he⟩

end LineScript
