import LineScript.Proofs.GlyphDecoding
import LineScript.Proofs.SourceLayout

/-!
# Rendered tokens read back

A token is rendered as script text (`Token.source`): a string literal is quoted again, every other
token is its lexeme. Quoting knows more escapes than scanners do. An escape that a scanner does not
know is read without its backslash, so a glyph for which quoting has no other form comes back as
letters and digits (`Text.reread`). What is rendered is one token of the same kind in any case; its
lexeme comes back if and only if all glyphs of a literal are legible: printable, or a newline or a
tab.
-/

namespace LineScript

namespace Text

/-! ## Glyphs in literals -/

/-- The glyphs that a quoted text shows, or writes with an escape that scanners know. -/
def isLegible : Glyph → Bool
  | .char c => isPrintable c || c == '\n' || c == '\t'
  | .stray _ => false

/-- What is read back from a glyph of a quoted text. -/
def rereadGlyph (g : Glyph) : Bytes := if isLegible g then g.bytes else (escaped 0x22 g).tail

/-- What is read back from a quoted text. -/
def reread (text : Bytes) : Bytes := (Glyph.decode text).flatMap rereadGlyph

/-- The letters of escapes that scanners do not know. -/
def strangeLetters : Bytes := bytes "abfrvxuU"

/-- The bytes that stand for themselves in a literal and do not end a line. -/
def isPlain (b : UInt8) : Bool := b != 0x22 && b != 0x5c && b != 0x0d && b != 0x0a

/-- An escape that scanners do not know: a backslash, a letter and plain bytes. -/
def isStrange (body : Bytes) : Bool :=
  strangeLetters.any (fun c => body == 0x5c :: c :: body.drop 2) && (body.drop 2).all isPlain

theorem isStrange_iff {body : Bytes} :
    isStrange body ↔
      ∃ c ∈ strangeLetters, ∃ digits, body = 0x5c :: c :: digits ∧ digits.all isPlain := by
  simp only [isStrange, Bool.and_eq_true, List.any_eq_true, beq_iff_eq]
  constructor
  · rintro ⟨⟨c, hc, hbody⟩, hplain⟩
    exact ⟨c, hc, body.drop 2, hbody, hplain⟩
  · rintro ⟨c, hc, digits, rfl, hplain⟩
    exact ⟨⟨c, hc, rfl⟩, hplain⟩

theorem of_mem_strangeLetters {c : UInt8} (hc : c ∈ strangeLetters) :
    c.toNat < 0x80 ∧ c ≠ 0x0a ∧ isShown c ∧ Scanner.unescape c = c := by
  have hall : strangeLetters.all fun c =>
      c.toNat < 0x80 ∧ c ≠ 0x0a ∧ isShown c ∧ Scanner.unescape c = c := by decide
  exact of_decide_eq_true (List.all_eq_true.mp hall c hc)

theorem isPlain_hexadecimal (width n : Nat) : (hexadecimal width n).all isPlain := by
  have hdigit : ∀ d < 16, isPlain (digit d) := by decide
  induction width generalizing n with
  | zero => rfl
  | succ width ih =>
    rw [hexadecimal, List.all_append, ih, List.all_cons, hdigit _ (Nat.mod_lt _ (by decide))]
    rfl

theorem isStrange_hexadecimal {c : UInt8} (hc : c ∈ strangeLetters) (width n : Nat) :
    isStrange (0x5c :: c :: hexadecimal width n) :=
  isStrange_iff.mpr ⟨c, hc, _, rfl, isPlain_hexadecimal width n⟩

/-- A glyph is a stray byte, a character of ASCII, which has one byte, or a character above. -/
theorem glyph_cases {P : Glyph → Prop} (stray : ∀ b, P (.stray b))
    (ascii : ∀ b : UInt8, b.toNat < 0x80 → P (.char (Char.ofNat b.toNat)))
    (above : ∀ c : Char, 0x80 ≤ c.toNat → P (.char c)) (g : Glyph) : P g := by
  cases g with
  | stray b => exact stray b
  | char c =>
    by_cases hc : c.toNat < 0x80
    · have hb : (UInt8.ofNat c.toNat).toNat = c.toNat := by
        rw [UInt8.toNat_ofNat']
        omega
      have hascii := ascii (UInt8.ofNat c.toNat) (by omega)
      rwa [hb, Char.ofNat_toNat] at hascii
    · exact above c (Nat.le_of_not_lt hc)

/-! ### Characters of ASCII -/

theorem isLegible_ascii {b : UInt8} (hb : b.toNat < 0x80) :
    isLegible (.char (Char.ofNat b.toNat)) = isShown b :=
  forall_ascii (P := fun b => isLegible (.char (Char.ofNat b.toNat)) = isShown b) (by decide) hb

theorem isStrange_ascii {b : UInt8} (hb : b.toNat < 0x80) (hshown : isShown b = false) :
    isStrange (escaped 0x22 (.char (Char.ofNat b.toNat))) :=
  forall_ascii
    (P := fun b => isShown b = false → isStrange (escaped 0x22 (.char (Char.ofNat b.toNat))))
    (by decide) hb hshown

/-! ### Characters above -/

/-- No byte of a character beyond ASCII is a byte of ASCII. -/
theorem le_of_mem_bytes {c : Char} (hc : 0x80 ≤ c.toNat) {b : UInt8}
    (hb : b ∈ (Glyph.char c).bytes) : 0x80 ≤ b.toNat := by
  have hhigh : ∀ m, 0x80 ≤ m → m < 0x100 → 0x80 ≤ (UInt8.ofNat m).toNat := by
    intro m hlow hlt
    rw [UInt8.toNat_ofNat']
    omega
  have hval : c.val.toNat = c.toNat := rfl
  simp only [Glyph.bytes, String.utf8EncodeChar, hval] at hb
  rw [if_neg (by omega)] at hb
  by_cases htwo : c.toNat ≤ 0x7ff
  · rw [if_pos htwo] at hb
    simp only [List.mem_cons, List.not_mem_nil, or_false] at hb
    rcases hb with rfl | rfl <;> exact hhigh _ (by omega) (by omega)
  rw [if_neg htwo] at hb
  by_cases hthree : c.toNat ≤ 0xffff
  · rw [if_pos hthree] at hb
    simp only [List.mem_cons, List.not_mem_nil, or_false] at hb
    rcases hb with rfl | rfl | rfl <;> exact hhigh _ (by omega) (by omega)
  · rw [if_neg hthree] at hb
    simp only [List.mem_cons, List.not_mem_nil, or_false] at hb
    rcases hb with rfl | rfl | rfl | rfl <;> exact hhigh _ (by omega) (by omega)

theorem isLegible_above {c : Char} (hc : 0x80 ≤ c.toNat) : isLegible (.char c) = isPrintable c := by
  have hne : ∀ d : Char, d.toNat < 0x80 → (c == d) = false := by
    intro d hd
    refine beq_eq_false_iff_ne.mpr ?_
    rintro rfl
    omega
  rw [isLegible, hne '\n' (by decide), hne '\t' (by decide), Bool.or_false, Bool.or_false]

theorem escaped_above {c : Char} (hc : 0x80 ≤ c.toNat) :
    escaped 0x22 (.char c) =
      if isPrintable c then (Glyph.char c).bytes
      else if c.toNat < 0x10000 then 0x5c :: 0x75 :: hexadecimal 4 c.toNat
      else 0x5c :: 0x55 :: hexadecimal 8 c.toNat := by
  have hmark : (c.toNat = (0x22 : UInt8).toNat || c.toNat = 0x5c) = false := by
    have hquote : (0x22 : UInt8).toNat = 0x22 := rfl
    simp only [hquote, Bool.or_eq_false_iff, decide_eq_false_iff_not]
    omega
  have hshort : shortEscape? c.toNat = none := by
    unfold shortEscape?
    repeat rw [if_neg (by omega)]
  have hlower : bytes "\\u" = [0x5c, 0x75] := by decide
  have hupper : bytes "\\U" = [0x5c, 0x55] := by decide
  simp only [escaped, hmark, hshort, hlower, hupper, if_neg (Nat.not_lt.mpr hc)]
  rfl

/-! ### Reading back -/

/-- A glyph that is not legible is written with an escape that scanners do not know. -/
theorem isStrange_of_illegible {g : Glyph} (hg : isLegible g = false) :
    isStrange (escaped 0x22 g) := by
  induction g using glyph_cases with
  | stray b => exact isStrange_hexadecimal (by decide) 2 b.toNat
  | ascii b hb =>
    rw [isLegible_ascii hb] at hg
    exact isStrange_ascii hb hg
  | above c hc =>
    rw [isLegible_above hc] at hg
    rw [escaped_above hc, hg]
    by_cases hsmall : c.toNat < 0x10000
    · rw [if_pos hsmall]
      exact isStrange_hexadecimal (by decide) 4 c.toNat
    · rw [if_neg hsmall]
      exact isStrange_hexadecimal (by decide) 8 c.toNat

theorem readsAs_plain {text : Bytes} (h : ∀ b ∈ text, isPlain b) : ReadsAs text text := by
  have hbytes : ReadsAs (text.flatMap fun b => [b]) (text.flatMap fun b => [b]) := by
    refine .flatMap fun b hb => ?_
    have hplain := h b hb
    simp only [isPlain, Bool.and_eq_true, bne_iff_ne] at hplain
    obtain ⟨⟨⟨hquote, hslash⟩, hreturn⟩, hnewline⟩ := hplain
    exact .byte hquote hslash hreturn hnewline
  rwa [List.flatMap_singleton'] at hbytes

/-- Of a strange escape the backslash is lost. -/
theorem readsAs_strange {body : Bytes} (h : isStrange body) : ReadsAs body body.tail := by
  obtain ⟨c, hc, digits, rfl, hplain⟩ := isStrange_iff.mp h
  obtain ⟨-, hnewline, -, hself⟩ := of_mem_strangeLetters hc
  have hletter : ReadsAs [0x5c, c] [c] := by
    have hescape := ReadsAs.escape hnewline
    rwa [hself] at hescape
  exact hletter.append (readsAs_plain (List.all_eq_true.mp hplain))

/-- A legible glyph is read back from its escaped form. Of the escaped form of any other only the
backslash is lost. -/
theorem readsAs_escaped (g : Glyph) : ReadsAs (escaped 0x22 g) (rereadGlyph g) := by
  unfold rereadGlyph
  by_cases hg : isLegible g = true
  · rw [if_pos hg]
    induction g using glyph_cases with
    | stray b => cases hg
    | ascii b hb =>
      rw [isLegible_ascii hb] at hg
      rw [escaped_shown hg, Glyph.bytes, Glyph.encode_one hb]
      exact .escapeByte hg
    | above c hc =>
      rw [isLegible_above hc] at hg
      rw [escaped_above hc, if_pos hg]
      refine readsAs_plain fun b hb => ?_
      have hhigh := le_of_mem_bytes hc hb
      have hne : ∀ d : UInt8, d.toNat < 0x80 → b ≠ d := by
        rintro d hd rfl
        omega
      simp [isPlain, hne]
  · rw [if_neg hg]
    exact readsAs_strange (isStrange_of_illegible (Bool.eq_false_iff.mpr hg))

/-- What comes back from a glyph that is not legible begins with another byte than the glyph. -/
theorem rereadGlyph_of_illegible {g : Glyph} (hg : isLegible g = false)
    (hstray : ∀ b, g = .stray b → 0x80 ≤ b.toNat) :
    ∃ c rest b rest', rereadGlyph g = c :: rest ∧ g.bytes = b :: rest' ∧ c ≠ b := by
  obtain ⟨c, hc, digits, hescaped, -⟩ := isStrange_iff.mp (isStrange_of_illegible hg)
  have hreread : rereadGlyph g = c :: digits := by
    rw [rereadGlyph, hg, hescaped]
    rfl
  obtain ⟨hletter, -, hshown, -⟩ := of_mem_strangeLetters hc
  induction g using glyph_cases with
  | stray b =>
    refine ⟨c, digits, b, [], hreread, rfl, ?_⟩
    rintro rfl
    have hhigh := hstray c rfl
    omega
  | ascii b hb =>
    rw [isLegible_ascii hb] at hg
    refine ⟨c, digits, b, [], hreread, Glyph.encode_one hb, ?_⟩
    rintro rfl
    rw [hg] at hshown
    cases hshown
  | above d hd =>
    have hne : (Glyph.char d).bytes ≠ [] := List.ne_nil_of_length_pos (by
      rw [Glyph.bytes, String.length_utf8EncodeChar]
      exact d.utf8Size_pos)
    obtain ⟨b, rest, hbytes⟩ := List.exists_cons_of_ne_nil hne
    refine ⟨c, digits, b, rest, hreread, hbytes, ?_⟩
    rintro rfl
    have hhigh := le_of_mem_bytes hd (hbytes ▸ List.mem_cons_self)
    omega

theorem flatMap_rereadGlyph_eq_iff {gs : List Glyph}
    (hstray : ∀ b, .stray b ∈ gs → 0x80 ≤ b.toNat) :
    gs.flatMap rereadGlyph = gs.flatMap Glyph.bytes ↔ ∀ g ∈ gs, isLegible g := by
  induction gs with
  | nil => simp
  | cons g gs ih =>
    have hrest := ih fun b hb => hstray b (List.mem_cons_of_mem g hb)
    rw [List.flatMap_cons, List.flatMap_cons, List.forall_mem_cons]
    by_cases hg : isLegible g = true
    · have hsame : rereadGlyph g = g.bytes := if_pos hg
      rw [hsame, List.append_cancel_left_eq, hrest]
      exact (and_iff_right hg).symm
    · -- the first glyph that does not come back shows
      have hglyph := Bool.eq_false_iff.mpr hg
      obtain ⟨c, rest, b, rest', hreread, hbytes, hne⟩ := rereadGlyph_of_illegible hglyph
        fun b hb => hstray b (hb ▸ List.mem_cons_self)
      rw [hreread, hbytes]
      refine iff_of_false (fun heq => ?_) fun hall => hg hall.1
      exact hne (List.cons.inj heq).1

/-- A text comes back if and only if all its glyphs are legible. -/
theorem reread_eq_iff (text : Bytes) :
    reread text = text ↔ ∀ g ∈ Glyph.decode text, isLegible g := by
  have hiff := @flatMap_rereadGlyph_eq_iff (Glyph.decode text) fun b hb =>
    Glyph.le_of_stray_mem_decode hb
  rwa [Glyph.flatMap_bytes_decode] at hiff

/-- A quoted text is a string literal of what is read back. -/
theorem scans_quoted (text : Bytes) : Scans (quoted text) [(.string, reread text)] fun _ => True :=
  .literal (.flatMap fun g _ => readsAs_escaped g)

end Text

/-! ## Tokens -/

/-- The lexeme that is read back from a rendered token. -/
def Token.reread (t : Token) : Bytes :=
  if t.kind = .string then Text.reread t.lexeme else t.lexeme

theorem TokenText.scans {kind : Kind} {lexeme text : Bytes} (h : TokenText kind lexeme text)
    (hkind : kind ≠ .string) : ∃ next, Scans lexeme [(kind, lexeme)] next := by
  cases h with
  | @word first rest hfirst hrest =>
    refine ⟨_, Scans.word (List.cons_ne_nil _ _) fun b hb => ?_⟩
    rcases List.mem_cons.mp hb with rfl | hb
    · exact hfirst
    · obtain ⟨hmem, hne⟩ := List.mem_filter.mp hb
      exact (hrest b hmem).resolve_right (of_decide_eq_true hne)
  | separator hc => exact ⟨_, .separator hc⟩
  | operator hc hcd => exact ⟨_, .operator hc hcd⟩
  | literal => exact absurd rfl hkind

/-- A token of a source is rendered as a text that is one token of the same kind. Its lexeme comes
back if and only if it is no string literal or all glyphs of its text are legible. -/
theorem tokenize_token_source {source : Bytes} (h : (tokenize source).unterminated = none)
    {t : Token} (ht : t ∈ (tokenize source).tokens) :
    tokenize t.source = ⟨[⟨t.kind, t.reread, 1⟩], [1], none⟩ ∧
      (t.reread = t.lexeme ↔
        (t.kind = .string → ∀ g ∈ Glyph.decode t.lexeme, Text.isLegible g)) := by
  by_cases hkind : t.kind = .string
  · have hsource : t.source = Text.quoted t.lexeme := if_pos hkind
    have hreread : t.reread = Text.reread t.lexeme := if_pos hkind
    rw [hsource, hreread, hkind]
    refine ⟨(Text.scans_quoted t.lexeme).tokenize, ?_⟩
    rw [Text.reread_eq_iff]
    exact ⟨fun hall _ => hall, fun hall => hall rfl⟩
  · obtain ⟨spots, hlayout, htokens, -⟩ := tokenize_layout h
    rw [← htokens] at ht
    obtain ⟨p, hp, rfl⟩ := List.mem_map.mp ht
    obtain ⟨text, htext⟩ := hlayout.tokenText p hp
    obtain ⟨next, hscans⟩ := htext.scans hkind
    have hsource : p.2.source = p.2.lexeme := if_neg hkind
    have hreread : p.2.reread = p.2.lexeme := if_neg hkind
    rw [hsource, hreread]
    exact ⟨hscans.tokenize, iff_of_true rfl fun hstring => absurd hstring hkind⟩

/-- The text of the literal has a tab, a quote, a bell and a byte that no character begins with. -/
theorem tokenize_token_source_bell :
    let source : Bytes := bytes "x = \"a\\t\\\"" ++ [0x07, 0xff] ++ bytes "\";"
    let t : Token := ⟨.string, bytes "a\t\"" ++ [0x07, 0xff], 1⟩
    (tokenize source).unterminated = none ∧ t ∈ (tokenize source).tokens ∧
      t.source = bytes "\"a\\t\\\"\\a\\xff\"" ∧ t.reread = bytes "a\t\"axff" ∧
      tokenize t.source = ⟨[⟨t.kind, t.reread, 1⟩], [1], none⟩ ∧
      (t.reread = t.lexeme ↔
        (t.kind = .string → ∀ g ∈ Glyph.decode t.lexeme, Text.isLegible g)) := by
  intro source t
  have hnone : (tokenize source).unterminated = none := by decide
  have hmem : t ∈ (tokenize source).tokens := by decide
  exact ⟨hnone, hmem, by decide, by decide, tokenize_token_source hnone hmem⟩

/-- A bell is rendered with an escape that is read as a letter. -/
theorem tokenize_token_source_ne :
    let source : Bytes := [0x22, 0x07, 0x22]
    let t : Token := ⟨.string, [0x07], 1⟩
    tokenize source = ⟨[t], [1], none⟩ ∧ t.source = bytes "\"\\a\"" ∧
      tokenize t.source = ⟨[⟨.string, bytes "a", 1⟩], [1], none⟩ ∧ bytes "a" ≠ t.lexeme := by
  intro source t
  exact ⟨by decide, by decide, by decide, by decide⟩

end LineScript
