import LineScript.Proofs.PhraseShape

/-!
# Reading expressions follows the grammar

Precedence climbing reads exactly the layered grammar. Soundness goes by recursion on the bound that
the readers count down: what a reader takes from the front of a list derives the tree it returns.
Completeness goes by recursion on the derivation, and the bound that it needs is counted in tokens.

The two meet in what may follow an expression. A reader of strength `low` stops before the first
token that cannot carry the expression on (`Ends low`), and a derivation can be read in front of any
list that cannot be taken for a part of it.
-/

namespace LineScript

open Grammar

/-! ## What may follow -/

/-- The list does not go on with an operator of strength `low` or more, nor with an operator that no
expression has. -/
def Ends (low : Nat) (rest : List Token) : Prop :=
  ∀ t ∈ rest.head?, t.kind = .operator →
    ∃ op, BinOp.ofSymbol? t.lexeme = some op ∧ op.strength < low

/-- The list does not go on with an opening parenthesis, which would make a name a call. -/
def NoCall (rest : List Token) : Prop := ∀ t ∈ rest.head?, t.kind ≠ .lparen

theorem ends_nil (low : Nat) : Ends low [] := by simp [Ends]

theorem noCall_nil : NoCall [] := by simp [NoCall]

theorem ends_cons {low : Nat} {t : Token} {rest : List Token} (h : t.kind ≠ .operator) :
    Ends low (t :: rest) := by
  intro u hu hop
  simp only [List.head?_cons, Option.mem_def, Option.some.injEq] at hu
  exact absurd (hu ▸ hop) h

theorem ends_operator {low : Nat} {t : Token} {op : BinOp} {rest : List Token}
    (ht : t.isOperator op.symbol) (hop : op.strength < low) : Ends low (t :: rest) := by
  intro u hu _
  simp only [List.head?_cons, Option.mem_def, Option.some.injEq] at hu
  subst hu
  rw [Token.isOperator_iff] at ht
  exact ⟨op, by rw [ht.2, BinOp.ofSymbol?_symbol], hop⟩

theorem noCall_cons {t : Token} {rest : List Token} (h : t.kind ≠ .lparen) :
    NoCall (t :: rest) := by
  intro u hu
  simp only [List.head?_cons, Option.mem_def, Option.some.injEq] at hu
  exact hu ▸ h

theorem Ends.mono {low high : Nat} {rest : List Token} (h : Ends low rest) (hle : low ≤ high) :
    Ends high rest := by
  intro t ht hop
  obtain ⟨op, hs, hlt⟩ := h t ht hop
  exact ⟨op, hs, by omega⟩

/-- Where an expression ends, folding returns the left operand as it is. -/
theorem climbFrom_of_ends {n low : Nat} {left : Expr} {rest : List Token} (h : Ends low rest) :
    climbFrom (n + 1) low left rest = .ok (left, rest) := by
  cases rest with
  | nil => simp [climbFrom]
  | cons t rest =>
    by_cases hop : t.kind = .operator
    · obtain ⟨op, hs, hlt⟩ := h t (by simp) hop
      simp [climbFrom, hop, hs, hlt]
    · simp [climbFrom, hop]

/-! ## Soundness -/

theorem exceptMap_eq_ok {ε α β : Type} {f : α → β} {x : Except ε α} {b : β} :
    x.map f = .ok b ↔ ∃ a, x = .ok a ∧ f a = b := by
  cases x <;> simp [Except.map]

theorem intLiteral_eq_ok {t : Token} {e : Expr} (h : intLiteral t = .ok e) :
    ∃ value, Numeral.readInt t.lexeme = .ok value ∧ e = .int t value := by
  unfold intLiteral at h
  split at h
  · next value hv => exact ⟨value, hv, (Except.ok.inj h).symm⟩
  · cases h

theorem floatLiteral_eq_ok {t : Token} {e : Expr} (h : floatLiteral t = .ok e) :
    ∃ value, Binary64.read? t.lexeme = some value ∧ e = .float t value := by
  unfold floatLiteral at h
  split at h
  · next value hv => exact ⟨value, hv, (Except.ok.inj h).symm⟩
  · cases h

mutual

/-- What is read with strength `low` derives in layer `low`, and the expression ends there. -/
theorem climb_sound {n low : Nat} {ts rest : List Token} {e : Expr} (hlow : low ≤ 3)
    (h : climb n low ts = .ok (e, rest)) :
    ∃ us, ts = us ++ rest ∧ Layer low us e ∧ Ends low rest := by
  match n with
  | 0 => simp [climb] at h
  | n + 1 =>
    rw [climb] at h
    split at h
    · cases h
    · next left rest' hp =>
      obtain ⟨ls, rfl, hl⟩ := primary_sound hp
      obtain ⟨us, rfl, he, hend⟩ := climbFrom_sound (Layer.operand hl) hlow
        (fun t _ _ op _ => Nat.le_of_lt op.strength_lt) h
      exact ⟨ls ++ us, by simp, he, hend⟩

/-- Folding extends a left operand that is tight enough for the operator after it. -/
theorem climbFrom_sound {n low k : Nat} {ls ts rest : List Token} {left e : Expr}
    (hl : Layer k ls left) (hlow : low ≤ k)
    (hk : ∀ t ∈ ts.head?, t.kind = .operator →
      ∀ op, BinOp.ofSymbol? t.lexeme = some op → op.strength ≤ k)
    (h : climbFrom n low left ts = .ok (e, rest)) :
    ∃ us, ts = us ++ rest ∧ Layer low (ls ++ us) e ∧ Ends low rest := by
  match n, ts with
  | 0, _ => simp [climbFrom] at h
  | n + 1, [] =>
    simp only [climbFrom, Except.ok.injEq, Prod.mk.injEq] at h
    obtain ⟨rfl, rfl⟩ := h
    exact ⟨[], rfl, by simpa using hl.lower hlow, ends_nil low⟩
  | n + 1, t :: ts =>
    rw [climbFrom] at h
    split at h
    · next hop =>
      split at h
      · cases h
      · next op hs =>
        split at h
        · next hlt =>
          simp only [Except.ok.injEq, Prod.mk.injEq] at h
          obtain ⟨rfl, rfl⟩ := h
          refine ⟨[], rfl, by simpa using hl.lower hlow, fun u hu _ => ?_⟩
          simp only [List.head?_cons, Option.mem_def, Option.some.injEq] at hu
          exact ⟨op, hu ▸ hs, hlt⟩
        · next hge =>
          split at h
          · cases h
          · next right rest' hc =>
            have hstr := op.strength_lt
            obtain ⟨rs, rfl, hr, hend⟩ := climb_sound (by omega) hc
            have hsym : t.isOperator op.symbol :=
              Token.isOperator_iff.mpr ⟨hop, (BinOp.symbol_of_ofSymbol? hs).symm⟩
            have hnew : Layer op.strength (ls ++ t :: rs) (.binary t left op right) :=
              Layer.fold (hl.lower (hk t (by simp) hop op hs)) hsym rfl hr
            -- the right operand took all tighter operators, so the next one is not tighter
            obtain ⟨us, rfl, he, hend'⟩ := climbFrom_sound hnew (by omega)
              (fun u hu hu' op' hs' => by
                obtain ⟨op'', hs'', hlt⟩ := hend u hu hu'
                rw [hs'] at hs''
                rw [Option.some.inj hs'']
                omega) h
            exact ⟨t :: rs ++ us, by simp, by simpa using he, hend'⟩
    · next hop =>
      simp only [Except.ok.injEq, Prod.mk.injEq] at h
      obtain ⟨rfl, rfl⟩ := h
      exact ⟨[], rfl, by simpa using hl.lower hlow, ends_cons hop⟩

/-- What is read as an operand derives as one. -/
theorem primary_sound {n : Nat} {ts rest : List Token} {e : Expr}
    (h : primary n ts = .ok (e, rest)) : ∃ us, ts = us ++ rest ∧ Operand us e := by
  match n, ts with
  | 0, _ => simp [primary] at h
  | n + 1, [] => simp [primary] at h
  | n + 1, t :: ts =>
    simp only [primary] at h
    split at h
    · next hk =>
      obtain ⟨e', he', hp⟩ := exceptMap_eq_ok.mp h
      obtain ⟨value, hv, rfl⟩ := intLiteral_eq_ok he'
      obtain ⟨rfl, rfl⟩ := Prod.mk.inj hp
      exact ⟨[t], rfl, .int hk hv⟩
    · next hk =>
      obtain ⟨e', he', hp⟩ := exceptMap_eq_ok.mp h
      obtain ⟨value, hv, rfl⟩ := floatLiteral_eq_ok he'
      obtain ⟨rfl, rfl⟩ := Prod.mk.inj hp
      exact ⟨[t], rfl, .float hk hv⟩
    · next hk =>
      obtain ⟨rfl, rfl⟩ := Prod.mk.inj (Except.ok.inj h)
      exact ⟨[t], rfl, .text hk⟩
    · next hk =>
      split at h
      · next hw =>
        obtain ⟨rfl, rfl⟩ := Prod.mk.inj (Except.ok.inj h)
        exact ⟨[t], rfl, .true (Token.isKeyword_iff.mpr ⟨hk, hw⟩)⟩
      · split at h
        · next hw =>
          obtain ⟨rfl, rfl⟩ := Prod.mk.inj (Except.ok.inj h)
          exact ⟨[t], rfl, .false (Token.isKeyword_iff.mpr ⟨hk, hw⟩)⟩
        · cases h
    · next hk =>
      split at h
      · next hn =>
        have ht : isNameToken t := isNameToken_iff.mpr ⟨hk, hn⟩
        split at h
        · obtain ⟨rfl, rfl⟩ := Prod.mk.inj (Except.ok.inj h)
          exact ⟨[t], rfl, .var ht⟩
        · next p rest' =>
          split at h
          · next hp =>
            split at h
            · cases h
            · next args rest'' ha =>
              obtain ⟨us, r, rfl, has, hr⟩ := arguments_sound ha
              obtain ⟨rfl, rfl⟩ := Prod.mk.inj (Except.ok.inj h)
              exact ⟨t :: p :: us ++ [r], by simp, .call ht hp has hr⟩
          · obtain ⟨rfl, rfl⟩ := Prod.mk.inj (Except.ok.inj h)
            exact ⟨[t], rfl, .var ht⟩
      · cases h
    · next hk =>
      split at h
      · cases h
      · cases h
      · next e' p rest' hc =>
        obtain ⟨us, rfl, he, -⟩ := climb_sound (by omega) hc
        split at h
        · next hp =>
          obtain ⟨rfl, rfl⟩ := Prod.mk.inj (Except.ok.inj h)
          exact ⟨t :: us ++ [p], by simp, .paren hk he hp⟩
        · cases h
    · next hk =>
      split at h
      · next hs =>
        split at h
        · cases h
        · next operand rest' hp =>
          obtain ⟨us, rfl, he⟩ := primary_sound hp
          obtain ⟨rfl, rfl⟩ := Prod.mk.inj (Except.ok.inj h)
          exact ⟨t :: us, rfl, .minus (Token.isOperator_iff.mpr ⟨hk, hs⟩) he⟩
      · cases h
    · cases h

/-- What is read as arguments, with the parenthesis after them, derives as arguments. -/
theorem arguments_sound {n : Nat} {name : Bytes} {ts rest : List Token} {args : List Expr}
    (h : arguments n name ts = .ok (args, rest)) :
    ∃ us r, ts = us ++ r :: rest ∧ Arguments us args ∧ r.kind = .rparen := by
  match n, ts with
  | 0, _ => simp [arguments] at h
  | n + 1, [] => simp [arguments] at h
  | n + 1, t :: ts =>
    rw [arguments] at h
    split at h
    · next ht =>
      simp only [Except.ok.injEq, Prod.mk.injEq] at h
      obtain ⟨rfl, rfl⟩ := h
      exact ⟨[], t, rfl, .none, ht⟩
    · obtain ⟨us, r, a, as, hts, ha, rfl, hr⟩ := moreArguments_sound h
      exact ⟨us, r, hts, ha, hr⟩

/-- What is read as at least one argument derives as at least one argument. -/
theorem moreArguments_sound {n : Nat} {name : Bytes} {ts rest : List Token} {args : List Expr}
    (h : moreArguments n name ts = .ok (args, rest)) :
    ∃ us r a as, ts = us ++ r :: rest ∧ Arguments us args ∧ args = a :: as ∧ r.kind = .rparen := by
  match n with
  | 0 => simp [moreArguments] at h
  | n + 1 =>
    rw [moreArguments] at h
    split at h
    · cases h
    · cases h
    · next e t rest' hc =>
      obtain ⟨es, rfl, he, -⟩ := climb_sound (by omega) hc
      split at h
      · next ht =>
        split at h
        · cases h
        · next args' rest'' hm =>
          obtain ⟨us, r, a, as, rfl, ha, rfl, hr⟩ := moreArguments_sound hm
          simp only [Except.ok.injEq, Prod.mk.injEq] at h
          obtain ⟨rfl, rfl⟩ := h
          exact ⟨es ++ t :: us, r, e, a :: as, by simp, .more he ht ha, rfl, hr⟩
      · split at h
        · next ht =>
          simp only [Except.ok.injEq, Prod.mk.injEq] at h
          obtain ⟨rfl, rfl⟩ := h
          exact ⟨es, t, e, [], rfl, .last he, rfl, ht⟩
        · cases h

end

/-! ## Completeness -/

namespace Grammar

/-- Arguments are read once the reader of at least one argument reads them. -/
theorem Arguments.arguments_eq {ts rest : List Token} {args : List Expr} {n : Nat} {name : Bytes}
    {r : Token} (h : Arguments ts args) (hr : r.kind = .rparen)
    (hmore : args ≠ [] → moreArguments n name (ts ++ r :: rest) = .ok (args, rest)) :
    arguments (n + 1) name (ts ++ r :: rest) = .ok (args, rest) := by
  rcases h.begins with ⟨rfl, rfl⟩ | ⟨hne, t, us, rfl, ht⟩
  · simp [arguments, hr]
  · rw [List.cons_append] at hmore ⊢
    rw [arguments, if_neg ht.not_rparen, hmore hne]

mutual

/-- An expression of layer `k` in front of a list that ends it is read up to there, and folding goes
on from it. Each token costs one step of the bound at most, and two must be there to begin with. -/
theorem Layer.climb_eq {k : Nat} {ts : List Token} {e : Expr} :
    Layer k ts e → ∀ (n low : Nat) (rest : List Token), low ≤ k → 2 * ts.length ≤ n →
      Ends (k + 1) rest → NoCall rest →
      ∃ m, n ≤ m + ts.length ∧ climb n low (ts ++ rest) = climbFrom m low e rest
  | .lift h => by
    intro n low rest hlow hn hend hcall
    exact h.climb_eq n low rest (by omega) hn (hend.mono (by omega)) hcall
  | @Layer.fold k ls rs t l r op hl ht hk hr => by
    intro n low rest hlow hn hend hcall
    simp only [List.length_append, List.length_cons] at hn
    obtain ⟨hop, hlex⟩ := Token.isOperator_iff.mp ht
    obtain ⟨m, hm, hleft⟩ := hl.climb_eq n low (t :: (rs ++ rest)) hlow (by omega)
      (ends_operator ht (by omega)) (noCall_cons (by simp [hop]))
    obtain ⟨m, rfl⟩ : ∃ m', m = m' + 1 := ⟨m - 1, by omega⟩
    obtain ⟨m', hm', hright⟩ := hr.climb_eq m (k + 1) rest (by omega) (by omega)
      (hend.mono (by omega)) hcall
    obtain ⟨m', rfl⟩ : ∃ m'', m' = m'' + 1 := ⟨m' - 1, by omega⟩
    rw [climbFrom_of_ends hend] at hright
    refine ⟨m, by simp only [List.length_append, List.length_cons]; omega, ?_⟩
    rw [List.append_assoc, List.cons_append, hleft, climbFrom]
    simp [hop, hlex, hk, Nat.not_lt.mpr hlow, hright]
  | .operand h => by
    intro n low rest hlow hn hend hcall
    have hpos := (Layer.operand h).length_pos
    obtain ⟨n, rfl⟩ : ∃ n', n = n' + 1 := ⟨n - 1, by omega⟩
    refine ⟨n, by omega, ?_⟩
    rw [climb, h.primary_eq n rest (by omega) hcall]

/-- An operand is read as one in front of any list that does not make a call of it. -/
theorem Operand.primary_eq {ts : List Token} {e : Expr} :
    Operand ts e → ∀ (n : Nat) (rest : List Token), 2 * ts.length ≤ n + 1 → NoCall rest →
      primary n (ts ++ rest) = .ok (e, rest)
  | @Operand.int t value ht hv => by
    intro n rest hn hcall
    obtain ⟨n, rfl⟩ : ∃ n', n = n' + 1 := ⟨n - 1, by simp at hn; omega⟩
    simp [primary, ht, intLiteral, hv, Except.map]
  | @Operand.float t value ht hv => by
    intro n rest hn hcall
    obtain ⟨n, rfl⟩ : ∃ n', n = n' + 1 := ⟨n - 1, by simp at hn; omega⟩
    simp [primary, ht, floatLiteral, hv, Except.map]
  | @Operand.text t ht => by
    intro n rest hn hcall
    obtain ⟨n, rfl⟩ : ∃ n', n = n' + 1 := ⟨n - 1, by simp at hn; omega⟩
    simp [primary, ht]
  | @Operand.true t ht => by
    intro n rest hn hcall
    obtain ⟨n, rfl⟩ : ∃ n', n = n' + 1 := ⟨n - 1, by simp at hn; omega⟩
    obtain ⟨hk, hw⟩ := Token.isKeyword_iff.mp ht
    simp [primary, hk, hw]
  | @Operand.false t ht => by
    intro n rest hn hcall
    obtain ⟨n, rfl⟩ : ∃ n', n = n' + 1 := ⟨n - 1, by simp at hn; omega⟩
    obtain ⟨hk, hw⟩ := Token.isKeyword_iff.mp ht
    have hne : Keyword.fals.text ≠ Keyword.adevarat.text := by decide
    simp [primary, hk, hw, hne]
  | @Operand.var t ht => by
    intro n rest hn hcall
    obtain ⟨n, rfl⟩ : ∃ n', n = n' + 1 := ⟨n - 1, by simp at hn; omega⟩
    obtain ⟨hk, hname⟩ := isNameToken_iff.mp ht
    cases rest with
    | nil => simp [primary, hk, hname]
    | cons p rest =>
      have hp : p.kind ≠ .lparen := hcall p (by simp)
      simp [primary, hk, hname, hp]
  | @Operand.call t l r ts args ht hl h hr => by
    intro n rest hn hcall
    simp only [List.length_append, List.length_cons, List.length_nil] at hn
    obtain ⟨n, rfl⟩ : ∃ n', n = n' + 2 := ⟨n - 2, by omega⟩
    obtain ⟨hk, hname⟩ := isNameToken_iff.mp ht
    have hargs := h.arguments_eq (n := n) hr (h.moreArguments_eq n t.lexeme r rest hr (by omega))
    simp [primary, hk, hname, hl, hargs]
  | @Operand.paren l r ts e hl h hr => by
    intro n rest hn hcall
    simp only [List.length_append, List.length_cons, List.length_nil] at hn
    obtain ⟨n, rfl⟩ : ∃ n', n = n' + 1 := ⟨n - 1, by omega⟩
    obtain ⟨m, hm, hc⟩ := h.climb_eq n 0 (r :: rest) (Nat.le_refl 0) (by omega)
      (ends_cons (by simp [hr])) (noCall_cons (by simp [hr]))
    obtain ⟨m, rfl⟩ : ∃ m', m = m' + 1 := ⟨m - 1, by omega⟩
    rw [climbFrom_of_ends (ends_cons (by simp [hr]))] at hc
    simp [primary, hl, hc, hr]
  | @Operand.minus t ts e ht h => by
    intro n rest hn hcall
    simp only [List.length_cons] at hn
    obtain ⟨n, rfl⟩ : ∃ n', n = n' + 1 := ⟨n - 1, by omega⟩
    obtain ⟨hk, hs⟩ := Token.isOperator_iff.mp ht
    have hp := h.primary_eq n rest (by omega) hcall
    simp [primary, hk, hs, hp]

/-- At least one argument is read up to the parenthesis after the last. -/
theorem Arguments.moreArguments_eq {ts : List Token} {args : List Expr} :
    Arguments ts args → ∀ (n : Nat) (name : Bytes) (r : Token) (rest : List Token),
      r.kind = .rparen → 2 * ts.length < n → args ≠ [] →
      moreArguments n name (ts ++ r :: rest) = .ok (args, rest)
  | .none => by
    intro n name r rest hr hn hne
    exact absurd rfl hne
  | @Arguments.last ts e h => by
    intro n name r rest hr hn hne
    obtain ⟨n, rfl⟩ : ∃ n', n = n' + 1 := ⟨n - 1, by omega⟩
    have hpos := h.length_pos
    obtain ⟨m, hm, hc⟩ := h.climb_eq n 0 (r :: rest) (Nat.le_refl 0) (by omega)
      (ends_cons (by simp [hr])) (noCall_cons (by simp [hr]))
    obtain ⟨m, rfl⟩ : ∃ m', m = m' + 1 := ⟨m - 1, by omega⟩
    rw [climbFrom_of_ends (ends_cons (by simp [hr]))] at hc
    rw [moreArguments, hc]
    simp [hr]
  | @Arguments.more ts us c e a args h hc hs => by
    intro n name r rest hr hn hne
    obtain ⟨n, rfl⟩ : ∃ n', n = n' + 1 := ⟨n - 1, by omega⟩
    simp only [List.length_append, List.length_cons] at hn
    obtain ⟨m, hm, he⟩ := h.climb_eq n 0 (c :: (us ++ r :: rest)) (Nat.le_refl 0) (by omega)
      (ends_cons (by simp [hc])) (noCall_cons (by simp [hc]))
    obtain ⟨m, rfl⟩ : ∃ m', m = m' + 1 := ⟨m - 1, by omega⟩
    rw [climbFrom_of_ends (ends_cons (by simp [hc]))] at he
    have hmore := hs.moreArguments_eq n name r rest hr (by omega) (by simp)
    rw [List.append_assoc, List.cons_append, moreArguments, he]
    simp [hc, hmore]

end

end Grammar

/-! ## Expressions as a whole -/

/-- An expression in front of a list that ends it is read up to there. -/
theorem expression_eq {ts rest : List Token} {e : Expr} (h : Expression ts e) (hend : Ends 0 rest)
    (hcall : NoCall rest) : expression (ts ++ rest) = .ok (e, rest) := by
  rw [expression]
  obtain ⟨m, hm, hc⟩ := h.climb_eq (2 * (ts ++ rest).length + 2) 0 rest (Nat.le_refl 0)
    (by simp; omega) (hend.mono (by omega)) hcall
  obtain ⟨m, rfl⟩ : ∃ m', m = m' + 1 := ⟨m - 1, by simp at hm; omega⟩
  rw [hc, climbFrom_of_ends hend]

/-- What is read from the front of a list is an expression of the grammar. -/
theorem expression_sound {ts rest : List Token} {e : Expr} (h : expression ts = .ok (e, rest)) :
    ∃ us, ts = us ++ rest ∧ Expression us e := by
  obtain ⟨us, hts, he, -⟩ := climb_sound (by omega) h
  exact ⟨us, hts, he⟩

/-- A list is read as a whole into the tree that it derives, and no other list is read at all. -/
theorem fullExpression_eq_ok_iff {ts : List Token} {e : Expr} :
    fullExpression ts = .ok e ↔ Expression ts e := by
  constructor
  · intro h
    unfold fullExpression at h
    split at h
    · cases h
    · next e' he =>
      obtain ⟨us, rfl, hus⟩ := expression_sound he
      rw [← Except.ok.inj h, List.append_nil]
      exact hus
    · cases h
  · intro h
    have := expression_eq h (ends_nil 0) noCall_nil
    rw [List.append_nil] at this
    rw [fullExpression, this]

end LineScript
