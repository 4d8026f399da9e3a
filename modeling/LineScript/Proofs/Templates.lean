import Mathlib.Data.List.Basic
import LineScript.Proofs.StandardFunctions

/-!
# Templates

A template consists of pieces with placeholders between them. There is only one way to cut it into
pieces that hold no placeholder themselves (`Func.Pieces.unique`), since two placeholders cannot
overlap. `format` puts the display texts of its arguments between the first pieces and leaves the
placeholders between the others in place.
-/

namespace LineScript

/-! ## The first placeholder -/

namespace Bytes

theorem isPrefixOf?_eq_none_iff {start text : Bytes} :
    start.isPrefixOf? text = none ↔ ¬start <+: text := by
  constructor
  · rintro h ⟨rest, hrest⟩
    rw [List.isPrefixOf?_eq_some_iff_append_eq.mpr hrest] at h
    cases h
  · intro h
    cases hrest : start.isPrefixOf? text with
    | none => rfl
    | some rest => exact absurd ⟨rest, List.isPrefixOf?_eq_some_iff_append_eq.mp hrest⟩ h

variable {mark rest after : Bytes} {b : UInt8}

theorem cut?_of_start (h : b :: rest = mark ++ after) :
    cut? mark (b :: rest) = some ([], after) := by
  rw [cut?, List.isPrefixOf?_eq_some_iff_append_eq.mpr h.symm]

theorem cut?_of_not_start (h : ¬mark <+: b :: rest) :
    cut? mark (b :: rest) =
      (cut? mark rest).map fun (before, after) => (b :: before, after) := by
  rw [cut?, isPrefixOf?_eq_none_iff.mpr h]

end Bytes

namespace Func

/-- A placeholder does not begin inside the piece before one. -/
theorem not_isPrefix_append {b : UInt8} {piece rest : Bytes}
    (h : ¬placeholder <:+: b :: piece) :
    ¬placeholder <+: b :: (piece ++ (placeholder ++ rest)) := by
  rintro ⟨after, heq⟩
  have hplaceholder : placeholder = [0x25, 0x73] := by decide
  rw [hplaceholder] at heq h
  cases piece with
  | nil =>
    -- its second byte would be the first byte of the next one
    simp only [List.cons_append, List.nil_append, List.cons.injEq] at heq
    exact absurd heq.2.1 (by decide)
  | cons c piece =>
    simp only [List.cons_append, List.nil_append, List.cons.injEq] at heq
    obtain ⟨rfl, rfl, -⟩ := heq
    exact h ⟨[], piece, rfl⟩

theorem cut?_eq_none_iff {text : Bytes} :
    Bytes.cut? placeholder text = none ↔ ¬placeholder <:+: text := by
  induction text with
  | nil => exact ⟨fun _ => by decide, fun _ => rfl⟩
  | cons b rest ih =>
    rw [List.infix_cons_iff, not_or]
    by_cases hstart : placeholder <+: b :: rest
    · obtain ⟨after, hafter⟩ := hstart
      rw [Bytes.cut?_of_start hafter.symm]
      exact ⟨nofun, fun h => absurd ⟨after, hafter⟩ h.1⟩
    · rw [Bytes.cut?_of_not_start hstart, Option.map_eq_none_iff, ih]
      exact ⟨fun h => ⟨hstart, h⟩, fun h => h.2⟩

theorem cut?_append {piece : Bytes} (h : ¬placeholder <:+: piece) (rest : Bytes) :
    Bytes.cut? placeholder (piece ++ (placeholder ++ rest)) = some (piece, rest) := by
  induction piece with
  | nil => exact Bytes.cut?_of_start (b := 0x25) rfl
  | cons b piece ih =>
    have htail : ¬placeholder <:+: piece := fun hinfix => h (List.infix_cons hinfix)
    rw [List.cons_append, Bytes.cut?_of_not_start (not_isPrefix_append h), ih htail]
    rfl

/-- What stands before the first placeholder holds none. -/
theorem cut?_eq_some {text before after : Bytes}
    (h : Bytes.cut? placeholder text = some (before, after)) :
    text = before ++ (placeholder ++ after) ∧ ¬placeholder <:+: before := by
  induction text generalizing before with
  | nil => cases h
  | cons b rest ih =>
    by_cases hstart : placeholder <+: b :: rest
    · obtain ⟨tail, htail⟩ := hstart
      rw [Bytes.cut?_of_start htail.symm] at h
      obtain ⟨rfl, rfl⟩ := Prod.mk.inj (Option.some.inj h)
      exact ⟨htail.symm, by decide⟩
    · rw [Bytes.cut?_of_not_start hstart] at h
      obtain ⟨⟨before', after'⟩, hrest, hcut⟩ := Option.map_eq_some_iff.mp h
      obtain ⟨rfl, rfl⟩ := Prod.mk.inj hcut
      obtain ⟨rfl, hfree⟩ := ih hrest
      refine ⟨rfl, fun hinfix => ?_⟩
      rcases List.infix_cons_iff.mp hinfix with hfirst | htail
      · exact hstart (hfirst.trans (List.prefix_append (b :: before') _))
      · exact hfree htail

/-! ## Pieces -/

/-- A template is its first piece and, each after a placeholder, the other pieces. No piece holds a
placeholder. -/
structure Pieces (template first : Bytes) (rest : List Bytes) : Prop where
  joined : template = first ++ rest.flatMap (placeholder ++ ·)
  free : ∀ piece ∈ first :: rest, ¬placeholder <:+: piece

namespace Pieces

variable {template first piece : Bytes} {rest : List Bytes}

theorem cut?_nil (h : Pieces template first []) : Bytes.cut? placeholder template = none := by
  have hjoined : template = first := by simpa using h.joined
  rw [hjoined]
  exact cut?_eq_none_iff.mpr (h.free first List.mem_cons_self)

theorem cut?_cons (h : Pieces template first (piece :: rest)) :
    Bytes.cut? placeholder template =
      some (first, piece ++ rest.flatMap (placeholder ++ ·)) := by
  rw [h.joined, List.flatMap_cons, List.append_assoc]
  exact cut?_append (h.free first List.mem_cons_self) _

theorem tail (h : Pieces template first (piece :: rest)) :
    Pieces (piece ++ rest.flatMap (placeholder ++ ·)) piece rest :=
  ⟨rfl, fun p hp => h.free p (List.mem_cons_of_mem first hp)⟩

/-- The first placeholder is found in only one place, and then the rest is cut in only one way. -/
theorem unique {first' : Bytes} {rest' : List Bytes} (h : Pieces template first rest)
    (h' : Pieces template first' rest') : first' = first ∧ rest' = rest := by
  induction rest generalizing template first first' rest' with
  | nil =>
    cases rest' with
    | nil =>
      have hjoined := h'.joined.symm.trans h.joined
      exact ⟨by simpa using hjoined, rfl⟩
    | cons piece' rest' =>
      have hcut := h'.cut?_cons
      rw [h.cut?_nil] at hcut
      cases hcut
  | cons piece rest ih =>
    cases rest' with
    | nil =>
      have hcut := h'.cut?_nil
      rw [h.cut?_cons] at hcut
      cases hcut
    | cons piece' rest' =>
      have hcut := h'.cut?_cons
      rw [h.cut?_cons, Option.some.injEq, Prod.mk.injEq] at hcut
      obtain ⟨hfirst, htail⟩ := hcut
      obtain ⟨hpiece, hrest⟩ := ih h.tail (htail ▸ h'.tail)
      exact ⟨hfirst.symm, by rw [hpiece, hrest]⟩

/-- `fill` goes from piece to piece as long as there are arguments. -/
theorem fill_eq (h : Pieces template first rest) (args : List Bytes) :
    fill template args = first ++ ((List.zipWith (· ++ ·) args rest).flatten ++
      (rest.drop args.length).flatMap (placeholder ++ ·)) := by
  induction rest generalizing template first args with
  | nil =>
    have hjoined : template = first := by simpa using h.joined
    cases args with
    | nil => simp [fill, hjoined]
    | cons arg args =>
      rw [fill, h.cut?_nil, hjoined]
      simp
  | cons piece rest ih =>
    cases args with
    | nil => simpa [fill] using h.joined
    | cons arg args => simp [fill, h.cut?_cons, ih h.tail]

end Pieces

/-- Every template has its pieces: it is cut at the first placeholder, and what follows is shorter.
-/
theorem exists_pieces (template : Bytes) : ∃ first rest, Pieces template first rest := by
  induction hn : template.length using Nat.strongRecOn generalizing template with
  | ind n ih =>
    cases hcut : Bytes.cut? placeholder template with
    | none =>
      refine ⟨template, [], by simp, fun piece hpiece => ?_⟩
      rw [List.mem_singleton.mp hpiece]
      exact cut?_eq_none_iff.mp hcut
    | some parts =>
      obtain ⟨before, after⟩ := parts
      obtain ⟨htemplate, hfree⟩ := cut?_eq_some hcut
      have hlength : after.length < n := by
        have htwo : placeholder.length = 2 := by decide
        rw [← hn, htemplate, List.length_append, List.length_append]
        omega
      obtain ⟨first, rest, hpieces⟩ := ih after.length hlength after rfl
      refine ⟨before, first :: rest, ?_, fun piece hpiece => ?_⟩
      · rw [htemplate, hpieces.joined, List.flatMap_cons, List.append_assoc]
      · rcases List.mem_cons.mp hpiece with rfl | hpiece
        · exact hfree
        · exact hpieces.free piece hpiece

end Func

/-- A template can be cut into pieces at its placeholders in exactly one way. `format` replaces the
first placeholders by the display texts of its arguments, as far as there are both. What it puts in
is not looked at for placeholders. Further placeholders stay and further arguments do not count. -/
theorem format_fills_placeholders (template : Bytes) :
    ∃ (first : Bytes) (rest : List Bytes), Func.Pieces template first rest ∧
      (∀ first' rest', Func.Pieces template first' rest' → first' = first ∧ rest' = rest) ∧
      ∀ args : List Value,
        let k := min args.length rest.length
        Registry.standard.call (bytes "format") (.ofText template :: args) =
          pure (.ofText (first ++
            ((List.zipWith (· ++ ·) ((args.take k).map Value.display) (rest.take k)).flatten ++
              (rest.drop k).flatMap (Func.placeholder ++ ·)))) := by
  obtain ⟨first, rest, hpieces⟩ := Func.exists_pieces template
  refine ⟨first, rest, hpieces, fun first' rest' h => hpieces.unique h, ?_⟩
  intro args k
  have hzip : List.zipWith (· ++ ·) ((args.take k).map Value.display) (rest.take k) =
      List.zipWith (· ++ ·) (args.map Value.display) rest := by
    have hk : k = min (args.map Value.display).length rest.length := by rw [List.length_map]
    rw [List.map_take, hk]
    exact List.zipWith_eq_zipWith_take_min.symm
  have hdrop : rest.drop k = rest.drop (args.map Value.display).length := by
    rw [List.length_map]
    rcases Nat.le_total args.length rest.length with hle | hle
    · have hk : k = args.length := Nat.min_eq_left hle
      rw [hk]
    · have hk : k = rest.length := Nat.min_eq_right hle
      rw [hk, List.drop_length, List.drop_eq_nil_of_le hle]
  rw [hzip, hdrop, ← hpieces.fill_eq]
  rfl

/-- A placeholder after a percent sign, one that is put in, and one without an argument. -/
theorem format_fills_placeholders_again :
    Func.Pieces (bytes "%%s|%s|%s") (bytes "%") [bytes "|", bytes "|", []] ∧
      Registry.standard.call (bytes "format")
          [.ofText (bytes "%%s|%s|%s"), .ofText (bytes "%s"), .ofInt 1] =
        pure (.ofText (bytes "%%s|1|%s")) := by
  have hpieces : Func.Pieces (bytes "%%s|%s|%s") (bytes "%") [bytes "|", bytes "|", []] :=
    ⟨by decide, by decide⟩
  obtain ⟨first, rest, -, hunique, hformat⟩ := format_fills_placeholders (bytes "%%s|%s|%s")
  obtain ⟨rfl, rfl⟩ := hunique _ _ hpieces
  have htext := hformat [.ofText (bytes "%s"), .ofInt 1]
  exact ⟨hpieces, htext.trans (Action.pure_inj.mpr (by decide +kernel))⟩

end LineScript
