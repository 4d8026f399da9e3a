import Mathlib.Algebra.Group.Int.Defs
import LineScript.Proofs.CleanPaths
import LineScript.Settings.Basic

/-!
# Loading scripts

Two promises of a loader. With a root, every path is resolved to one that is the root or stands
below it: the path is cleaned as if it started at the root, where `..` leads nowhere, and only then
put behind the root. With a size limit, a file is returned as a whole or refused, for which one byte
more than the limit is asked for. The greatest number has no successor, and a loader with that limit
reads nothing.
-/

namespace LineScript

open LineScript.Path

namespace Loader

/-! ## Roots -/

/-- A loader is made with a root that is absolute and clean, unless it has none. -/
theorem root_new {workDir root : Bytes} (hwork : isAbsolute workDir = true) (hroot : root ≠ [])
    (maxSize : Int64) :
    isAbsolute (new workDir root maxSize).root = true ∧
      clean (new workDir root maxSize).root = (new workDir root maxSize).root := by
  have hempty : root.isEmpty = false := List.isEmpty_eq_false_iff.mpr hroot
  have hnew : (new workDir root maxSize).root = Path.absolute workDir root := by
    simp only [new, hempty]
    rfl
  rw [hnew, Path.absolute]
  by_cases habs : isAbsolute root = true
  · rw [if_pos habs]
    exact clean_clean habs
  · obtain ⟨names, hjoin, hnames⟩ := join_names hwork root
    rw [if_neg habs, hjoin]
    exact ⟨isAbsolute_ofNames names, clean_ofNames hnames⟩

/-- A path is resolved to the names of the root and then those that it leads through by itself. -/
theorem resolve_eq {l : Loader} (habs : isAbsolute l.root = true) (path : Bytes) :
    l.resolve path = ofNames (places l.root ++ places (separator :: path)) := by
  have hempty : l.root.isEmpty = false := by
    obtain ⟨rest, hroot⟩ := isAbsolute_iff.mp habs
    rw [hroot]
    rfl
  have hjoin : l.resolve path = join [l.root, clean (separator :: path)] := by
    simp [resolve, hempty]
  have hpath : isAbsolute (separator :: path) = true := isAbsolute_iff.mpr ⟨path, rfl⟩
  rw [hjoin, join_absolute habs, clean_absolute hpath, foldl_enter_ofNames (places_names _)]
  simp

/-- At the root `..` leads nowhere. -/
theorem places_above (path : Bytes) :
    places (separator :: (bytes "../" ++ path)) = places (separator :: path) := by
  have hcut : bytes "../" ++ path = above ++ separator :: path := by
    have hbytes : bytes "../" = above ++ [separator] := by decide
    rw [hbytes]
    simp
  have helements : elements above = [above] := by decide
  rw [places, places, elements_separator, elements_separator, hcut, elements_append, helements,
    List.foldl_cons, List.singleton_append, List.foldl_cons, List.foldl_cons, enter_nil,
    enter_above]
  rfl

theorem places_climbing (n : Nat) (path : Bytes) :
    places (separator :: ((List.replicate n (bytes "../")).flatten ++ path)) =
      places (separator :: path) := by
  induction n with
  | zero => rfl
  | succ n ih => rw [List.replicate_succ, List.flatten_cons, List.append_assoc, places_above, ih]

/-- A path is never resolved to one outside of the root: whatever it is, the outcome is absolute and
clean, has no `.` and no `..`, and is the root or stands below it. Leading `../` change nothing. -/
theorem resolve_below_root {l : Loader} (habs : isAbsolute l.root = true)
    (hclean : clean l.root = l.root) (path : Bytes) :
    isAbsolute (l.resolve path) = true ∧
      clean (l.resolve path) = l.resolve path ∧
      (∀ e ∈ elements (l.resolve path), e ≠ here ∧ e ≠ above) ∧
      (l.resolve path = l.root ∨ (l.root ++ [separator]) <+: l.resolve path ∨
        l.root = [separator]) ∧
      ∀ n, l.resolve ((List.replicate n (bytes "../")).flatten ++ path) = l.resolve path := by
  have hroot : ofNames (places l.root) = l.root := by
    rw [← clean_absolute habs, hclean]
  have hnames : ∀ e ∈ places l.root ++ places (separator :: path), IsName e := by
    intro e he
    rcases List.mem_append.mp he with he | he
    · exact places_names l.root e he
    · exact places_names (separator :: path) e he
  rw [resolve_eq habs path]
  refine ⟨isAbsolute_ofNames _, clean_ofNames hnames, ne_dots_of_mem_elements hnames, ?_, ?_⟩
  · have hbelow := ofNames_append (places l.root) (places (separator :: path))
    rwa [hroot] at hbelow
  · intro n
    rw [resolve_eq habs, places_climbing]

/-- The root is given relative to a working directory; the path begins with `..`, goes down, comes
back up past where it began and ends below the root. -/
theorem resolve_below_root_climbing :
    let l := new (bytes "/srv") (bytes "x/../jail/") 0
    let path := bytes "../a/./..//../../etc//passwd"
    l.root = bytes "/srv/jail" ∧ l.resolve path = bytes "/srv/jail/etc/passwd" ∧
      isAbsolute (l.resolve path) = true ∧ clean (l.resolve path) = l.resolve path ∧
      (∀ e ∈ elements (l.resolve path), e ≠ here ∧ e ≠ above) ∧
      (l.resolve path = l.root ∨ (l.root ++ [separator]) <+: l.resolve path ∨
        l.root = [separator]) ∧
      ∀ n, l.resolve ((List.replicate n (bytes "../")).flatten ++ path) = l.resolve path := by
  intro l path
  have hroot : bytes "x/../jail/" ≠ [] := by decide
  obtain ⟨habs, hclean⟩ := root_new (by decide : isAbsolute (bytes "/srv") = true) hroot 0
  exact ⟨by decide, by decide, resolve_below_root habs hclean path⟩

/-! ## Sizes -/

/-- The answers that are right for a file: all of its bytes when they are no more than allowed, and
otherwise that it is too large. -/
def Answers (l : Loader) (content : Bytes) : Except LoadError Bytes → Prop
  | .ok data => content.length ≤ l.maxSize.toInt ∧ data = content
  | .error e => l.maxSize.toInt < content.length ∧ e.isMissing = false

/-- The number of bytes that are read at most is one more than the limit, unless the limit is the
greatest number. -/
theorem toInt_succ {n : Int64} (h : n ≠ Int64.maxValue) : (n + 1).toInt = n.toInt + 1 := by
  have hne : n.toInt ≠ 2 ^ 63 - 1 := by
    rw [← Int64.toInt_maxValue]
    exact fun heq => h (Int64.toInt_inj.mp heq)
  have hlt := Int64.toInt_lt n
  have hle := Int64.le_toInt n
  have hone : (1 : Int64).toInt = 1 := rfl
  rw [Int64.toInt_add, hone]
  exact Int.bmod_eq_of_le (by omega) (by omega)

/-- Below the greatest limit a file is answered for rightly; its listed size may fall short. -/
theorem answers_receive {l : Loader} (hl : 0 < l.maxSize) (hmax : l.maxSize ≠ Int64.maxValue)
    (path : Bytes) {size : Nat} {content : Bytes} (hsize : size ≤ content.length) :
    l.Answers content (l.receive path (.ok (.file size content))) := by
  have hpos : 0 < l.maxSize.toInt := Int64.lt_iff_toInt_lt.mp hl
  simp only [receive, toInt_succ hmax]
  by_cases hlisted : l.maxSize.toInt < size
  · rw [if_pos hlisted]
    exact ⟨by omega, rfl⟩
  rw [if_neg hlisted]
  by_cases hfits : content.length ≤ l.maxSize.toInt
  · have hall : content.take (l.maxSize.toInt + 1).toNat = content :=
      List.take_of_length_le (by omega)
    rw [hall, if_neg (by omega)]
    exact ⟨hfits, rfl⟩
  · have hread : (content.take (l.maxSize.toInt + 1).toNat).length =
        (l.maxSize.toInt + 1).toNat := by
      rw [List.length_take]
      omega
    rw [hread, if_pos (by omega)]
    exact ⟨by omega, rfl⟩

/-- At the greatest limit nothing is read. -/
theorem receive_greatest {l : Loader} (hmax : l.maxSize = Int64.maxValue) (path : Bytes)
    {size : Nat} {content : Bytes} (hlisted : size ≤ l.maxSize.toInt) :
    l.receive path (.ok (.file size content)) = .ok [] := by
  have hbound : (l.maxSize + 1).toInt.toNat = 0 := by
    rw [hmax]
    decide
  have hpos : ¬ l.maxSize.toInt < (0 : Nat) := by
    rw [hmax]
    decide
  simp only [receive, hbound, List.take_zero, List.length_nil]
  rw [if_neg (by omega), if_neg hpos]

/-- A file is answered for rightly except at the greatest limit, where one that is not empty is
taken for an empty one. -/
theorem load_answers_iff {m : Type → Type} [Monad m] [LawfulMonad m] {l : Loader}
    (hl : 0 < l.maxSize) {look : Bytes → m (Except FileError Entry)} {path : Bytes} {size : Nat}
    {content : Bytes} (hsize : size ≤ content.length)
    (hlook : look (l.resolve path) = pure (.ok (.file size content))) :
    ∃ answer, l.load look path = pure answer ∧
      (l.Answers content answer ↔
        l.maxSize ≠ Int64.maxValue ∨ content = [] ∨ l.maxSize.toInt < size) ∧
      (¬ l.Answers content answer → answer = .ok []) := by
  refine ⟨l.receive path (.ok (.file size content)), ?_, ?_⟩
  · simp only [load, hlook, pure_bind]
  by_cases hmax : l.maxSize = Int64.maxValue
  · by_cases hlisted : l.maxSize.toInt < size
    · have hanswers : l.Answers content (l.receive path (.ok (.file size content))) := by
        simp only [receive, if_pos hlisted]
        exact ⟨by omega, rfl⟩
      exact ⟨iff_of_true hanswers (.inr (.inr hlisted)), absurd hanswers⟩
    · rw [receive_greatest hmax path (by omega)]
      refine ⟨⟨fun h => .inr (.inl h.2.symm), ?_⟩, fun _ => rfl⟩
      rintro (h | rfl | h)
      · exact absurd hmax h
      · have hpos := Int64.lt_iff_toInt_lt.mp hl
        exact ⟨Int.le_of_lt hpos, rfl⟩
      · exact absurd h hlisted
  · have hanswers := answers_receive hl hmax path hsize
    exact ⟨iff_of_true hanswers (.inl hmax), absurd hanswers⟩

/-- The file lists no size, so that only what is read of it shows that it is too large by one byte.
-/
theorem load_answers_iff_unlisted :
    let l := new (bytes "/work") [] 9
    let content := bytes "afiseaza 1"
    let look : Bytes → Id (Except FileError Entry) := fun _ => .ok (.file 0 content)
    0 < l.maxSize ∧ look (l.resolve (bytes "a.ros")) = pure (.ok (.file 0 content)) ∧
      ∃ answer, l.load look (bytes "a.ros") = pure answer ∧
        (l.Answers content answer ↔
          l.maxSize ≠ Int64.maxValue ∨ content = [] ∨ l.maxSize.toInt < (0 : Nat)) ∧
        (¬ l.Answers content answer → answer = .ok []) := by
  intro l content look
  have hl : 0 < l.maxSize := by decide
  exact ⟨hl, rfl, load_answers_iff hl (Nat.zero_le _) rfl⟩

/-- Settings with the greatest limit are accepted, and a script of ten bytes is then loaded as one
of none. -/
theorem load_empty_at_greatest :
    let s : Settings := { maxSourceSize := Int64.maxValue }
    let content := bytes "afiseaza 1"
    let tree : FileTree := ⟨[([bytes "work", bytes "a.ros"], .file 10 content)], [bytes "work"]⟩
    let l := new (bytes "/work") s.sourceRoot s.maxSourceSize
    s.issues true = [] ∧ tree.look (l.resolve (bytes "a.ros")) = .ok (.file 10 content) ∧
      content.length ≤ l.maxSize.toInt ∧
      Id.run (l.load (fun p => pure (tree.look p)) (bytes "a.ros")) = .ok [] := by
  intro s content tree l
  exact ⟨by decide, by rfl, by decide, by rfl⟩

end Loader

end LineScript
