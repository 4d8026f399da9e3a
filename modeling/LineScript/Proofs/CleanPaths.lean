import LineScript.File.Loader

/-!
# Clean paths

What cleaning makes of a path that starts at the root. Its elements are taken one after the other: a
name goes one directory down, `..` goes one up and stays at the root when there is nothing above
(`Path.enter`). So the outcome is a list of names (`Path.places`), and the clean path is these names
behind slashes (`Path.ofNames`). The paths that cleaning leaves as they are are exactly those.
-/

namespace LineScript

namespace Path

/-! ## Elements -/

/-- A slash stands between the elements before it and those after it. -/
theorem elements_append (a b : Bytes) :
    elements (a ++ separator :: b) = elements a ++ elements b :=
  List.splitOn_append_cons_self a b

theorem elements_separator (path : Bytes) : elements (separator :: path) = [] :: elements path :=
  elements_append [] path

/-- A path is cut at every slash, so none is left within an element. -/
theorem separator_notMem_elements (path : Bytes) : ∀ e ∈ elements path, separator ∉ e := by
  simp only [elements]
  induction path with
  | nil =>
    intro e he
    have hnil : e = [] := List.mem_singleton.mp he
    simp [hnil]
  | cons b rest ih =>
    rw [List.splitOn_cons_eq_if_modifyHead]
    by_cases hb : b = separator
    · intro e he
      rw [if_pos (beq_iff_eq.mpr hb)] at he
      rcases List.mem_cons.mp he with rfl | he
      · exact List.not_mem_nil
      · exact ih e he
    · intro e he
      rw [if_neg (by simpa using hb)] at he
      cases hsplit : List.splitOn separator rest with
      | nil => exact absurd hsplit (List.splitOn_ne_nil separator rest)
      | cons piece pieces =>
        rw [hsplit] at ih he
        rcases List.mem_cons.mp he with rfl | he
        · intro hmem
          rcases List.mem_cons.mp hmem with hb' | hmem
          · exact hb hb'.symm
          · exact ih piece List.mem_cons_self hmem
        · exact ih e (List.mem_cons_of_mem piece he)

/-! ## Going down and up -/

/-- An element that leads one directory down. -/
structure IsName (e : Bytes) : Prop where
  ne_nil : e ≠ []
  ne_here : e ≠ here
  ne_above : e ≠ above
  plain : separator ∉ e

/-- The directories from the root on, last first, after one more element. -/
def enter (kept : List Bytes) (e : Bytes) : List Bytes :=
  if e = [] ∨ e = here then kept else if e = above then kept.tail else e :: kept

theorem enter_nil (kept : List Bytes) : enter kept [] = kept := if_pos (.inl rfl)

theorem enter_above (kept : List Bytes) : enter kept above = kept.tail := by
  rw [enter, if_neg (by decide), if_pos rfl]

theorem enter_name {e : Bytes} (he : IsName e) (kept : List Bytes) : enter kept e = e :: kept := by
  have hstay : ¬ (e = [] ∨ e = here) := by
    rintro (h | h)
    · exact he.ne_nil h
    · exact he.ne_here h
  rw [enter, if_neg hstay, if_neg he.ne_above]

/-- Every element leaves names only. -/
theorem enter_names {kept : List Bytes} (hkept : ∀ k ∈ kept, IsName k) {e : Bytes}
    (he : separator ∉ e) : ∀ k ∈ enter kept e, IsName k := by
  unfold enter
  split
  · exact hkept
  · next hstay =>
    obtain ⟨hnil, hhere⟩ := not_or.mp hstay
    split
    · intro k hk
      exact hkept k (List.mem_of_mem_tail hk)
    · next habove =>
      intro k hk
      rcases List.mem_cons.mp hk with rfl | hk
      · exact ⟨hnil, hhere, habove, he⟩
      · exact hkept k hk

theorem foldl_enter_names {kept es : List Bytes} (hkept : ∀ k ∈ kept, IsName k)
    (hes : ∀ e ∈ es, separator ∉ e) : ∀ k ∈ es.foldl enter kept, IsName k := by
  induction es generalizing kept with
  | nil => exact hkept
  | cons e es ih =>
    have hnext := enter_names hkept (hes e List.mem_cons_self)
    exact ih hnext fun e' he' => hes e' (List.mem_cons_of_mem e he')

/-- Names lead down, each below the one before. -/
theorem foldl_enter_of_names {es : List Bytes} (hes : ∀ e ∈ es, IsName e) (kept : List Bytes) :
    es.foldl enter kept = es.reverse ++ kept := by
  induction es generalizing kept with
  | nil => rfl
  | cons e es ih =>
    have hrest := ih fun e' he' => hes e' (List.mem_cons_of_mem e he')
    rw [List.foldl_cons, enter_name (hes e List.mem_cons_self), hrest]
    simp

/-- From the root, settling is going down and up: no `..` is ever kept. -/
theorem settle_rooted {kept : List Bytes} (hkept : above ∉ kept) (es : List Bytes) :
    settle true kept es = (es.foldl enter kept).reverse := by
  induction es generalizing kept with
  | nil => rfl
  | cons e es ih =>
    rw [settle.eq_def, List.foldl_cons, enter]
    dsimp only
    split
    · exact ih hkept
    · split
      · cases kept with
        | nil => exact ih hkept
        | cons last before =>
          obtain ⟨hlast, hbefore⟩ := not_or.mp (mt List.mem_cons.mpr hkept)
          have hne : last ≠ above := fun h => hlast h.symm
          simp only [if_neg hne]
          exact ih hbefore
      · next habove =>
        have hnext : above ∉ e :: kept := by
          intro hmem
          rcases List.mem_cons.mp hmem with h | h
          · exact habove h.symm
          · exact hkept h
        exact ih hnext

/-! ## Absolute paths -/

/-- The names that a path leads through from the root. -/
def places (path : Bytes) : List Bytes := ((elements path).foldl enter []).reverse

/-- The path through given names. -/
def ofNames (names : List Bytes) : Bytes := separator :: List.intercalate [separator] names

theorem isAbsolute_iff {path : Bytes} :
    isAbsolute path = true ↔ ∃ rest, path = separator :: rest := by
  cases path with
  | nil => simp [isAbsolute]
  | cons b rest => simp [isAbsolute]

theorem isAbsolute_ofNames (names : List Bytes) : isAbsolute (ofNames names) = true :=
  isAbsolute_iff.mpr ⟨_, rfl⟩

theorem places_names (path : Bytes) : ∀ e ∈ places path, IsName e := by
  intro e he
  have hnone : ∀ k ∈ ([] : List Bytes), IsName k := nofun
  have hall := foldl_enter_names hnone (separator_notMem_elements path)
  exact hall e (List.mem_reverse.mp he)

theorem clean_absolute {path : Bytes} (h : isAbsolute path = true) :
    clean path = ofNames (places path) := by
  rw [clean, h, settle_rooted List.not_mem_nil]
  rfl

/-- The elements of a path through names: the empty one before the first slash, and these names. -/
theorem elements_ofNames {names : List Bytes} (hnames : ∀ e ∈ names, IsName e)
    (hne : names ≠ []) : elements (ofNames names) = [] :: names := by
  have hplain : ∀ e ∈ names, separator ∉ e := fun e he => (hnames e he).plain
  have hsplit := List.splitOn_intercalate separator hplain hne
  rw [ofNames, elements_separator, elements, hsplit]

theorem foldl_enter_ofNames {names : List Bytes} (hnames : ∀ e ∈ names, IsName e)
    (kept : List Bytes) : (elements (ofNames names)).foldl enter kept = names.reverse ++ kept := by
  by_cases hempty : names = []
  · subst hempty
    rfl
  · rw [elements_ofNames hnames hempty, List.foldl_cons, enter_nil, foldl_enter_of_names hnames]

theorem places_ofNames {names : List Bytes} (hnames : ∀ e ∈ names, IsName e) :
    places (ofNames names) = names := by
  rw [places, foldl_enter_ofNames hnames]
  simp

theorem clean_ofNames {names : List Bytes} (hnames : ∀ e ∈ names, IsName e) :
    clean (ofNames names) = ofNames names := by
  rw [clean_absolute (isAbsolute_ofNames names), places_ofNames hnames]

/-- Cleaning an absolute path gives one that is absolute and clean. -/
theorem clean_clean {path : Bytes} (h : isAbsolute path = true) :
    isAbsolute (clean path) = true ∧ clean (clean path) = clean path := by
  rw [clean_absolute h]
  exact ⟨isAbsolute_ofNames _, clean_ofNames (places_names path)⟩

/-- There are no `.` and no `..` among the elements. -/
theorem ne_dots_of_mem_elements {names : List Bytes} (hnames : ∀ e ∈ names, IsName e) :
    ∀ e ∈ elements (ofNames names), e ≠ here ∧ e ≠ above := by
  have hnil : ([] : Bytes) ≠ here ∧ ([] : Bytes) ≠ above := ⟨by decide, by decide⟩
  intro e he
  by_cases hempty : names = []
  · subst hempty
    have hroot : elements (ofNames []) = [[], []] := rfl
    rw [hroot] at he
    rcases List.mem_cons.mp he with rfl | he
    · exact hnil
    · rwa [List.mem_singleton.mp he]
  · rw [elements_ofNames hnames hempty] at he
    rcases List.mem_cons.mp he with rfl | he
    · exact hnil
    · exact ⟨(hnames e he).ne_here, (hnames e he).ne_above⟩

/-! ## Paths below others -/

theorem intercalate_append {as bs : List Bytes} (ha : as ≠ []) (hb : bs ≠ []) :
    List.intercalate [separator] (as ++ bs) =
      List.intercalate [separator] as ++ separator :: List.intercalate [separator] bs := by
  induction as with
  | nil => exact absurd rfl ha
  | cons a as ih =>
    by_cases has : as = []
    · subst has
      rw [List.singleton_append, List.intercalate_cons_of_ne_nil hb, List.intercalate_singleton]
      simp
    · have hne : as ++ bs ≠ [] := by simp [has]
      rw [List.cons_append, List.intercalate_cons_of_ne_nil hne,
        List.intercalate_cons_of_ne_nil has, ih has]
      simp

/-- More names lead to a path below, or to the same one when there are none. -/
theorem ofNames_append (as bs : List Bytes) :
    ofNames (as ++ bs) = ofNames as ∨ (ofNames as ++ [separator]) <+: ofNames (as ++ bs) ∨
      ofNames as = [separator] := by
  by_cases hb : bs = []
  · left
    rw [hb, List.append_nil]
  · by_cases ha : as = []
    · right; right
      rw [ha]
      rfl
    · right; left
      refine ⟨List.intercalate [separator] bs, ?_⟩
      rw [ofNames, ofNames, intercalate_append ha hb]
      simp

/-- A path put behind an absolute one is followed from where that one leads. -/
theorem join_absolute {a : Bytes} (ha : isAbsolute a = true) (b : Bytes) :
    join [a, b] = ofNames ((elements b).foldl enter (places a).reverse).reverse := by
  have habs : isAbsolute (a ++ separator :: b) = true := by
    obtain ⟨rest, rfl⟩ := isAbsolute_iff.mp ha
    exact isAbsolute_iff.mpr ⟨_, rfl⟩
  have hjoin : join [a, b] = clean (a ++ separator :: b) := by
    obtain ⟨rest, rfl⟩ := isAbsolute_iff.mp ha
    simp [join, List.intercalate_cons_cons]
  rw [hjoin, clean_absolute habs, places, elements_append, List.foldl_append, places,
    List.reverse_reverse]

theorem join_names {a : Bytes} (ha : isAbsolute a = true) (b : Bytes) :
    ∃ names, join [a, b] = ofNames names ∧ ∀ e ∈ names, IsName e := by
  refine ⟨_, join_absolute ha b, fun e he => ?_⟩
  have hkept : ∀ k ∈ (places a).reverse, IsName k :=
    fun k hk => places_names a k (List.mem_reverse.mp hk)
  exact foldl_enter_names hkept (separator_notMem_elements b) e (List.mem_reverse.mp he)

end Path

end LineScript
