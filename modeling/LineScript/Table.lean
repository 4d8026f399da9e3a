import LineScript.Bytes

/-!
# Tables

A table maps names to entries. Names are listed in byte order.
-/

namespace LineScript

/-- A finite map from names, kept as the list of its entries with distinct names. -/
structure Table (α : Type) where
  /-- The entries, in the order in which their names were first set. -/
  entries : List (Bytes × α) := []

namespace Table

variable {α : Type}

/-- A list of entries with the entry of one name set. -/
def put (name : Bytes) (a : α) : List (Bytes × α) → List (Bytes × α)
  | [] => [(name, a)]
  | (n, b) :: rest => if n = name then (n, a) :: rest else (n, b) :: put name a rest

/-- The entry of a name. -/
def get? (t : Table α) (name : Bytes) : Option α := t.entries.lookup name

/-- The table with the entry of one name set. -/
def set (t : Table α) (name : Bytes) (a : α) : Table α := ⟨put name a t.entries⟩

/-- The table with the given entries; of two entries of one name the later counts. -/
def ofList (entries : List (Bytes × α)) : Table α :=
  entries.foldl (fun t (name, a) => t.set name a) ⟨[]⟩

/-- The entries in the byte order of their names. -/
def sorted (t : Table α) : List (Bytes × α) := t.entries.mergeSort fun a b => Bytes.le a.1 b.1

/-- The names in byte order. -/
def names (t : Table α) : List Bytes := t.sorted.map Prod.fst

theorem lookup_cons_ite (n other : Bytes) (b : α) (rest : List (Bytes × α)) :
    ((n, b) :: rest).lookup other = if n = other then some b else rest.lookup other := by
  rw [List.lookup_cons]
  by_cases h : n = other
  · simp [h]
  · have hne : (other == n) = false := beq_false_of_ne (Ne.symm h)
    rw [hne, if_neg h]

/-- An entry is replaced where it stands, or is added at the end. -/
theorem lookup_put (name other : Bytes) (a : α) (entries : List (Bytes × α)) :
    (put name a entries).lookup other = if name = other then some a else entries.lookup other := by
  induction entries with
  | nil => exact lookup_cons_ite name other a []
  | cons entry rest ih =>
    obtain ⟨n, b⟩ := entry
    by_cases h : n = name
    · subst h
      by_cases ho : n = other <;> simp [put, lookup_cons_ite, ho]
    · by_cases ho : n = other
      · subst ho
        simp [put, h, Ne.symm h]
      · simp [put, lookup_cons_ite, h, ho, ih]

/-- Setting a name changes the entry of that name and of no other. -/
theorem get?_set (t : Table α) (name other : Bytes) (a : α) :
    (t.set name a).get? other = if name = other then some a else t.get? other :=
  lookup_put name other a t.entries

end Table

end LineScript
