import LineScript.Settings.Basic
import LineScript.Yaml.Node

/-!
# Reading settings

Settings are written as one mapping whose keys are the names of the fields. A field that is left out, or
that has nothing as its value, keeps its default. Keys that name no field, keys given twice and values
that do not fit their field are faults; all of them are reported together, but fields are looked at only
when no key is given twice. A mapping can take over the entries of others; its own entries, and those
of mappings taken over before, come first.
-/

namespace LineScript

/-- What a part of a document is read as. -/
inductive Target where
  | text | int | int64 | bool | settings
  deriving DecidableEq, Repr

/-- The name of a target in messages. -/
def Target.name : Target → Bytes
  | text => bytes "string"
  | int => bytes "int"
  | int64 => bytes "int64"
  | bool => bytes "bool"
  | settings => bytes "config.Config"

/-- What can be wrong with the content of a document. -/
inductive FieldError where
  /-- A part does not fit what it is read as. -/
  | mismatch (line : Nat) (tag text : Bytes) (target : Target)
  /-- A key names no field. -/
  | unknown (line : Nat) (name : Bytes)
  /-- A key was there before. -/
  | duplicate (line : Nat) (name : Bytes) (first : Nat)
  /-- Two keys that are written differently name one field. -/
  | alreadySet (line : Nat) (name : Bytes)
  deriving DecidableEq, Repr

namespace FieldError

/-- A scalar as messages show it: cut when it is longer than ten bytes. -/
def excerpt (text : Bytes) : Bytes :=
  if 10 < text.length then text.take 7 ++ bytes "..." else text

/-- The message of a field error. -/
def message : FieldError → Bytes
  | mismatch line tag text target =>
    bytes "line " ++ decimal line ++ bytes ": cannot unmarshal " ++ tag
      ++ (if tag == bytes "!!seq" || tag == bytes "!!map" then text
          else bytes " `" ++ excerpt text ++ bytes "`")
      ++ bytes " into " ++ target.name
  | unknown line name =>
    bytes "line " ++ decimal line ++ bytes ": field " ++ name ++ bytes " not found in type "
      ++ Target.settings.name
  | duplicate line name first =>
    bytes "line " ++ decimal line ++ bytes ": mapping key " ++ Text.quoted name
      ++ bytes " already defined at line " ++ decimal first
  | alreadySet line name =>
    bytes "line " ++ decimal line ++ bytes ": field " ++ name ++ bytes " already set in type "
      ++ Target.settings.name

end FieldError

/-- Why settings cannot be read. -/
inductive SettingsError where
  /-- The document is not well formed. -/
  | malformed (problem : Yaml.Problem)
  /-- The document does not describe settings. -/
  | fields (errors : List FieldError)
  /-- The path leads to a directory. -/
  | directory (path : Bytes)
  /-- The settings are not acceptable. -/
  | invalid (issues : List Issue)
  deriving DecidableEq, Repr

/-- The message of a settings error. -/
def SettingsError.message : SettingsError → Bytes
  | malformed problem => bytes "config: parse: yaml: " ++ problem.message
  | fields errors =>
    bytes "config: parse: yaml: unmarshal errors:"
      ++ errors.flatMap fun error => bytes "\n  " ++ error.message
  | directory path =>
    bytes "config: parse: yaml: input error: read " ++ path ++ bytes ": is a directory"
  | invalid issues => issuesMessage (issues.map Issue.text)

namespace Yaml.Node

/-- The line on which a node starts. -/
def line : Node → Nat
  | scalar line _ _ => line
  | sequence line _ _ => line
  | mapping line _ _ => line
  | reference line _ _ => line

/-- The error about a node that does not fit. -/
def mismatch (target : Target) : Node → FieldError
  | scalar line tag text => .mismatch line tag text target
  | sequence line tag _ => .mismatch line tag [] target
  | mapping line tag _ => .mismatch line tag [] target
  | reference line name _ => .mismatch line [] name target

/-- Is a node the key for the entries of other mappings? -/
def isMerge : Node → Bool
  | scalar _ tag text => tag == bytes "!!merge" && text == bytes "<<"
  | _ => false

/-- The text by which keys are compared, for two keys of one kind. -/
def sameKey? : Node → Node → Option Bytes
  | scalar _ _ a, scalar _ _ b => if a = b then some a else none
  | reference _ a _, reference _ b _ => if a = b then some a else none
  | sequence _ _ _, sequence _ _ _ => some []
  | mapping _ _ _, mapping _ _ _ => some []
  | _, _ => none

/-- The errors about keys that are given again: each key with all those after it. -/
def duplicates : List Node → List FieldError
  | [] => []
  | key :: rest =>
    (rest.filterMap fun other =>
      (sameKey? key other).map fun name => .duplicate other.line name key.line)
    ++ duplicates rest

/-- What reading a node gives: a trouble that ends all reading, errors, or a value, which is missing
where the node is nothing. -/
abbrev Read (α : Type) := Except Trouble (Except (List FieldError) (Option α))

/-- The node that a reference stands for; any other node stands for itself. -/
def target (anchors : List (Nat × Node)) : Node → Except Trouble Node
  | reference _ name anchor => (anchors.lookup anchor).elim (.error (.containsItself name)) .ok
  | n => .ok n

/-- Reads a scalar by what it stands for, and nothing as no value. References are followed through
the nodes with anchors. -/
def asScalar {α : Type} (anchors : List (Nat × Node)) (wanted : Target)
    (read? : Bytes → Meaning → Option α) (n : Node) : Read α :=
  match n.target anchors with
  | .error trouble => .error trouble
  | .ok n =>
    match n with
    | scalar _ tag text =>
      match meaning tag text with
      | .error trouble => .error trouble
      | .ok .null => .ok (.ok none)
      | .ok m =>
        match read? text m with
        | some value => .ok (.ok (some value))
        | none => .ok (.error [n.mismatch wanted])
    | mapping _ _ entries =>
      match duplicates (entries.map Prod.fst) with
      | [] => .ok (.error [n.mismatch wanted])
      | errors => .ok (.error errors)
    | n => .ok (.error [n.mismatch wanted])

/-- The text of a scalar: what it stands for if that is a text, and otherwise as it is written. -/
def textOf? (written : Bytes) : Meaning → Option Bytes
  | .text t => some t
  | _ => some written

/-- The text that a scalar stands for, if it stands for one. -/
def ownText? (_ : Bytes) : Meaning → Option Bytes
  | .text t => some t
  | _ => none

/-- The integer of a scalar. Floating-point numbers are truncated; those below the range, and the
power of two just above it, give the least integer. -/
def intOf? (_ : Bytes) : Meaning → Option Int64
  | .int i => if i ≤ Int64.maxValue.toInt then some (Int64.ofInt i) else none
  | .float x =>
    if x.le (.ofInt (Int64.maxValue.toInt + 1)) then some (x.truncate?.getD Int64.minValue) else none
  | _ => none

/-- The truth value of a word that stands for one only where a truth value is asked for. -/
def wordTruth? (text : Bytes) : Option Bool :=
  if text == bytes "y" || text == bytes "Y" || isWord "yes" text || isWord "on" text then some true
  else if text == bytes "n" || text == bytes "N" || isWord "no" text || isWord "off" text then
    some false
  else none

/-- The truth value of a scalar. -/
def boolOf? (_ : Bytes) : Meaning → Option Bool
  | .bool b => some b
  | .text word => wordTruth? word
  | _ => none

end Yaml.Node

/-- The fields of the settings. -/
inductive Field where
  | logLevel | color | trailingNewline | maxSteps | maxSourceSize | inputPrompt | sourceRoot
  deriving DecidableEq, Repr

/-- The field with a name. -/
def Field.ofName? (name : Bytes) : Option Field :=
  [(bytes "log_level", Field.logLevel), (bytes "color", .color),
    (bytes "trailing_newline", .trailingNewline), (bytes "max_steps", .maxSteps),
    (bytes "max_source_size", .maxSourceSize), (bytes "input_prompt", .inputPrompt),
    (bytes "source_root", .sourceRoot)].lookup name

/-- How far the reading of settings has come. -/
structure Draft where
  /-- The settings. -/
  settings : Settings := {}
  /-- The errors. -/
  errors : List FieldError := []
  /-- While the entries of other mappings are taken over: the names that are given already. -/
  given : Option (List Bytes) := none

namespace Draft

/-- The draft with one part of the settings replaced by a value, if that could be read and is not
nothing. -/
def put {α : Type} (d : Draft) (set : Settings → α → Settings) (value : Yaml.Node.Read α) :
    Except Yaml.Trouble Draft :=
  value.map fun
    | .error errors => { d with errors := d.errors ++ errors }
    | .ok none => d
    | .ok (some v) => { d with settings := set d.settings v }

/-- Reads the value of a field. -/
def setField (anchors : List (Nat × Yaml.Node)) (d : Draft) (field : Field) (value : Yaml.Node) :
    Except Yaml.Trouble Draft :=
  let text := value.asScalar anchors .text Yaml.Node.textOf?
  match field with
  | .logLevel => d.put (fun s v => { s with logLevel := v }) text
  | .color => d.put (fun s v => { s with color := v }) text
  | .trailingNewline =>
    d.put (fun s v => { s with trailingNewline := v })
      (value.asScalar anchors .bool Yaml.Node.boolOf?)
  | .maxSteps =>
    d.put (fun s v => { s with maxSteps := v }) (value.asScalar anchors .int Yaml.Node.intOf?)
  | .maxSourceSize =>
    d.put (fun s v => { s with maxSourceSize := v })
      (value.asScalar anchors .int64 Yaml.Node.intOf?)
  | .inputPrompt => d.put (fun s v => { s with inputPrompt := v }) text
  | .sourceRoot => d.put (fun s v => { s with sourceRoot := v }) text

/-- Reads the entries of a mapping in order; `done` holds the fields that it has set. Keys that are
nothing, and names that are given already, are passed over. -/
def readEntries (anchors : List (Nat × Yaml.Node)) :
    (entries : List (Yaml.Node × Yaml.Node)) → (done : List Field) → Draft → Except Yaml.Trouble Draft
  | [], _, d => .ok d
  | (key, value) :: rest, done, d => do
    if key.isMerge then readEntries anchors rest done d
    else
      match ← key.asScalar anchors .text Yaml.Node.textOf? with
      | .error errors => readEntries anchors rest done { d with errors := d.errors ++ errors }
      | .ok none => readEntries anchors rest done d
      | .ok (some name) =>
        if d.given.any (·.contains name) then readEntries anchors rest done d
        else
          let d := { d with given := d.given.map (name :: ·) }
          match Field.ofName? name with
          | none =>
            readEntries anchors rest done { d with errors := d.errors ++ [.unknown key.line name] }
          | some field =>
            if done.contains field then
              readEntries anchors rest done
                { d with errors := d.errors ++ [.alreadySet key.line name] }
            else readEntries anchors rest (field :: done) (← d.setField anchors field value)

/-- The names that the keys of a mapping stand for. -/
def givenBy (anchors : List (Nat × Yaml.Node)) (entries : List (Yaml.Node × Yaml.Node)) : List Bytes :=
  entries.filterMap fun (key, _) =>
    match key.asScalar anchors .text Yaml.Node.ownText? with
    | .ok (.ok name) => name
    | _ => none

/-- The value of the key for the entries of other mappings. -/
def mergeValue? : List (Yaml.Node × Yaml.Node) → Option Yaml.Node
  | [] => none
  | (key, value) :: rest => if key.isMerge then some value else mergeValue? rest

/-- A value is smaller than the entries that it is found in. -/
theorem sizeOf_mergeValue? {entries : List (Yaml.Node × Yaml.Node)} {value : Yaml.Node}
    (h : mergeValue? entries = some value) : sizeOf value < sizeOf entries := by
  induction entries with
  | nil => simp [mergeValue?] at h
  | cons entry rest ih =>
    obtain ⟨key, other⟩ := entry
    by_cases hk : key.isMerge
    · simp only [mergeValue?, hk, if_true, Option.some.injEq] at h
      subst h
      simp
      omega
    · simp only [mergeValue?, hk] at h
      have := ih h
      simp
      omega

/-- Without an anchor that is listed, fewer anchors are left. -/
theorem length_without {free : List (Nat × Yaml.Node)} {anchor : Nat} {node : Yaml.Node}
    (h : free.lookup anchor = some node) :
    (free.filter fun entry => entry.1 != anchor).length < free.length := by
  induction free with
  | nil => simp at h
  | cons entry rest ih =>
    obtain ⟨number, other⟩ := entry
    by_cases hn : number = anchor
    · subst hn
      have := List.length_filter_le (fun entry : Nat × Yaml.Node => entry.1 != number) rest
      simp
      omega
    · have hne : (anchor == number) = false := by simp [Ne.symm hn]
      simp only [List.lookup_cons, hne] at h
      have hf : (number != anchor) = true := by simp [hn]
      simp only [List.filter_cons, hf, if_true, List.length_cons]
      exact Nat.succ_lt_succ (ih h)

mutual

/-- Reads a node into the settings. Mappings whose entries are taken over come after its own entries;
`free` holds the nodes with anchors that are not being read through a reference. -/
def readNode (anchors free : List (Nat × Yaml.Node)) (node : Yaml.Node) (d : Draft) :
    Except Yaml.Trouble Draft :=
  match node with
  | .reference _ name anchor =>
    match h : free.lookup anchor with
    | none => .error (.containsItself name)
    | some node =>
      have := length_without h
      readNode anchors (free.filter fun entry => entry.1 != anchor) node d
  | .mapping _ _ entries =>
    match Yaml.Node.duplicates (entries.map Prod.fst) with
    | [] =>
      match readEntries anchors entries [] d with
      | .error trouble => .error trouble
      | .ok d =>
        match h : mergeValue? entries with
        | none => .ok d
        | some value =>
          have := sizeOf_mergeValue? h
          let given := d.given.getD (givenBy anchors entries)
          let merged := merge anchors free value { d with given := some given }
          if d.given.isSome then merged else merged.map ({ · with given := none })
    | errors => .ok { d with errors := d.errors ++ errors }
  | node => d.put (fun s (_ : Unit) => s) (node.asScalar anchors .settings fun _ _ => none)
termination_by (free.length, sizeOf node, 0)
decreasing_by
  · exact Prod.Lex.left _ _ this
  · refine Prod.Lex.right _ (Prod.Lex.left _ _ ?_)
    simp
    omega

/-- Takes over the entries of a mapping, or of each mapping of a sequence. -/
def merge (anchors free : List (Nat × Yaml.Node)) (node : Yaml.Node) (d : Draft) :
    Except Yaml.Trouble Draft :=
  match node with
  | .sequence _ _ items => mergeAll anchors free items d
  | .mapping line tag entries => readNode anchors free (.mapping line tag entries) d
  | .reference line name anchor =>
    match anchors.lookup anchor with
    | some (.mapping _ _ _) => readNode anchors free (.reference line name anchor) d
    | _ => .error .mergeValue
  | .scalar _ _ _ => .error .mergeValue
termination_by (free.length, sizeOf node, 1)

/-- Takes over the entries of mappings, in order. -/
def mergeAll (anchors free : List (Nat × Yaml.Node)) (nodes : List Yaml.Node) (d : Draft) :
    Except Yaml.Trouble Draft :=
  match nodes with
  | [] => .ok d
  | .sequence _ _ _ :: _ => .error .mergeValue
  | node :: rest =>
    match merge anchors free node d with
    | .error trouble => .error trouble
    | .ok d => mergeAll anchors free rest d
termination_by (free.length, sizeOf nodes, 0)

end

end Draft

namespace Settings

/-- The settings that a document describes, on top of the defaults, and the errors in it. -/
def ofDocument (document : Yaml.Document) : Except Yaml.Trouble (Settings × List FieldError) :=
  (Draft.readNode document.anchors document.anchors document.root {}).map fun d =>
    (d.settings, d.errors)

/-- Reads settings, which need not be acceptable. Only the first document of the text counts, and where
there is none the defaults hold. -/
def read (text : Bytes) : Except SettingsError Settings :=
  match Yaml.firstDocument text with
  | .error problem => .error (.malformed problem)
  | .ok none => .ok {}
  | .ok (some document) =>
    match ofDocument document with
    | .error trouble => .error (.malformed ⟨trouble, none⟩)
    | .ok (s, []) => .ok s
    | .ok (_, errors) => .error (.fields errors)

end Settings

end LineScript
