import LineScript.Bytes

/-!
# Paths

Paths are byte strings whose elements are separated by slashes. Cleaning works on the text alone: empty
elements and `.` are dropped, and `..` takes away the element before it, or nothing at the root.
-/

namespace LineScript.Path

/-- The byte between two elements. -/
def separator : UInt8 := 0x2f

/-- The element that stands for the directory itself. -/
def here : Bytes := bytes "."

/-- The element that stands for the directory above. -/
def above : Bytes := bytes ".."

/-- Does the path start at the root? -/
def isAbsolute (path : Bytes) : Bool := path.head? == some separator

/-- The elements of a path. -/
def elements (path : Bytes) : List Bytes := path.splitOn separator

/-- The elements with `.` and `..` worked in; `kept` holds the ones so far, last first. -/
def settle (rooted : Bool) : (kept : List Bytes) → List Bytes → List Bytes
  | kept, [] => kept.reverse
  | kept, e :: rest =>
    if e = [] ∨ e = here then settle rooted kept rest
    else if e = above then
      match kept with
      | [] => settle rooted (if rooted then [] else [e]) rest
      | last :: before =>
        if last = above then settle rooted (e :: kept) rest else settle rooted before rest
    else settle rooted (e :: kept) rest

/-- The shortest path with the same meaning. -/
def clean (path : Bytes) : Bytes :=
  let rooted := isAbsolute path
  let body := List.intercalate [separator] (settle rooted [] (elements path))
  if rooted then separator :: body else if body.isEmpty then here else body

/-- Paths put one after the other, cleaned; empty ones in front are left out. -/
def join (parts : List Bytes) : Bytes :=
  match parts.dropWhile List.isEmpty with
  | [] => []
  | parts => clean (List.intercalate [separator] parts)

/-- The cleaned absolute form of a path that is relative to `workDir`. -/
def absolute (workDir path : Bytes) : Bytes :=
  if isAbsolute path then clean path else join [workDir, path]

end LineScript.Path
