import LineScript.File.Path
import LineScript.Number.Decimal

/-!
# Files

What a path leads to, and a tree of files that answers it. Programs ask for a path in any form; the tree
walks it element by element, as a file system does, so `..` leads up only from a directory that exists.
-/

namespace LineScript

/-- Why a path leads nowhere. -/
inductive FileError where
  | notFound | notDirectory | nameTooLong | invalidName | denied
  deriving DecidableEq, Repr

/-- The text of a file error. -/
def FileError.text : FileError → Bytes
  | notFound => bytes "no such file or directory"
  | notDirectory => bytes "not a directory"
  | nameTooLong => bytes "file name too long"
  | invalidName => bytes "invalid argument"
  | denied => bytes "permission denied"

/-- What a path leads to. -/
inductive Entry where
  /-- A directory. -/
  | directory
  /-- A file with its size as it is listed and its content; a file of the system may list no size. -/
  | file (size : Nat) (content : Bytes)
  deriving DecidableEq, Repr

/-- Is the entry a directory? -/
def Entry.isDirectory : Entry → Bool
  | directory => true
  | file _ _ => false

/-- A tree of files, given by the entries in it. The directories above an entry are there as well. -/
structure FileTree where
  /-- The entries by the elements of their paths, from the root. -/
  entries : List (List Bytes × Entry)
  /-- The elements of the working directory. -/
  workDir : List Bytes

namespace FileTree

/-- The entry at a place given by its elements. -/
def entry? (t : FileTree) (place : List Bytes) : Option Entry :=
  match t.entries.find? fun e => e.1 == place with
  | some e => some e.2
  | none => if t.entries.any fun e => place.isPrefixOf e.1 then some .directory else none

/-- Follows the elements of a path from a place. -/
def walk (t : FileTree) (place : List Bytes) : List Bytes → Except FileError Entry
  | [] => (t.entry? place).elim (.error .notFound) .ok
  | e :: rest =>
    match t.entry? place with
    | some .directory =>
      if e = [] ∨ e = Path.here then t.walk place rest
      else if e = Path.above then t.walk place.dropLast rest
      else if 255 < e.length then .error .nameTooLong
      else t.walk (place ++ [e]) rest
    | some (.file _ _) => .error .notDirectory
    | none => .error .notFound

/-- What a path leads to. -/
def look (t : FileTree) (path : Bytes) : Except FileError Entry :=
  if path = [] then .error .notFound
  else if path.contains 0 then .error .invalidName
  else if 4096 ≤ path.length then .error .nameTooLong
  else t.walk (if Path.isAbsolute path then [] else t.workDir) (Path.elements path)

end FileTree

end LineScript
