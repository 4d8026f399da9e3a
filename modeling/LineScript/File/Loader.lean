import LineScript.File.Tree

/-!
# Loading scripts

A loader may be bound to a root directory: then every path is taken as one below the root, and no number
of `..` leads out of it. Files above a size limit are refused, by their listed size and again by what is
read of them.
-/

namespace LineScript

/-- Where scripts are looked for and how large they may be. -/
structure Loader where
  /-- The directory that paths are bound to; empty when they are not. -/
  root : Bytes
  /-- The greatest size. -/
  maxSize : Int64
  deriving DecidableEq, Repr

/-- Why a script is not loaded. -/
inductive LoadError where
  /-- The path leads nowhere; `opened` is the path that was tried. -/
  | unreadable (path opened : Bytes) (error : FileError)
  /-- The path leads to a directory. -/
  | directory (path : Bytes)
  /-- The listed size is too large. -/
  | tooLarge (path : Bytes) (size : Nat) (limit : Int64)
  /-- More was read than is allowed. -/
  | exceeds (path : Bytes) (limit : Int64)
  deriving DecidableEq, Repr

namespace LoadError

/-- Was there no script, as opposed to one that is too large? -/
def isMissing : LoadError → Bool
  | unreadable .. | directory _ => true
  | tooLarge .. | exceeds .. => false

/-- The message of a load error. -/
def message : LoadError → Bytes
  | unreadable path opened error =>
    path ++ bytes ": open " ++ opened ++ bytes ": " ++ error.text ++ bytes ": source not found"
  | directory path => path ++ bytes " is a directory: source not found"
  | tooLarge path size limit =>
    path ++ bytes " is " ++ decimal size ++ bytes " bytes, limit " ++ signedDecimal limit.toInt
      ++ bytes ": source file too large"
  | exceeds path limit =>
    path ++ bytes " exceeds " ++ signedDecimal limit.toInt ++ bytes " bytes: source file too large"

end LoadError

namespace Loader

/-- The size limit when none is set. -/
def defaultMaxSize : Int64 := 1048576

/-- A loader for a root relative to the working directory; a size limit that is not positive stands for
the default. -/
def new (workDir root : Bytes) (maxSize : Int64) : Loader where
  root := if root.isEmpty then [] else Path.absolute workDir root
  maxSize := if maxSize ≤ 0 then defaultMaxSize else maxSize

/-- The path that is opened for a script. -/
def resolve (l : Loader) (path : Bytes) : Bytes :=
  if l.root.isEmpty then path
  else Path.join [l.root, Path.clean (Path.separator :: path)]

/-- The script, given what its path leads to. At most one byte more than the limit is read. -/
def receive (l : Loader) (path : Bytes) : Except FileError Entry → Except LoadError Bytes
  | .error error => .error (.unreadable path (l.resolve path) error)
  | .ok .directory => .error (.directory path)
  | .ok (.file size content) =>
    if l.maxSize.toInt < size then .error (.tooLarge path size l.maxSize)
    else
      let data := content.take (l.maxSize + 1).toInt.toNat
      if l.maxSize.toInt < data.length then .error (.exceeds path l.maxSize) else .ok data

/-- Loads a script. -/
def load {m : Type → Type} [Monad m] (l : Loader) (look : Bytes → m (Except FileError Entry))
    (path : Bytes) : m (Except LoadError Bytes) := do
  return l.receive path (← look (l.resolve path))

end Loader

end LineScript
