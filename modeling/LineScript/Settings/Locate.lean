import LineScript.Settings.Decode
import LineScript.File.Tree

/-!
# Finding settings

Settings come from the file that is named for the run, or else from the one that the environment names,
or else from the first of two usual places where there is one; when there is none at all the defaults
hold. A file that is named has to be there.

Files are looked at through a function `look`, so the same search runs on a file system and on a
`FileTree`.
-/

namespace LineScript

/-- Where a run takes place. -/
structure Surroundings where
  /-- The working directory. -/
  workDir : Bytes
  /-- The home directory. -/
  home : Bytes
  /-- The settings file that the environment names. -/
  named : Option Bytes
  deriving DecidableEq, Repr

/-- A remark about the search for settings. -/
inductive Remark where
  /-- The file is named for the run. -/
  | given (path : Bytes)
  /-- The file is named by the environment. -/
  | variableGiven (path : Bytes)
  /-- There is nothing at a usual place. -/
  | inaccessible (path : Bytes) (error : FileError)
  /-- A usual place is taken. -/
  | fallback (path : Bytes)
  deriving DecidableEq, Repr

/-- The text of a remark. -/
def Remark.text : Remark → Bytes
  | given path => bytes "using --config as config path: " ++ path
  | variableGiven path => bytes "using $ROSCRIPT_CONFIG as config path: " ++ path
  | inaccessible path error =>
    bytes "'" ++ path ++ bytes "' cannot be accessed: stat " ++ path ++ bytes ": " ++ error.text
  | fallback path => bytes "using fallback config path: " ++ path

/-- Why settings cannot be loaded. -/
inductive LocateError where
  /-- The path begins with the home directory of another user. -/
  | foreignHome (path : Bytes)
  /-- The path leads nowhere. -/
  | unopened (path : Bytes) (error : FileError)
  /-- The file cannot be read as settings. -/
  | refused (path : Bytes) (error : SettingsError)
  deriving DecidableEq, Repr

namespace LocateError

/-- The message of an error. -/
def message : LocateError → Bytes
  | foreignHome path =>
    bytes "config: expand " ++ path ++ bytes ": cannot expand user-specific home dir"
  | unopened path error => bytes "config: open: open " ++ path ++ bytes ": " ++ error.text
  | refused path error => path ++ bytes ": " ++ error.message

/-- Are the settings well formed but not acceptable? -/
def isInvalid : LocateError → Bool
  | refused _ (.invalid _) => true
  | _ => false

end LocateError

namespace Surroundings

/-- The usual places of the settings file, in the order of the search. -/
def usualPlaces (s : Surroundings) : List Bytes :=
  [Path.join [s.workDir, bytes "roscript.yaml"], Path.join [s.home, bytes ".roscript.yaml"]]

/-- The path with a leading `~` replaced by the home directory; `none` when another user's is meant. -/
def expandHome? (s : Surroundings) : Bytes → Option Bytes
  | 0x7e :: rest =>
    match rest with
    | [] => some (Path.join [s.home, []])
    | b :: _ => if b = 0x2f || b = 0x5c then some (Path.join [s.home, rest]) else none
  | path => some path

end Surroundings

namespace Settings

variable {m : Type → Type} [Monad m] (look : Bytes → m (Except FileError Entry))

/-- What is wrong with settings where the run takes place. -/
def check (s : Settings) : m (List Issue) := do
  if s.sourceRoot.isEmpty then return s.issues true
  match ← look s.sourceRoot with
  | .ok .directory => return s.issues true
  | _ => return s.issues false

/-- The settings if nothing is wrong with them. -/
def accept (s : Settings) : m (Except SettingsError Settings) := do
  match ← s.check look with
  | [] => return .ok s
  | issues => return .error (.invalid issues)

/-- Reads acceptable settings. -/
def decode (text : Bytes) : m (Except SettingsError Settings) :=
  match read text with
  | .error error => return .error error
  | .ok s => s.accept look

/-- Loads the settings file at a path. -/
def load (around : Surroundings) (path : Bytes) : m (Except LocateError Settings) := do
  match around.expandHome? path with
  | none => return .error (.foreignHome path)
  | some path =>
    match ← look path with
    | .error error => return .error (.unopened path error)
    | .ok .directory => return .error (.refused path (.directory path))
    | .ok (.file _ content) => return (← decode look content).mapError (.refused path)

/-- The first of the places where there is something, with the remarks on the way. -/
def findAmong : List Bytes → m (Option Bytes × List Remark)
  | [] => return (none, [])
  | path :: rest => do
    match ← look path with
    | .ok _ => return (some path, [.fallback path])
    | .error error =>
      let (found, remarks) ← findAmong rest
      return (found, .inaccessible path error :: remarks)

/-- The settings file of a run, if there is one; `given` is the one named for the run, or empty. -/
def find (around : Surroundings) (given : Bytes) : m (Option Bytes × List Remark) :=
  if !given.isEmpty then return (some given, [.given given])
  else
    match around.named with
    | some (b :: path) => return (some (b :: path), [.variableGiven (b :: path)])
    | _ => findAmong look around.usualPlaces

/-- The settings of a run, with the remarks on the search. -/
def locate (around : Surroundings) (given : Bytes) :
    m (Except LocateError Settings × List Remark) := do
  let (path, remarks) ← find look around given
  match path with
  | none => return (.ok {}, remarks)
  | some path => return (← load look around path, remarks)

end Settings

end LineScript
