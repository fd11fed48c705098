/-
# `EggLang.CommandLine.Settings` — settings from the environment

Three variables of the environment have a say, each of which may be unset:

    EGG_PATH             folders in which program files are looked for,
                         with colons between them; blank ones do not count
    EGG_LOG_LEVEL        the log level, in any case; WARNING if unset
    EGG_RECURSION_LIMIT  a bound on nesting; none if it is not positive

A program file that is not where its name says is looked for in the folders
in turn.  Whether there is something at a path is asked one path after another,
and only up to the first of which the answer is yes.  The search is written over
the monad that the answers are in, as there may be none: a system can refuse to
say, and that ends the search.
-/
import EggLang.Files.Path
import EggLang.Text.Blank
import EggLang.Text.Integer
import EggLang.Text.Quoted
import EggLang.Text.Upper

namespace EggLang

/-- The variables as they are set. -/
structure Settings where
  programPath : Option String
  logLevel : Option String
  recursionLimit : Option String

namespace Settings

/-- The entries of a list of folders: trimmed, and not blank. -/
def folderNames (raw : List Char) : List (List Char) :=
  ((Text.splitAt ':' raw).map Text.trim).filter fun name => name ≠ []

/-- The folders in which program files are looked for. -/
def roots (s : Settings) : List Path :=
  match s.programPath with
  | none => []
  | some raw => (folderNames raw.toList).map Path.ofChars

def levelName (s : Settings) : String :=
  Text.upper (s.logLevel.getD "WARNING")

/-- A bound on nesting that is no integer, in words. -/
def notInteger (raw : String) : String :=
  "EGG_RECURSION_LIMIT must be an integer, got " ++ Text.quotedString raw

/-- The bound on nesting, if one is set; otherwise why it cannot be read. -/
def nestingBound (s : Settings) : Except String (Option Int) :=
  match s.recursionLimit with
  | none => .ok none
  | some raw =>
      if raw.isEmpty then .ok none
      else
        match Text.integer? raw.toList with
        | none => .error (notInteger raw)
        | some n => .ok (if 0 < n then some n else none)

end Settings

/-- Looks for a program file: it is the name itself if that leads to something
or is absolute, else the first folder in which the name leads to something, else
the name itself. -/
def locateProgram {m : Type → Type} [Monad m] (isThere : Path → m Bool) (roots : List Path)
    (name : String) : m Path := do
  let path := Path.ofString name
  if (← isThere path) || path.isAbsolute then return path
  else return (← (roots.map fun root => root.join path).findM? isThere).getD path

/-- The path of a program file, where all that is asked is answered. -/
def resolveProgram (isThere : Path → Bool) (roots : List Path) (name : String) : Path :=
  Id.run (locateProgram (fun p => pure (isThere p)) roots name)

/-- Where every answer is known, the search is one through a list. -/
theorem resolveProgram_eq_find? (isThere : Path → Bool) (roots : List Path) (name : String) :
    resolveProgram isThere roots name =
      if isThere (Path.ofString name) || (Path.ofString name).isAbsolute then Path.ofString name
      else ((roots.map fun root => root.join (Path.ofString name)).find? isThere).getD
          (Path.ofString name) := by
  unfold resolveProgram locateProgram
  rw [pure_bind]
  split
  · rfl
  · rw [List.findM?_pure, pure_bind]
    rfl

end EggLang
