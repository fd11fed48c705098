/-
# `EggLang.Main` — the command line program

The outer layer: it reads the environment and every file that the command
may want, calls `CommandLine.run`, and writes what that returns.
-/
import EggLang.CommandLine.Command

namespace EggLang

/-- The system's code, in either sign. -/
def isCode (expected code : UInt32) : Bool := code == expected || 0 - code == expected

/-- What a path leads to on this machine. -/
def lookOnDisk (p : Path) : IO Found := do
  if p.chars.contains '\x00' then return .badName
  try
    let bytes ← IO.FS.readBinFile p.text
    return .file bytes.toList
  catch
    | .inappropriateType _ code _ =>
        return if isCode 21 code then .folder else .throughFile
    | .invalidArgument _ code _ =>
        return if isCode 36 code then .longName else if isCode 40 code then .circle else .nothing
    | .permissionDenied _ _ _ =>
        -- a path that can be walked leads to something
        try
          let _ ← IO.FS.realPath p.text
          return .locked
        catch _ => return .denied
    | _ => return .nothing

/-- All paths that a command may ask for. -/
def wantedPaths (settings : Settings) (argv : List String) : List Path :=
  match CommandLine.Options.ofArgs argv with
  | .error _ => []
  | .ok o => o.files.flatMap fun name =>
      let path := Path.ofString name
      path :: settings.roots.map fun root => root.join path

/-- What the given paths lead to on this machine. -/
def lookAll (paths : List Path) : IO (List (Path × Found)) :=
  paths.mapM fun p => return (p, ← lookOnDisk p)

/-- The settings of this machine's environment. -/
def settingsFromEnvironment : IO Settings :=
  return ⟨← IO.getEnv "EGG_PATH", ← IO.getEnv "EGG_LOG_LEVEL", ← IO.getEnv "EGG_RECURSION_LIMIT"⟩

/-- The status of an ending; an escaped fault is told on the error output. -/
def conclude : CommandLine.Ending → IO UInt32
  | .status code => return code.toUInt32
  | .escaped e => do
      IO.eprintln e.message
      return 1

def runCommand (argv : List String) : IO UInt32 := do
  let settings ← settingsFromEnvironment
  let seen ← lookAll (wantedPaths settings argv)
  let look := fun p => ((seen.find? fun s => s.1 == p).map Prod.snd).getD .nothing
  let limits := CommandLine.limitsFor (settings.nestingBound.toOption.getD none)
  let report := CommandLine.run look limits settings argv
  IO.print report.out
  IO.eprint report.errText
  conclude report.ending

end EggLang

def main (argv : List String) : IO UInt32 := EggLang.runCommand argv
