/-
# `EggLang.CommandLine.Command` — the command

The command runs program files and then program texts, all in one session,
each in a frame of its own.  After each it prints the display of its value,
unless told not to.  The first failure ends the command:

    a file that cannot be read      a line in the log          status 1
    a fault of the language         the fault on error output  status 1
    nested too deeply               a line on error output     status 1
    any other fault                 is passed on to the caller

All files are looked for before the first of them is run.  If the system does
not say whether there is something at a path, this is passed on to the caller
as well, and no job is begun.

Arguments or settings that cannot be followed give the usage line and, if
there is something to say, a message, with status 2.  So does a command that
is asked to do nothing.

The bound on nesting that EGG_RECURSION_LIMIT asks for is put into the report
and is not applied here: what evaluations may use is given by `limits`.  A host
that applies it refuses a bound from 2 to the power 31 on and one below the depth
that it is at; this is not modelled, and neither is the depth that writing a line
of the log takes.
-/
import EggLang.CommandLine.Log
import EggLang.CommandLine.Options
import EggLang.CommandLine.Settings
import EggLang.Files.Folder
import EggLang.Session

namespace EggLang.CommandLine

/-! ## Texts -/

def usage : String :=
  "usage: egg [-h] [-e CODE] [-q] [--log-level LOG_LEVEL] [files ...]\n"

def helpText : String :=
  usage ++
  "\nRun Egg programs.\n\n" ++
  "positional arguments:\n" ++
  "  files                 program files to run, in order, before any -e code\n\n" ++
  "options:\n" ++
  "  -h, --help            show this help message and exit\n" ++
  "  -e CODE, --eval CODE  program text to run after the files (may be repeated)\n" ++
  "  -q, --quiet           do not print the final value of each program\n" ++
  "  --log-level LOG_LEVEL\n" ++
  "                        logging level (default: $EGG_LOG_LEVEL or WARNING)\n"

/-! ## Reports -/

/-- Why a program cannot be had. -/
inductive OpenFault where
  /-- There is no such file. -/
  | missing
  /-- It is a folder. -/
  | isFolder
  /-- A part of its path before the last one is a file. -/
  | throughFile
  /-- Links on its path lead round in a circle. -/
  | circle
  /-- It may not be opened, or a folder on its path may not be entered. -/
  | denied
  /-- Its path, or a part of it, is too long. -/
  | longName
  /-- No file can have its name. -/
  | badName
  /-- It was given without a text. -/
  | noText
deriving DecidableEq

namespace OpenFault

/-- The reason in words; the system's own have a number. -/
def text : OpenFault → String
  | .missing => "[Errno 2] No such file or directory"
  | .isFolder => "[Errno 21] Is a directory"
  | .throughFile => "[Errno 20] Not a directory"
  | .circle => "[Errno 40] Too many levels of symbolic links"
  | .denied => "[Errno 13] Permission denied"
  | .longName => "[Errno 36] File name too long"
  | .badName => "embedded null byte"
  | .noText => "sequence item 0: expected str instance, list found"

/-- The command does not deal with it. -/
def escapes : OpenFault → Bool
  | .badName => true
  | .noText => true
  | _ => false

end OpenFault

/-- A fault that the command does not deal with. -/
inductive Escape where
  | fault (f : Fault)
  | unopened (f : OpenFault)
  /-- It is not known whether there is something at the path. -/
  | unlocated (f : OpenFault) (path : Path)
deriving DecidableEq

/-- The escaped fault in words; the system's own name the path. -/
def Escape.message : Escape → String
  | .fault f => f.message
  | .unopened f => f.text
  | .unlocated f path => f.text ++ ": " ++ Text.quotedString path.text

/-- How the command ends. -/
inductive Ending where
  | status (code : Nat)
  | escaped (e : Escape)
deriving DecidableEq

/-- What the command has written, the bounds on nesting it has asked for,
and how it ends. -/
structure Report where
  ending : Ending
  out : String
  err : List Notice
  bounds : List Int

namespace Report

def errText (r : Report) : String := String.join (r.err.map Notice.line)

def help : Report := ⟨.status 0, helpText, [], []⟩

/-- The arguments cannot be followed. -/
def wrong (message : String) : Report :=
  ⟨.status 2, "", [.text usage, .text ("egg: error: " ++ message ++ "\n")], []⟩

def idle (bounds : List Int) : Report := ⟨.status 2, "", [.text usage], bounds⟩

def unbegun (bounds : List Int) (e : Escape) : Report := ⟨.escaped e, "", [], bounds⟩

end Report

/-! ## Jobs -/

/-- A program to run: a file by its path, or a text, if there is one. -/
inductive Job where
  | file (path : Path)
  | code (source : Option String)

def Job.name : Job → String
  | .file path => path.text
  | .code _ => "<eval>"

/-- Why the system does not say whether there is something. -/
def refusal? : Found → Option OpenFault
  | .denied => some .denied
  | .longName => some .longName
  | _ => none

/-- Whether there is something at a path, unless the system does not say. -/
def isThere (look : Path → Found) (p : Path) : Except Escape Bool :=
  match refusal? (look p) with
  | some f => .error (.unlocated f p)
  | none => .ok (look p).isSome

/-- The jobs of a command: the files and then the texts. -/
def jobs (look : Path → Found) (roots : List Path) (o : Options) : Except Escape (List Job) := do
  let paths ← o.files.mapM (locateProgram (isThere look) roots)
  return paths.map .file ++ o.code.map .code

def bytesOf : Found → Except OpenFault (List UInt8)
  | .file bytes => .ok bytes
  | .folder => .error .isFolder
  | .nothing => .error .missing
  | .throughFile => .error .throughFile
  | .circle => .error .circle
  | .badName => .error .badName
  | .locked => .error .denied
  | .denied => .error .denied
  | .longName => .error .longName

/-- The program of a job: its source, or the fault that there is none. -/
def Job.source (look : Path → Found) : Job → Except OpenFault (Except Fault String)
  | .code (some source) => .ok (.ok source)
  | .code none => .error .noText
  | .file path => (bytesOf (look path)).map Session.fileText

/-- What the log says while a source is read and evaluated. -/
def sourceLog (depth : Nat) (source : String) : List Notice :=
  let reading := Entry.debug .reader ("Parsing " ++ source.length.repr ++ " characters of source")
  match Expr.read depth source with
  | .ok _ => [.log reading, .log (.debug .session "Evaluating program in frame at depth 1")]
  | .error _ => [.log reading]

/-- What the log says before a file is opened. -/
def Job.openingLog : Job → List Notice
  | .file path => [.log (.debug .session ("Running " ++ path.text))]
  | .code _ => []

/-- What the log says of a file that cannot be opened. -/
def unreadable (name : String) (f : OpenFault) : Notice :=
  .log ⟨.error, .command,
    "Cannot read " ++ name ++ ": " ++ f.text ++ ": " ++ Text.quotedString name⟩

/-- How a job ends: with the text of its value, or with the command. -/
inductive JobEnding where
  | value (text : String)
  | failed (ending : Ending)

/-- What one job has printed and told, and how it ends. -/
structure JobReport where
  printed : String
  notices : List Notice
  ending : JobEnding

/-- How a fault of a job ends the command. -/
def endingOf (f : Fault) : Ending :=
  if f.family.name?.isSome || f = .tooDeep then .status 1 else .escaped (.fault f)

/-- What is told of a fault of a job. -/
def noticesOf (name : String) (f : Fault) : List Notice :=
  match f.family.name? with
  | some family => [.text (family ++ ": " ++ f.message ++ "\n")]
  | none =>
      if f = .tooDeep then [.text ("RecursionError: " ++ f.message ++ " in " ++ name ++ "\n")]
      else []

/-- Runs a source and takes the display of its value, unless `quiet`. -/
def runSource (limits : Limits) (quiet : Bool) (source : String) : Run String := do
  let v ← Session.runSource .core limits source
  if quiet then return "" else
    let text ← Run.ofExcept (v.display limits.depth false)
    return text ++ "\n"

def printedBy (before after : Store) : String :=
  { after with printed := after.printed.extract before.printed.size }.output

/-- The report of a job that has come to run its source. -/
def ranReport (job : Job) (notices : List Notice) (printed : String) :
    Except Fault String → JobReport
  | .ok text => ⟨printed, notices, .value text⟩
  | .error f => ⟨printed, notices ++ noticesOf job.name f, .failed (endingOf f)⟩

def runJob (look : Path → Found) (limits : Limits) (quiet : Bool) (job : Job) (s : Store) :
    JobReport × Store :=
  match job.source look with
  | .error f =>
      if f.escapes then (⟨"", job.openingLog, .failed (.escaped (.unopened f))⟩, s)
      else (⟨"", job.openingLog ++ [unreadable job.name f], .failed (.status 1)⟩, s)
  | .ok (.error f) => (ranReport job job.openingLog "" (.error f), s)
  | .ok (.ok source) =>
      let (r, t) := runSource limits quiet source s
      (ranReport job (job.openingLog ++ sourceLog limits.depth source) (printedBy s t) r, t)

/-- Runs jobs up to the first one that fails. -/
def runJobs (look : Path → Found) (limits : Limits) (quiet : Bool) :
    List Job → Store → List JobReport
  | [], _ => []
  | job :: rest, s =>
      let (r, s) := runJob look limits quiet job s
      match r.ending with
      | .failed _ => [r]
      | .value _ => r :: runJobs look limits quiet rest s

def JobReport.out (r : JobReport) : String :=
  match r.ending with
  | .value text => r.printed ++ text
  | .failed _ => r.printed

def lastEnding : List JobReport → Ending
  | [] => .status 0
  | r :: rest =>
      match r.ending with
      | .failed ending => ending
      | .value _ => lastEnding rest

def Report.ofJobs (level : Level) (bounds : List Int) (reports : List JobReport) : Report where
  ending := lastEnding reports
  out := String.join (reports.map JobReport.out)
  err := (reports.flatMap JobReport.notices).filter (Notice.passes level)
  bounds := bounds

/-! ## The command -/

/-- The bounds for a command that asks for the given bound on nesting, or
for none: every evaluation inside another one counts twice against it. -/
def limitsFor (bound : Option Int) : Limits :=
  ⟨(bound.getD 1000).toNat / 2, 1000000000000000000⟩

/-- The name of the log level: that of the option unless it is empty, else
that of the setting. -/
def levelName (settings : Settings) (o : Options) : String :=
  match o.logLevel with
  | none => settings.levelName
  | some name => if name.isEmpty then settings.levelName else Text.upper name

/-- Follows arguments that could be read. -/
def follow (look : Path → Found) (limits : Limits) (settings : Settings) (o : Options) : Report :=
  match Level.ofName? (levelName settings o) with
  | none => .wrong ("unknown log level: " ++ levelName settings o)
  | some level =>
      match settings.nestingBound with
      | .error message => .wrong message
      | .ok bound =>
          if o.files.isEmpty && o.code.isEmpty then .idle bound.toList
          else
            match jobs look settings.roots o with
            | .error e => .unbegun bound.toList e
            | .ok todo =>
                .ofJobs level bound.toList (runJobs look limits o.quiet todo Session.start)

/-- What the command does for its arguments, given the settings and what
paths lead to. -/
def run (look : Path → Found) (limits : Limits) (settings : Settings) (argv : List String) :
    Report :=
  match Options.ofArgs argv with
  | .error .help => .help
  | .error (.wrong message) => .wrong message
  | .ok o => follow look limits settings o

end EggLang.CommandLine
