/-
# `EggLang.CommandLine.Log` — log levels and lines

The command writes lines about what it does to its error output, among
other texts.  A line has a severity, and is written if this is not below the
level asked for; the other texts are always written.
-/

namespace EggLang.CommandLine

/-- The severities of lines, and the levels that let them through. -/
inductive Level where
  | all
  | debug
  | info
  | warning
  | error
  | critical
deriving DecidableEq

namespace Level

/-- The names of levels; two of them have two. -/
def table : List (String × Level) :=
  [("CRITICAL", .critical), ("FATAL", .critical), ("ERROR", .error), ("WARN", .warning),
    ("WARNING", .warning), ("INFO", .info), ("DEBUG", .debug), ("NOTSET", .all)]

/-- The level of a name in capital letters. -/
def ofName? (name : String) : Option Level :=
  (table.find? fun l => l.1 == name).map Prod.snd

/-- Levels as numbers, the most severe the highest. -/
def rank : Level → Nat
  | .all => 0
  | .debug => 10
  | .info => 20
  | .warning => 30
  | .error => 40
  | .critical => 50

end Level

/-- The parts of the program that write lines. -/
inductive Speaker where
  | command
  | session
  | reader

def Speaker.name : Speaker → String
  | .command => "egg.cli"
  | .session => "egg.interpreter"
  | .reader => "egg.reader.parser"

structure Entry where
  severity : Level
  speaker : Speaker
  text : String

namespace Entry

/-- A line about what is going on. -/
def debug (speaker : Speaker) (text : String) : Entry := ⟨.debug, speaker, text⟩

def word : Level → String
  | .all => "NOTSET"
  | .debug => "DEBUG"
  | .info => "INFO"
  | .warning => "WARNING"
  | .error => "ERROR"
  | .critical => "CRITICAL"

def line (e : Entry) : String :=
  word e.severity ++ " " ++ e.speaker.name ++ ": " ++ e.text ++ "\n"

def passes (level : Level) (e : Entry) : Bool := level.rank ≤ e.severity.rank

end Entry

/-- A piece of error output: a line of the log, or a text that no level
holds back. -/
inductive Notice where
  | log (e : Entry)
  | text (s : String)

namespace Notice

def passes (level : Level) : Notice → Bool
  | .log e => e.passes level
  | .text _ => true

def line : Notice → String
  | .log e => e.line
  | .text s => s

end Notice

end EggLang.CommandLine
