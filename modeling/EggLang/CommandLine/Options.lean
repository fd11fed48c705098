/-
# `EggLang.CommandLine.Options` — what the arguments ask for

The command takes files and options, in any order, except that all files
stand together.

    -e CODE, --eval CODE    a program text; may be repeated
    -q, --quiet             do not print the values of programs
    --log-level LOG_LEVEL   the log level
    -h, --help              print a help text and stop

An argument that begins with a hyphen is an option, unless it is the hyphen
alone, a negative number, holds a space, or stands after `--`; of these only
what names no option counts.  A long option may be cut short as long as one
option is meant, and takes its value after `=` or as the next argument.  A
short one takes it right behind its letter, after `=` or as the next
argument.  Behind a short option without a value stand the letters of
further ones; the equals sign is passed over only behind the first letter.
A value that is two hyphens is no value: nothing is set, and there is no
text to run.

Arguments are first sorted one by one, then taken in order; `-h` stops at
once, an argument that is out of place only when all have been taken.
-/
import EggLang.Text.Integer
import EggLang.Text.Quoted

namespace EggLang.CommandLine

/-- The options by what they do. -/
inductive Flag where
  | help
  | eval
  | quiet
  | logLevel
deriving DecidableEq

namespace Flag

def takesValue : Flag → Bool
  | .eval => true
  | .logLevel => true
  | _ => false

/-- The names of an option as messages give them. -/
def names : Flag → String
  | .help => "-h/--help"
  | .eval => "-e/--eval"
  | .quiet => "-q/--quiet"
  | .logLevel => "--log-level"

def longNames : List (List Char × Flag) :=
  [("--help".toList, .help), ("--eval".toList, .eval), ("--quiet".toList, .quiet),
    ("--log-level".toList, .logLevel)]

def ofLetter? : Char → Option Flag
  | 'h' => some .help
  | 'e' => some .eval
  | 'q' => some .quiet
  | _ => none

end Flag

/-- An argument by its shape. -/
inductive Arg where
  /-- Not an option. -/
  | plain (text : List Char)
  /-- The first `--`. -/
  | dashes
  /-- A short or long option, perhaps with something attached to it. -/
  | option (flag : Flag) (short : Bool) (attached : Option (List Char))
  /-- Looks like an option, but is none. -/
  | unknown (text : List Char)

/-! ## Sorting -/

/-- The part before the first equals sign, and the part after it. -/
def cutAtEquals (cs : List Char) : List Char × Option (List Char) :=
  match cs.dropWhile (· ≠ '=') with
  | [] => (cs, none)
  | _ :: value => (cs.takeWhile (· ≠ '='), some value)

/-- A text of one or more digits. -/
def isDigits (cs : List Char) : Bool :=
  !cs.isEmpty && cs.all fun c => (Text.digitValue? c).isSome

/-- A hyphen and a decimal number, perhaps with a line end after it. -/
def isNegativeNumber (cs : List Char) : Bool :=
  match cs with
  | '-' :: body =>
      let body := if body.getLast? = some '\n' then body.dropLast else body
      match body.dropWhile (· ≠ '.') with
      | [] => isDigits body
      | _ :: fraction =>
          (body.takeWhile (· ≠ '.')).all (fun c => (Text.digitValue? c).isSome) &&
            isDigits fraction
  | _ => false

/-- The options whose long names begin with the given text. -/
def longMatches (start : List Char) : List (List Char × Flag) :=
  Flag.longNames.filter fun n => start.isPrefixOf n.1

/-- An argument that names no option. -/
def sortOther (cs : List Char) : Arg :=
  if isNegativeNumber cs || cs.contains ' ' then .plain cs else .unknown cs

def ambiguous (cs : List Char) (found : List (List Char × Flag)) : String :=
  "ambiguous option: " ++ String.ofList cs ++ " could match " ++
    ", ".intercalate (found.map fun n => String.ofList n.1)

/-- An argument that begins with two hyphens and has more. -/
def sortLong (cs : List Char) : Except String Arg :=
  let (name, attached) := cutAtEquals cs
  match Flag.longNames.find? fun n => n.1 == name with
  | some (_, flag) => .ok (.option flag false attached)
  | none =>
      match longMatches name with
      | [] => .ok (sortOther cs)
      | [(_, flag)] => .ok (.option flag false attached)
      | found => .error (ambiguous cs found)

/-- What is attached to the letter of a short option. -/
def attachedTo : List Char → Option (List Char)
  | [] => none
  | '=' :: value => some value
  | value => some value

/-- Sorts an argument that stands before any `--`. -/
def sortArg (cs : List Char) : Except String Arg :=
  match cs with
  | '-' :: '-' :: _ => sortLong cs
  | '-' :: letter :: rest =>
      match Flag.ofLetter? letter with
      | some flag => .ok (.option flag true (attachedTo rest))
      | none => .ok (sortOther cs)
  | _ => .ok (.plain cs)

def sortArgs : List (List Char) → Except String (List Arg)
  | [] => .ok []
  | cs :: rest =>
      if cs = ['-', '-'] then .ok (.dashes :: rest.map .plain)
      else do
        let arg ← sortArg cs
        let args ← sortArgs rest
        .ok (arg :: args)

/-! ## Taking -/

/-- What the arguments ask for.  A program that is given without a text is
`none`. -/
structure Options where
  files : List String
  code : List (Option String)
  quiet : Bool
  logLevel : Option String
deriving DecidableEq

/-- What has been taken so far; `placed` once the files have been. -/
structure Taken where
  options : Options
  placed : Bool
  extras : List String

def Taken.none : Taken := ⟨⟨[], [], false, .none⟩, false, []⟩

/-- Why the arguments cannot be followed, or that help is asked for. -/
inductive Refusal where
  | help
  | wrong (message : String)
deriving DecidableEq

def about (flag : Flag) (message : String) : Refusal :=
  .wrong ("argument " ++ flag.names ++ ": " ++ message)

/-- An option without a value got one. -/
def ignored (flag : Flag) (value : List Char) : Refusal :=
  about flag ("ignored explicit argument " ++ String.ofList (Text.quoted value))

/-- The options that share one argument; the last of them may still want the
next argument for its value. -/
structure Group where
  flags : List (Flag × Option (List Char))
  wanting : Option Flag

/-- One more option, in front. -/
def Group.add (flag : Flag) (g : Group) : Group := { g with flags := (flag, none) :: g.flags }

/-- An option to which nothing is attached. -/
def bareGroup (flag : Flag) : Group :=
  if flag.takesValue then ⟨[], some flag⟩ else ⟨[(flag, none)], none⟩

/-- A long option with a value attached to it. -/
def longGroup (flag : Flag) (value : List Char) : Except Refusal Group :=
  if flag.takesValue then .ok ⟨[(flag, some value)], none⟩ else .error (ignored flag value)

/-- A short option with its value, or with the letters of further options,
attached to it. -/
def shortGroup (flag : Flag) : List Char → Except Refusal Group
  | [] => longGroup flag []
  | letter :: rest =>
      if flag.takesValue then longGroup flag (letter :: rest)
      else
        match Flag.ofLetter? letter with
        | none => .error (ignored flag (letter :: rest))
        | some next =>
            if rest.isEmpty then .ok ((bareGroup next).add flag)
            else (shortGroup next rest).map (Group.add flag)

def group (flag : Flag) (short : Bool) : Option (List Char) → Except Refusal Group
  | none => .ok (bareGroup flag)
  | some attached => if short then shortGroup flag attached else longGroup flag attached

/-- The text of a value; two hyphens are none. -/
def valueText? (value : List Char) : Option String :=
  if value = ['-', '-'] then none else some (String.ofList value)

def takeFlag (t : Taken) : Flag × Option (List Char) → Except Refusal Taken
  | (.help, _) => .error .help
  | (.quiet, _) => .ok { t with options := { t.options with quiet := true } }
  | (.eval, value) =>
      let code := t.options.code ++ [value.bind valueText?]
      .ok { t with options := { t.options with code := code } }
  | (.logLevel, value) =>
      .ok { t with options := { t.options with logLevel := value.bind valueText? } }

def takeFlags (t : Taken) : List (Flag × Option (List Char)) → Except Refusal Taken
  | [] => .ok t
  | f :: fs => do takeFlags (← takeFlag t f) fs

/-- An argument that is left over. -/
def leave (t : Taken) (cs : List Char) : Taken :=
  { t with extras := t.extras ++ [String.ofList cs] }

/-- The argument is a file, or `--`. -/
def Arg.isFile : Arg → Bool
  | .plain _ => true
  | .dashes => true
  | _ => false

def Arg.text : Arg → List Char
  | .plain cs => cs
  | .dashes => ['-', '-']
  | .option .. => []
  | .unknown cs => cs

/-- Takes a block of file arguments: the first one has the files, any
further one is out of place.  The first `--` of the files is not one. -/
def takeFiles (t : Taken) (block : List Arg) : Taken :=
  let texts := block.map Arg.text
  if t.placed then texts.foldl leave t
  else
    { t with
      options := { t.options with files := (texts.erase ['-', '-']).map String.ofList }
      placed := true }

def takeArgs (t : Taken) (args : List Arg) : Except Refusal Taken :=
  match args with
  | [] => .ok t
  | .unknown cs :: rest => takeArgs (leave t cs) rest
  | .option flag short attached :: rest => do
      let g ← group flag short attached
      match g.wanting, rest with
      | none, rest => takeArgs (← takeFlags t g.flags) rest
      | some flag, .plain value :: rest =>
          takeArgs (← takeFlags t (g.flags ++ [(flag, some value)])) rest
      | some flag, _ => .error (about flag "expected one argument")
  | arg :: rest =>
      have : (rest.dropWhile Arg.isFile).length ≤ rest.length :=
        (List.dropWhile_sublist Arg.isFile).length_le
      takeArgs (takeFiles t (arg :: rest.takeWhile Arg.isFile)) (rest.dropWhile Arg.isFile)
termination_by args.length

/-- What the arguments ask for, or why they cannot be followed. -/
def Options.ofArgs (argv : List String) : Except Refusal Options := do
  let args ← (sortArgs (argv.map String.toList)).mapError Refusal.wrong
  let t ← takeArgs .none args
  if t.extras.isEmpty then .ok t.options
  else .error (.wrong ("unrecognized arguments: " ++ " ".intercalate t.extras))

end EggLang.CommandLine
