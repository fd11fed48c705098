/-
# `EggLang.Fault` — why a program stops without a value

A fault is a cause with what its message needs.  Faults fall into families;
the first four are the language's own, the others come from the machine
underneath and may not be caught by a program either:

    syntax      a source that cannot be read, a form that is misused
    reference   a name that is not bound
    type        a value of the wrong kind, or applied to too many or too
                few arguments
    range       a number or an index that is out of range
    digits      an integer with too many digits to be shown in a message
    encoding    a file that holds no text
    unwritable  a tree with a hole has no source
    depth       nested too deeply
    unfinished  a loop took more turns than it was given

A fault in a source carries its place; a misused form has none.
-/
import EggLang.Kind
import EggLang.Text.Place
import EggLang.Text.Quoted
import EggLang.Text.Utf8

namespace EggLang

/-- Why a source cannot be read. -/
inductive ReadProblem where
  /-- No expression begins with this text. -/
  | unexpected (shown : List Char)
  /-- A number literal with too many digits. -/
  | literalTooLong (digits : Nat)
  /-- An argument list goes on with neither a comma nor its end. -/
  | unclosed
  /-- Something follows the program's one expression. -/
  | afterProgram
deriving DecidableEq

def ReadProblem.message : ReadProblem → String
  | .unexpected shown => "Unexpected syntax: " ++ String.ofList (Text.quoted shown)
  | .literalTooLong digits => "Number literal too long (" ++ digits.repr ++ " digits)"
  | .unclosed => "Expected ',' or ')'"
  | .afterProgram => "Unexpected text after program"

/-- How a special form can be misused. -/
inductive Misuse where
  | ifArguments
  | whileArguments
  | define
  | set
  | noBody
  | parameterName
  | repeatedParameters (names : List String)
deriving DecidableEq

def Misuse.message : Misuse → String
  | .ifArguments => "Bad number of args to if"
  | .whileArguments => "Bad number of args to while"
  | .define => "Bad use of define"
  | .set => "Bad use of set"
  | .noBody => "Functions need a body"
  | .parameterName => "Arg names must be words"
  | .repeatedParameters names => "Duplicate parameter names in fun: " ++ ", ".intercalate names

/-- The cause of a stop. -/
inductive Fault where
  | unreadable (place : Text.Place) (problem : ReadProblem)
  | misuse (m : Misuse)
  | unboundRead (name : String)
  | unboundWrite (name : String)
  | notExpression
  | notFunction (shown : String)
  | wrongCount (expected got : Nat)
  | wrongBuiltinCount (builtin : String) (expected got : Nat)
  | notNumbers (operator : String) (left right : Kind)
  | notOrdered (operator : String) (left right : Kind)
  | lengthOfNonArray
  | elementOfNonArray
  | indexNotNumber
  | divisionByZero
  | resultOutOfRange (operator : String)
  | indexNotWhole (shown : String)
  | indexOutside (shown : String) (length : Nat)
  | tooLargeToWrite (bits : Nat)
  | tooManyDigits
  | badEncoding (fault : Text.Utf8Fault)
  | unwritable
  | tooDeep
  | unfinished
deriving DecidableEq

inductive Family where
  | syntactic
  | reference
  | type
  | range
  | digits
  | encoding
  | unwritable
  | depth
  | unfinished
deriving DecidableEq

/-- The family of the language's own faults, as messages name it. -/
def Family.name? : Family → Option String
  | .syntactic => some "SyntaxError"
  | .reference => some "ReferenceError"
  | .type => some "TypeError"
  | .range => some "RangeError"
  | _ => none

namespace Fault

def family : Fault → Family
  | .unreadable .. => .syntactic
  | .misuse _ => .syntactic
  | .unboundRead _ => .reference
  | .unboundWrite _ => .reference
  | .notExpression => .type
  | .notFunction _ => .type
  | .wrongCount .. => .type
  | .wrongBuiltinCount .. => .type
  | .notNumbers .. => .type
  | .notOrdered .. => .type
  | .lengthOfNonArray => .type
  | .elementOfNonArray => .type
  | .indexNotNumber => .type
  | .divisionByZero => .range
  | .resultOutOfRange _ => .range
  | .indexNotWhole _ => .range
  | .indexOutside .. => .range
  | .tooLargeToWrite _ => .range
  | .tooManyDigits => .digits
  | .badEncoding _ => .encoding
  | .unwritable => .unwritable
  | .tooDeep => .depth
  | .unfinished => .unfinished

def place? : Fault → Option Text.Place
  | .unreadable place _ => some place
  | _ => none

/-- Two kinds as messages list them. -/
def kindPair (left right : Kind) : String := left.name ++ " and " ++ right.name

/-- The numbers of arguments as messages give them. -/
def countPair (expected got : Nat) : String :=
  "expected " ++ expected.repr ++ ", got " ++ got.repr

def message : Fault → String
  | .unreadable place problem => problem.message ++ place.suffix
  | .misuse m => m.message
  | .unboundRead name => "Undefined variable: " ++ name
  | .unboundWrite name => "Cannot set undefined variable: " ++ name
  | .notExpression => "Not an Egg expression: None"
  | .notFunction shown => "Applying a non-function: " ++ shown
  | .wrongCount expected got => "Wrong number of arguments: " ++ countPair expected got
  | .wrongBuiltinCount builtin expected got =>
      "Wrong number of arguments to " ++ builtin ++ ": " ++ countPair expected got
  | .notNumbers operator left right =>
      "Arguments to " ++ operator ++ " must be numbers, got " ++ kindPair left right
  | .notOrdered operator left right =>
      "Arguments to " ++ operator ++ " must be two numbers or two strings, got " ++
        kindPair left right
  | .lengthOfNonArray => "Argument to length function not an array."
  | .elementOfNonArray => "Array argument to element function not an array."
  | .indexNotNumber => "Index argument to element function not a number."
  | .divisionByZero => "Division by zero"
  | .resultOutOfRange operator => "Result of " ++ operator ++ " is out of range"
  | .indexNotWhole shown => "Index " ++ shown ++ " is not an integer"
  | .indexOutside shown length =>
      "Index " ++ shown ++ " out of range for array of length " ++ length.repr
  | .tooLargeToWrite bits => "Number too large to write (" ++ bits.repr ++ " bits)"
  | .tooManyDigits =>
      "Exceeds the limit (4300 digits) for integer string conversion; " ++
        "use sys.set_int_max_str_digits() to increase the limit"
  | .badEncoding fault => fault.message
  | .unwritable => "Not an Egg expression: None"
  | .tooDeep => "maximum recursion depth exceeded"
  | .unfinished => "more turns of a loop than allowed"

end Fault

end EggLang
