/-
# `EggLang.Value.Basic` — runtime values

Arrays and closures are compared by identity, so each carries the number it
was made under; two of them are the same one exactly when these numbers are
equal.  Their contents never change.  A closure also carries the number of
the frame it was made in.

The builtins are a closed list.  All but one are single values; printers
may be several, told apart by the number of the output they write to.
-/
import EggLang.Kind
import EggLang.Number.Basic
import EggLang.Source.Expr

namespace EggLang

/-- The functions that every program starts with. -/
inductive Builtin where
  | add
  | sub
  | mul
  | div
  | equal
  | less
  | greater
  | array
  | length
  | element
  /-- Prints to the output of the given number; programs have number 0. -/
  | print (output : Nat)
deriving DecidableEq

namespace Builtin

/-- The name under which a program finds the builtin. -/
def name : Builtin → String
  | .add => "+"
  | .sub => "-"
  | .mul => "*"
  | .div => "/"
  | .equal => "=="
  | .less => "<"
  | .greater => ">"
  | .array => "array"
  | .length => "length"
  | .element => "element"
  | .print _ => "print"

/-- How many arguments the builtin takes; `array` takes any number. -/
def arity? : Builtin → Option Nat
  | .array => none
  | .length => some 1
  | .print _ => some 1
  | _ => some 2

/-- The builtins in the order in which programs see them. -/
def all (output : Nat) : List Builtin :=
  [.add, .sub, .mul, .div, .equal, .less, .greater, .array, .length, .element, .print output]

end Builtin

/-- The number of a frame in a store. -/
abbrev FrameId := Nat

inductive Value where
  | number (n : Number)
  | bool (b : Bool)
  | string (s : String)
  | array (identity : Nat) (items : List Value)
  | closure (identity : Nat) (params : List String) (body : Expr) (frame : FrameId)
  | builtin (b : Builtin)
  /-- The host's empty value, which no program makes. -/
  | void
deriving Inhabited

namespace Value

def kind : Value → Kind
  | .number _ => .number
  | .bool _ => .boolean
  | .string _ => .string
  | .array .. => .array
  | .closure .. => .function
  | .builtin _ => .function
  | .void => .void

def isFunction : Value → Bool
  | .closure .. => true
  | .builtin _ => true
  | _ => false

/-- The value is the boolean `false`; no other value fails a test. -/
def isFalse : Value → Bool
  | .bool false => true
  | _ => false

/-- Equality as programs see it: within one kind only, numbers by exact
value, arrays and functions by identity. -/
def same : Value → Value → Bool
  | .number a, .number b => a.equal b
  | .bool a, .bool b => a == b
  | .string s, .string t => s == t
  | .array i _, .array j _ => i == j
  | .closure i .., .closure j .. => i == j
  | .builtin a, .builtin b => a == b
  | .void, .void => true
  | _, _ => false

end Value

end EggLang
