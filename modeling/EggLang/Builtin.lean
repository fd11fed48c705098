/-
# `EggLang.Builtin` — what the builtins do

Each builtin checks its operands by kind before it looks at their values.
All are functions of their operands, except that `array` takes an identity
from the store and `print` adds a line to it.

    + - * /      two numbers; + also joins two strings
    == < >       == any two values; < and > two numbers or two strings
    array        the array of its arguments
    length       the length of an array
    element      an array and an index from 0
    print        writes the display of a value and returns the value
-/
import EggLang.Run

namespace EggLang

namespace Builtin

def arithmetic (op : Builtin) (f : Number → Number → Option Number) (a b : Value) :
    Except Fault Value :=
  match a, b with
  | .number m, .number n =>
      match f m n with
      | some r => .ok (.number r)
      | none => .error (.resultOutOfRange op.name)
  | a, b => .error (.notNumbers op.name a.kind b.kind)

/-- The sum of two numbers, or two strings in one. -/
def sum (a b : Value) : Except Fault Value :=
  match a, b with
  | .string s, .string t => .ok (.string (s ++ t))
  | a, b => arithmetic .add Number.add? a b

def quotient (a b : Value) : Except Fault Value :=
  match a, b with
  | .number m, .number n =>
      if n.isZero then .error .divisionByZero
      else arithmetic .div Number.div? (.number m) (.number n)
  | a, b => .error (.notNumbers Builtin.div.name a.kind b.kind)

/-- The order of strings, by the code points of the first difference. -/
def stringLess (s t : String) : Bool := decide (s < t)

def ordering (op : Builtin) (onNumbers : Number → Number → Bool)
    (onStrings : String → String → Bool) (a b : Value) : Except Fault Value :=
  match a, b with
  | .number m, .number n => .ok (.bool (onNumbers m n))
  | .string s, .string t => .ok (.bool (onStrings s t))
  | a, b => .error (.notOrdered op.name a.kind b.kind)

def lengthOf : Value → Except Fault Value
  | .array _ items => .ok (.number (.int items.length))
  | _ => .error .lengthOfNonArray

/-- The fault of an index that is outside, if the index can be shown. -/
def outside (length : Nat) (n : Int) : Except Fault Value := do
  let shown ← Value.integerDebug n
  .error (.indexOutside shown length)

def elementAt (items : List Value) (n : Int) : Except Fault Value :=
  if 0 ≤ n then
    match items[n.toNat]? with
    | some v => .ok v
    | none => outside items.length n
  else outside items.length n

/-- The element of an array at an index of any kind. -/
def elementOf (a i : Value) : Except Fault Value :=
  match a, i with
  | .array _ items, .number (.int n) => elementAt items n
  | .array _ items, .number (.float x) =>
      match x.integer? with
      | some n => elementAt items n
      | none => .error (.indexNotWhole (Value.doubleDisplay x))
  | .array .., _ => .error .indexNotNumber
  | _, _ => .error .elementOfNonArray

def makeArray (items : List Value) : Run Value := do
  let identity ← Run.take Store.freshId
  return .array identity items

/-- Prints a value and returns it.  Only output 0 is kept. -/
def printValue (limit output : Nat) (v : Value) : Run Value := do
  let line ← Run.ofExcept (v.display limit false)
  if output = 0 then Run.change fun s => s.printLine line
  return v

/-- Applies a builtin to arguments; a display may nest `limit` levels. -/
def apply (limit : Nat) (b : Builtin) (args : List Value) : Run Value :=
  match b, args with
  | .add, [x, y] => Run.ofExcept (sum x y)
  | .sub, [x, y] => Run.ofExcept (arithmetic .sub Number.sub? x y)
  | .mul, [x, y] => Run.ofExcept (arithmetic .mul Number.mul? x y)
  | .div, [x, y] => Run.ofExcept (quotient x y)
  | .equal, [x, y] => return .bool (x.same y)
  | .less, [x, y] => Run.ofExcept (ordering .less Number.less stringLess x y)
  | .greater, [x, y] =>
      Run.ofExcept (ordering .greater Number.greater (fun s t => stringLess t s) x y)
  | .array, items => makeArray items
  | .length, [x] => Run.ofExcept (lengthOf x)
  | .element, [x, y] => Run.ofExcept (elementOf x y)
  | .print output, [x] => printValue limit output x
  | b, args => Run.fail (.wrongBuiltinCount b.name (b.arity?.getD 0) args.length)

end Builtin

/-- The bindings of a global frame whose printer has the given output. -/
def globalBindings (output : Nat) : Bindings :=
  [("true", .bool true), ("false", .bool false)] ++
    (Builtin.all output).map fun b => (b.name, .builtin b)

end EggLang
