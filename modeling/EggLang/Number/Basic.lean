/-
# `EggLang.Number.Basic` — the numbers of Egg

A number is an integer of any size or a double.  Integers stay integers as
long as they can; a double in either operand makes the result a double, and
then an integer operand has to be one that a double can come near.

Order and equality never round.  Every number but NaN is a point of the
extended line, the integers and the finite doubles by their exact values,
and points are compared as such, so that an integer beyond `2^53` and a
double are told apart exactly when their values differ.
-/
import EggLang.Number.Double

namespace EggLang

inductive Number where
  | int (n : Int)
  | float (x : Double)
deriving DecidableEq

/-- A place on the line that runs from minus to plus infinity, or none. -/
inductive Point where
  | nowhere
  | bottom
  | top
  | exact (a : Exact)
deriving DecidableEq

namespace Point

/-- Both are places, and the same one. -/
def same : Point → Point → Bool
  | .bottom, .bottom => true
  | .top, .top => true
  | .exact a, .exact b => a.eq b
  | _, _ => false

/-- Both are places, and the first stands before the second. -/
def before : Point → Point → Bool
  | .bottom, .exact _ => true
  | .bottom, .top => true
  | .exact _, .top => true
  | .exact a, .exact b => a.lt b
  | _, _ => false

end Point

def Double.point : Double → Point
  | .nan => .nowhere
  | .infinite negative => if negative then .bottom else .top
  | .finite negative m e _ => .exact (Double.exact negative m e)

namespace Number

def point : Number → Point
  | .int n => .exact (Exact.ofInt n)
  | .float x => x.point

/-- The numbers have the same value. -/
def equal (a b : Number) : Bool := a.point.same b.point

def less (a b : Number) : Bool := a.point.before b.point

def greater (a b : Number) : Bool := b.point.before a.point

/-- The number is zero, of whichever kind and sign. -/
def isZero (a : Number) : Bool := a.equal (.int 0)

/-- The double for a number; `none` for an integer beyond every finite
double. -/
def toDouble? : Number → Option Double
  | .int n => Double.ofInt? n
  | .float x => some x

/-- An operation on doubles, for operands of which one is a double. -/
def viaDouble (op : Double → Double → Double) (a b : Number) : Option Number :=
  match a.toDouble?, b.toDouble? with
  | some x, some y => some (.float (op x y))
  | _, _ => none

/-- The sum, unless an operand is out of range. -/
def add? : Number → Number → Option Number
  | .int a, .int b => some (.int (a + b))
  | a, b => viaDouble Double.add a b

/-- The difference, unless an operand is out of range. -/
def sub? : Number → Number → Option Number
  | .int a, .int b => some (.int (a - b))
  | a, b => viaDouble Double.sub a b

/-- The product, unless an operand is out of range. -/
def mul? : Number → Number → Option Number
  | .int a, .int b => some (.int (a * b))
  | a, b => viaDouble Double.mul a b

/-- The double nearest to the quotient of two integers, if it is finite. -/
def ratio? (a b : Int) : Option Number :=
  match Double.round (decide (a < 0) ^^ decide (b < 0)) a.natAbs b.natAbs with
  | .finite s m e h => some (.float (.finite s m e h))
  | _ => none

/-- The quotient by a number that is not zero: an integer when one integer
divides another, a double otherwise. -/
def div? : Number → Number → Option Number
  | .int a, .int b => if a % b = 0 then some (.int (a / b)) else ratio? a b
  | a, b => viaDouble Double.div a b

example : div? (.int 7) (.int 2) = some (.float (Double.ofBits 0x400c000000000000)) := by
  decide +kernel

example : div? (.int (-6)) (.int 2) = some (.int (-3)) := by decide

example : less (.int (twoTo 53)) (.int (twoTo 53 + 1)) ∧
    equal (.int (twoTo 53)) (.float (Double.ofBits 0x4340000000000000)) ∧
    ¬ equal (.int (twoTo 53 + 1)) (.float (Double.ofBits 0x4340000000000000)) := by
  decide +kernel

end Number

end EggLang
