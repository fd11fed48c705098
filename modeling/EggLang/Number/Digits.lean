/-
# `EggLang.Number.Digits` — integers as texts, up to a limit

Turning an integer into its decimal text is refused beyond
`Text.digitLimit` digits, the sign not counted.  The limit is the same
wherever an integer is written; what differs is the fault that a refusal
becomes.
-/
import EggLang.Number.Power
import EggLang.Text.Integer

namespace EggLang

/-- The least natural that has too many digits to be written. -/
def unwritableFrom : Nat := tenTo Text.digitLimit

/-- The integer has few enough digits to be written. -/
def Writable (n : Int) : Prop := n.natAbs < unwritableFrom

instance (n : Int) : Decidable (Writable n) :=
  inferInstanceAs (Decidable (_ < _))

def decimalText (n : Int) : String :=
  if n < 0 then "-" ++ n.natAbs.repr else n.natAbs.repr

/-- The decimal text of an integer that has one. -/
def decimalText? (n : Int) : Option String :=
  if Writable n then some (decimalText n) else none

/-- How many bits the absolute value has. -/
def bitCount (n : Int) : Nat :=
  if n = 0 then 0 else n.natAbs.log2 + 1

end EggLang
