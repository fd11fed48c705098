/-
# `EggLang.Number.Shortest` — the fewest decimal digits that read back

The decimal text of a positive double is its shortest one: the coefficient
with the fewest digits whose value rounds to the double again.  For each
count of digits there is a grid of decimals, and only the two grid points
around the value can be the answer: the first grid on which one of them
reads back wins, of two the nearer, and a tie goes to the even coefficient.
Seventeen digits always read back.
-/
import EggLang.Number.Double

namespace EggLang

/-- The decimal `coefficient · 10^exponent`. -/
structure Decimal where
  coefficient : Nat
  exponent : Int
deriving DecidableEq

namespace Decimal

def ratio (d : Decimal) : Nat × Nat :=
  (d.coefficient * tenTo d.exponent.toNat, tenTo (-d.exponent).toNat)

def toDouble (d : Decimal) : Double :=
  Double.round false d.ratio.1 d.ratio.2

/-- The least power of ten above a positive ratio: how many digits its
whole part has, or, below one, how many zeros follow the point, negated. -/
def pointOf (num den : Nat) : Int :=
  if den ≤ num then ((num / den).repr.length : Int)
  else
    let k := (den / num).repr.length
    if den = num * tenTo (k - 1) then 2 - (k : Int) else 1 - (k : Int)

/-- The two decimals with `n` digits around a positive ratio, the lower one
first, and whether the upper one is to be preferred. -/
def neighbours (num den : Nat) (n : Nat) : Decimal × Decimal × Bool :=
  let exponent := pointOf num den - n
  let a := num * tenTo (-exponent).toNat
  let b := den * tenTo exponent.toNat
  let q := a / b
  let r := a % b
  (⟨q, exponent⟩, ⟨q + 1, exponent⟩, decide (b < 2 * r) || (2 * r == b && q % 2 == 1))

/-- The decimal with `n` digits that reads back as `x`, if there is one. -/
def atDigits (x : Double) (num den : Nat) (n : Nat) : Option Decimal :=
  let (low, high, upper) := neighbours num den n
  let first := if upper then high else low
  let second := if upper then low else high
  if first.toDouble = x then some first
  else if second.toDouble = x then some second
  else none

/-- Tries `fuel` counts of digits from `n` on. -/
def search (x : Double) (num den : Nat) : (fuel n : Nat) → Decimal
  | 0, n => (neighbours num den n).1
  | fuel + 1, n => (atDigits x num den n).getD (search x num den fuel (n + 1))

/-- The shortest decimal of the positive double `m · 2^e`. -/
def shortest (m : Nat) (e : Int) : Decimal :=
  let num := m * twoTo e.toNat
  let den := twoTo (-e).toNat
  search (Double.ofParts false m e) num den 17 1

/-- The coefficient without the zeros at its end, which move into the
exponent. -/
def stripZeros : (fuel : Nat) → Decimal → Decimal
  | 0, d => d
  | fuel + 1, d =>
      if d.coefficient % 10 = 0 then stripZeros fuel ⟨d.coefficient / 10, d.exponent + 1⟩
      else d

end Decimal

end EggLang
