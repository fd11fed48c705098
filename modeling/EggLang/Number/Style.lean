/-
# `EggLang.Number.Style` — how a decimal is set out

The digits of a decimal are settled by `EggLang.Number.Shortest`; what is
left is a choice of format, held in one record: which decimals are written
with all their zeros, and how the power of ten of the others looks.
-/
import EggLang.Number.Shortest

namespace EggLang

structure Style where
  /-- The least power of ten of a first digit that is written with zeros. -/
  least : Int
  /-- The greatest such power. -/
  most : Int
  /-- What a whole number has after its point. -/
  wholeTail : List Char
  /-- What stands before the power of ten. -/
  mark : Char
  /-- How many digits the power of ten has at least. -/
  exponentWidth : Nat

namespace Style

/-- Digits with a point after the first `n`. -/
def splitAt (style : Style) (digits : List Char) (n : Nat) : List Char :=
  if digits.length ≤ n then
    digits ++ List.replicate (n - digits.length) '0' ++ style.wholeTail
  else digits.take n ++ '.' :: digits.drop n

/-- The decimal with all its zeros; `power` is that of its first digit. -/
def positional (style : Style) (digits : List Char) (power : Int) : List Char :=
  if power < 0 then '0' :: '.' :: List.replicate (-power - 1).toNat '0' ++ digits
  else style.splitAt digits (power.toNat + 1)

/-- The power of ten after its mark: a sign and digits. -/
def exponentText (style : Style) (power : Int) : List Char :=
  let digits := Nat.toDigits 10 power.natAbs
  style.mark :: (if power < 0 then '-' else '+') ::
    (List.replicate (style.exponentWidth - digits.length) '0' ++ digits)

/-- The decimal as one digit, a fraction if there are more, and a power. -/
def scientific (style : Style) (digits : List Char) (power : Int) : List Char :=
  match digits with
  | [] => []
  | [d] => d :: style.exponentText power
  | d :: ds => d :: '.' :: (ds ++ style.exponentText power)

def write (style : Style) (d : Decimal) : List Char :=
  let d := d.stripZeros 17
  let digits := Nat.toDigits 10 d.coefficient
  let power := d.exponent + digits.length - 1
  if style.least ≤ power ∧ power ≤ style.most then style.positional digits power
  else style.scientific digits power

/-- Powers of ten from -4 to 15 are written with zeros, a whole number ends
in `.0`, and other powers have a sign and at least two digits. -/
def plain : Style := ⟨-4, 15, ['.', '0'], 'e', 2⟩

end Style

/-- The text of a double in the plain format. -/
def Double.text : Double → String
  | .nan => "nan"
  | .infinite negative => if negative then "-inf" else "inf"
  | .finite negative m e _ =>
      let digits := if m = 0 then ['0', '.', '0'] else Style.plain.write (Decimal.shortest m e)
      String.ofList (if negative then '-' :: digits else digits)

end EggLang
