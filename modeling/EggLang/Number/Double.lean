/-
# `EggLang.Number.Double` — binary64 numbers, exactly

A double is not a number, an infinity of either sign, or a sign with an
integer significand and a power of two.  Nothing here goes through machine
floats: a finite double has an exact value, every operation is the exact
result on those values, and `Double.round` takes a ratio of naturals to the
nearest double once, at the end.

    finite s m e h      the value  ± m · 2^e
    h : IsBinary64 m e  m has 53 bits, or fewer at the least exponent

The condition makes the pair unique: two finite doubles of one sign and one
value are equal, the two zeros apart.
-/
import EggLang.Number.Power

namespace EggLang

/-- The least significand with 53 bits. -/
abbrev leastNormal : Nat := 0x10000000000000

/-- The least natural with 54 bits. -/
abbrev significandBound : Nat := 0x20000000000000

/-- The pairs of significand and exponent that binary64 has. -/
def IsBinary64 (m : Nat) (e : Int) : Prop :=
  m < significandBound ∧ -1074 ≤ e ∧ e ≤ 971 ∧ (leastNormal ≤ m ∨ e = -1074)

instance (m : Nat) (e : Int) : Decidable (IsBinary64 m e) :=
  inferInstanceAs (Decidable (_ ∧ _ ∧ _ ∧ _))

/-- A binary64 number; all that is not a number is one value. -/
inductive Double where
  | nan
  | infinite (negative : Bool)
  | finite (negative : Bool) (m : Nat) (e : Int) (h : IsBinary64 m e)
deriving DecidableEq

/-! ## Exact values -/

/-- The integer `num` times two to the power `exp`. -/
structure Exact where
  num : Int
  exp : Int
deriving DecidableEq

namespace Exact

def ofInt (n : Int) : Exact := ⟨n, 0⟩

/-- The numerator over `2^k`, for a `k` that is not above the exponent. -/
def numAt (a : Exact) (k : Int) : Int := a.num * (twoTo (a.exp - k).toNat : Nat)

/-- The exponent on which two values can both be written. -/
def base (a b : Exact) : Int := min a.exp b.exp

def add (a b : Exact) : Exact := ⟨a.numAt (a.base b) + b.numAt (a.base b), a.base b⟩

def mul (a b : Exact) : Exact := ⟨a.num * b.num, a.exp + b.exp⟩

def eq (a b : Exact) : Bool := a.numAt (a.base b) == b.numAt (a.base b)

def lt (a b : Exact) : Bool := a.numAt (a.base b) < b.numAt (a.base b)

end Exact

namespace Double

/-- The exact value of a finite double with the given parts. -/
def exact (negative : Bool) (m : Nat) (e : Int) : Exact :=
  ⟨if negative then -(m : Int) else m, e⟩

/-! ## Rounding -/

def zero (negative : Bool) : Double :=
  .finite negative 0 (-1074) (by decide)

/-- The double with the given parts; an infinity if they are no pair of
binary64, which after rounding means that the exponent is too large. -/
def ofParts (negative : Bool) (m : Nat) (e : Int) : Double :=
  if h : IsBinary64 m e then .finite negative m e h else .infinite negative

/-- The quotient rounded to the nearest natural; a half goes to the even
one. -/
def roundDiv (a b : Nat) : Nat :=
  let q := a / b
  let r := a % b
  if 2 * r < b then q
  else if b < 2 * r then q + 1
  else q + q % 2

/-- The ratio `num / den` divided by `2^e`, rounded to a natural. -/
def scaled (num den : Nat) (e : Int) : Nat :=
  roundDiv (num * twoTo (-e).toNat) (den * twoTo e.toNat)

def ratioBelow (num den : Nat) (k : Int) : Bool :=
  num * twoTo (-k).toNat < den * twoTo k.toNat

/-- The exponent at which a positive ratio has a significand of 53 bits;
the least exponent for ratios that are too small for that. -/
def exponentFor (num den : Nat) : Int :=
  let l : Int := (num.log2 : Int) - (den.log2 : Int)
  let top := if ratioBelow num den l then l - 1 else l
  max (top - 52) (-1074)

/-- The double nearest to `± num / den`, of two the one with the even
significand.  A significand that rounding has brought to 54 bits is halved. -/
def round (negative : Bool) (num den : Nat) : Double :=
  if num = 0 then zero negative
  else
    let e := exponentFor num den
    let m := scaled num den e
    if m = significandBound then ofParts negative leastNormal (e + 1) else ofParts negative m e

/-- The double nearest to an exact value; `negative` is the sign of a zero. -/
def ofExact (negative : Bool) (a : Exact) : Double :=
  if a.num = 0 then zero negative
  else round (a.num < 0) (a.num.natAbs * twoTo a.exp.toNat) (twoTo (-a.exp).toNat)

/-- The double nearest to an integer, unless it is beyond every finite one. -/
def ofInt? (n : Int) : Option Double :=
  match round (n < 0) n.natAbs 1 with
  | .finite s m e h => some (.finite s m e h)
  | _ => none

/-! ## Arithmetic -/

def neg : Double → Double
  | .nan => .nan
  | .infinite s => .infinite !s
  | .finite s m e h => .finite (!s) m e h

/-- The sum.  A zero sum is positive unless both operands are negative. -/
def add : Double → Double → Double
  | .nan, _ => .nan
  | _, .nan => .nan
  | .infinite s, .infinite t => if s = t then .infinite s else .nan
  | .infinite s, .finite .. => .infinite s
  | .finite .., .infinite t => .infinite t
  | .finite s m e _, .finite t n f _ => ofExact (s && t) ((exact s m e).add (exact t n f))

def sub (a b : Double) : Double := a.add b.neg

def mul : Double → Double → Double
  | .nan, _ => .nan
  | _, .nan => .nan
  | .infinite s, .infinite t => .infinite (s ^^ t)
  | .infinite s, .finite t n _ _ => if n = 0 then .nan else .infinite (s ^^ t)
  | .finite s m _ _, .infinite t => if m = 0 then .nan else .infinite (s ^^ t)
  | .finite s m e _, .finite t n f _ => ofExact (s ^^ t) ((exact s m e).mul (exact t n f))

def div : Double → Double → Double
  | .nan, _ => .nan
  | _, .nan => .nan
  | .infinite _, .infinite _ => .nan
  | .infinite s, .finite t .. => .infinite (s ^^ t)
  | .finite s .., .infinite t => zero (s ^^ t)
  | .finite s m e _, .finite t n f _ =>
      if n = 0 then
        if m = 0 then .nan else .infinite (s ^^ t)
      else round (s ^^ t) (m * twoTo (e - f).toNat) (n * twoTo (f - e).toNat)

/-! ## Whole numbers -/

/-- The integer that the double is, if it is one. -/
def integer? : Double → Option Int
  | .nan => none
  | .infinite _ => none
  | .finite s m e _ =>
      let unit := twoTo (-e).toNat
      if m % unit = 0 then
        let n := m / unit * twoTo e.toNat
        some (if s then -(n : Int) else n)
      else none

/-! ## The interchange format

Sixty-four bits: the sign, eleven bits of biased exponent, 52 bits of
significand. -/

/-- What the sign bit counts. -/
abbrev signUnit : Nat := 0x8000000000000000

/-- The double that the bits of a natural below `2^64` stand for. -/
def ofBits (bits : Nat) : Double :=
  let negative := decide (bits / signUnit % 2 = 1)
  let biased := bits / leastNormal % 2048
  let fraction := bits % leastNormal
  if biased = 2047 then
    if fraction = 0 then .infinite negative else .nan
  else if biased = 0 then ofParts negative fraction (-1074)
  else ofParts negative (leastNormal + fraction) ((biased : Int) - 1075)

/-- The bits of a double; `none` for what is not a number, which has many. -/
def toBits? : Double → Option Nat
  | .nan => none
  | .infinite s => some (s.toNat * signUnit + 2047 * leastNormal)
  | .finite s m e _ =>
      if m < leastNormal then some (s.toNat * signUnit + m)
      else some (s.toNat * signUnit + (e + 1075).toNat * leastNormal + (m - leastNormal))

example : round false 1 10 = ofBits 0x3fb999999999999a := by decide +kernel

example : (ofBits 0x3fb999999999999a).add (ofBits 0x3fc999999999999a) =
    ofBits 0x3fd3333333333334 := by decide +kernel

example : ofInt? (twoTo 1024) = none ∧ ofInt? (twoTo 1023) = some (ofBits 0x7fe0000000000000) := by
  decide +kernel

end Double

end EggLang
