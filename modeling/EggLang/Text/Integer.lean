/-
# `EggLang.Text.Integer` — reading an integer from a setting

A setting holds an integer if it is, between blanks, an optional sign and
a run of decimal digits in which single underscores may stand between two
digits.  Digits of every script count, each with its own value; they may be
mixed.  The four information separators are blanks elsewhere, but not here.
More than `digitLimit` digits are refused.
-/
import EggLang.Text.Blank

namespace EggLang.Text

/-- The most decimal digits that a conversion between integers and texts
takes. -/
def digitLimit : Nat := 4300

/-- The zeros of the decimal digit runs: each is followed by the digits one
to nine of its script. -/
def decimalZeros : List Nat := [
  0x30, 0x660, 0x6f0, 0x7c0, 0x966, 0x9e6, 0xa66, 0xae6, 0xb66, 0xbe6, 0xc66, 0xce6, 0xd66,
  0xde6, 0xe50, 0xed0, 0xf20, 0x1040, 0x1090, 0x17e0, 0x1810, 0x1946, 0x19d0, 0x1a80, 0x1a90,
  0x1b50, 0x1bb0, 0x1c40, 0x1c50, 0xa620, 0xa8d0, 0xa900, 0xa9d0, 0xa9f0, 0xaa50, 0xabf0, 0xff10,
  0x104a0, 0x10d30, 0x11066, 0x110f0, 0x11136, 0x111d0, 0x112f0, 0x11450, 0x114d0, 0x11650,
  0x116c0, 0x11730, 0x118e0, 0x11950, 0x11c50, 0x11d50, 0x11da0, 0x16a60, 0x16ac0, 0x16b50,
  0x1d7ce, 0x1d7d8, 0x1d7e2, 0x1d7ec, 0x1d7f6, 0x1e140, 0x1e2f0, 0x1e950, 0x1fbf0]

/-- The value of a decimal digit of any script. -/
def digitValue? (c : Char) : Option Nat :=
  (decimalZeros.find? fun z => z ≤ c.toNat && c.toNat < z + 10).map fun z => c.toNat - z

/-- A blank that may stand around an integer. -/
def isMargin (c : Char) : Bool :=
  isBlank c && !(0x1c ≤ c.toNat && c.toNat ≤ 0x1f)

/-- The digits of a run in which single underscores may stand between two
digits; `none` if the text is anything else.  `afterDigit` tells whether the
character before was a digit. -/
def digitRun (afterDigit : Bool) : List Char → Option (List Nat)
  | [] => if afterDigit then some [] else none
  | c :: cs =>
      if c = '_' then
        if afterDigit then digitRun false cs else none
      else
        match digitValue? c with
        | none => none
        | some d => (digitRun true cs).map (d :: ·)

/-- The number that decimal digits denote, the first one weighing most. -/
def ofDecimalDigits (ds : List Nat) : Nat :=
  ds.foldl (fun n d => n * 10 + d) 0

/-- The sign of an integer's text, and what follows it. -/
def takeSign : List Char → Bool × List Char
  | '-' :: cs => (true, cs)
  | '+' :: cs => (false, cs)
  | cs => (false, cs)

/-- The integer that a setting's text denotes, if it denotes one. -/
def integer? (cs : List Char) : Option Int :=
  let body := ((cs.dropWhile isMargin).reverse.dropWhile isMargin).reverse
  let (negative, digits) := takeSign body
  match digitRun false digits with
  | none => none
  | some ds =>
      if ds.length ≤ digitLimit then
        let n := ofDecimalDigits ds
        some (if negative then -n else n)
      else none

example : integer? " -1_000 ".toList = some (-1000) := by decide +kernel

example : integer? "1__0".toList = none ∧ integer? "_1".toList = none := by decide +kernel

example : integer? "".toList = none ∧ integer? "+".toList = none := by decide +kernel

end EggLang.Text
