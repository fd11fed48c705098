/-
# `EggLang.Text.Blank` — blank characters, and trimming them

Layout between tokens, the trimming of search path entries and the reading
of integers from settings share one notion of blank: the 29 characters that
Unicode counts as white space together with the four information
separators `0x1c` to `0x1f`.  Core's `Char.isWhitespace` knows four of them.
-/
import EggLang.Text.Range

namespace EggLang.Text

/-- The blank characters as inclusive ranges. -/
def blankRanges : List (Nat × Nat) := [
  (0x09, 0x0d), (0x1c, 0x20), (0x85, 0x85), (0xa0, 0xa0), (0x1680, 0x1680),
  (0x2000, 0x200a), (0x2028, 0x2029), (0x202f, 0x202f), (0x205f, 0x205f), (0x3000, 0x3000)]

/-- The character separates tokens and has no other meaning. -/
def isBlank (c : Char) : Bool :=
  inRanges blankRanges c.toNat

/-- The text without the blanks at its two ends. -/
def trim (cs : List Char) : List Char :=
  ((cs.dropWhile isBlank).reverse.dropWhile isBlank).reverse

example : isBlank ' ' ∧ isBlank '\n' ∧ isBlank '\t' ∧ ¬ isBlank 'a' := by decide

example : trim " a b\t".toList = "a b".toList := by decide

end EggLang.Text
