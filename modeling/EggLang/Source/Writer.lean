/-
# `EggLang.Source.Writer` — from tree to source

The canonical source of a tree: texts between double quotes, numbers in
decimal, a comma and a space between arguments, and no other layout.  A
text that holds a double quote, a negative number or an odd word is written
as it stands, though reading it gives another tree.

A hole, a number with too many digits and nesting of `limit` levels are
faults; the leftmost one is reported.
-/
import EggLang.Fault
import EggLang.Number.Digits
import EggLang.Source.Expr

namespace EggLang

namespace Expr

/-- The decimal text of an integer, or a range fault. -/
def numberText (n : Int) : Except Fault String :=
  match decimalText? n with
  | some digits => .ok digits
  | none => .error (.tooLargeToWrite (bitCount n))

/-- The canonical source of a tree. -/
def write : (limit : Nat) → Expr → Except Fault String
  | 0, _ => .error .tooDeep
  | _ + 1, .number n => numberText n
  | _ + 1, .text s => .ok ("\"" ++ s ++ "\"")
  | _ + 1, .word name => .ok name
  | limit + 1, .apply operator args => do
      let head ← write limit operator
      let items ← args.mapM (write limit)
      .ok (head ++ "(" ++ ", ".intercalate items ++ ")")
  | _ + 1, .hole => .error .unwritable

end Expr

end EggLang
