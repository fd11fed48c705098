/-
# `EggLang.Text.Place` — where in a source a fault stands

A place is an offset into a source, counted in characters, together with
the line and column that an editor would show for it.  Lines end at `\n`
alone; lines and columns count from one.
-/

namespace EggLang.Text

structure Place where
  offset : Nat
  line : Nat
  column : Nat
deriving DecidableEq

/-- The characters after the last line end. -/
def lastLine (cs : List Char) : List Char :=
  (cs.reverse.takeWhile (· ≠ '\n')).reverse

/-- The place of an offset: its line is one more than the line ends before
it, its column one more than the characters since the last of them. -/
def Place.ofOffset (source : List Char) (offset : Nat) : Place :=
  let before := source.take offset
  { offset := offset
    line := before.count '\n' + 1
    column := (lastLine before).length + 1 }

/-- The place as messages give it. -/
def Place.suffix (p : Place) : String :=
  " (line " ++ p.line.repr ++ ", column " ++ p.column.repr ++ ")"

example : Place.ofOffset "ab\ncd".toList 4 = ⟨4, 2, 2⟩ := by decide

example : Place.ofOffset "ab\ncd".toList 2 = ⟨2, 1, 3⟩ := by decide

end EggLang.Text
