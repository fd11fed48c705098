/-
# `EggLang.Text.Split` — cutting a text at a character

A text with `n` separators has `n + 1` parts, some of them perhaps empty.
-/

namespace EggLang.Text

/-- The parts of a text between the occurrences of `sep`. -/
def splitAt (sep : Char) : List Char → List (List Char)
  | [] => [[]]
  | c :: cs =>
      if c = sep then [] :: splitAt sep cs
      else
        match splitAt sep cs with
        | [] => [[c]]
        | part :: parts => (c :: part) :: parts

example : splitAt ':' "a::b".toList = ["a".toList, [], "b".toList] := by decide

end EggLang.Text
