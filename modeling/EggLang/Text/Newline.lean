/-
# `EggLang.Text.Newline` — one line end for three

A text file ends its lines with `\n`, `\r\n` or `\r`.  Reading one turns
each of these into `\n`.
-/

namespace EggLang.Text

/-- Every `\r\n`, and every other `\r`, becomes `\n`. -/
def foldNewlines : List Char → List Char
  | [] => []
  | '\r' :: '\n' :: cs => '\n' :: foldNewlines cs
  | c :: cs => (if c = '\r' then '\n' else c) :: foldNewlines cs

example : foldNewlines "a\r\nb\rc\n\r".toList = "a\nb\nc\n\n".toList := by decide

end EggLang.Text
