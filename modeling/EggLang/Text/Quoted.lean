/-
# `EggLang.Text.Quoted` — a text between quotes, on one line

Messages show texts in a form that stays on one line and leaves no
character in doubt:

    quotes        single, unless the text holds a single quote and no
                  double one
    \\ and quote  the backslash and the quote in use are escaped
    \t \n \r      three controls have letters of their own
    \xNN          any other unseen character below `0x100`
    \uNNNN        an unseen character below `0x10000`
    \UNNNNNNNN    any other unseen character

Everything else stands for itself.
-/
import EggLang.Text.Unseen

namespace EggLang.Text

/-- The number in lower-case hexadecimal, padded with zeros to `width`. -/
def hexDigits (width n : Nat) : List Char :=
  let digits := Nat.toDigits 16 n
  List.replicate (width - digits.length) '0' ++ digits

/-- The escape of an unseen character, as short as its code point allows. -/
def hexEscape (c : Char) : List Char :=
  if c.toNat < 0x100 then '\\' :: 'x' :: hexDigits 2 c.toNat
  else if c.toNat < 0x10000 then '\\' :: 'u' :: hexDigits 4 c.toNat
  else '\\' :: 'U' :: hexDigits 8 c.toNat

/-- One character of a text quoted by `quote`. -/
def quoteChar (quote c : Char) : List Char :=
  if c = quote ∨ c = '\\' then ['\\', c]
  else if c = '\t' then ['\\', 't']
  else if c = '\n' then ['\\', 'n']
  else if c = '\r' then ['\\', 'r']
  else if isUnseen c then hexEscape c
  else [c]

/-- The quote that needs the fewer escapes; the single one if they tie. -/
def quoteFor (cs : List Char) : Char :=
  if cs.contains '\'' && !cs.contains '"' then '"' else '\''

/-- The text between quotes, with escapes for what cannot stand there. -/
def quoted (cs : List Char) : List Char :=
  let quote := quoteFor cs
  quote :: (cs.flatMap (quoteChar quote) ++ [quote])

def quotedString (s : String) : String :=
  String.ofList (quoted s.toList)

example : quotedString "it's\n" = "\"it's\\n\"" := by decide +kernel

example : quotedString "\u00ad" = "'\\xad'" := by decide +kernel

end EggLang.Text
