/-
# `EggLang.Source.Token` — the pieces of a source

A source is cut into pieces from left to right.  Between two pieces there
may be layout: blanks, and comments from a `#` up to the end of the line.
A piece is decided by its first character and then made as long as it can
be:

    "…"          a text, up to the next double quote; there are no escapes
    123          a number: a run of ASCII digits, if no ASCII letter, digit
                 or underscore follows it
    ( ) ,        themselves
    anything     a word: a run of characters that are neither blank nor
    else         one of the four above

A double quote that has no partner is a piece of its own, which no program
may have.  A `#` inside a word belongs to the word.

Each piece comes with the part of the source that begins with it, from
which the place of a fault and the text shown for it are taken.
-/
import EggLang.Text.Blank

namespace EggLang

open Text (isBlank)

/-- A piece of a source. -/
inductive Token where
  | text (s : List Char)
  | number (digits : List Char)
  | word (name : List Char)
  | opening
  | closing
  | comma
  | loneQuote
deriving DecidableEq

/-- A piece together with the source from its first character on. -/
structure Lexeme where
  token : Token
  tail : List Char
deriving DecidableEq

namespace Token

/-! ## Layout -/

/-- The source after the layout it begins with; `comment` tells whether a
comment is open. -/
def skipLayout (comment : Bool) : List Char → List Char
  | [] => []
  | c :: cs =>
      if comment then skipLayout (c ≠ '\n') cs
      else if isBlank c then skipLayout false cs
      else if c = '#' then skipLayout true cs
      else c :: cs

theorem skipLayout_length (comment : Bool) (cs : List Char) :
    (skipLayout comment cs).length ≤ cs.length := by
  induction cs generalizing comment with
  | nil => simp [skipLayout]
  | cons c cs ih =>
    unfold skipLayout
    split
    · exact Nat.le_succ_of_le (ih _)
    · split
      · exact Nat.le_succ_of_le (ih _)
      · split
        · exact Nat.le_succ_of_le (ih _)
        · exact Nat.le_refl _

/-! ## Character classes -/

/-- A decimal digit of ASCII. -/
def isDigit (c : Char) : Bool := '0' ≤ c && c ≤ '9'

/-- A letter or digit of ASCII, or the underscore: what a number may not
run into. -/
def joinsNumber (c : Char) : Bool :=
  isDigit c || ('a' ≤ c && c ≤ 'z') || ('A' ≤ c && c ≤ 'Z') || c = '_'

def isWordChar (c : Char) : Bool :=
  !isBlank c && c ≠ '(' && c ≠ ')' && c ≠ ',' && c ≠ '"'

def endsNumber : List Char → Bool
  | [] => true
  | c :: _ => !joinsNumber c

def startsNumber (cs : List Char) : Bool :=
  !(cs.takeWhile isDigit).isEmpty && endsNumber (cs.dropWhile isDigit)

/-! ## Pieces -/

/-- A text whose opening quote has been read, or the lone quote. -/
def scanText (cs : List Char) : Token × List Char :=
  match cs.dropWhile (· ≠ '"') with
  | [] => (.loneQuote, cs)
  | _ :: rest => (.text (cs.takeWhile (· ≠ '"')), rest)

/-- A number if there is one, and a word otherwise. -/
def scanAtom (cs : List Char) : Token × List Char :=
  if startsNumber cs then (.number (cs.takeWhile isDigit), cs.dropWhile isDigit)
  else (.word (cs.takeWhile isWordChar), cs.dropWhile isWordChar)

/-- The piece at the beginning of a source that begins with `c`, which is
no layout, and the source after it. -/
def scan (c : Char) (cs : List Char) : Token × List Char :=
  if c = '"' then scanText cs
  else if c = '(' then (.opening, cs)
  else if c = ')' then (.closing, cs)
  else if c = ',' then (.comma, cs)
  else scanAtom (c :: cs)

theorem scanText_length (cs : List Char) : (scanText cs).2.length ≤ cs.length := by
  unfold scanText
  have h := (List.dropWhile_sublist (· ≠ '"') (l := cs)).length_le
  split
  · exact Nat.le_refl _
  · next heq => rw [heq] at h; exact Nat.le_of_succ_le h

theorem scanAtom_length {c : Char} (cs : List Char) (h : isWordChar c = true) :
    (scanAtom (c :: cs)).2.length ≤ cs.length := by
  unfold scanAtom
  split
  · next hn =>
    cases hd : isDigit c with
    | true => simpa [hd] using (List.dropWhile_sublist isDigit (l := cs)).length_le
    | false => simp [startsNumber, hd] at hn
  · simpa [h] using (List.dropWhile_sublist isWordChar (l := cs)).length_le

/-- A piece takes at least the character it begins with. -/
theorem scan_length {c : Char} (cs : List Char) (hb : isBlank c = false) :
    (scan c cs).2.length ≤ cs.length := by
  unfold scan
  split
  · exact scanText_length cs
  · split
    · exact Nat.le_refl _
    · split
      · exact Nat.le_refl _
      · split
        · exact Nat.le_refl _
        · exact scanAtom_length cs (by simp_all [isWordChar])

/-- What follows layout does not begin with a blank. -/
theorem skipLayout_head {comment : Bool} {cs rest : List Char} {c : Char}
    (h : skipLayout comment cs = c :: rest) : isBlank c = false := by
  induction cs generalizing comment with
  | nil => simp [skipLayout] at h
  | cons d ds ih =>
    unfold skipLayout at h
    split at h
    · exact ih h
    · split at h
      · exact ih h
      · split at h
        · exact ih h
        · next hb _ =>
          cases h
          exact Bool.eq_false_iff.mpr hb

def lexemes (cs : List Char) : List Lexeme :=
  match _h : skipLayout false cs with
  | [] => []
  | c :: rest => ⟨(scan c rest).1, c :: rest⟩ :: lexemes (scan c rest).2
termination_by cs.length
decreasing_by
  have hs := skipLayout_length false cs
  have hc := scan_length rest (skipLayout_head _h)
  rw [_h, List.length_cons] at hs
  omega

end Token

end EggLang
