/-
# `EggLang.Proofs.Source.Grammar` — which texts are which trees

The grammar of sources, said without a scanner and without a reader: when a
text is layout, when it renders a tree, and when it is a program.

    text         `"`, characters other than `"`, `"`
    number       1 to 4300 ASCII digits, leading zeros included
    word         its own name (`IsName`)
    application  operator, gap, `(`, arguments
    arguments    layout, `)`
                 layout, argument, gap, `)`
                 layout, argument, gap, `,`, arguments

The last line gives the trailing comma: it is followed by arguments of which
there are none, so a list may end in a comma but not consist of one.

Two things make the grammar more than a context-free one.

* A comment runs to the end of its line.  Only the layout at the end of the
  whole source may leave a comment open (`LastLayout`); anywhere else a
  comment that is not ended by its line would swallow what follows it.
* A `#` that touches a word belongs to the word.  So a gap, the layout behind
  an expression, is empty or begins with a blank if the expression is a word
  (`Clear`).
-/
import EggLang.Source.Reader

namespace EggLang.Grammar

open Text (isBlank)
open Token (isDigit isWordChar endsNumber)

/-! ## Layout -/

/-- Blanks and comments, each comment ended by its line. -/
inductive Layout : List Char → Prop
  | nil : Layout []
  | blank {c : Char} {cs : List Char} : isBlank c = true → Layout cs → Layout (c :: cs)
  | comment {body cs : List Char} : '\n' ∉ body → Layout cs →
      Layout ('#' :: (body ++ '\n' :: cs))

/-- Layout at the end of a source, where a comment may be left open. -/
inductive LastLayout : List Char → Prop
  | ended {cs : List Char} : Layout cs → LastLayout cs
  | opened {cs body : List Char} : Layout cs → '\n' ∉ body → LastLayout (cs ++ '#' :: body)

/-- A text is clear of an expression before it: it does not begin with a
comment if the expression is a word. -/
def Clear (e : Expr) (cs : List Char) : Prop :=
  match e with
  | .word _ => cs = [] ∨ ∃ c rest, cs = c :: rest ∧ isBlank c = true
  | _ => True

/-- The layout behind an expression. -/
structure Gap (e : Expr) (cs : List Char) : Prop where
  layout : Layout cs
  clear : Clear e cs

/-! ## Names -/

/-- The text begins with a run of digits that ends at the end of the text or
before a character that no number runs into. -/
def BeginsWithNumber (cs : List Char) : Prop :=
  ∃ ds rest, cs = ds ++ rest ∧ ds ≠ [] ∧ (∀ d ∈ ds, isDigit d = true) ∧ endsNumber rest = true

structure IsName (cs : List Char) : Prop where
  ne_nil : cs ≠ []
  chars : ∀ c ∈ cs, isWordChar c = true
  no_comment : cs.head? ≠ some '#'
  no_number : ¬ BeginsWithNumber cs

/-! ## Trees -/

mutual

/-- The text renders the tree. -/
inductive Renders : List Char → Expr → Prop
  | text {s : List Char} : '"' ∉ s → Renders ('"' :: (s ++ ['"'])) (.text (String.ofList s))
  | number {ds : List Char} : ds ≠ [] → (∀ d ∈ ds, isDigit d = true) → ds.length ≤ 4300 →
      Renders ds (.number (Nat.ofDigitChars 10 ds 0))
  | word {name : List Char} : IsName name → Renders name (.word (String.ofList name))
  | apply {f g as : List Char} {operator : Expr} {args : List Expr} :
      Renders f operator → Gap operator g → RendersArgs as args →
      Renders (f ++ (g ++ '(' :: as)) (.apply operator args)

/-- The text renders the arguments and ends the list that they are in. -/
inductive RendersArgs : List Char → List Expr → Prop
  | close {l : List Char} : Layout l → RendersArgs (l ++ [')']) []
  | last {l a g : List Char} {e : Expr} : Layout l → Renders a e → Gap e g →
      RendersArgs (l ++ (a ++ (g ++ [')']))) [e]
  | more {l a g as : List Char} {e : Expr} {es : List Expr} : Layout l → Renders a e →
      Gap e g → RendersArgs as es → RendersArgs (l ++ (a ++ (g ++ ',' :: as))) (e :: es)

end

/-- The text is a program: layout, one expression, and layout. -/
def Program (cs : List Char) (t : Expr) : Prop :=
  ∃ l r g, cs = l ++ (r ++ g) ∧ Layout l ∧ Renders r t ∧ LastLayout g ∧ Clear t g

end EggLang.Grammar

namespace EggLang.Expr

/-! ## Nesting

How deeply a source nests is a matter of its arguments alone: the argument
lists behind one operator stand side by side. -/

mutual

/-- How deeply the sources of a tree nest. -/
def nesting : Expr → Nat
  | .apply operator args => max operator.nesting (nestings args + 1)
  | _ => 1

def nestings : List Expr → Nat
  | [] => 0
  | a :: as => max a.nesting (nestings as)

end

theorem nesting_apply (operator : Expr) (args : List Expr) :
    (apply operator args).nesting = max operator.nesting (nestings args + 1) := by
  rw [nesting]

theorem nestings_cons (a : Expr) (as : List Expr) :
    nestings (a :: as) = max a.nesting (nestings as) := by
  rw [nestings]

theorem nestings_append (as bs : List Expr) :
    nestings (as ++ bs) = max (nestings as) (nestings bs) := by
  induction as with
  | nil => simp [nestings]
  | cons a as ih => rw [List.cons_append, nestings_cons, nestings_cons, ih, Nat.max_assoc]

theorem nestings_reverse (as : List Expr) : nestings as.reverse = nestings as := by
  induction as with
  | nil => rfl
  | cons a as ih =>
    rw [List.reverse_cons, nestings_append, ih, nestings_cons, nestings_cons, nestings,
      Nat.max_zero, Nat.max_comm]

theorem nesting_pos (e : Expr) : 0 < e.nesting := by
  cases e with
  | apply operator args =>
    rw [nesting_apply]
    exact Nat.lt_of_lt_of_le (Nat.succ_pos _) (Nat.le_max_right _ _)
  | _ => exact Nat.one_pos

end EggLang.Expr
