/-
# `EggLang.Value.Display` — values as texts

There are two texts for a value.  Its *display* is what printing writes; its
*debug text* is what messages and frame listings show.

    value            display              debug text
    true             true                 True
    integer          decimal              decimal
    whole double     as an integer        with `.0`, or a power of ten
    other double     shortest decimal     shortest decimal
    string           as it is; quoted     quoted with escapes
                     inside an array
    array            [a, b]               [a, b]
    closure          <function(a, b)>     the same
    builtin          <builtin name>       the same

An integer with too many digits is a range fault in a display and a digits
fault in a debug text; the leftmost one is reported.  Arrays may nest up to
`limit` levels.
-/
import EggLang.Fault
import EggLang.Number.Digits
import EggLang.Number.Style
import EggLang.Source.Writer
import EggLang.Text.Quoted
import EggLang.Value.Basic

namespace EggLang

namespace Value

def bracketed (items : List String) : String :=
  "[" ++ ", ".intercalate items ++ "]"

/-- The text of a closure shows its parameters only. -/
def closureText (params : List String) : String :=
  "<function(" ++ ", ".intercalate params ++ ")>"

def builtinText (b : Builtin) : String :=
  "<builtin " ++ b.name ++ ">"

/-- The display of a double: a whole one has no point. -/
def doubleDisplay (x : Double) : String :=
  match x.integer? with
  | some n => decimalText n
  | none => x.text

/-- What printing writes for a value, `nested` inside an array or not. -/
def display : (limit : Nat) → (nested : Bool) → Value → Except Fault String
  | 0, _, _ => .error .tooDeep
  | _ + 1, _, .number (.int n) => Expr.numberText n
  | _ + 1, _, .number (.float x) => .ok (doubleDisplay x)
  | _ + 1, _, .bool b => .ok (if b then "true" else "false")
  | _ + 1, nested, .string s => .ok (if nested then "\"" ++ s ++ "\"" else s)
  | limit + 1, _, .array _ items => do
      let texts ← items.mapM (display limit true)
      .ok (bracketed texts)
  | _ + 1, _, .closure _ params _ _ => .ok (closureText params)
  | _ + 1, _, .builtin b => .ok (builtinText b)
  | _ + 1, _, .void => .ok "None"

/-- The decimal text of an integer in a message, or a digits fault. -/
def integerDebug (n : Int) : Except Fault String :=
  match decimalText? n with
  | some digits => .ok digits
  | none => .error .tooManyDigits

/-- What messages and frame listings show for a value. -/
def debug : (limit : Nat) → Value → Except Fault String
  | 0, _ => .error .tooDeep
  | _ + 1, .number (.int n) => integerDebug n
  | _ + 1, .number (.float x) => .ok x.text
  | _ + 1, .bool b => .ok (if b then "True" else "False")
  | _ + 1, .string s => .ok (Text.quotedString s)
  | limit + 1, .array _ items => do
      let texts ← items.mapM (debug limit)
      .ok (bracketed texts)
  | _ + 1, .closure _ params _ _ => .ok (closureText params)
  | _ + 1, .builtin b => .ok (builtinText b)
  | _ + 1, .void => .ok "None"

end Value

end EggLang
