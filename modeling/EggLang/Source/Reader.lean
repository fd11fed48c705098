/-
# `EggLang.Source.Reader` — from source to tree

The reader goes through the pieces of a source once, from left to right,
with a stack of the applications whose argument lists are still open.

    focus      what may come next
    start      an expression, and nothing else
    argument   an expression, or the end of the argument list
    done e     an argument list for `e`; inside another argument list also
               its end, or a comma

Every piece either moves the reader on or is the first fault.  An argument
list may end in a comma, but not consist of one, and an expression may be
followed by any number of argument lists.  The stack's height is the nesting
of the source, and it may not reach `limit`.
-/
import EggLang.Fault
import EggLang.Source.Expr
import EggLang.Source.Token
import EggLang.Text.Integer

namespace EggLang

/-- An application whose argument list is open: its operator, and the
arguments so far, the last one first. -/
structure Pending where
  operator : Expr
  args : List Expr

/-- What the reader has at hand. -/
inductive Focus where
  | start
  | argument
  | done (e : Expr)

/-- The state of the reader between two pieces. -/
structure Reading where
  stack : List Pending
  focus : Focus

namespace Reading

def initial : Reading := ⟨[], .start⟩

inductive Stop where
  | problem (p : ReadProblem)
  | tooDeep

/-- How many characters of a source a message shows. -/
def shownLength : Nat := 20

/-- The number that ASCII digits denote. -/
def numberOf (digits : List Char) : Int :=
  (Nat.ofDigitChars 10 digits 0 : Nat)

/-- The expression that a piece is, or why it is none. -/
def atom (l : Lexeme) : Except ReadProblem Expr :=
  match l.token with
  | .text s => .ok (.text (String.ofList s))
  | .number digits =>
      if digits.length ≤ Text.digitLimit then .ok (.number (numberOf digits))
      else .error (.literalTooLong digits.length)
  | .word name => .ok (.word (String.ofList name))
  | _ => .error (.unexpected (l.tail.take shownLength))

/-- The state after an expression has begun with the given piece. -/
def begin (limit : Nat) (stack : List Pending) (l : Lexeme) : Except Stop Reading :=
  if stack.length < limit then
    match atom l with
    | .ok e => .ok ⟨stack, .done e⟩
    | .error p => .error (.problem p)
  else .error .tooDeep

/-- The state after the innermost argument list has ended. -/
def close (p : Pending) (args : List Expr) (stack : List Pending) : Reading :=
  ⟨stack, .done (.apply p.operator args.reverse)⟩

/-- The state after one more piece. -/
def step (limit : Nat) (r : Reading) (l : Lexeme) : Except Stop Reading :=
  match r.focus, r.stack, l.token with
  | .start, stack, _ => begin limit stack l
  | .argument, p :: stack, .closing => .ok (close p p.args stack)
  | .argument, stack, _ => begin limit stack l
  | .done e, stack, .opening => .ok ⟨⟨e, []⟩ :: stack, .argument⟩
  | .done e, p :: stack, .comma => .ok ⟨⟨p.operator, e :: p.args⟩ :: stack, .argument⟩
  | .done e, p :: stack, .closing => .ok (close p (e :: p.args) stack)
  | .done _, [], _ => .error (.problem .afterProgram)
  | .done _, _ :: _, _ => .error (.problem .unclosed)

/-- The tree that has been read when no piece is left. -/
def finish (limit : Nat) (r : Reading) : Except Stop Expr :=
  match r.focus, r.stack with
  | .done e, [] => .ok e
  | .start, _ => .error (if 0 < limit then .problem (.unexpected []) else .tooDeep)
  | _, _ => .error (.problem .unclosed)

/-- Reads the pieces to the end; a stop comes with the source that was left
when it was met. -/
def run (limit : Nat) : Reading → List Lexeme → Except (Stop × List Char) Expr
  | r, [] =>
      match r.finish limit with
      | .ok e => .ok e
      | .error s => .error (s, [])
  | r, l :: ls =>
      match r.step limit l with
      | .ok r => run limit r ls
      | .error s => .error (s, l.tail)

end Reading

/-- The fault for a stop with the given part of the source left. -/
def Reading.Stop.fault (source left : List Char) : Reading.Stop → Fault
  | .problem p => .unreadable (Text.Place.ofOffset source (source.length - left.length)) p
  | .tooDeep => .tooDeep

/-- The tree of a source, given as a list of characters. -/
def Expr.readChars (limit : Nat) (source : List Char) : Except Fault Expr :=
  match Reading.run limit .initial (Token.lexemes source) with
  | .ok e => .ok e
  | .error (s, left) => .error (s.fault source left)

/-- The tree of a source whose nesting stays below `limit`. -/
def Expr.read (limit : Nat) (source : String) : Except Fault Expr :=
  Expr.readChars limit source.toList

end EggLang
