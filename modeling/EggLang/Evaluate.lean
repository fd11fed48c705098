/-
# `EggLang.Evaluate` — evaluation

An expression is evaluated in a frame: a number or a text is itself, a word
is looked up, and an application is either a special form, decided by its
operator's keyword, or a call.  A call evaluates its operator, which has to
be a function, then its arguments from left to right, and then applies the
one to the others; a closure's body is evaluated in a new frame around the
frame in which the closure was made.

Two bounds make evaluation total.  `limit` is how deeply evaluations may
nest; going beyond it is the fault `tooDeep`, which the language has too.
`turns` is how many turns one loop may take; a loop that needs more is
`unfinished`, which only says that the answer needs a larger bound.

Everything but `expression` itself is written over a given way `eval` to
evaluate the parts, so that what holds of each piece for every `eval` needs
one induction on `limit` to hold of evaluation.

Evaluation is also written over the computations that it is done in.  It needs
two things of them: that a run is one of them, and that a run which is an event
may be noted.  `evaluate` is evaluation in runs, where nothing is noted; what
notes the events does not need an evaluator of its own.
-/
import EggLang.Builtin
import EggLang.Form

namespace EggLang

/-- What may be noted of an evaluation. -/
inductive Event where
  /-- A builtin is applied; what it displays may nest `limit` levels. -/
  | called (limit : Nat) (b : Builtin) (args : List Value)
  /-- A value that is no function is refused; its text may nest `limit`
  levels. -/
  | refused (limit : Nat) (v : Value)

/-- Computations that evaluation can be done in. -/
class Recorder (m : Type → Type) where
  /-- A run in which there is nothing to note. -/
  silent {α : Type} : Run α → m α
  /-- A run that is an event. -/
  noting {α : Type} : Event → Run α → m α

instance : Recorder Run where
  silent x := x
  noting _ x := x

@[simp] theorem Recorder.silent_run {α : Type} (x : Run α) : (silent x : Run α) = x :=
  rfl

/-- A way to evaluate expressions in frames. -/
abbrev Evaluator := Expr → FrameId → Run Value

namespace Evaluate

open Recorder (silent noting)

variable {m : Type → Type} [Monad m] [Recorder m]

/-! ## Lists of expressions -/

/-- The values of expressions, from left to right. -/
@[specialize] def all (eval : Expr → m Value) : List Expr → m (List Value)
  | [] => return []
  | a :: as => do
      let v ← eval a
      let vs ← all eval as
      return v :: vs

/-- Evaluates expressions for the value of the last; `last` if there is
none. -/
@[specialize] def inOrder (eval : Expr → m Value) (last : Value) : List Expr → m Value
  | [] => return last
  | a :: as => do
      let v ← eval a
      inOrder eval v as

/-! ## Application -/

def parameters (params : List String) (args : List Value) : Bindings :=
  Bindings.putAll [] (params.zip args)

/-- Faults with a value that is no function. -/
def notFunction (limit : Nat) (v : Value) : Run Value := do
  let shown ← Run.ofExcept (v.debug limit)
  Run.fail (.notFunction shown)

@[specialize] def refuse (limit : Nat) (v : Value) : m Value :=
  noting (.refused limit v) (notFunction limit v)

@[specialize] def application (eval : Expr → FrameId → m Value) (limit : Nat) (f : Value)
    (args : List Value) : m Value :=
  match f with
  | .closure _ params body frame =>
      if args.length = params.length then do
        let e ← silent (Run.take fun s => s.push (some frame) (parameters params args))
        eval body e
      else silent (Run.fail (.wrongCount params.length args.length))
  | .builtin b => noting (.called limit b args) (b.apply limit args)
  | v => refuse limit v

/-- A call: the operator, then the arguments, then the application. -/
@[specialize] def call (eval : Expr → FrameId → m Value) (limit : Nat) (operator : Expr)
    (args : List Expr) (e : FrameId) : m Value := do
  let f ← eval operator e
  if f.isFunction then
    let vs ← all (fun a => eval a e) args
    application eval limit f vs
  else refuse limit f

/-! ## Special forms -/

/-- Evaluates one of two expressions by the value of a third. -/
@[specialize] def conditional (eval : Expr → FrameId → m Value) (args : List Expr) (e : FrameId) :
    m Value :=
  match args with
  | [test, yes, no] => do
      let v ← eval test e
      eval (if v.isFalse then no else yes) e
  | _ => silent (Run.fail (.misuse .ifArguments))

/-- Repeats a body, at most `turns` times, until a test gives `false`. -/
@[specialize] def repeated (test body : m Value) : (turns : Nat) → m Value
  | 0 => silent (Run.fail .unfinished)
  | turns + 1 => do
      let v ← test
      if v.isFalse then return .bool false
      else do
        let _ ← body
        repeated test body turns

/-- Repeats an expression until another one gives `false`. -/
@[specialize] def loop (eval : Expr → FrameId → m Value) (turns : Nat) (args : List Expr)
    (e : FrameId) : m Value :=
  match args with
  | [test, body] => repeated (eval test e) (eval body e) turns
  | _ => silent (Run.fail (.misuse .whileArguments))

@[specialize] def define (eval : Expr → FrameId → m Value) (args : List Expr) (e : FrameId) :
    m Value :=
  match args with
  | [.word x, value] => do
      let v ← eval value e
      silent (Run.change fun s => s.define e x v)
      return v
  | _ => silent (Run.fail (.misuse .define))

/-- Rebinds a name in the frame that binds it. -/
@[specialize] def assign (eval : Expr → FrameId → m Value) (args : List Expr) (e : FrameId) :
    m Value :=
  match args with
  | [.word x, value] => do
      let v ← eval value e
      silent (Run.attempt fun s => s.set e x v)
      return v
  | _ => silent (Run.fail (.misuse .set))

def wordName? : Expr → Option String
  | .word x => some x
  | _ => none

/-- The names of parameters, which are words and differ. -/
def parameterNames (params : List Expr) : Except Fault (List String) :=
  match params.mapM wordName? with
  | none => .error (.misuse .parameterName)
  | some names =>
      if names.Nodup then .ok names else .error (.misuse (.repeatedParameters names))

/-- Makes a closure: the last argument is its body, the others are its
parameters. -/
def function (args : List Expr) (e : FrameId) : Run Value :=
  match args.getLast? with
  | none => Run.fail (.misuse .noBody)
  | some body => do
      let names ← Run.ofExcept (parameterNames args.dropLast)
      let identity ← Run.take Store.freshId
      return .closure identity names body e

@[specialize] def form (eval : Expr → FrameId → m Value) (turns : Nat) (f : Form)
    (args : List Expr) (e : FrameId) : m Value :=
  match f with
  | .conditional => conditional eval args e
  | .loop => loop eval turns args e
  | .sequence => inOrder (fun a => eval a e) (.bool false) args
  | .define => define eval args e
  | .assign => assign eval args e
  | .function => silent (function args e)

def formOf? (forms : Forms) : Expr → Option Form
  | .word x => forms.find? x
  | _ => none

/-- The value of an expression in a frame. -/
@[specialize] def expression (forms : Forms) (turns : Nat) :
    (limit : Nat) → Expr → FrameId → m Value
  | 0, _, _ => silent (Run.fail .tooDeep)
  | limit + 1, expr, e =>
      match expr with
      | .number n => return .number (.int n)
      | .text s => return .string s
      | .word x => silent (Run.read fun s => s.lookup e x)
      | .apply operator args =>
          match formOf? forms operator with
          | some f => form (expression forms turns limit) turns f args e
          | none => call (expression forms turns limit) limit operator args e
      | .hole => silent (Run.fail .notExpression)

end Evaluate

/-- The run that evaluates an expression in a frame. -/
def evaluate (forms : Forms) (turns limit : Nat) : Evaluator :=
  Evaluate.expression forms turns limit

theorem evaluate_apply (forms : Forms) (turns limit : Nat) (operator : Expr) (args : List Expr)
    (e : FrameId) :
    evaluate forms turns (limit + 1) (.apply operator args) e =
      match Evaluate.formOf? forms operator with
      | some f => Evaluate.form (evaluate forms turns limit) turns f args e
      | none => Evaluate.call (evaluate forms turns limit) limit operator args e :=
  rfl

end EggLang
