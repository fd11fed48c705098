/-
# `EggLang.Session` — programs that share a global frame

A session has one store and one table of forms.  Frame 0 is the global
frame, with the thirteen names that every program starts with, and frame 1,
around which it stands, is the session's own.

    eval    evaluates a source in the session's frame, so that what it
            defines can be used by later steps
    run     evaluates a source in a new frame inside the global one, so
            that programs do not see each other's definitions
    file    runs the text that a file's bytes encode

A step that faults leaves what it has done before that.  A file that cannot be
opened or read is no step: `file` has the bytes already, and getting them, or
failing to, is left to who makes the step.
-/
import EggLang.Evaluate
import EggLang.Source.Reader
import EggLang.Text.Newline
import EggLang.Text.Utf8

namespace EggLang

/-- The bounds on what a step may use: how deeply sources, evaluations and
displays may nest, and how many turns a loop may take. -/
structure Limits where
  depth : Nat
  turns : Nat

namespace Session

open Recorder (silent)

def globalFrame : FrameId := 0

def ownFrame : FrameId := 1

def start : Store :=
  let s := (Store.empty.push none (globalBindings 0)).2
  (s.push (some globalFrame) []).2

/-! ## Steps -/

def fileText (bytes : List UInt8) : Except Fault String :=
  match Text.decodeUtf8 bytes with
  | .ok cs => .ok (String.ofList (Text.foldNewlines cs))
  | .error f => .error (.badEncoding f)

inductive Step where
  | eval (source : String)
  | run (lines : List String)
  | file (bytes : List UInt8)

section
variable {m : Type → Type} [Monad m] [Recorder m]

/-- Reads a source and evaluates it in a frame. -/
def evaluateIn (forms : Forms) (limits : Limits) (source : String) (e : FrameId) : m Value := do
  let tree ← silent (Run.ofExcept (Expr.read limits.depth source))
  Evaluate.expression forms limits.turns limits.depth tree e

/-- Evaluates a source in a new frame inside the global one. -/
def runSource (forms : Forms) (limits : Limits) (source : String) : m Value := do
  let e ← silent (Run.take fun s => s.push (some globalFrame) [])
  evaluateIn forms limits source e

/-- What a step does, in any computations that evaluation can be done in. -/
def Step.action (forms : Forms) (limits : Limits) : Step → m Value
  | .eval source => evaluateIn forms limits source ownFrame
  | .run lines => runSource forms limits ("\n".intercalate lines)
  | .file bytes => do
      let source ← silent (Run.ofExcept (fileText bytes))
      runSource forms limits source

end

/-- What a step does. -/
def Step.perform (forms : Forms) (limits : Limits) (step : Step) : Run Value :=
  step.action forms limits

section
variable (forms : Forms) (limits : Limits)

theorem Step.perform_eval (source : String) :
    (Step.eval source).perform forms limits = evaluateIn forms limits source ownFrame :=
  rfl

theorem Step.perform_run (lines : List String) :
    (Step.run lines).perform forms limits = runSource forms limits ("\n".intercalate lines) :=
  rfl

theorem Step.perform_file (bytes : List UInt8) :
    (Step.file bytes).perform forms limits =
      Run.ofExcept (fileText bytes) >>= runSource forms limits :=
  rfl

end

/-- Performs steps one after the other, faulting ones included. -/
def performAll (forms : Forms) (limits : Limits) : List Step → Store →
    List (Except Fault Value) × Store
  | [], s => ([], s)
  | step :: steps, s =>
      let (r, s) := step.perform forms limits s
      let (rs, s) := performAll forms limits steps s
      (r :: rs, s)

end Session

end EggLang
