/-
# `EggLang.Proofs.Trace.Basic` — evaluation with a trace

An evaluation answers and leaves a store.  What it has done on the way is
gone: a printed line does not tell which value was printed, and a fault does
not tell which call it came from.  Here evaluation is done in computations that
also leave a trace.  Two things are put into the trace, in the order in which
they happen:

    called     a builtin is applied to arguments
    refused    a value stands in the place of a function and is none

Both come with the limit that was left for texts at that point.  The evaluator
is the one that runs, in other computations; forgetting the trace of each of its
pieces gives the piece back in runs (`erase_evaluate`).  What is said of a trace
is said of the evaluation that runs.
-/
import EggLang.Session
import EggLang.Proofs.Alike.Evaluate

namespace EggLang

/-- A computation on a store that leaves a trace. -/
def Traced (α : Type) : Type := Store → (Except Fault α × Store) × List Event

abbrev TracedEvaluator := Expr → FrameId → Traced Value

namespace Traced

open Recorder (silent noting)

/-! ## Computations with a trace -/

section
variable {α β : Type}

protected def pure (a : α) : Traced α := fun s => ((.ok a, s), [])

/-- The first computation and then, unless it faults, the second; the traces
follow each other in the same way. -/
protected def bind (x : Traced α) (k : α → Traced β) : Traced β := fun s =>
  match x s with
  | ((.ok a, t), before) => ((k a t).1, before ++ (k a t).2)
  | ((.error f, t), before) => ((.error f, t), before)

instance : Monad Traced where
  pure := Traced.pure
  bind := Traced.bind

instance : Recorder Traced where
  silent x := fun s => (x s, [])
  noting event x := fun s => (x s, [event])

@[simp] theorem silent_apply (x : Run α) (s : Store) : (silent x : Traced α) s = (x s, []) :=
  rfl

@[simp] theorem noting_apply (event : Event) (x : Run α) (s : Store) :
    (noting event x : Traced α) s = (x s, [event]) :=
  rfl

/-- The computation without its trace. -/
def erase (x : Traced α) : Run α := fun s => (x s).1

@[simp] theorem erase_pure (a : α) : erase (pure a : Traced α) = pure a := rfl

@[simp] theorem erase_silent (x : Run α) : erase (silent x) = x := rfl

@[simp] theorem erase_bind (x : Traced α) (k : α → Traced β) :
    (x >>= k).erase = x.erase >>= fun a => (k a).erase := by
  funext s
  rcases hx : x s with ⟨⟨f | a, t⟩, before⟩
  · have hrun : x.erase s = (.error f, t) := congrArg Prod.fst hx
    rw [Run.bind_apply_error hrun]
    show (Traced.bind x k s).1 = _
    simp only [Traced.bind, hx]
  · have hrun : x.erase s = (.ok a, t) := congrArg Prod.fst hx
    rw [Run.bind_apply_ok hrun]
    show (Traced.bind x k s).1 = _
    simp only [Traced.bind, hx, erase]

/-- Nothing happens in two computations if nothing happens in either. -/
theorem silent_bind (x : Run α) (k : α → Run β) :
    (silent (x >>= k) : Traced β) = silent x >>= fun a => silent (k a) := by
  funext s
  show ((x >>= k) s, []) = Traced.bind (silent x) (fun a => silent (k a)) s
  rcases hx : x s with ⟨f | a, t⟩
  · simp only [Traced.bind, silent_apply, Run.bind_apply_error hx, hx]
  · simp only [Traced.bind, silent_apply, Run.bind_apply_ok hx, hx, List.append_nil]

end

/-- The value of an expression in a frame, with a trace. -/
def evaluate (forms : Forms) (turns limit : Nat) : TracedEvaluator :=
  Evaluate.expression forms turns limit

theorem evaluate_apply (forms : Forms) (turns limit : Nat) (operator : Expr) (args : List Expr)
    (e : FrameId) :
    evaluate forms turns (limit + 1) (.apply operator args) e =
      match Evaluate.formOf? forms operator with
      | some f => Evaluate.form (evaluate forms turns limit) turns f args e
      | none => Evaluate.call (evaluate forms turns limit) limit operator args e :=
  rfl

/-! ## Without the trace it is a run -/

section
variable {eval : TracedEvaluator} {eval' : Evaluator} (heval : ∀ a e, (eval a e).erase = eval' a e)
include heval

theorem erase_all (as : List Expr) (e : FrameId) :
    erase (Evaluate.all (fun a => eval a e) as) = Evaluate.all (fun a => eval' a e) as := by
  induction as with
  | nil => rfl
  | cons a as ih => simp only [Evaluate.all, erase_bind, erase_pure, heval, ih]

theorem erase_inOrder (as : List Expr) (e : FrameId) (last : Value) :
    erase (Evaluate.inOrder (fun a => eval a e) last as) =
      Evaluate.inOrder (fun a => eval' a e) last as := by
  induction as generalizing last with
  | nil => rfl
  | cons a as ih => simp only [Evaluate.inOrder, erase_bind, heval, ih]

theorem erase_application (limit : Nat) (f : Value) (args : List Value) :
    erase (Evaluate.application eval limit f args) = Evaluate.application eval' limit f args := by
  cases f with
  | closure i params body frame =>
    simp only [Evaluate.application]
    split
    · simp only [erase_bind, erase_silent, heval, Recorder.silent_run]
    · rfl
  | _ => rfl

theorem erase_call (limit : Nat) (operator : Expr) (args : List Expr) (e : FrameId) :
    erase (Evaluate.call eval limit operator args e) =
      Evaluate.call eval' limit operator args e := by
  simp only [Evaluate.call, erase_bind, heval]
  congr 1
  funext f
  split
  · simp only [erase_bind, erase_all heval, erase_application heval]
  · rfl

theorem erase_conditional (args : List Expr) (e : FrameId) :
    erase (Evaluate.conditional eval args e) = Evaluate.conditional eval' args e := by
  unfold Evaluate.conditional
  split
  · simp only [erase_bind, heval]
  · rfl

theorem erase_repeated (test body : Expr) (e : FrameId) (turns : Nat) :
    erase (Evaluate.repeated (eval test e) (eval body e) turns) =
      Evaluate.repeated (eval' test e) (eval' body e) turns := by
  induction turns with
  | zero => rfl
  | succ turns ih =>
    simp only [Evaluate.repeated, erase_bind, heval]
    congr 1
    funext v
    split
    · rfl
    · simp only [erase_bind, heval, ih]

theorem erase_loop (turns : Nat) (args : List Expr) (e : FrameId) :
    erase (Evaluate.loop eval turns args e) = Evaluate.loop eval' turns args e := by
  unfold Evaluate.loop
  split
  · exact erase_repeated heval _ _ e turns
  · rfl

theorem erase_define (args : List Expr) (e : FrameId) :
    erase (Evaluate.define eval args e) = Evaluate.define eval' args e := by
  unfold Evaluate.define
  split
  · simp only [erase_bind, erase_silent, erase_pure, heval, Recorder.silent_run]
  · rfl

theorem erase_assign (args : List Expr) (e : FrameId) :
    erase (Evaluate.assign eval args e) = Evaluate.assign eval' args e := by
  unfold Evaluate.assign
  split
  · simp only [erase_bind, erase_silent, erase_pure, heval, Recorder.silent_run]
  · rfl

theorem erase_form (turns : Nat) (f : Form) (args : List Expr) (e : FrameId) :
    erase (Evaluate.form eval turns f args e) = Evaluate.form eval' turns f args e := by
  cases f with
  | conditional => exact erase_conditional heval args e
  | loop => exact erase_loop heval turns args e
  | sequence => exact erase_inOrder heval args e _
  | define => exact erase_define heval args e
  | assign => exact erase_assign heval args e
  | function => rfl

end

theorem erase_evaluate (forms : Forms) (turns limit : Nat) (a : Expr) (e : FrameId) :
    (evaluate forms turns limit a e).erase = EggLang.evaluate forms turns limit a e := by
  induction limit generalizing a e with
  | zero => rfl
  | succ limit ih =>
    cases a with
    | apply operator args =>
      rw [evaluate_apply, EggLang.evaluate_apply]
      cases Evaluate.formOf? forms operator with
      | some f => exact erase_form ih turns f args e
      | none => exact erase_call ih limit operator args e
    | _ => rfl

/-- An evaluation with its trace. -/
theorem evaluate_eq (forms : Forms) (turns limit : Nat) (a : Expr) (e : FrameId) (s : Store) :
    ∃ events, evaluate forms turns limit a e s =
      (EggLang.evaluate forms turns limit a e s, events) := by
  refine ⟨(evaluate forms turns limit a e s).2, ?_⟩
  rw [← erase_evaluate]
  rfl

end Traced

end EggLang
