/-
# `EggLang.Proofs.Trace.Law` — what holds of every trace

A law is a relation between the store that a computation begins with, its
fault if it has one, the store it leaves, and its trace.  It does not speak of
values.  Such a relation holds of every evaluation if it holds of what
evaluations are put together from:

    idle       a computation that does nothing
    follow     a computation that returns, and another one behind it
    own        a fault of the reader or the evaluator itself; the store stays
    fresh      a new identity
    define     a name that is bound
    enter      a new frame inside another one
    called     a builtin that is applied, an event
    refused    a value that is no function, an event

Assignment is not among them, as it binds a name in a frame that has it.

The proof follows the traced evaluator: each piece keeps the law if the
evaluator of its parts does, and `evaluate` does by induction on its limit
(`Law.keeps_evaluate`).  A law that is about the store alone, one that is about
faults and one that ties the two to the trace need no induction of their own.
-/
import EggLang.Proofs.Trace.Basic
import EggLang.Store.Lemmas

namespace EggLang

open Recorder (silent noting)

def faultOf? {α : Type} : Except Fault α → Option Fault
  | .ok _ => none
  | .error f => some f

theorem faultOf?_eq_some {α : Type} {r : Except Fault α} {f : Fault} :
    faultOf? r = some f ↔ r = .error f := by
  cases r <;> simp [faultOf?]

/-- A fault that reading or evaluating has by itself, from no builtin and no
value. -/
def Fault.Own : Fault → Prop
  | .unreadable .. => True
  | .misuse _ => True
  | .unboundRead _ => True
  | .unboundWrite _ => True
  | .notExpression => True
  | .wrongCount .. => True
  | .tooDeep => True
  | .unfinished => True
  | _ => False

/-- The fault of a value that is no function, whose text it shows if there is
one. -/
def Value.refusal (limit : Nat) (v : Value) : Fault :=
  match v.debug limit with
  | .ok shown => .notFunction shown
  | .error f => f

theorem Evaluate.notFunction_apply (limit : Nat) (v : Value) (s : Store) :
    notFunction limit v s = (.error (v.refusal limit), s) := by
  unfold notFunction Value.refusal
  cases v.debug limit <;> rfl

/-- A relation that holds of every evaluation. -/
structure Law where
  Holds : Store → Option Fault → Store → List Event → Prop
  idle : ∀ s, Holds s none s []
  follow : ∀ {s t u f before after}, Holds s none t before → Holds t f u after →
    Holds s f u (before ++ after)
  own : ∀ {f} s, f.Own → Holds s (some f) s []
  fresh : ∀ s, Holds s none s.freshId.2 []
  define : ∀ s e x v, Holds s none (s.define e x v) []
  enter : ∀ s g bs, Holds s none (s.push (some g) bs).2 []
  called : ∀ limit b args s, Holds s (faultOf? (b.apply limit args s).1)
    (b.apply limit args s).2 [.called limit b args]
  refused : ∀ limit v s, Holds s (some (v.refusal limit)) s [.refused limit v]

namespace Law

/-- The law holds of a computation from every store. -/
def Keeps {α : Type} (L : Law) (x : Traced α) : Prop :=
  ∀ s, L.Holds s (faultOf? (x s).1.1) (x s).1.2 (x s).2

section
variable {L : Law} {α β : Type}

/-! ## Computations -/

theorem keeps_pure (a : α) : L.Keeps (pure a) := fun s => L.idle s

theorem keeps_own {f : Fault} (hf : f.Own) : L.Keeps (silent (Run.fail f : Run α)) :=
  fun s => L.own s hf

theorem keeps_bind {x : Traced α} {k : α → Traced β} (hx : L.Keeps x) (hk : ∀ a, L.Keeps (k a)) :
    L.Keeps (x >>= k) := by
  intro s
  have hs := hx s
  show L.Holds s (faultOf? (Traced.bind x k s).1.1) (Traced.bind x k s).1.2 (Traced.bind x k s).2
  rcases hrun : x s with ⟨⟨f | a, t⟩, before⟩
  · rw [hrun] at hs
    simp only [Traced.bind, hrun]
    exact hs
  · rw [hrun] at hs
    simp only [Traced.bind, hrun]
    exact L.follow hs (hk a t)

/-! ## Parts that are no events -/

theorem keeps_lookup (e : FrameId) (x : String) :
    L.Keeps (silent (Run.read fun s => s.lookup e x)) := by
  intro s
  simp only [Traced.silent_apply, Run.read]
  fun_cases Store.lookup s e x
  · exact L.own s trivial
  · exact L.idle s
  · exact L.own s trivial

theorem keeps_define (e : FrameId) (x : String) (v : Value) :
    L.Keeps (silent (Run.change fun s => s.define e x v)) :=
  fun s => L.define s e x v

theorem keeps_set (e : FrameId) (x : String) (v : Value) :
    L.Keeps (silent (Run.attempt fun s => s.set e x v)) := by
  intro s
  simp only [Traced.silent_apply, Run.attempt]
  fun_cases Store.set s e x v
  · exact L.own s trivial
  · exact L.define s _ x v

theorem keeps_enter (g : FrameId) (bs : Bindings) :
    L.Keeps (silent (Run.take fun s => s.push (some g) bs)) :=
  fun s => L.enter s g bs

theorem keeps_parameterNames (params : List Expr) :
    L.Keeps (silent (Run.ofExcept (Evaluate.parameterNames params))) := by
  intro s
  simp only [Traced.silent_apply, Run.ofExcept]
  fun_cases Evaluate.parameterNames params
  · exact L.own s trivial
  · exact L.idle s
  · exact L.own s trivial

theorem keeps_function (args : List Expr) (e : FrameId) :
    L.Keeps (silent (Evaluate.function args e)) := by
  unfold Evaluate.function
  cases args.getLast? with
  | none => exact keeps_own trivial
  | some body =>
    have hfresh : L.Keeps (silent (Run.take Store.freshId)) := fun s => L.fresh s
    simp only [Traced.silent_bind]
    exact keeps_bind (keeps_parameterNames _) fun _ => keeps_bind hfresh fun _ => keeps_pure _

/-! ## Events -/

theorem keeps_called (limit : Nat) (b : Builtin) (args : List Value) :
    L.Keeps (noting (.called limit b args) (b.apply limit args)) :=
  fun s => L.called limit b args s

theorem keeps_refuse (limit : Nat) (v : Value) : L.Keeps (Evaluate.refuse limit v) := by
  intro s
  simp only [Evaluate.refuse, Traced.noting_apply, Evaluate.notFunction_apply]
  exact L.refused limit v s

/-! ## The pieces of evaluation -/

section
variable {eval : TracedEvaluator} (heval : ∀ a e, L.Keeps (eval a e))
include heval

theorem keeps_all (as : List Expr) (e : FrameId) :
    L.Keeps (Evaluate.all (fun a => eval a e) as) := by
  induction as with
  | nil => exact keeps_pure _
  | cons a as ih => exact keeps_bind (heval a e) fun _ => keeps_bind ih fun _ => keeps_pure _

theorem keeps_inOrder (as : List Expr) (e : FrameId) (last : Value) :
    L.Keeps (Evaluate.inOrder (fun a => eval a e) last as) := by
  induction as generalizing last with
  | nil => exact keeps_pure last
  | cons a as ih => exact keeps_bind (heval a e) ih

theorem keeps_application (limit : Nat) (f : Value) (args : List Value) :
    L.Keeps (Evaluate.application eval limit f args) := by
  cases f with
  | closure i params body frame =>
    simp only [Evaluate.application]
    split
    · exact keeps_bind (keeps_enter frame _) fun e => heval body e
    · exact keeps_own trivial
  | builtin b => exact keeps_called limit b args
  | _ => exact keeps_refuse limit _

theorem keeps_call (limit : Nat) (operator : Expr) (args : List Expr) (e : FrameId) :
    L.Keeps (Evaluate.call eval limit operator args e) := by
  refine keeps_bind (heval operator e) fun f => ?_
  split
  · exact keeps_bind (keeps_all heval args e) fun vs => keeps_application heval limit f vs
  · exact keeps_refuse limit f

theorem keeps_conditional (args : List Expr) (e : FrameId) :
    L.Keeps (Evaluate.conditional eval args e) := by
  unfold Evaluate.conditional
  split
  · exact keeps_bind (heval _ e) fun v => heval _ e
  · exact keeps_own trivial

theorem keeps_repeated (test body : Expr) (e : FrameId) (turns : Nat) :
    L.Keeps (Evaluate.repeated (eval test e) (eval body e) turns) := by
  induction turns with
  | zero => exact keeps_own trivial
  | succ turns ih =>
    refine keeps_bind (heval test e) fun v => ?_
    split
    · exact keeps_pure _
    · exact keeps_bind (heval body e) fun _ => ih

theorem keeps_loop (turns : Nat) (args : List Expr) (e : FrameId) :
    L.Keeps (Evaluate.loop eval turns args e) := by
  unfold Evaluate.loop
  split
  · exact keeps_repeated heval _ _ e turns
  · exact keeps_own trivial

theorem keeps_defineForm (args : List Expr) (e : FrameId) :
    L.Keeps (Evaluate.define eval args e) := by
  unfold Evaluate.define
  split
  · exact keeps_bind (heval _ e) fun v => keeps_bind (keeps_define e _ v) fun _ => keeps_pure v
  · exact keeps_own trivial

theorem keeps_assign (args : List Expr) (e : FrameId) : L.Keeps (Evaluate.assign eval args e) := by
  unfold Evaluate.assign
  split
  · exact keeps_bind (heval _ e) fun v => keeps_bind (keeps_set e _ v) fun _ => keeps_pure v
  · exact keeps_own trivial

theorem keeps_form (turns : Nat) (f : Form) (args : List Expr) (e : FrameId) :
    L.Keeps (Evaluate.form eval turns f args e) := by
  cases f with
  | conditional => exact keeps_conditional heval args e
  | loop => exact keeps_loop heval turns args e
  | sequence => exact keeps_inOrder heval args e _
  | define => exact keeps_defineForm heval args e
  | assign => exact keeps_assign heval args e
  | function => exact keeps_function args e

end

/-! ## Evaluation -/

theorem keeps_evaluate (L : Law) (forms : Forms) (turns limit : Nat) (a : Expr) (e : FrameId) :
    L.Keeps (Traced.evaluate forms turns limit a e) := by
  induction limit generalizing a e with
  | zero => exact keeps_own trivial
  | succ limit ih =>
    cases a with
    | number n => exact keeps_pure _
    | text x => exact keeps_pure _
    | word x => exact keeps_lookup e x
    | hole => exact keeps_own trivial
    | apply operator args =>
      simp only [Traced.evaluate_apply]
      cases Evaluate.formOf? forms operator with
      | some f => exact keeps_form ih turns f args e
      | none => exact keeps_call ih limit operator args e

end

end Law

end EggLang
