/-
# `EggLang.Proofs.Limits` — larger limits change no answer

Reading, writing, displaying and evaluating take bounds, and have an answer of
their own for a bound that was too small: `tooDeep` for nesting, `unfinished`
for the turns of a loop.  Nothing catches these two.  So a computation that
ends in any other way has not come to a bound, and ends in the same way, with
the same store, if the bounds are larger (`raising_limits`).

This is an order on results in which the faults that a bound can cause come
first: `Refines cut x y` says that `y` is `x`, unless `x` is one of the faults
in `cut`.  Everything that the evaluator is put together from is monotone in
this order, sequencing above all (`Refines.bind`, `Extends.bind`), so that one
induction on the limit is all there is to evaluation.

`cut` is a parameter because `unfinished` is cut only if the number of turns
is raised; with as many turns as before a loop gives up at the same turn.
-/
import EggLang.Session
import EggLang.Proofs.Alike.Evaluate
import EggLang.Proofs.Source.Moves

namespace EggLang

/-- Induction on the smaller of two bounds. -/
theorem le_induction_both {motive : (n m : Nat) → n ≤ m → Prop}
    (zero : ∀ m, motive 0 m (Nat.zero_le m))
    (succ : ∀ n m h, motive n m h → motive (n + 1) (m + 1) (Nat.succ_le_succ h))
    {n m : Nat} (h : n ≤ m) : motive n m h := by
  induction n generalizing m with
  | zero => exact zero m
  | succ n ih =>
    cases m with
    | zero => exact absurd h (Nat.not_succ_le_zero n)
    | succ m => exact succ n m _ (ih (Nat.le_of_succ_le_succ h))

/-! ## Results -/

/-- The result is a value, or a fault that is not cut. -/
def Settled {α : Type} (cut : Fault → Prop) (x : Except Fault α) : Prop :=
  ∀ f, x = .error f → ¬ cut f

/-- The second result is the first, unless that is cut. -/
def Refines {α : Type} (cut : Fault → Prop) (x y : Except Fault α) : Prop :=
  Settled cut x → y = x

section
variable {α β : Type} {cut : Fault → Prop}

theorem settled_ok (a : α) : Settled cut (.ok a : Except Fault α) := nofun

theorem settled_error_iff {f : Fault} : Settled cut (.error f : Except Fault α) ↔ ¬ cut f := by
  constructor
  · intro h
    exact h f rfl
  · rintro h _ ⟨⟩
    exact h

theorem Refines.refl (x : Except Fault α) : Refines cut x x := fun _ => rfl

theorem refines_of_cut {f : Fault} (hf : cut f) (y : Except Fault α) :
    Refines cut (.error f) y := by
  intro h
  exact absurd hf (settled_error_iff.mp h)

theorem Refines.bind {x y : Except Fault α} {k l : α → Except Fault β} (hxy : Refines cut x y)
    (hkl : ∀ a, Refines cut (k a) (l a)) : Refines cut (x >>= k) (y >>= l) := by
  intro h
  cases x with
  | error f =>
    have hf : ¬ cut f := settled_error_iff.mp h
    have hy : y = .error f := hxy (settled_error_iff.mpr hf)
    rw [hy]
    rfl
  | ok a =>
    have hy : y = .ok a := hxy (settled_ok a)
    rw [hy]
    exact hkl a h

theorem Refines.mapM {f g : α → Except Fault β} (h : ∀ a, Refines cut (f a) (g a))
    (xs : List α) : Refines cut (xs.mapM f) (xs.mapM g) := by
  induction xs with
  | nil => exact .refl _
  | cons x xs ih =>
    rw [List.mapM_cons, List.mapM_cons]
    exact (h x).bind fun b => ih.bind fun bs => .refl _

end

/-! ## Texts -/

section
variable {cut : Fault → Prop} (hdeep : cut .tooDeep)
include hdeep

theorem display_refines {limit limit' : Nat} (hle : limit ≤ limit') (nested : Bool) (v : Value) :
    Refines cut (v.display limit nested) (v.display limit' nested) := by
  induction hle using le_induction_both generalizing nested v with
  | zero limit' => exact refines_of_cut hdeep _
  | succ limit limit' _ ih =>
    cases v with
    | number n => cases n <;> exact .refl _
    | array i items =>
      rw [Value.display, Value.display]
      exact (Refines.mapM (ih true) items).bind fun _ => .refl _
    | _ => exact .refl _

theorem debug_refines {limit limit' : Nat} (hle : limit ≤ limit') (v : Value) :
    Refines cut (v.debug limit) (v.debug limit') := by
  induction hle using le_induction_both generalizing v with
  | zero limit' => exact refines_of_cut hdeep _
  | succ limit limit' _ ih =>
    cases v with
    | number n => cases n <;> exact .refl _
    | array i items =>
      rw [Value.debug, Value.debug]
      exact (Refines.mapM ih items).bind fun _ => .refl _
    | _ => exact .refl _

theorem write_refines {limit limit' : Nat} (hle : limit ≤ limit') (e : Expr) :
    Refines cut (e.write limit) (e.write limit') := by
  induction hle using le_induction_both generalizing e with
  | zero limit' => exact refines_of_cut hdeep _
  | succ limit limit' _ ih =>
    cases e with
    | apply operator args =>
      rw [Expr.write, Expr.write]
      exact (ih operator).bind fun _ => (Refines.mapM ih args).bind fun _ => .refl _
    | _ => exact .refl _

theorem read_refines {limit limit' : Nat} (hle : limit ≤ limit') (source : String) :
    Refines cut (Expr.read limit source) (Expr.read limit' source) := by
  intro h
  unfold Expr.read Expr.readChars at h ⊢
  rw [Reading.run_mono hle]
  intro left hrun
  rw [hrun] at h
  exact h .tooDeep rfl hdeep

end

/-! ## Computations -/

/-- The second computation does what the first one does, unless that is cut. -/
def Run.Extends {α : Type} (cut : Fault → Prop) (x y : Run α) : Prop :=
  ∀ s, Settled cut (x s).1 → y s = x s

def Evaluator.Extends (cut : Fault → Prop) (eval eval' : Evaluator) : Prop :=
  ∀ a e, (eval a e).Extends cut (eval' a e)

namespace Run

section
variable {α β : Type} {cut : Fault → Prop}

theorem Extends.refl (x : Run α) : x.Extends cut x := fun _ _ => rfl

theorem extends_of_cut {f : Fault} (hf : cut f) (y : Run α) : (Run.fail f).Extends cut y := by
  intro s h
  exact absurd hf (settled_error_iff.mp h)

theorem extends_ofExcept {x y : Except Fault α} (h : Refines cut x y) :
    (ofExcept x).Extends cut (ofExcept y) := by
  intro s hx
  show (y, s) = (x, s)
  rw [h hx]

theorem Extends.bind {x y : Run α} {k l : α → Run β} (hxy : x.Extends cut y)
    (hkl : ∀ a, (k a).Extends cut (l a)) : (x >>= k).Extends cut (y >>= l) := by
  intro s h
  rcases hxs : x s with ⟨f | a, t⟩
  · rw [bind_apply_error hxs] at h ⊢
    have hsettled : Settled cut (x s).1 := by
      rw [hxs]
      exact settled_error_iff.mpr (settled_error_iff.mp h)
    have hys : y s = (.error f, t) := (hxy s hsettled).trans hxs
    exact bind_apply_error hys
  · rw [bind_apply_ok hxs] at h ⊢
    have hys : y s = (.ok a, t) := (hxy s (by rw [hxs]; exact settled_ok a)).trans hxs
    rw [bind_apply_ok hys]
    exact hkl a t h

end

end Run

open Run (Extends extends_of_cut extends_ofExcept)

/-! ## The pieces of evaluation -/

section
variable {cut : Fault → Prop}

theorem apply_extends (hdeep : cut .tooDeep) {limit limit' : Nat} (hle : limit ≤ limit')
    (b : Builtin) (args : List Value) :
    (b.apply limit args).Extends cut (b.apply limit' args) := by
  unfold Builtin.apply
  split
  -- only a printer looks at the limit
  case h_11 x =>
    exact (extends_ofExcept (display_refines hdeep hle false x)).bind fun _ => .refl _
  all_goals exact .refl _

theorem notFunction_extends (hdeep : cut .tooDeep) {limit limit' : Nat} (hle : limit ≤ limit')
    (v : Value) :
    (Evaluate.notFunction limit v).Extends cut (Evaluate.notFunction limit' v) :=
  (extends_ofExcept (debug_refines hdeep hle v)).bind fun _ => .refl _

variable {eval eval' : Evaluator} (heval : eval.Extends cut eval')
include heval

theorem all_extends (as : List Expr) (e : FrameId) :
    (Evaluate.all (fun a => eval a e) as).Extends cut (Evaluate.all (fun a => eval' a e) as) := by
  induction as with
  | nil => exact .refl _
  | cons a as ih => exact (heval a e).bind fun v => ih.bind fun vs => .refl _

theorem inOrder_extends (as : List Expr) (e : FrameId) : ∀ last,
    (Evaluate.inOrder (fun a => eval a e) last as).Extends cut
      (Evaluate.inOrder (fun a => eval' a e) last as) := by
  induction as with
  | nil =>
    intro last
    exact .refl _
  | cons a as ih =>
    intro last
    exact (heval a e).bind ih

theorem application_extends (hdeep : cut .tooDeep) {limit limit' : Nat} (hle : limit ≤ limit')
    (f : Value) (args : List Value) :
    (Evaluate.application eval limit f args).Extends cut
      (Evaluate.application eval' limit' f args) := by
  cases f with
  | closure i params body frame =>
    simp only [Evaluate.application]
    split
    · exact (Extends.refl _).bind fun e => heval body e
    · exact .refl _
  | builtin b => exact apply_extends hdeep hle b args
  | _ => exact notFunction_extends hdeep hle _

theorem call_extends (hdeep : cut .tooDeep) {limit limit' : Nat} (hle : limit ≤ limit')
    (operator : Expr) (args : List Expr) (e : FrameId) :
    (Evaluate.call eval limit operator args e).Extends cut
      (Evaluate.call eval' limit' operator args e) := by
  refine (heval operator e).bind fun f => ?_
  split
  · exact (all_extends heval args e).bind fun vs => application_extends heval hdeep hle f vs
  · exact notFunction_extends hdeep hle f

theorem conditional_extends (args : List Expr) (e : FrameId) :
    (Evaluate.conditional eval args e).Extends cut (Evaluate.conditional eval' args e) := by
  unfold Evaluate.conditional
  split
  · next test yes no => exact (heval test e).bind fun v => heval _ e
  · exact .refl _

/-- A loop that was given more turns does the same, unless it used up those
that it had. -/
theorem repeated_extends {turns turns' : Nat} (hturns : turns ≤ turns')
    (hcut : turns ≠ turns' → cut .unfinished) (test body : Expr) (e : FrameId) :
    (Evaluate.repeated (eval test e) (eval body e) turns).Extends cut
      (Evaluate.repeated (eval' test e) (eval' body e) turns') := by
  induction hturns using le_induction_both with
  | zero turns' =>
    cases turns' with
    | zero => exact .refl _
    | succ turns' => exact extends_of_cut (hcut nofun) _
  | succ turns turns' _ ih =>
    rw [Evaluate.repeated, Evaluate.repeated]
    refine (heval test e).bind fun v => ?_
    split
    · exact .refl _
    · refine (heval body e).bind fun _ => ih ?_
      intro hne
      exact hcut fun heq => hne (Nat.succ.inj heq)

theorem loop_extends {turns turns' : Nat} (hturns : turns ≤ turns')
    (hcut : turns ≠ turns' → cut .unfinished) (args : List Expr) (e : FrameId) :
    (Evaluate.loop eval turns args e).Extends cut (Evaluate.loop eval' turns' args e) := by
  unfold Evaluate.loop
  split
  · next test body => exact repeated_extends heval hturns hcut test body e
  · exact .refl _

theorem define_extends (args : List Expr) (e : FrameId) :
    (Evaluate.define eval args e).Extends cut (Evaluate.define eval' args e) := by
  unfold Evaluate.define
  split
  · next x value => exact (heval value e).bind fun v => .refl _
  · exact .refl _

theorem assign_extends (args : List Expr) (e : FrameId) :
    (Evaluate.assign eval args e).Extends cut (Evaluate.assign eval' args e) := by
  unfold Evaluate.assign
  split
  · next x value => exact (heval value e).bind fun v => .refl _
  · exact .refl _

theorem form_extends {turns turns' : Nat} (hturns : turns ≤ turns')
    (hcut : turns ≠ turns' → cut .unfinished) (form : Form) (args : List Expr) (e : FrameId) :
    (Evaluate.form eval turns form args e).Extends cut
      (Evaluate.form eval' turns' form args e) := by
  cases form with
  | conditional => exact conditional_extends heval args e
  | loop => exact loop_extends heval hturns hcut args e
  | sequence => exact inOrder_extends heval args e _
  | define => exact define_extends heval args e
  | assign => exact assign_extends heval args e
  | function => exact .refl _

end

/-! ## Evaluation and steps -/

theorem evaluate_extends {cut : Fault → Prop} (hdeep : cut .tooDeep) (forms : Forms)
    {turns turns' : Nat} (hturns : turns ≤ turns') (hcut : turns ≠ turns' → cut .unfinished)
    {limit limit' : Nat} (hle : limit ≤ limit') :
    (evaluate forms turns limit).Extends cut (evaluate forms turns' limit') := by
  induction hle using le_induction_both with
  | zero limit' =>
    intro a e
    exact extends_of_cut hdeep _
  | succ limit limit' hle ih =>
    intro a e
    cases a with
    | apply operator args =>
      simp only [evaluate_apply]
      cases Evaluate.formOf? forms operator with
      | some form => exact form_extends ih hturns hcut form args e
      | none => exact call_extends ih hdeep hle operator args e
    | _ => exact .refl _

namespace Session

section
variable {cut : Fault → Prop} (hdeep : cut .tooDeep) (forms : Forms) {l m : Limits}
variable (hdepth : l.depth ≤ m.depth) (hturns : l.turns ≤ m.turns)
variable (hcut : l.turns ≠ m.turns → cut .unfinished)
include hdeep hdepth hturns hcut

theorem evaluateIn_extends (source : String) (e : FrameId) :
    (evaluateIn forms l source e : Run Value).Extends cut (evaluateIn forms m source e) := by
  refine (extends_ofExcept (read_refines hdeep hdepth source)).bind fun tree => ?_
  exact evaluate_extends hdeep forms hturns hcut hdepth tree e

theorem runSource_extends (source : String) :
    (runSource forms l source : Run Value).Extends cut (runSource forms m source) :=
  (Extends.refl _).bind fun e => evaluateIn_extends hdeep forms hdepth hturns hcut source e

theorem perform_extends (step : Step) :
    (step.perform forms l).Extends cut (step.perform forms m) := by
  cases step with
  | eval source => exact evaluateIn_extends hdeep forms hdepth hturns hcut source ownFrame
  | run lines => exact runSource_extends hdeep forms hdepth hturns hcut _
  | file bytes =>
    exact (Extends.refl _).bind fun source =>
      runSource_extends hdeep forms hdepth hturns hcut source

end

end Session

/-! ## Larger limits -/

/-- The faults that may go away when limits are raised from `l` to `m`. -/
def Limits.Cuts (l m : Limits) (f : Fault) : Prop :=
  f = .tooDeep ∨ (f = .unfinished ∧ l.turns ≠ m.turns)

theorem settled_cuts {α : Type} {l m : Limits} {r : Except Fault α} (hdeep : r ≠ .error .tooDeep)
    (hmore : r = .error .unfinished → l.turns = m.turns) : Settled (l.Cuts m) r := by
  rintro f hf (rfl | ⟨rfl, hne⟩)
  · exact hdeep hf
  · exact hne (hmore hf)

theorem settled_tooDeep {α : Type} {r : Except Fault α} (h : r ≠ .error .tooDeep) :
    Settled (Eq Fault.tooDeep) r := by
  rintro _ hf rfl
  exact h hf

/-- Raising the limits changes an answer only if that was `tooDeep`, or if it
was `unfinished` and there are more turns now.  This holds of evaluation, with
the store that it leaves, of reading, writing and displaying, and so of every
step of a session. -/
theorem raising_limits {l m : Limits} (hdepth : l.depth ≤ m.depth) (hturns : l.turns ≤ m.turns) :
    (∀ forms expr e s r t, evaluate forms l.turns l.depth expr e s = (r, t) →
      r ≠ .error .tooDeep → (r = .error .unfinished → l.turns = m.turns) →
      evaluate forms m.turns m.depth expr e s = (r, t)) ∧
    (∀ source, Expr.read l.depth source ≠ .error .tooDeep →
      Expr.read m.depth source = Expr.read l.depth source) ∧
    (∀ tree : Expr, tree.write l.depth ≠ .error .tooDeep →
      tree.write m.depth = tree.write l.depth) ∧
    (∀ (v : Value) nested, v.display l.depth nested ≠ .error .tooDeep →
      v.display m.depth nested = v.display l.depth nested) ∧
    (∀ forms (step : Session.Step) s r t, step.perform forms l s = (r, t) →
      r ≠ .error .tooDeep → (r = .error .unfinished → l.turns = m.turns) →
      step.perform forms m s = (r, t)) := by
  have hcuts : l.Cuts m .tooDeep := Or.inl rfl
  have hturned : l.turns ≠ m.turns → l.Cuts m .unfinished := fun hne => Or.inr ⟨rfl, hne⟩
  refine ⟨?_, ?_, ?_, ?_, ?_⟩
  · intro forms expr e s r t hrun hdeep hmore
    have hextends := evaluate_extends hcuts forms hturns hturned hdepth expr e s
    rw [hrun] at hextends
    exact hextends (settled_cuts hdeep hmore)
  · intro source h
    exact read_refines rfl hdepth source (settled_tooDeep h)
  · intro tree h
    exact write_refines rfl hdepth tree (settled_tooDeep h)
  · intro v nested h
    exact display_refines rfl hdepth nested v (settled_tooDeep h)
  · intro forms step s r t hrun hdeep hmore
    have hextends := Session.perform_extends hcuts forms hdepth hturns hturned step s
    rw [hrun] at hextends
    exact hextends (settled_cuts hdeep hmore)

/-- A program that is too deep for two levels and prints its value with four,
prints the same with four thousand. -/
theorem raising_limits_print :
    let step := Session.Step.run ["print(<(1, 2))"]
    (step.perform Forms.core ⟨2, 0⟩ Session.start).1 = .error .tooDeep ∧
    (step.perform Forms.core ⟨4000, 100⟩ Session.start).1 = .ok (.bool true) ∧
    (step.perform Forms.core ⟨4000, 100⟩ Session.start).2.printed = #["true"] := by
  intro step
  have hfour : (step.perform Forms.core ⟨4, 0⟩ Session.start).1 = .ok (.bool true) := by
    with_unfolding_all rfl
  have hprinted : (step.perform Forms.core ⟨4, 0⟩ Session.start).2.printed = #["true"] := by
    with_unfolding_all rfl
  rcases hrun : step.perform Forms.core ⟨4, 0⟩ Session.start with ⟨r, t⟩
  rw [hrun] at hfour hprinted
  subst hfour
  have hsame := (raising_limits (l := ⟨4, 0⟩) (m := ⟨4000, 100⟩) (by decide) (by decide)).2.2.2.2
    Forms.core step Session.start _ t hrun nofun nofun
  rw [hsame]
  refine ⟨?_, rfl, hprinted⟩
  with_unfolding_all rfl

end EggLang
