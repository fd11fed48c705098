/-
# `EggLang.Proofs.Renaming.Evaluate` — names are opaque to evaluation

A renamed expression in a renamed store, under a renamed table, does what the
expression does: it ends if that ends, with the renamed value or with a fault of
the same family, and leaves the renamed frames.  So it makes no difference what
variables are called, nor by which keywords a table calls the forms.

The only things that are compared in an evaluation are names with names, so
that each piece of the evaluator takes stores that are `Renamed` to such stores
again, over an evaluator of the parts that does so (`Renames`).  Induction on
the limit gives it for `evaluate`.
-/
import Mathlib.Data.List.Nodup
import EggLang.Proofs.Alike.Evaluate
import EggLang.Proofs.Renaming.Basic

namespace EggLang

/-- From renamed stores, the two computations give related values or faults of
one family, and renamed stores. -/
def Renames {α β : Type} (r : Equiv.Perm String) (P : α → β → Prop) (x : Run α) (y : Run β) :
    Prop :=
  ∀ s s' : Store, s.Renamed r s' →
    Counterpart P (x s).1 (y s').1 ∧ (x s).2.Renamed r (y s').2

namespace Renames

section
variable {α β γ δ : Type} {r : Equiv.Perm String} {P : α → β → Prop} {Q : γ → δ → Prop}

/-! ## Computations -/

theorem pure {a : α} {b : β} (h : P a b) : Renames r P (pure a) (pure b) :=
  fun _ _ hs => ⟨.ok h, hs⟩

theorem ofExcept {x : Except Fault α} {y : Except Fault β} (h : Counterpart P x y) :
    Renames r P (Run.ofExcept x) (Run.ofExcept y) :=
  fun _ _ hs => ⟨h, hs⟩

theorem fail {f g : Fault} (h : g.family = f.family) : Renames r P (Run.fail f) (Run.fail g) :=
  fun _ _ hs => ⟨.error h, hs⟩

theorem bind {x : Run α} {y : Run β} {k : α → Run γ} {l : β → Run δ} (hxy : Renames r P x y)
    (hkl : ∀ {a b}, P a b → Renames r Q (k a) (l b)) : Renames r Q (x >>= k) (y >>= l) := by
  intro s s' hs
  obtain ⟨hresult, hstore⟩ := hxy s s' hs
  rcases hx : x s with ⟨a, t⟩
  rcases hy : y s' with ⟨b, t'⟩
  rw [hx, hy] at hresult hstore
  cases hresult with
  | ok hab =>
    rw [Run.bind_apply_ok hx, Run.bind_apply_ok hy]
    exact hkl hab t t' hstore
  | error hfg =>
    rw [Run.bind_apply_error hx, Run.bind_apply_error hy]
    exact ⟨.error hfg, hstore⟩

theorem takeId : Renames r Eq (Run.take Store.freshId) (Run.take Store.freshId) :=
  fun _ _ hs => ⟨.ok hs.fresh_eq.symm, hs.freshId⟩

theorem takeFrame (outer : Option FrameId) (bs : Bindings) :
    Renames r Eq (Run.take fun s => s.push outer bs)
      (Run.take fun s => s.push outer (bs.rename r)) :=
  fun _ _ hs => ⟨.ok hs.size_eq.symm, hs.push outer bs⟩

theorem lookup (e : FrameId) (x : String) :
    Renames r (Value.Renamed r) (Run.read fun s => s.lookup e x)
      (Run.read fun s => s.lookup e (r x)) :=
  fun _ _ hs => ⟨hs.lookup e x, hs⟩

theorem define (e : FrameId) (x : String) (v : Value) :
    Renames r Eq (Run.change fun s => s.define e x v)
      (Run.change fun s => s.define e (r x) (v.rename r)) :=
  fun _ _ hs => ⟨.ok rfl, hs.define e x v⟩

theorem set (e : FrameId) (x : String) (v : Value) :
    Renames r Eq (Run.attempt fun s => s.set e x v)
      (Run.attempt fun s => s.set e (r x) (v.rename r)) := by
  intro s s' hs
  have hset := hs.set e x v
  simp only [Run.attempt]
  generalize s.set e x v = a, s'.set e (r x) (v.rename r) = b at hset
  cases hset with
  | ok ht => exact ⟨.ok rfl, ht⟩
  | error hfg => exact ⟨.error hfg, hs⟩

end

end Renames

section
variable {r : Equiv.Perm String}

/-! ## Builtins -/

theorem Value.rename_of_plain {v : Value} (h : v.Plain) : v.rename r = v := by
  cases v with
  | number n => rfl
  | bool b => rfl
  | string s => rfl
  | _ => exact h.elim

theorem Counterpart.of_plain {x y : Except Fault Value} (heq : y = x)
    (hplain : ∀ {v}, x = .ok v → v.Plain) :
    Counterpart (Value.Renamed r) x y := by
  subst heq
  cases y with
  | ok v => exact .ok (Value.rename_of_plain (hplain rfl)).symm
  | error f => exact .error rfl

namespace Builtin

theorem arithmetic_rename (op : Builtin) (f : Number → Number → Option Number) (a b : Value) :
    arithmetic op f (a.rename r) (b.rename r) = arithmetic op f a b := by
  cases a <;> cases b <;> rfl

theorem sum_rename (a b : Value) : sum (a.rename r) (b.rename r) = sum a b := by
  cases a <;> cases b <;> rfl

theorem quotient_rename (a b : Value) : quotient (a.rename r) (b.rename r) = quotient a b := by
  cases a <;> cases b <;> rfl

theorem ordering_rename (op : Builtin) (p : Number → Number → Bool) (q : String → String → Bool)
    (a b : Value) : ordering op p q (a.rename r) (b.rename r) = ordering op p q a b := by
  cases a <;> cases b <;> rfl

theorem lengthOf_rename (v : Value) : lengthOf (v.rename r) = lengthOf v := by
  cases v with
  | array i items => rw [Value.rename_array, lengthOf, lengthOf, List.length_map]
  | _ => rfl

theorem elementAt_rename (items : List Value) (n : Int) :
    Counterpart (Value.Renamed r) (elementAt items n)
      (elementAt (items.map (Value.rename r)) n) := by
  have houtside : Counterpart (Value.Renamed r) (outside items.length n)
      (outside items.length n) := by
    unfold outside
    cases Value.integerDebug n <;> exact .error rfl
  unfold elementAt
  rw [List.length_map, List.getElem?_map]
  split
  · cases items[n.toNat]? with
    | some v => exact .ok rfl
    | none => exact houtside
  · exact houtside

theorem elementOf_rename (a i : Value) :
    Counterpart (Value.Renamed r) (elementOf a i)
      (elementOf (a.rename r) (i.rename r)) := by
  cases a with
  | array _ items =>
    rw [Value.rename_array]
    cases i with
    | number n =>
      cases n with
      | int n => exact elementAt_rename items n
      | float x =>
        simp only [Value.rename, elementOf]
        cases x.integer? with
        | some n => exact elementAt_rename items n
        | none => exact .error rfl
    | _ => exact .error rfl
  | _ => cases i <;> exact .error rfl

theorem makeArray_rename (items : List Value) :
    Renames r (Value.Renamed r) (makeArray items)
      (makeArray (items.map (Value.rename r))) := by
  refine Renames.takeId.bind ?_
  rintro i _ rfl
  exact Renames.pure (Value.rename_array r i items).symm

theorem printValue_rename (limit output : Nat) (v : Value) :
    Renames r (Value.Renamed r) (printValue limit output v)
      (printValue limit output (v.rename r)) := by
  refine (Renames.ofExcept (v.display_reprinted r limit)).bind ?_
  intro line line' hline
  by_cases hout : output = 0
  · simp only [hout, if_true]
    exact fun s s' hs => ⟨.ok rfl, hs.printLine hline⟩
  · simp only [hout, if_false]
    exact Renames.pure rfl

/-- The builtins of two operands. -/
theorem apply_pair_rename (limit : Nat) {b : Builtin} (hb : b.arity? = some 2) (u v : Value) :
    Renames r (Value.Renamed r) (b.apply limit [u, v])
      (b.apply limit [u.rename r, v.rename r]) := by
  cases b with
  | add => exact Renames.ofExcept (.of_plain (sum_rename u v) sum_plain)
  | sub => exact Renames.ofExcept (.of_plain (arithmetic_rename _ _ u v) arithmetic_plain)
  | mul => exact Renames.ofExcept (.of_plain (arithmetic_rename _ _ u v) arithmetic_plain)
  | div => exact Renames.ofExcept (.of_plain (quotient_rename u v) quotient_plain)
  | equal =>
    refine Renames.pure ?_
    rw [Value.same_rename]
    rfl
  | less => exact Renames.ofExcept (.of_plain (ordering_rename _ _ _ u v) ordering_plain)
  | greater => exact Renames.ofExcept (.of_plain (ordering_rename _ _ _ u v) ordering_plain)
  | element => exact Renames.ofExcept (elementOf_rename u v)
  | array => cases hb
  | length => cases hb
  | print output => cases hb

theorem apply_rename (limit : Nat) (b : Builtin) (args : List Value) :
    Renames r (Value.Renamed r) (b.apply limit args)
      (b.apply limit (args.map (Value.rename r))) := by
  rcases arguments_cases b args with rfl | ⟨n, hb, hn⟩ | ⟨v, rfl, hb⟩ | ⟨u, v, rfl, hb⟩
  · exact makeArray_rename args
  · have hlen : (args.map (Value.rename r)).length = args.length := List.length_map _
    rw [apply_wrongCount limit b hb hn, apply_wrongCount limit b hb (hlen ▸ hn)]
    exact Renames.fail rfl
  · cases b with
    | length => exact Renames.ofExcept (.of_plain (lengthOf_rename v) lengthOf_plain)
    | print output => exact printValue_rename limit output v
    | _ => cases hb
  · exact apply_pair_rename limit hb u v

end Builtin

/-! ## Pieces of evaluation -/

namespace Evaluate

theorem formOf?_rename (forms : Forms) (operator : Expr) :
    formOf? (forms.rename r) (operator.rename r) = formOf? forms operator := by
  cases operator with
  | word x => exact Forms.find?_rename r forms x
  | _ => rfl

theorem notFunction_rename (limit : Nat) (v : Value) :
    Renames r (Value.Renamed r) (notFunction limit v)
      (notFunction limit (v.rename r)) :=
  (Renames.ofExcept (Value.debug_rename r limit v)).bind fun _ => Renames.fail rfl

theorem mapM_wordName?_rename (params : List Expr) :
    (params.map (Expr.rename r)).mapM wordName? =
      (params.mapM wordName?).map (List.map r) := by
  induction params with
  | nil => rfl
  | cons a params ih =>
    rw [List.map_cons, List.mapM_cons, List.mapM_cons, ih]
    cases a with
    | word x => cases params.mapM wordName? <;> rfl
    | _ => rfl

/-- Other names differ if the names do. -/
theorem parameterNames_rename (params : List Expr) :
    Counterpart (fun names names' => names' = names.map r) (parameterNames params)
      (parameterNames (params.map (Expr.rename r))) := by
  unfold parameterNames
  rw [mapM_wordName?_rename]
  cases params.mapM wordName? with
  | none => exact .error rfl
  | some names =>
    simp only [Option.map_some, List.nodup_map_iff r.injective]
    split
    · exact .ok rfl
    · exact .error rfl

theorem function_rename (args : List Expr) (e : FrameId) :
    Renames r (Value.Renamed r) (function args e)
      (function (args.map (Expr.rename r)) e) := by
  unfold function
  rw [List.getLast?_map, ← List.map_dropLast]
  cases args.getLast? with
  | none => exact Renames.fail rfl
  | some body =>
    refine (Renames.ofExcept (parameterNames_rename args.dropLast)).bind ?_
    rintro names _ rfl
    refine Renames.takeId.bind ?_
    rintro i _ rfl
    exact Renames.pure rfl

section
variable {eval eval' : Evaluator}
variable (heval : ∀ a e, Renames r (Value.Renamed r) (eval a e) (eval' (a.rename r) e))
include heval

theorem all_rename (as : List Expr) (e : FrameId) :
    Renames r (fun vs ws => ws = vs.map (Value.rename r)) (all (fun a => eval a e) as)
      (all (fun a => eval' a e) (as.map (Expr.rename r))) := by
  induction as with
  | nil => exact Renames.pure rfl
  | cons a as ih =>
    refine (heval a e).bind ?_
    rintro v _ rfl
    refine ih.bind ?_
    rintro vs _ rfl
    exact Renames.pure rfl

theorem inOrder_rename (as : List Expr) (e : FrameId) (last : Value) :
    Renames r (Value.Renamed r) (inOrder (fun a => eval a e) last as)
      (inOrder (fun a => eval' a e) (last.rename r) (as.map (Expr.rename r))) := by
  induction as generalizing last with
  | nil => exact Renames.pure rfl
  | cons a as ih =>
    refine (heval a e).bind ?_
    rintro v _ rfl
    exact ih v

theorem application_rename (limit : Nat) (f : Value) (args : List Value) :
    Renames r (Value.Renamed r) (application eval limit f args)
      (application eval' limit (f.rename r) (args.map (Value.rename r))) := by
  cases f with
  | closure i params body frame =>
    simp only [Value.rename, application, List.length_map]
    split
    · have hparams : parameters (params.map r) (args.map (Value.rename r)) =
          (parameters params args).rename r := Bindings.putAll_rename r [] params args
      rw [hparams]
      refine (Renames.takeFrame (some frame) _).bind ?_
      rintro e _ rfl
      exact heval body e
    · exact Renames.fail rfl
  | builtin b => exact Builtin.apply_rename limit b args
  | array i items =>
    have hrefuse := notFunction_rename (r := r) limit (.array i items)
    rw [Value.rename_array] at hrefuse ⊢
    exact hrefuse
  | _ => exact notFunction_rename limit _

theorem call_rename (limit : Nat) (operator : Expr) (args : List Expr) (e : FrameId) :
    Renames r (Value.Renamed r) (call eval limit operator args e)
      (call eval' limit (operator.rename r) (args.map (Expr.rename r)) e) := by
  refine (heval operator e).bind ?_
  rintro f _ rfl
  rw [Value.isFunction_rename]
  split
  · refine (all_rename heval args e).bind ?_
    rintro vs _ rfl
    exact application_rename heval limit f vs
  · exact notFunction_rename limit f

theorem conditional_rename (args : List Expr) (e : FrameId) :
    Renames r (Value.Renamed r) (conditional eval args e)
      (conditional eval' (args.map (Expr.rename r)) e) := by
  match args with
  | [test, yes, no] =>
    refine (heval test e).bind ?_
    rintro v _ rfl
    rw [Value.isFalse_rename]
    split
    · exact heval no e
    · exact heval yes e
  | [] | [_] | [_, _] | _ :: _ :: _ :: _ :: _ => exact Renames.fail rfl

theorem repeated_rename (test body : Expr) (e : FrameId) (turns : Nat) :
    Renames r (Value.Renamed r) (repeated (eval test e) (eval body e) turns)
      (repeated (eval' (test.rename r) e) (eval' (body.rename r) e) turns) := by
  induction turns with
  | zero => exact Renames.fail rfl
  | succ turns ih =>
    rw [repeated, repeated]
    refine (heval test e).bind ?_
    rintro v _ rfl
    rw [Value.isFalse_rename]
    split
    · exact Renames.pure rfl
    · exact (heval body e).bind fun _ => ih

theorem loop_rename (turns : Nat) (args : List Expr) (e : FrameId) :
    Renames r (Value.Renamed r) (loop eval turns args e)
      (loop eval' turns (args.map (Expr.rename r)) e) := by
  match args with
  | [test, body] => exact repeated_rename heval test body e turns
  | [] | [_] | _ :: _ :: _ :: _ => exact Renames.fail rfl

theorem define_rename (args : List Expr) (e : FrameId) :
    Renames r (Value.Renamed r) (define eval args e)
      (define eval' (args.map (Expr.rename r)) e) := by
  fun_cases define eval args e
  · next x value =>
    refine (heval value e).bind ?_
    rintro v _ rfl
    exact (Renames.define e x v).bind fun _ => Renames.pure rfl
  · next hno =>
    rw [define]
    · exact Renames.fail rfl
    · intro y w hargs
      obtain ⟨x, value, rfl⟩ := Expr.word_pair_of_rename r hargs
      exact hno x value rfl

theorem assign_rename (args : List Expr) (e : FrameId) :
    Renames r (Value.Renamed r) (assign eval args e)
      (assign eval' (args.map (Expr.rename r)) e) := by
  fun_cases assign eval args e
  · next x value =>
    refine (heval value e).bind ?_
    rintro v _ rfl
    exact (Renames.set e x v).bind fun _ => Renames.pure rfl
  · next hno =>
    rw [assign]
    · exact Renames.fail rfl
    · intro y w hargs
      obtain ⟨x, value, rfl⟩ := Expr.word_pair_of_rename r hargs
      exact hno x value rfl

theorem form_rename (turns : Nat) (f : Form) (args : List Expr) (e : FrameId) :
    Renames r (Value.Renamed r) (form eval turns f args e)
      (form eval' turns f (args.map (Expr.rename r)) e) := by
  cases f with
  | conditional => exact conditional_rename heval args e
  | loop => exact loop_rename heval turns args e
  | sequence => exact inOrder_rename heval args e (.bool false)
  | define => exact define_rename heval args e
  | assign => exact assign_rename heval args e
  | function => exact function_rename args e

end

end Evaluate

/-! ## Evaluation -/

theorem renames_evaluate (r : Equiv.Perm String) (forms : Forms) (turns limit : Nat) (a : Expr)
    (e : FrameId) :
    Renames r (Value.Renamed r) (evaluate forms turns limit a e)
      (evaluate (forms.rename r) turns limit (a.rename r) e) := by
  induction limit generalizing a e with
  | zero => exact Renames.fail rfl
  | succ limit ih =>
    cases a with
    | number n => exact Renames.pure rfl
    | text x => exact Renames.pure rfl
    | word x => exact Renames.lookup e x
    | hole => exact Renames.fail rfl
    | apply operator args =>
      rw [Expr.rename_apply]
      simp only [evaluate_apply, Evaluate.formOf?_rename]
      cases Evaluate.formOf? forms operator with
      | some f => exact Evaluate.form_rename ih turns f args e
      | none => exact Evaluate.call_rename ih limit operator args e

end

/-- Evaluation under other names, of variables and of keywords alike, ends when
it ends under the given ones, and then with the same value, up to the names in
it, or with a fault of the same family.  The frames it leaves are the same, up
to their names, and so are the values whose lines it prints. -/
theorem evaluate_rename (r : Equiv.Perm String) (forms : Forms) (turns limit : Nat) (a : Expr)
    (e : FrameId) (s : Store) :
    ∃ x t x' t', evaluate forms turns limit a e s = (x, t) ∧
      evaluate (forms.rename r) turns limit (a.rename r) e (s.rename r) = (x', t') ∧
      (x' = .error .unfinished ↔ x = .error .unfinished) ∧
      (∀ v, x = .ok v → x' = .ok (v.rename r)) ∧
      (∀ f, x = .error f → ∃ g, x' = .error g ∧ g.family = f.family) ∧
      t'.frames = (t.rename r).frames ∧ t'.fresh = t.fresh ∧
      List.Forall₂ (Reprinted r) t.printed.toList t'.printed.toList := by
  obtain ⟨hresult, hstore⟩ :=
    renames_evaluate r forms turns limit a e s _ (Store.renamed_rename r s)
  generalize evaluate forms turns limit a e s = p at hresult hstore
  generalize evaluate (forms.rename r) turns limit (a.rename r) e (s.rename r) = q at hresult hstore
  obtain ⟨x, t⟩ := p
  obtain ⟨x', t'⟩ := q
  refine ⟨x, t, x', t', rfl, rfl, ?_, ?_, ?_, hstore.frames_eq, hstore.fresh_eq, hstore.printed⟩
  · cases hresult with
    | ok _ => exact ⟨nofun, nofun⟩
    | error hfg => simp only [Except.error.injEq, ← Fault.family_eq_unfinished, hfg]
  · rintro v rfl
    cases hresult with
    | ok hv => exact congrArg Except.ok hv
  · rintro f rfl
    cases hresult with
    | error hfg => exact ⟨_, rfl, hfg⟩

end EggLang
