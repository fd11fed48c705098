/-
# `EggLang.Proofs.Alike.Evaluate` — evaluation keeps stores matched

From matched stores and in linked frames, an expression gives alike values or
the same fault, and leaves matched stores.  This is proved once for every
piece of the evaluator, over an evaluator of the parts that `Respects` the
start, and then for `evaluate` by induction on its limit.

Frames come up in three ways: the frame of the expression, which may be
written (`Site`); the frame of a closure, which is only ever around a new one;
and the frames that a name is found in.  Only assignment writes one of the
last, and that is where a start has to say that no frame is locked.
-/
import EggLang.Proofs.Alike.Store

namespace EggLang

namespace Start

/-- Two runs from store `s` onward have alike results and matched stores. -/
structure Agrees {α : Type} (p : Start) (P : Store → α → α → Prop) (s : Store)
    (r r' : Except Fault α × Store) : Prop where
  grows : s.Grows r.2
  matched : p.Matched r.2 r'.2
  outcome : Outcome (P r.2) r.1 r'.1

/-- The evaluator takes matched stores to matched stores. -/
def Respects (p : Start) (eval : Evaluator) : Prop :=
  ∀ {a : Expr} {s t : Store} {e f : FrameId}, a.Within p.forms p.allowed → p.Matched s t →
    p.Site s e f → p.Agrees p.Values s (eval a e s) (eval a f t)

section
variable {α β : Type} {p : Start} {P : Store → α → α → Prop} {Q : Store → β → β → Prop}
variable {s t : Store} {e f : FrameId} {u v : Value}

/-! ## Computations -/

namespace Agrees

theorem ofExcept {x y : Except Fault α} (hm : p.Matched s t) (hxy : Outcome (P s) x y) :
    p.Agrees P s (Run.ofExcept x s) (Run.ofExcept y t) :=
  ⟨.refl s, hm, hxy⟩

theorem same (hm : p.Matched s t) (x : Except Fault α) :
    p.Agrees (fun _ => Eq) s (Run.ofExcept x s) (Run.ofExcept x t) :=
  ofExcept hm (Outcome.refl x)

theorem pure {a b : α} (hm : p.Matched s t) (hab : P s a b) :
    p.Agrees P s ((Pure.pure a : Run α) s) ((Pure.pure b : Run α) t) :=
  ⟨.refl s, hm, .ok hab⟩

theorem fail (hm : p.Matched s t) (fault : Fault) :
    p.Agrees P s ((Run.fail fault : Run α) s) ((Run.fail fault : Run α) t) :=
  ⟨.refl s, hm, .error fault⟩

theorem bind {x y : Run α} {k l : α → Run β} (hxy : p.Agrees P s (x s) (y t))
    (hkl : ∀ {s' t' : Store} {a b : α}, s.Grows s' → p.Matched s' t' → P s' a b →
      p.Agrees Q s' (k a s') (l b t')) :
    p.Agrees Q s ((x >>= k) s) ((y >>= l) t) := by
  obtain ⟨hg, hm, ho⟩ := hxy
  rcases hx : x s with ⟨r, s'⟩
  rcases hy : y t with ⟨r', t'⟩
  rw [hx] at hg hm ho
  rw [hy] at hm ho
  cases ho with
  | error fault =>
    rw [Run.bind_apply_error hx, Run.bind_apply_error hy]
    exact ⟨hg, hm, .error fault⟩
  | ok hab =>
    rw [Run.bind_apply_ok hx, Run.bind_apply_ok hy]
    obtain ⟨hg', hm', ho'⟩ := hkl hg hm hab
    exact ⟨hg.trans hg', hm', ho'⟩

/-- Taking an identity on both sides. -/
theorem takeId (hm : p.Matched s t) :
    p.Agrees (fun s i j => (p.links s).identity i j) s (Run.take Store.freshId s)
      (Run.take Store.freshId t) :=
  ⟨⟨Nat.le_refl _, Nat.le_succ _⟩, hm.fresh.1, .ok hm.fresh.2⟩

/-- A change on both sides that may fault. -/
theorem attempt {k l : Store → Except Fault Store} (hm : p.Matched s t)
    (hkl : Outcome (fun s' t' => s.Grows s' ∧ p.Matched s' t') (k s) (l t)) :
    p.Agrees (fun _ _ _ => True) s (Run.attempt k s) (Run.attempt l t) := by
  unfold Run.attempt
  generalize k s = x, l t = y at hkl
  cases hkl with
  | error fault => exact ⟨.refl s, hm, .error fault⟩
  | ok h => exact ⟨h.1, h.2, .ok trivial⟩

/-- Making a frame on both sides. -/
theorem takeFrame (hm : p.Matched s t) (hl : (p.links s).frame e f) {bs cs : Bindings}
    (hbs : Bindings.Alike (p.links s) p.code bs cs) :
    p.Agrees p.Site s (Run.take (fun s => s.push (some e) bs) s)
      (Run.take (fun t => t.push (some f) cs) t) :=
  ⟨.push s _ bs, hm.push hl hbs, .ok (hm.site_push _ _)⟩

end Agrees

/-! ## Builtins -/

theorem makeArray_agrees (hm : p.Matched s t) {xs ys : List Value}
    (hxs : List.Forall₂ (p.Values s) xs ys) :
    p.Agrees p.Values s (Builtin.makeArray xs s) (Builtin.makeArray ys t) := by
  refine Agrees.bind (Agrees.takeId hm) ?_
  intro s' t' i j hg hm' hij
  exact Agrees.pure hm' (Value.alike_array hij (hxs.imp fun _ _ h => h.mono hg))

theorem printValue_agrees (hm : p.Matched s t) (limit output : Nat) (huv : p.Values s u v) :
    p.Agrees p.Values s (Builtin.printValue limit output u s)
      (Builtin.printValue limit output v t) := by
  unfold Builtin.printValue
  rw [huv.display_eq limit false]
  refine Agrees.bind (Agrees.same hm _) ?_
  rintro s₁ t₁ line _ hg hm rfl
  by_cases hout : output = 0
  · simp only [hout, if_true]
    have hg' : s₁.Grows (s₁.printLine line) := ⟨Nat.le_refl _, Nat.le_refl _⟩
    exact ⟨hg', hm.printLine line, .ok (huv.mono (hg.trans hg'))⟩
  · simp only [hout, if_false]
    exact Agrees.pure hm (huv.mono hg)

theorem apply_agrees (hm : p.Matched s t) (limit : Nat) (b : Builtin) {xs ys : List Value}
    (hxs : List.Forall₂ (p.Values s) xs ys) :
    p.Agrees p.Values s (b.apply limit xs s) (b.apply limit ys t) := by
  have hlen := hxs.length_eq
  rcases Builtin.arguments_cases b xs with rfl | ⟨n, hb, hn⟩ | ⟨u, rfl, hb⟩ | ⟨u, x, rfl, hb⟩
  · exact makeArray_agrees hm hxs
  · rw [Builtin.apply_wrongCount limit b hb hn, Builtin.apply_wrongCount limit b hb (hlen ▸ hn),
      hlen]
    exact Agrees.fail hm _
  · obtain ⟨v, _, hu, hnil, rfl⟩ := List.forall₂_cons_left_iff.mp hxs
    cases hnil
    cases b with
    | length =>
      exact Agrees.ofExcept hm
        (Builtin.outcome_of_plain (Builtin.lengthOf_eq hu) fun _ => Builtin.lengthOf_plain)
    | print output => exact printValue_agrees hm limit output hu
    | _ => cases hb
  · obtain ⟨v, _, hu, htail, rfl⟩ := List.forall₂_cons_left_iff.mp hxs
    obtain ⟨y, _, hx, hnil, rfl⟩ := List.forall₂_cons_left_iff.mp htail
    cases hnil
    obtain ⟨r, r', hr, hr', ho⟩ := Builtin.apply_pair_alike links_one_to_one limit hb hu hx
    rw [hr, hr']
    exact Agrees.ofExcept hm ho

/-! ## Lists of expressions -/

section
variable {eval : Evaluator} (heval : p.Respects eval)
include heval

theorem all_agrees {as : List Expr} (has : ∀ a ∈ as, a.Within p.forms p.allowed)
    (hm : p.Matched s t) (hs : p.Site s e f) :
    p.Agrees (fun s => List.Forall₂ (p.Values s)) s (Evaluate.all (fun a => eval a e) as s)
      (Evaluate.all (fun a => eval a f) as t) := by
  induction as generalizing s t with
  | nil => exact Agrees.pure hm .nil
  | cons a as ih =>
    refine Agrees.bind (heval (has a List.mem_cons_self) hm hs) ?_
    intro s₁ t₁ u v hg hm huv
    refine Agrees.bind (ih (fun b hb => has b (List.mem_cons_of_mem a hb)) hm (hs.mono hg)) ?_
    intro s₂ t₂ us vs hg hm huvs
    exact Agrees.pure hm (.cons (huv.mono hg) huvs)

theorem inOrder_agrees {as : List Expr} (has : ∀ a ∈ as, a.Within p.forms p.allowed)
    (hm : p.Matched s t) (hs : p.Site s e f) (huv : p.Values s u v) :
    p.Agrees p.Values s (Evaluate.inOrder (fun a => eval a e) u as s)
      (Evaluate.inOrder (fun a => eval a f) v as t) := by
  induction as generalizing s t u v with
  | nil => exact Agrees.pure hm huv
  | cons a as ih =>
    refine Agrees.bind (heval (has a List.mem_cons_self) hm hs) ?_
    intro s₁ t₁ u v hg hm huv
    exact ih (fun b hb => has b (List.mem_cons_of_mem a hb)) hm (hs.mono hg) huv

end

/-! ## Application -/

theorem notFunction_agrees (hm : p.Matched s t) (limit : Nat) (huv : p.Values s u v) :
    p.Agrees p.Values s (Evaluate.notFunction limit u s) (Evaluate.notFunction limit v t) := by
  unfold Evaluate.notFunction
  rw [huv.debug_eq limit]
  refine Agrees.bind (Agrees.same hm _) ?_
  rintro s₁ t₁ shown _ _ hm rfl
  exact Agrees.fail hm _

section
variable {eval : Evaluator} (heval : p.Respects eval)
include heval

theorem application_agrees (hm : p.Matched s t) (limit : Nat) (huv : p.Values s u v)
    {xs ys : List Value} (hxs : List.Forall₂ (p.Values s) xs ys) :
    p.Agrees p.Values s (Evaluate.application eval limit u xs s)
      (Evaluate.application eval limit v ys t) := by
  cases huv with
  | @closure _ _ params body g g' _ hl hbody =>
    unfold Evaluate.application
    simp only [hxs.length_eq]
    split
    · refine Agrees.bind (Agrees.takeFrame hm hl (Bindings.Alike.putAll params hxs .nil)) ?_
      intro s₁ t₁ e f _ hm hs
      exact heval hbody hm hs
    · exact Agrees.fail hm _
  | builtin b => exact apply_agrees hm limit b hxs
  | number n => exact notFunction_agrees hm limit (.number n)
  | bool b => exact notFunction_agrees hm limit (.bool b)
  | string x => exact notFunction_agrees hm limit (.string x)
  | array hi hlen hall => exact notFunction_agrees hm limit (.array hi hlen hall)
  | void => exact notFunction_agrees hm limit .void

theorem call_agrees {op : Expr} {args : List Expr} (hop : op.Within p.forms p.allowed)
    (hargs : ∀ a ∈ args, a.Within p.forms p.allowed) (limit : Nat) (hm : p.Matched s t)
    (hs : p.Site s e f) :
    p.Agrees p.Values s (Evaluate.call eval limit op args e s)
      (Evaluate.call eval limit op args f t) := by
  refine Agrees.bind (heval hop hm hs) ?_
  intro s₁ t₁ u v hg hm huv
  simp only [huv.isFunction_eq]
  split
  · refine Agrees.bind (all_agrees heval hargs hm (hs.mono hg)) ?_
    intro s₂ t₂ xs ys hg hm hxs
    exact application_agrees heval hm limit (huv.mono hg) hxs
  · exact notFunction_agrees hm limit huv

/-! ## Special forms -/

theorem conditional_agrees {args : List Expr} (hargs : ∀ a ∈ args, a.Within p.forms p.allowed)
    (hm : p.Matched s t) (hs : p.Site s e f) :
    p.Agrees p.Values s (Evaluate.conditional eval args e s)
      (Evaluate.conditional eval args f t) := by
  unfold Evaluate.conditional
  split
  · next test yes no =>
    refine Agrees.bind (heval (hargs test List.mem_cons_self) hm hs) ?_
    intro s₁ t₁ u v hg hm huv
    have hyes := hargs yes (by simp)
    have hno := hargs no (by simp)
    rw [huv.isFalse_eq]
    split
    · exact heval hno hm (hs.mono hg)
    · exact heval hyes hm (hs.mono hg)
  · exact Agrees.fail hm _

theorem repeated_agrees {test body : Expr} (htest : test.Within p.forms p.allowed)
    (hbody : body.Within p.forms p.allowed) (turns : Nat) (hm : p.Matched s t)
    (hs : p.Site s e f) :
    p.Agrees p.Values s (Evaluate.repeated (eval test e) (eval body e) turns s)
      (Evaluate.repeated (eval test f) (eval body f) turns t) := by
  induction turns generalizing s t with
  | zero => exact Agrees.fail hm _
  | succ turns ih =>
    rw [Evaluate.repeated, Evaluate.repeated]
    refine Agrees.bind (heval htest hm hs) ?_
    intro s₁ t₁ u v hg hm huv
    rw [huv.isFalse_eq]
    split
    · exact Agrees.pure hm (.bool false)
    · refine Agrees.bind (heval hbody hm (hs.mono hg)) ?_
      intro s₂ t₂ _ _ hg' hm _
      exact ih hm ((hs.mono hg).mono hg')

theorem loop_agrees {args : List Expr} (hargs : ∀ a ∈ args, a.Within p.forms p.allowed)
    (turns : Nat) (hm : p.Matched s t) (hs : p.Site s e f) :
    p.Agrees p.Values s (Evaluate.loop eval turns args e s)
      (Evaluate.loop eval turns args f t) := by
  unfold Evaluate.loop
  split
  · next test body =>
    exact repeated_agrees heval (hargs test (by simp)) (hargs body (by simp)) turns hm hs
  · exact Agrees.fail hm _

theorem define_agrees {args : List Expr} (hargs : ∀ a ∈ args, a.Within p.forms p.allowed)
    (hm : p.Matched s t) (hs : p.Site s e f) :
    p.Agrees p.Values s (Evaluate.define eval args e s) (Evaluate.define eval args f t) := by
  unfold Evaluate.define
  split
  · next x value =>
    refine Agrees.bind (heval (hargs value (by simp)) hm hs) ?_
    intro s₁ t₁ u v hg hm huv
    have hgrows := Store.Grows.define s₁ e x u
    exact ⟨hgrows, hm.define (hs.mono hg) x huv, .ok (huv.mono hgrows)⟩
  · exact Agrees.fail hm _

theorem assign_agrees (hp : ∀ g, ¬ p.locked g) {args : List Expr}
    (hargs : ∀ a ∈ args, a.Within p.forms p.allowed) (hm : p.Matched s t) (hs : p.Site s e f) :
    p.Agrees p.Values s (Evaluate.assign eval args e s) (Evaluate.assign eval args f t) := by
  unfold Evaluate.assign
  split
  · next x value =>
    refine Agrees.bind (heval (hargs value (by simp)) hm hs) ?_
    intro s₁ t₁ u v hg hm huv
    refine Agrees.bind (Agrees.attempt hm (hm.set hp (hs.mono hg).linked x huv)) ?_
    intro s₂ t₂ _ _ hg hm _
    exact Agrees.pure hm (huv.mono hg)
  · exact Agrees.fail hm _

end

theorem function_agrees {args : List Expr} (hargs : ∀ a ∈ args, a.Within p.forms p.allowed)
    (hm : p.Matched s t) (hs : p.Site s e f) :
    p.Agrees p.Values s (Evaluate.function args e s) (Evaluate.function args f t) := by
  unfold Evaluate.function
  cases hbody : args.getLast? with
  | none => exact Agrees.fail hm _
  | some body =>
    have hwithin := hargs body (List.mem_of_getLast? hbody)
    refine Agrees.bind (Agrees.same hm _) ?_
    rintro s₁ t₁ names _ hg hm rfl
    refine Agrees.bind (Agrees.takeId hm) ?_
    intro s₂ t₂ i j hg' hm hij
    exact Agrees.pure hm (.closure hij ((hs.mono hg).mono hg').linked hwithin)

theorem form_agrees {eval : Evaluator} (heval : p.Respects eval) {form : Form}
    (hform : p.allowed form) {args : List Expr}
    (hargs : ∀ a ∈ args, a.Within p.forms p.allowed) (turns : Nat) (hm : p.Matched s t)
    (hs : p.Site s e f) :
    p.Agrees p.Values s (Evaluate.form eval turns form args e s)
      (Evaluate.form eval turns form args f t) := by
  cases form with
  | conditional => exact conditional_agrees heval hargs hm hs
  | loop => exact loop_agrees heval hargs turns hm hs
  | sequence => exact inOrder_agrees heval hargs hm hs (.bool false)
  | define => exact define_agrees heval hargs hm hs
  | assign => exact assign_agrees heval (p.assign_unlocked hform) hargs hm hs
  | function => exact function_agrees hargs hm hs

/-! ## Evaluation -/

theorem respects_evaluate (p : Start) (turns limit : Nat) :
    p.Respects (evaluate p.forms turns limit) := by
  induction limit with
  | zero =>
    intro a s t e f _ hm _
    exact Agrees.fail hm _
  | succ limit ih =>
    intro a s t e f ha hm hs
    cases a with
    | number n => exact Agrees.pure hm (.number _)
    | text x => exact Agrees.pure hm (.string x)
    | word x => exact ⟨.refl s, hm, hm.lookup_alike hs.linked x⟩
    | hole => exact Agrees.fail hm _
    | apply op args =>
      have hargs : ∀ a ∈ args, a.Within p.forms p.allowed := fun a h => ha.argument h
      simp only [evaluate_apply]
      cases hform : Evaluate.formOf? p.forms op with
      | some form => exact form_agrees ih (ha.form hform) hargs turns hm hs
      | none => exact call_agrees ih ha.operator hargs limit hm hs

end

end Start

end EggLang
