/-
# `EggLang.Proofs.Discipline.Evaluate` — what evaluation keeps

A property of stores that every evaluation keeps is never proved by itself.
What is bound in a frame was a value before, a value may be a closure, and the
frame of a closure becomes the frame around a new one, so one has to say at
once

    Stands s        the store is in order
    Site s e        an expression may be evaluated in the frame
    Admits s v      the value may be at hand
    Leads s t       the second store may come out of the first

A `Discipline` is four such predicates, together with the few facts that tie
them to the operations on stores: reading a name, binding it, assigning to it,
entering a closure, making an array or a closure, and printing a line.  If
these facts hold, evaluation keeps the discipline, whatever the expression
does and whether it returns or faults (`Discipline.evaluate_keeps`).

A discipline also says which forms expressions may use, so that a property
that fails for one form can be kept for programs without it.

The proof follows the evaluator: each piece keeps the discipline if the
evaluator of its parts does, and `evaluate` does by induction on its limit.
-/
import EggLang.Proofs.Alike.Evaluate
import EggLang.Proofs.Discipline.Effect

namespace EggLang

/-- What evaluation relies on and keeps. -/
structure Discipline where
  forms : Forms
  /-- The forms that expressions may use. -/
  allowed : Form → Prop
  Stands : Store → Prop
  Site : Store → FrameId → Prop
  Admits : Store → Value → Prop
  Leads : Store → Store → Prop
  leads_refl : ∀ s, Leads s s
  leads_trans : ∀ {s t u}, Leads s t → Leads t u → Leads s u
  site_mono : ∀ {s t e}, Leads s t → Site s e → Site t e
  admits_mono : ∀ {s t v}, Leads s t → Admits s v → Admits t v
  /-- Numbers, booleans and strings are at hand everywhere. -/
  admits_plain : ∀ {s v}, v.Plain → Admits s v
  admits_item : ∀ {s i items v}, Admits s (.array i items) → v ∈ items → Admits s v
  admits_lookup : ∀ {s e x v}, Stands s → Site s e → s.lookup e x = .ok v → Admits s v
  body_within : ∀ {s i params body g}, Admits s (.closure i params body g) →
    body.Within forms allowed
  fresh : ∀ {s}, Stands s → Leads s s.freshId.2 ∧ Stands s.freshId.2
  admits_array : ∀ {s items}, Stands s → (∀ v ∈ items, Admits s v) →
    Admits s.freshId.2 (.array s.fresh items)
  admits_closure : ∀ {s e params body}, Stands s → Site s e → params.Nodup →
    body.Within forms allowed → Admits s.freshId.2 (.closure s.fresh params body e)
  printLine : ∀ {s limit v line}, Stands s → Admits s v → v.display limit false = .ok line →
    Leads s (s.printLine line) ∧ Stands (s.printLine line)
  define : ∀ {s e x v}, Stands s → Site s e → Admits s v →
    Leads s (s.define e x v) ∧ Stands (s.define e x v)
  assign : ∀ {s t e x v}, allowed .assign → Stands s → Site s e → Admits s v →
    s.set e x v = .ok t → Leads s t ∧ Stands t
  /-- A closure is entered in a new frame inside its own. -/
  enter : ∀ {s i params body g args}, Stands s → Admits s (.closure i params body g) →
    (∀ v ∈ args, Admits s v) →
    Leads s (s.push (some g) (Evaluate.parameters params args)).2 ∧
      Stands (s.push (some g) (Evaluate.parameters params args)).2 ∧
      Site (s.push (some g) (Evaluate.parameters params args)).2 s.frames.size

namespace Discipline

/-- The store that a computation leaves comes out of the one it began with
and is in order, also after a fault, and a value it returns has the property. -/
structure Keeps {α : Type} (d : Discipline) (P : Store → α → Prop) (s : Store)
    (r : Except Fault α × Store) : Prop where
  leads : d.Leads s r.2
  stands : d.Stands r.2
  returns : ∀ a, r.1 = .ok a → P r.2 a

/-- The evaluator keeps the discipline. -/
def Kept (d : Discipline) (eval : Evaluator) : Prop :=
  ∀ {a : Expr} {s : Store} {e : FrameId}, a.Within d.forms d.allowed → d.Stands s → d.Site s e →
    d.Keeps d.Admits s (eval a e s)

section
variable {α β : Type} {d : Discipline} {P : Store → α → Prop} {Q : Store → β → Prop}
variable {s t : Store} {e : FrameId} {v : Value}

/-! ## Computations -/

namespace Keeps

theorem pure {a : α} : d.Stands s → P s a → d.Keeps P s ((Pure.pure a : Run α) s) := by
  intro hs ha
  refine ⟨d.leads_refl s, hs, ?_⟩
  rintro _ ⟨⟩
  exact ha

theorem fail (f : Fault) : d.Stands s → d.Keeps P s ((Run.fail f : Run α) s) := by
  intro hs
  exact ⟨d.leads_refl s, hs, nofun⟩

theorem ofExcept {x : Except Fault α} :
    d.Stands s → (∀ a, x = .ok a → P s a) → d.Keeps P s (Run.ofExcept x s) := by
  intro hs hx
  exact ⟨d.leads_refl s, hs, hx⟩

/-- One computation after another. -/
theorem bind {x : Run α} {k : α → Run β} (hx : d.Keeps P s (x s))
    (hk : ∀ {t a}, d.Leads s t → d.Stands t → P t a → d.Keeps Q t (k a t)) :
    d.Keeps Q s ((x >>= k) s) := by
  obtain ⟨hleads, hstands, hret⟩ := hx
  rcases hxs : x s with ⟨f | a, t⟩
  · rw [Run.bind_apply_error hxs]
    rw [hxs] at hleads hstands
    exact ⟨hleads, hstands, nofun⟩
  · rw [Run.bind_apply_ok hxs]
    rw [hxs] at hleads hstands hret
    obtain ⟨hleads', hstands', hret'⟩ := hk hleads hstands (hret a rfl)
    exact ⟨d.leads_trans hleads hleads', hstands', hret'⟩

end Keeps

/-! ## Builtins -/

theorem apply_keeps (limit : Nat) (b : Builtin) {args : List Value} :
    d.Stands s → (∀ v ∈ args, d.Admits s v) → d.Keeps d.Admits s (b.apply limit args s) := by
  intro hs hargs
  have heffect := Builtin.apply_effect limit b args s
  generalize b.apply limit args s = r at heffect
  cases heffect with
  | fault f => exact Keeps.fail f hs
  | plain hv => exact Keeps.pure hs (d.admits_plain hv)
  | item harray hv => exact Keeps.pure hs (d.admits_item (hargs _ harray) hv)
  | array =>
    obtain ⟨hleads, hstands⟩ := d.fresh hs
    refine ⟨hleads, hstands, ?_⟩
    rintro _ ⟨⟩
    exact d.admits_array hs hargs
  | prints hv hline =>
    obtain ⟨hleads, hstands⟩ := d.printLine hs (hargs _ hv) hline
    refine ⟨hleads, hstands, ?_⟩
    rintro _ ⟨⟩
    exact d.admits_mono hleads (hargs _ hv)
  | returns hv => exact Keeps.pure hs (hargs _ hv)

/-! ## Lists of expressions -/

section
variable {eval : Evaluator} (heval : d.Kept eval)
include heval

theorem all_keeps {as : List Expr} :
    (∀ a ∈ as, a.Within d.forms d.allowed) → d.Stands s → d.Site s e →
      d.Keeps (fun t vs => ∀ v ∈ vs, d.Admits t v) s (Evaluate.all (fun a => eval a e) as s) := by
  intro has hs he
  induction as generalizing s with
  | nil => exact Keeps.pure hs nofun
  | cons a as ih =>
    refine Keeps.bind (heval (has a List.mem_cons_self) hs he) ?_
    intro t v hleads ht hv
    have hrest := ih (fun b hb => has b (List.mem_cons_of_mem a hb)) ht (d.site_mono hleads he)
    refine Keeps.bind hrest ?_
    intro u vs hleads' hu hvs
    refine Keeps.pure hu ?_
    intro w hw
    rcases List.mem_cons.mp hw with rfl | hw
    · exact d.admits_mono hleads' hv
    · exact hvs w hw

theorem inOrder_keeps {as : List Expr} :
    (∀ a ∈ as, a.Within d.forms d.allowed) → d.Stands s → d.Site s e → d.Admits s v →
      d.Keeps d.Admits s (Evaluate.inOrder (fun a => eval a e) v as s) := by
  intro has hs he hv
  induction as generalizing s v with
  | nil => exact Keeps.pure hs hv
  | cons a as ih =>
    refine Keeps.bind (heval (has a List.mem_cons_self) hs he) ?_
    intro t v hleads ht hv
    exact ih (fun b hb => has b (List.mem_cons_of_mem a hb)) ht (d.site_mono hleads he) hv

end

/-! ## Application -/

theorem notFunction_keeps (limit : Nat) (v : Value) :
    d.Stands s → d.Keeps d.Admits s (Evaluate.notFunction limit v s) := by
  intro hs
  have hshown : d.Keeps (fun _ _ => True) s (Run.ofExcept (v.debug limit) s) :=
    Keeps.ofExcept hs fun _ _ => trivial
  refine Keeps.bind hshown ?_
  intro t shown _ ht _
  exact Keeps.fail _ ht

section
variable {eval : Evaluator} (heval : d.Kept eval)
include heval

theorem application_keeps (limit : Nat) {args : List Value} :
    d.Stands s → d.Admits s v → (∀ w ∈ args, d.Admits s w) →
      d.Keeps d.Admits s (Evaluate.application eval limit v args s) := by
  intro hs hv hargs
  cases v with
  | closure i params body g =>
    simp only [Evaluate.application]
    split
    · obtain ⟨hleads, hstands, hsite⟩ := d.enter hs hv hargs
      obtain ⟨hleads', hstands', hret⟩ := heval (d.body_within hv) hstands hsite
      exact ⟨d.leads_trans hleads hleads', hstands', hret⟩
    · exact Keeps.fail _ hs
  | builtin b => exact apply_keeps limit b hs hargs
  | _ => exact notFunction_keeps limit _ hs

theorem call_keeps (limit : Nat) {op : Expr} {args : List Expr} :
    op.Within d.forms d.allowed → (∀ a ∈ args, a.Within d.forms d.allowed) → d.Stands s →
      d.Site s e → d.Keeps d.Admits s (Evaluate.call eval limit op args e s) := by
  intro hop hargs hs he
  refine Keeps.bind (heval hop hs he) ?_
  intro t f hleads ht hf
  split
  · refine Keeps.bind (all_keeps heval hargs ht (d.site_mono hleads he)) ?_
    intro u vs hleads' hu hvs
    exact application_keeps heval limit hu (d.admits_mono hleads' hf) hvs
  · exact notFunction_keeps limit f ht

/-! ## Special forms -/

theorem conditional_keeps {args : List Expr} :
    (∀ a ∈ args, a.Within d.forms d.allowed) → d.Stands s → d.Site s e →
      d.Keeps d.Admits s (Evaluate.conditional eval args e s) := by
  intro hargs hs he
  unfold Evaluate.conditional
  split
  · next test yes no =>
    refine Keeps.bind (heval (hargs test List.mem_cons_self) hs he) ?_
    intro t v hleads ht _
    have hyes := hargs yes (by simp)
    have hno := hargs no (by simp)
    have ht' := d.site_mono hleads he
    split
    · exact heval hno ht ht'
    · exact heval hyes ht ht'
  · exact Keeps.fail _ hs

theorem repeated_keeps {test body : Expr} (turns : Nat) :
    test.Within d.forms d.allowed → body.Within d.forms d.allowed → d.Stands s → d.Site s e →
      d.Keeps d.Admits s (Evaluate.repeated (eval test e) (eval body e) turns s) := by
  intro htest hbody hs he
  induction turns generalizing s with
  | zero => exact Keeps.fail _ hs
  | succ turns ih =>
    rw [Evaluate.repeated]
    refine Keeps.bind (heval htest hs he) ?_
    intro t v hleads ht _
    have ht' := d.site_mono hleads he
    split
    · exact Keeps.pure ht (d.admits_plain trivial)
    · refine Keeps.bind (heval hbody ht ht') ?_
      intro u _ hleads' hu _
      exact ih hu (d.site_mono hleads' ht')

theorem loop_keeps (turns : Nat) {args : List Expr} :
    (∀ a ∈ args, a.Within d.forms d.allowed) → d.Stands s → d.Site s e →
      d.Keeps d.Admits s (Evaluate.loop eval turns args e s) := by
  intro hargs hs he
  unfold Evaluate.loop
  split
  · next test body =>
    exact repeated_keeps heval turns (hargs test (by simp)) (hargs body (by simp)) hs he
  · exact Keeps.fail _ hs

theorem define_keeps {args : List Expr} :
    (∀ a ∈ args, a.Within d.forms d.allowed) → d.Stands s → d.Site s e →
      d.Keeps d.Admits s (Evaluate.define eval args e s) := by
  intro hargs hs he
  unfold Evaluate.define
  split
  · next x value =>
    refine Keeps.bind (heval (hargs value (by simp)) hs he) ?_
    intro t v hleads ht hv
    obtain ⟨hleads', hstands⟩ := d.define (x := x) ht (d.site_mono hleads he) hv
    refine ⟨hleads', hstands, ?_⟩
    rintro _ ⟨⟩
    exact d.admits_mono hleads' hv
  · exact Keeps.fail _ hs

theorem assign_keeps {args : List Expr} :
    d.allowed .assign → (∀ a ∈ args, a.Within d.forms d.allowed) → d.Stands s → d.Site s e →
      d.Keeps d.Admits s (Evaluate.assign eval args e s) := by
  intro hallowed hargs hs he
  unfold Evaluate.assign
  split
  · next x value =>
    refine Keeps.bind (heval (hargs value (by simp)) hs he) ?_
    intro t v hleads ht hv
    simp only [Recorder.silent_run]
    -- a name that is not bound faults, and the store stays
    cases hset : t.set e x v with
    | error f =>
      rw [Run.bind_apply_error (Run.attempt_error hset)]
      exact Keeps.fail f ht
    | ok u =>
      rw [Run.bind_apply_ok (Run.attempt_ok hset)]
      obtain ⟨hleads', hstands⟩ := d.assign hallowed ht (d.site_mono hleads he) hv hset
      refine ⟨hleads', hstands, ?_⟩
      rintro _ ⟨⟩
      exact d.admits_mono hleads' hv
  · exact Keeps.fail _ hs

end

theorem parameterNames_nodup {params : List Expr} {names : List String} :
    Evaluate.parameterNames params = .ok names → names.Nodup := by
  intro h
  unfold Evaluate.parameterNames at h
  split at h
  · cases h
  · split at h
    · next hnodup =>
      cases h
      exact hnodup
    · cases h

theorem function_keeps {args : List Expr} :
    (∀ a ∈ args, a.Within d.forms d.allowed) → d.Stands s → d.Site s e →
      d.Keeps d.Admits s (Evaluate.function args e s) := by
  intro hargs hs he
  unfold Evaluate.function
  cases hbody : args.getLast? with
  | none => exact Keeps.fail _ hs
  | some body =>
    have hwithin := hargs body (List.mem_of_getLast? hbody)
    have hnames : d.Keeps (fun _ names => names.Nodup) s
        (Run.ofExcept (Evaluate.parameterNames args.dropLast) s) :=
      Keeps.ofExcept hs fun _ => parameterNames_nodup
    refine Keeps.bind hnames ?_
    intro t names hleads ht hnodup
    obtain ⟨hleads', hstands⟩ := d.fresh ht
    refine ⟨hleads', hstands, ?_⟩
    rintro _ ⟨⟩
    exact d.admits_closure ht (d.site_mono hleads he) hnodup hwithin

theorem form_keeps {eval : Evaluator} (heval : d.Kept eval) (turns : Nat) {form : Form}
    {args : List Expr} :
    d.allowed form → (∀ a ∈ args, a.Within d.forms d.allowed) → d.Stands s → d.Site s e →
      d.Keeps d.Admits s (Evaluate.form eval turns form args e s) := by
  intro hform hargs hs he
  cases form with
  | conditional => exact conditional_keeps heval hargs hs he
  | loop => exact loop_keeps heval turns hargs hs he
  | sequence => exact inOrder_keeps heval hargs hs he (d.admits_plain trivial)
  | define => exact define_keeps heval hargs hs he
  | assign => exact assign_keeps heval hform hargs hs he
  | function => exact function_keeps hargs hs he

/-! ## Evaluation -/

theorem evaluate_keeps (d : Discipline) (turns limit : Nat) :
    d.Kept (evaluate d.forms turns limit) := by
  induction limit with
  | zero =>
    intro a s e _ hs _
    exact Keeps.fail _ hs
  | succ limit ih =>
    intro a s e ha hs he
    cases a with
    | number n => exact Keeps.pure hs (d.admits_plain trivial)
    | text x => exact Keeps.pure hs (d.admits_plain trivial)
    | word x => exact Keeps.ofExcept hs fun v hv => d.admits_lookup hs he hv
    | hole => exact Keeps.fail _ hs
    | apply op args =>
      have hargs : ∀ a ∈ args, a.Within d.forms d.allowed := fun a h => ha.argument h
      simp only [evaluate_apply]
      cases hform : Evaluate.formOf? d.forms op with
      | some form => exact form_keeps ih turns (ha.form hform) hargs hs he
      | none => exact call_keeps ih limit ha.operator hargs hs he

end

end Discipline

end EggLang
