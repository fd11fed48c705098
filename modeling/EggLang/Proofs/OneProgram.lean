/-
# `EggLang.Proofs.OneProgram` — a session as one program

Sources that are evaluated one after the other in a session do what the
program

    do(c₁
    ,c₂
    ,cₙ
    )

does in one step.  Two things have to be seen.

* **Reading.**  A source that can be read on its own has layout around its
  expression, and at its end a comment may be open.  The line end that comes
  before the comma closes it, and keeps the comma away from a word; so the
  source is an argument of the program, with the same tree
  (`rendersArgs_programs`).

* **Evaluating.**  The session goes on from step to step as the `do` goes on
  from argument to argument: in the same frame, with the store that the one
  before has left, and not beyond the first fault (`inOrder_performs`).

The program nests one level deeper than its parts, in its source as in its
evaluation.  One more level makes up for that exactly, so that also faults of
depth are the same ones.
-/
import EggLang.Proofs.Limits
import EggLang.Proofs.Source.Refusal

namespace EggLang

/-! ## Reading -/

namespace Grammar

/-- Behind a program's expression, a line end makes its layout a gap. -/
theorem gap_last_line {e : Expr} {g : List Char} (hg : LastLayout g) (hc : Clear e g) :
    Gap e (g ++ ['\n']) := by
  refine ⟨Token.layout_last_line hg, ?_⟩
  cases e with
  | word name =>
    rcases hc with rfl | ⟨c, rest, rfl, hb⟩
    · exact Or.inr ⟨'\n', [], rfl, by decide⟩
    · exact Or.inr ⟨c, rest ++ ['\n'], rfl, hb⟩
  | _ => trivial

/-- Programs with a line end and a comma between them render arguments. -/
theorem rendersArgs_programs {sources : List String} {trees : List Expr}
    (h : List.Forall₂ (fun c t => Program c.toList t) sources trees) (hne : sources ≠ []) :
    RendersArgs (("\n,".intercalate sources).toList ++ ['\n', ')']) trees := by
  induction h with
  | nil => exact absurd rfl hne
  | @cons c t sources trees hc hrest ih =>
    obtain ⟨l, r, g, htext, hl, hr, hg, hclear⟩ := hc
    have hgap := gap_last_line hg hclear
    cases hrest with
    | nil => simpa [htext] using RendersArgs.last hl hr hgap
    | cons hd hrest =>
      have hmore := RendersArgs.more hl hr hgap (ih (List.cons_ne_nil _ _))
      simpa [String.intercalate_cons_cons, htext] using hmore

end Grammar

namespace Session

open Grammar

/-- The program that has the sources for its parts. -/
def asOne (sources : List String) : String :=
  "do(" ++ "\n,".intercalate sources ++ "\n)"

theorem nestings_le {limit : Nat} {sources : List String} {trees : List Expr}
    (h : List.Forall₂ (fun c t => Expr.read limit c = .ok t) sources trees) :
    Expr.nestings trees ≤ limit := by
  induction h with
  | nil => exact Nat.zero_le limit
  | cons hc _ ih =>
    rw [Expr.nestings_cons]
    exact Nat.max_le.mpr ⟨(Expr.read_eq_ok_iff.mp hc).2, ih⟩

theorem program_asOne {sources : List String} {trees : List Expr}
    (h : List.Forall₂ (fun c t => Program c.toList t) sources trees) (hne : sources ≠ []) :
    Program (asOne sources).toList (.apply (.word "do") trees) := by
  have hname : IsName "do".toList := by
    refine ⟨by decide, List.all_eq_true.mp (by decide), by decide, ?_⟩
    rw [← Token.startsNumber_iff]
    decide
  have hrenders := Renders.apply (.word hname) ⟨.nil, Or.inl rfl⟩ (rendersArgs_programs h hne)
  refine ⟨[], _, [], ?_, .nil, hrenders, .ended .nil, trivial⟩
  simp [asOne]

/-- The sources' trees are the arguments of the program's tree. -/
theorem read_asOne {limit : Nat} {sources : List String} {trees : List Expr}
    (h : List.Forall₂ (fun c t => Expr.read limit c = .ok t) sources trees) (hne : sources ≠ []) :
    Expr.read (limit + 1) (asOne sources) = .ok (.apply (.word "do") trees) := by
  have hprograms : List.Forall₂ (fun c t => Program c.toList t) sources trees :=
    h.imp fun _ _ hc => (Expr.read_eq_ok_iff.mp hc).1
  refine Expr.read_eq_ok_iff.mpr ⟨program_asOne hprograms hne, ?_⟩
  rw [Expr.nesting_apply]
  exact Nat.max_le.mpr ⟨Nat.succ_le_succ (Nat.zero_le limit), Nat.succ_le_succ (nestings_le h)⟩

/-! ## Evaluating -/

theorem perform_eval {limits : Limits} {source : String} {tree : Expr} (forms : Forms)
    (h : Expr.read limits.depth source = .ok tree) :
    (Step.eval source).perform forms limits =
      evaluate forms limits.turns limits.depth tree ownFrame := by
  rw [Step.perform_eval, evaluateIn, h]
  rfl

/-- Made one after the other up to the first that faults, the steps end with
this answer and this store: those before the last return, and steps are left
out only if it faults. -/
def UpToFault (forms : Forms) (limits : Limits) (steps : List Step) (s : Store)
    (r : Except Fault Value) (t : Store) : Prop :=
  ∃ (done rest : List Step) (values : List Value), steps = done ++ rest ∧
    performAll forms limits done s = (values.map .ok ++ [r], t) ∧
    (rest ≠ [] → ∃ f, r = .error f)

section
variable {forms : Forms} {limits : Limits} {step : Step} {steps : List Step} {s t u : Store}
variable {r : Except Fault Value}

theorem upToFault_fault {f : Fault} (h : step.perform forms limits s = (.error f, t)) :
    UpToFault forms limits (step :: steps) s (.error f) t := by
  refine ⟨[step], steps, [], rfl, ?_, fun _ => ⟨f, rfl⟩⟩
  simp only [performAll, h, List.map_nil, List.nil_append]

theorem upToFault_last (h : step.perform forms limits s = (r, t)) :
    UpToFault forms limits [step] s r t := by
  refine ⟨[step], [], [], rfl, ?_, fun hne => absurd rfl hne⟩
  simp only [performAll, h, List.map_nil, List.nil_append]

theorem UpToFault.cons {v : Value} (hstep : step.perform forms limits s = (.ok v, t))
    (h : UpToFault forms limits steps t r u) : UpToFault forms limits (step :: steps) s r u := by
  obtain ⟨done, rest, values, rfl, hdone, hrest⟩ := h
  refine ⟨step :: done, rest, v :: values, rfl, ?_, hrest⟩
  simp only [performAll, hstep, hdone, List.map_cons, List.cons_append]

/-- Evaluating trees in order is performing their sources up to the first
fault. -/
theorem inOrder_performs (forms : Forms) {sources : List String} {trees : List Expr}
    (h : List.Forall₂ (fun c t => Expr.read limits.depth c = .ok t) sources trees)
    (hne : sources ≠ []) (last : Value) (s : Store) :
    ∃ r t, Evaluate.inOrder (fun a => evaluate forms limits.turns limits.depth a ownFrame) last
        trees s = (r, t) ∧ UpToFault forms limits (sources.map .eval) s r t := by
  induction h generalizing last s with
  | nil => exact absurd rfl hne
  | @cons c tree sources trees hc hrest ih =>
    have hperform := congrFun (perform_eval forms hc) s
    rcases hstep : evaluate forms limits.turns limits.depth tree ownFrame s with ⟨f | v, u⟩
    · exact ⟨.error f, u, Run.bind_apply_error hstep, upToFault_fault (hperform.trans hstep)⟩
    · rw [Evaluate.inOrder, Run.bind_apply_ok hstep]
      cases hrest with
      | nil => exact ⟨.ok v, u, rfl, upToFault_last (hperform.trans hstep)⟩
      | cons hd hrest =>
        obtain ⟨r, t, hr, hup⟩ := ih (List.cons_ne_nil _ _) v u
        exact ⟨r, t, hr, hup.cons (hperform.trans hstep)⟩

end

/-- A session equals one program: sources that can be read are the arguments
of the program `asOne`, and this program, in one step and with one more level
of nesting, answers and leaves the store as the sources do one after the other
up to the first fault.  With the same nesting it does so too, unless that is
not enough. -/
theorem eval_asOne {forms : Forms} (hdo : forms.find? "do" = some .sequence) (limits : Limits)
    {sources : List String} {trees : List Expr} (hne : sources ≠ [])
    (hread : List.Forall₂ (fun c t => Expr.read limits.depth c = .ok t) sources trees) :
    Expr.read (limits.depth + 1) (asOne sources) = .ok (.apply (.word "do") trees) ∧
    ∀ s, ∃ r t, UpToFault forms limits (sources.map .eval) s r t ∧
      (Step.eval (asOne sources)).perform forms ⟨limits.depth + 1, limits.turns⟩ s = (r, t) ∧
      (((Step.eval (asOne sources)).perform forms limits s).1 ≠ .error .tooDeep →
        (Step.eval (asOne sources)).perform forms limits s = (r, t)) := by
  have hone := read_asOne hread hne
  refine ⟨hone, fun s => ?_⟩
  obtain ⟨r, t, hr, hup⟩ := inOrder_performs forms hread hne (.bool false) s
  have hdeeper : (Step.eval (asOne sources)).perform forms ⟨limits.depth + 1, limits.turns⟩ s =
      (r, t) := by
    rw [perform_eval forms hone]
    simp only [evaluate_apply, Evaluate.formOf?, hdo]
    exact hr
  refine ⟨r, t, hup, hdeeper, fun hdeep => ?_⟩
  -- the answer with the lower limit is kept by the higher one
  let deeper : Limits := ⟨limits.depth + 1, limits.turns⟩
  have hextends : ((Step.eval (asOne sources)).perform forms limits).Extends (Eq .tooDeep)
      ((Step.eval (asOne sources)).perform forms deeper) :=
    perform_extends (m := deeper) rfl forms (Nat.le_succ limits.depth) (Nat.le_refl limits.turns)
      (fun h => absurd rfl h) _
  exact (hextends s (settled_tooDeep hdeep)).symm.trans hdeeper

/-- A comment at the end of a source, a session that stops at its second step,
and a third that is not made. -/
theorem eval_asOne_stops :
    let sources := ["define(x, true) # bind", " y", "define(x, false)"]
    let answer := (Step.eval (asOne sources)).perform Forms.core ⟨3, 0⟩ start
    answer.1 = .error (.unboundRead "y") ∧
    (answer.2.bindings ownFrame).get? "x" = some (.bool true) ∧
    ∃ r t, UpToFault Forms.core ⟨2, 0⟩ (sources.map .eval) start r t ∧ answer = (r, t) := by
  intro sources answer
  have hread : List.Forall₂ (fun c t => Expr.read 2 c = .ok t) sources
      [.apply (.word "define") [.word "x", .word "true"], .word "y",
        .apply (.word "define") [.word "x", .word "false"]] := by
    refine .cons ?_ (.cons ?_ (.cons ?_ .nil)) <;> with_unfolding_all rfl
  have hdo : Forms.core.find? "do" = some .sequence := rfl
  have hone := eval_asOne hdo ⟨2, 0⟩ (by decide) hread
  obtain ⟨r, t, hup, hanswer, _⟩ := hone.2 start
  have heval : answer = _ := congrFun (perform_eval Forms.core hone.1) start
  refine ⟨?_, ?_, r, t, hup, hanswer⟩
  · rw [heval]
    rfl
  · rw [heval]
    rfl

end Session

end EggLang
