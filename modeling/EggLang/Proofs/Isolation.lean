/-
# `EggLang.Proofs.Isolation` — programs that share a global frame

The programs of a session share the global frame, and a step of a session can
see what another has done only through it, or through the session's own frame.
Nothing but assignment writes a frame from inside another one.  So as long as
no program of a session uses `set`,

    a `run` or `file` step answers as in a new session, and
    an `eval` step answers, and leaves the session's frame, as if only the
    `eval` steps before it had been made.

The stores of the two sessions that are compared differ: the one has frames
and identities that the other has not.  They are kept `Beside` each other: the
global frames, the session's frames, and all that came from `eval` steps,
belong together, and the global frames are as they were made.  An `eval` step
is made on both sides.  A `run` step on one side only is compared with the
same step in a new session, which shows that it leaves all frames that are
there already.
-/
import EggLang.Session
import EggLang.Proofs.Alike.Evaluate

namespace EggLang

/-! ## Programs without assignment -/

/-- No application in the expression has the operator `set`. -/
def Expr.SetFree (e : Expr) : Prop :=
  ∀ args, ¬ Subtree (.apply (.word "set") args) e

theorem Expr.SetFree.within {e : Expr} (h : e.SetFree) : e.Within Forms.core (· ≠ .assign) := by
  rintro op args f hsub hf rfl
  cases op with
  | word x =>
    cases Forms.keyword_of_core hf
    exact h args hsub
  | _ => cases hf

theorem Expr.setFree_apply {op : Expr} {args : List Expr} (hne : op ≠ .word "set")
    (hop : op.SetFree) (hargs : ∀ a ∈ args, a.SetFree) : (Expr.apply op args).SetFree := by
  intro args' hsub
  cases hsub with
  | self => exact hne rfl
  | operator h => exact hop args' h
  | argument ha h => exact hargs _ ha args' h

namespace Session

def Step.source : Step → Except Fault String
  | .eval source => .ok source
  | .run lines => .ok ("\n".intercalate lines)
  | .file bytes => fileText bytes

/-- The step's program, if it can be read, does not use `set`. -/
def Step.SetFree (limits : Limits) (step : Step) : Prop :=
  ∀ source tree, step.source = .ok source → Expr.read limits.depth source = .ok tree → tree.SetFree

/-- The step works in the session's own frame. -/
def Step.isEval : Step → Bool
  | .eval _ => true
  | _ => false

/-! ## What is seen of a session -/

/-- The store after steps of a new session. -/
def after (limits : Limits) (steps : List Step) : Store :=
  (performAll Forms.core limits steps start).2

/-- What a step shows: the text of its value, or its fault, and the lines it
has printed. -/
def Step.answer (limits : Limits) (step : Step) (s : Store) :
    Except Fault (Except Fault String) × List String :=
  let (r, t) := step.perform Forms.core limits s
  (r.map fun v => v.display limits.depth false, t.printed.toList.drop s.printed.size)

/-- The names of the session's own frame with the texts of their values. -/
def shown (limits : Limits) (nested : Bool) (s : Store) : List (String × Except Fault String) :=
  (s.bindings ownFrame).map fun b => (b.1, b.2.display limits.depth nested)

/-! ## One step on two sides -/

/-- The start is of two sessions, whose global frames belong together and are
not written. -/
structure Isolated (p : Start) : Prop where
  forms : p.forms = Forms.core
  allowed : ∀ {f}, f ≠ .assign → p.allowed f
  locked : ∀ {f}, p.locked f ↔ f = globalFrame
  global : p.frames.pair globalFrame globalFrame

section
variable {p : Start} {s t : Store} {limits : Limits}

theorem Isolated.within (hp : Isolated p) {e : Expr} (he : e.SetFree) :
    e.Within p.forms p.allowed := by
  rw [hp.forms]
  intro op args f hsub hf
  exact hp.allowed (he.within op args f hsub hf)

theorem evaluateIn_agrees (hp : Isolated p) {source : String} {e f : FrameId}
    (hset : ∀ tree, Expr.read limits.depth source = .ok tree → tree.SetFree)
    (hm : p.Matched s t) (hs : p.Site s e f) :
    p.Agrees p.Values s ((evaluateIn Forms.core limits source e : Run Value) s)
      ((evaluateIn Forms.core limits source f : Run Value) t) := by
  unfold evaluateIn
  cases htree : Expr.read limits.depth source with
  | error fault => exact Start.Agrees.fail hm fault
  | ok tree =>
    have hwithin := hp.within (hset tree htree)
    have heval := p.respects_evaluate limits.turns limits.depth hwithin hm hs
    rw [hp.forms] at heval
    exact heval

theorem runSource_agrees (hp : Isolated p) {source : String}
    (hset : ∀ tree, Expr.read limits.depth source = .ok tree → tree.SetFree)
    (hm : p.Matched s t) :
    p.Agrees p.Values s ((runSource Forms.core limits source : Run Value) s)
      ((runSource Forms.core limits source : Run Value) t) := by
  have hlt := Nat.lt_of_lt_of_le (p.frames.left_lt hp.global) hm.frames_le
  refine Start.Agrees.bind (Start.Agrees.takeFrame hm ⟨hlt, Or.inl hp.global⟩ .nil) ?_
  intro s₁ t₁ e f _ hm hs
  exact evaluateIn_agrees hp hset hm hs

/-- A step without `set` does the same on both sides.  Only an `eval` step
needs the session's own frames. -/
theorem perform_agrees (hp : Isolated p) {step : Step} (hset : step.SetFree limits)
    (hm : p.Matched s t) (hown : step.isEval = true → p.Site s ownFrame ownFrame) :
    p.Agrees p.Values s (step.perform Forms.core limits s) (step.perform Forms.core limits t) := by
  cases step with
  | eval source => exact evaluateIn_agrees hp (fun tree => hset source tree rfl) hm (hown rfl)
  | run lines => exact runSource_agrees hp (fun tree => hset _ tree rfl) hm
  | file bytes =>
    rw [Step.perform_file]
    cases htext : fileText bytes with
    | error fault => exact Start.Agrees.fail hm fault
    | ok source => exact runSource_agrees hp (fun tree => hset source tree htext) hm

/-- What agreeing steps show is the same. -/
theorem answer_eq_of_agrees {step : Step}
    (h : p.Agrees p.Values p.left (step.perform Forms.core limits p.left)
      (step.perform Forms.core limits p.right)) :
    step.answer limits p.left = step.answer limits p.right := by
  unfold Step.answer
  rcases hx : step.perform Forms.core limits p.left with ⟨x, u⟩
  rcases hy : step.perform Forms.core limits p.right with ⟨y, w⟩
  rw [hx, hy] at h
  obtain ⟨lines, hu, hw⟩ := h.matched.output
  have hlines : u.printed.toList.drop p.left.printed.size =
      w.printed.toList.drop p.right.printed.size := by
    simp only at hu hw
    rw [hu, hw, Array.toList_append, Array.toList_append]
    simp only [← Array.length_toList, List.drop_left]
  cases h.outcome with
  | ok hv => simp only [Except.map, hv.display_eq, hlines]
  | error fault => simp only [Except.map, hlines]

theorem Isolated.global_kept (hp : Isolated p) (hm : p.Matched s t) :
    s.frames[globalFrame]? = p.left.frames[globalFrame]? :=
  hm.left_kept (p.frames.left_lt hp.global) fun _ _ => hp.locked.mpr rfl

/-! ## Starts -/

/-- The first frames of two sessions belong together, and nothing else. -/
def common (n : Nat) (hn : 0 < n) (hs : n ≤ s.frames.size) (ht : n ≤ t.frames.size) : Start where
  left := s
  right := t
  frames := {
    pair := fun f g => f = g ∧ f < n
    left_lt := fun h => Nat.lt_of_lt_of_le h.2 hs
    right_lt := fun h => Nat.lt_of_lt_of_le (h.1 ▸ h.2) ht
    one_to_one := fun h h' => by rw [h.1, h'.1] }
  identities := {
    pair := fun _ _ => False
    left_lt := False.elim
    right_lt := False.elim
    one_to_one := False.elim }
  locked := fun f => f = globalFrame
  forms := Forms.core
  allowed := fun f => f ≠ .assign
  locked_lt := by
    rintro f rfl
    exact Nat.lt_of_lt_of_le hn hs
  assign_unlocked := fun h => absurd rfl h

theorem isolated_common {n : Nat} (hn : 0 < n) (hs : n ≤ s.frames.size) (ht : n ≤ t.frames.size) :
    Isolated (common n hn hs ht) :=
  ⟨rfl, id, Iff.rfl, rfl, hn⟩

/-- The first two frames of a session refer to no others, as long as they are
as they were made. -/
theorem matched_common {n : Nat} (hn : 0 < n) (hs : n ≤ s.frames.size) (ht : n ≤ t.frames.size)
    (hn₂ : n ≤ 2) (hsf : ∀ f, f < n → s.frames[f]? = start.frames[f]?)
    (htf : ∀ f, f < n → t.frames[f]? = start.frames[f]?) : (common n hn hs ht).Matched s t := by
  refine Start.matched_start ?_
  rintro f _ ⟨rfl, hf⟩
  obtain rfl | rfl : f = 0 ∨ f = 1 := by
    have hf₂ := Nat.lt_of_lt_of_le hf hn₂
    omega
  · refine ⟨⟨none, globalBindings 0⟩, _, hsf 0 hf, htf 0 hf, .global, alike_globalBindings _ _ 0⟩
  · refine ⟨⟨some globalFrame, []⟩, _, hsf 1 hf, htf 1 hf, ?_, .nil⟩
    exact .inside (by decide) (by decide) ⟨Nat.lt_of_lt_of_le hn hs, Or.inl ⟨rfl, hn⟩⟩

end

/-! ## Sessions side by side -/

/-- The session of all steps beside that of the `eval` steps. -/
structure Beside (s t : Store) : Prop where
  global : s.frames[globalFrame]? = start.frames[globalFrame]?
  linked : ∃ p : Start, p.left = s ∧ p.right = t ∧ Isolated p ∧
    p.frames.pair ownFrame ownFrame ∧ p.Matched s t

section
variable {s t : Store} {limits : Limits} {step : Step}

theorem beside_start : Beside start start where
  global := rfl
  linked := by
    refine ⟨common 2 (by decide) (by decide) (by decide), rfl, rfl, isolated_common .., ?_, ?_⟩
    · exact ⟨rfl, by decide⟩
    · exact matched_common _ _ _ (Nat.le_refl 2) (fun _ _ => rfl) (fun _ _ => rfl)

theorem one_le_size (hs : s.frames[globalFrame]? = start.frames[globalFrame]?) :
    1 ≤ s.frames.size := by
  have hsome : s.frames[globalFrame]? = some ⟨none, globalBindings 0⟩ := hs
  exact (Array.getElem?_eq_some_iff.mp hsome).1

/-- A step in a frame of its own, beside the same step in a new session. -/
theorem perform_new (hs : s.frames[globalFrame]? = start.frames[globalFrame]?)
    (hset : step.SetFree limits) (hrun : step.isEval = false) :
    (common 1 Nat.one_pos (one_le_size hs) (by decide : 1 ≤ start.frames.size)).Agrees
      (common 1 Nat.one_pos (one_le_size hs) (by decide : 1 ≤ start.frames.size)).Values s
      (step.perform Forms.core limits s) (step.perform Forms.core limits start) := by
  refine perform_agrees (isolated_common ..) hset (matched_common _ _ _ (by decide) ?_ ?_) ?_
  · intro f hf
    cases Nat.lt_one_iff.mp hf
    exact hs
  · exact fun _ _ => rfl
  · intro heval
    exact absurd (hrun.symm.trans heval) Bool.false_ne_true

/-- A step in a frame of its own leaves the frames that are there. -/
theorem perform_kept (hs : s.frames[globalFrame]? = start.frames[globalFrame]?)
    (hset : step.SetFree limits) (hrun : step.isEval = false) {f : FrameId}
    (hf : f < s.frames.size) :
    (step.perform Forms.core limits s).2.frames[f]? = s.frames[f]? :=
  (perform_new hs hset hrun).matched.left_kept hf fun _ hpair => Nat.lt_one_iff.mp hpair.2

theorem Beside.run (h : Beside s t) (hset : step.SetFree limits) (hrun : step.isEval = false) :
    Beside (step.perform Forms.core limits s).2 t := by
  obtain ⟨hglobal, p, rfl, rfl, hp, hown, hm⟩ := h
  have hgrows := (perform_new hglobal hset hrun).grows
  refine ⟨?_, p.alone hgrows, rfl, rfl, ?_, hown, ?_⟩
  · exact (perform_kept hglobal hset hrun (one_le_size hglobal)).trans hglobal
  · exact ⟨hp.forms, hp.allowed, hp.locked, hp.global⟩
  · exact Start.matched_alone hm hgrows fun hpair =>
      perform_kept hglobal hset hrun (p.frames.left_lt hpair)

/-- An `eval` step on both sides. -/
theorem Beside.eval (h : Beside s t) (hset : step.SetFree limits) :
    Beside (step.perform Forms.core limits s).2 (step.perform Forms.core limits t).2 ∧
    step.answer limits s = step.answer limits t := by
  obtain ⟨hglobal, p, rfl, rfl, hp, hown, hm⟩ := h
  have hsite : p.Site p.left ownFrame ownFrame := by
    refine ⟨⟨p.frames.left_lt hown, Or.inl hown⟩, fun hlocked => ?_⟩
    exact absurd (hp.locked.mp hlocked) (by decide)
  have hag := perform_agrees hp hset hm fun _ => hsite
  refine ⟨⟨?_, p.resume hag.matched, rfl, rfl, ?_, ?_, Start.matched_resume hag.matched⟩,
    answer_eq_of_agrees hag⟩
  · exact (hp.global_kept hag.matched).trans hglobal
  · have hglobal' := Nat.lt_of_lt_of_le (p.frames.left_lt hp.global) hag.grows.frames
    exact ⟨hp.forms, hp.allowed, hp.locked, hglobal', Or.inl hp.global⟩
  · exact ⟨Nat.lt_of_lt_of_le (p.frames.left_lt hown) hag.grows.frames, Or.inl hown⟩

theorem Beside.shown_eq (h : Beside s t) (nested : Bool) :
    shown limits nested s = shown limits nested t := by
  obtain ⟨_, p, rfl, rfl, _, hown, hm⟩ := h
  exact (hm.bindings_alike ⟨p.frames.left_lt hown, Or.inl hown⟩).display_eq limits.depth nested

/-- Leaving out the steps that work in frames of their own keeps sessions
beside each other. -/
theorem Beside.performAll {steps : List Step} (h : Beside s t)
    (hset : ∀ x ∈ steps, x.SetFree limits) :
    Beside (performAll Forms.core limits steps s).2
      (performAll Forms.core limits (steps.filter Step.isEval) t).2 := by
  induction steps generalizing s t with
  | nil => exact h
  | cons step steps ih =>
    have hstep := hset step List.mem_cons_self
    have hrest : ∀ x ∈ steps, x.SetFree limits := fun x hx => hset x (List.mem_cons_of_mem step hx)
    cases heval : step.isEval with
    | true =>
      rw [List.filter_cons_of_pos heval]
      exact ih (h.eval hstep).1 hrest
    | false =>
      rw [List.filter_cons_of_neg (heval ▸ Bool.false_ne_true)]
      exact ih (h.run hstep heval) hrest

theorem performAll_append (forms : Forms) (limits : Limits) (steps : List Step) (step : Step)
    (s : Store) : (Session.performAll forms limits (steps ++ [step]) s).2 =
      (step.perform forms limits (Session.performAll forms limits steps s).2).2 := by
  induction steps generalizing s with
  | nil => rfl
  | cons first steps ih => exact ih (first.perform forms limits s).2

end

/-! ## Isolation -/

/-- In a session without `set`, programs are isolated from one another. -/
theorem setFree_isolated (limits : Limits) (before : List Step) (step : Step)
    (hbefore : ∀ x ∈ before, x.SetFree limits) (hstep : step.SetFree limits) :
    (step.isEval = false →
      step.answer limits (after limits before) = step.answer limits start) ∧
    (step.isEval = true →
      step.answer limits (after limits before) =
        step.answer limits (after limits (before.filter Step.isEval)) ∧
      ∀ nested, shown limits nested (after limits (before ++ [step])) =
        shown limits nested (after limits (before.filter Step.isEval ++ [step]))) := by
  have hbeside : Beside (after limits before) (after limits (before.filter Step.isEval)) :=
    beside_start.performAll hbefore
  refine ⟨?_, ?_⟩
  · intro hrun
    exact answer_eq_of_agrees (perform_new hbeside.global hstep hrun)
  · intro _
    obtain ⟨hnext, hanswer⟩ := hbeside.eval hstep
    refine ⟨hanswer, fun nested => ?_⟩
    unfold after
    rw [performAll_append, performAll_append]
    exact hnext.shown_eq nested

/-! A session that binds `x`, and a program in it that binds an `x` of its own
and prints its value. -/

theorem setFree_of_read {limits : Limits} {step : Step} {source : String} {tree : Expr}
    (hsource : step.source = .ok source) (hread : Expr.read limits.depth source = .ok tree)
    (htree : tree.SetFree) : step.SetFree limits := by
  intro source' tree' hsource' hread'
  cases hsource.symm.trans hsource'
  cases hread.symm.trans hread'
  exact htree

theorem setFree_isolated_own_names :
    let before := [Step.eval "define(x, true)", .run ["define(x, print(false))"]]
    (Step.eval "x").answer ⟨9, 9⟩ (after ⟨9, 9⟩ before) =
      (Step.eval "x").answer ⟨9, 9⟩ (after ⟨9, 9⟩ [.eval "define(x, true)"]) ∧
    (Step.run ["x"]).answer ⟨9, 9⟩ (after ⟨9, 9⟩ before) =
      (Step.run ["x"]).answer ⟨9, 9⟩ start := by
  intro before
  have hword : ∀ x, (Expr.word x).SetFree := fun _ _ => nofun
  -- the three sources, read
  have hx : Expr.read 9 "x" = .ok (.word "x") := by with_unfolding_all rfl
  have hdefine : Expr.read 9 "define(x, true)" =
      .ok (.apply (.word "define") [.word "x", .word "true"]) := by with_unfolding_all rfl
  have hshadow : Expr.read 9 "define(x, print(false))" =
      .ok (.apply (.word "define") [.word "x", .apply (.word "print") [.word "false"]]) := by
    with_unfolding_all rfl
  have hfirst : (Step.eval "define(x, true)").SetFree ⟨9, 9⟩ := by
    refine setFree_of_read rfl hdefine (Expr.setFree_apply (by decide) (hword _) ?_)
    simp [hword]
  have hsecond : (Step.run ["define(x, print(false))"]).SetFree ⟨9, 9⟩ := by
    refine setFree_of_read rfl hshadow (Expr.setFree_apply (by decide) (hword _) ?_)
    have hprint : (Expr.apply (.word "print") [.word "false"]).SetFree :=
      Expr.setFree_apply (by decide) (hword _) (by simp [hword])
    simp [hword, hprint]
  have hbefore : ∀ y ∈ before, y.SetFree ⟨9, 9⟩ := by
    simp [before, hfirst, hsecond]
  refine ⟨?_, ?_⟩
  · exact ((setFree_isolated ⟨9, 9⟩ before (.eval "x") hbefore
      (setFree_of_read rfl hx (hword _))).2 rfl).1
  · exact (setFree_isolated ⟨9, 9⟩ before (.run ["x"]) hbefore
      (setFree_of_read rfl hx (hword _))).1 rfl

end Session

end EggLang
