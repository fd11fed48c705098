/-
# `EggLang.Proofs.Unrolling` — a loop and its first turn

The loop `while(t, b)` does what its unrolling does,

    if(t, do(b, while(t, b)), do())

To say so one has to speak of evaluations that end, as neither has to, and the
limits under which they do so are not the same: the unrolling nests deeper, and
its inner loop has a turn less to take.

A `Limited` computation is one for each choice of limits, where larger limits
change no answer but one that is a matter of the limits itself.  It *ends* with
an answer and a store if it has them within some limits, and so within all that
are larger.  There is one rule for each part:

    sequencing    the first ends in a fault, or it returns and the second ends
    a form        ends as what the form stands for does, one level deeper
    a loop        ends as a test does, and behind it a turn and the loop again

A loop that returns has made whole rounds, each a test that did not give `false`
and a body that returned, and after them a test that gave `false`.  This test is
the last thing that it has done (`Rounds`).
-/
import EggLang.Proofs.Limits
import Mathlib.Logic.Relation

namespace EggLang

/-- The faults of limits that are too small. -/
def Fault.OfLimits : Fault → Prop
  | .tooDeep => True
  | .unfinished => True
  | _ => False

/-- The second limits allow all that the first ones do. -/
structure Limits.Le (l m : Limits) : Prop where
  depth : l.depth ≤ m.depth
  turns : l.turns ≤ m.turns

/-- Limits that allow all that either of two does. -/
def Limits.both (l m : Limits) : Limits := ⟨max l.depth m.depth, max l.turns m.turns⟩

theorem Limits.le_both_left (l m : Limits) : l.Le (l.both m) :=
  ⟨Nat.le_max_left _ _, Nat.le_max_left _ _⟩

theorem Limits.le_both_right (l m : Limits) : m.Le (l.both m) :=
  ⟨Nat.le_max_right _ _, Nat.le_max_right _ _⟩

/-! ## Computations within limits -/

/-- A computation for each choice of limits, where larger limits change no
answer but a fault of the limits. -/
structure Limited (α : Type) where
  within : Limits → Run α
  mono : ∀ {l m : Limits}, l.Le m → (within l).Extends Fault.OfLimits (within m)

namespace Limited

variable {α β : Type} {x : Limited α} {k : α → Limited β} {s t u : Store}

/-- Within some limits the computation has this answer, which is no fault of the
limits, and leaves this store. -/
def Ends (x : Limited α) (s : Store) (r : Except Fault α) (t : Store) : Prop :=
  ∃ l, x.within l s = (r, t) ∧ Settled Fault.OfLimits r

theorem within_of_le {l m : Limits} {r : Except Fault α} (hle : l.Le m) :
    x.within l s = (r, t) → Settled Fault.OfLimits r → x.within m s = (r, t) := by
  intro hrun hr
  have hextends := x.mono hle s
  rw [hrun] at hextends
  exact hextends hr

/-- There is one way to end. -/
theorem Ends.unique {r r' : Except Fault α} :
    x.Ends s r t → x.Ends s r' u → r = r' ∧ t = u := by
  rintro ⟨l, hl, hr⟩ ⟨m, hm, hr'⟩
  have hleft := within_of_le (l.le_both_left m) hl hr
  have hright := within_of_le (l.le_both_right m) hm hr'
  exact Prod.mk.inj (hleft.symm.trans hright)

/-- The computation that only returns a value. -/
def returning (a : α) : Limited α := ⟨fun _ => pure a, fun _ => .refl _⟩

/-- The first computation and then the second, within the same limits. -/
def andThen (x : Limited α) (k : α → Limited β) : Limited β where
  within l := x.within l >>= fun a => (k a).within l
  mono hle := (x.mono hle).bind fun a => (k a).mono hle

/-- The first ends in a fault and this is the end of both, or it returns and the
second ends. -/
theorem ends_andThen_iff {r : Except Fault β} :
    (x.andThen k).Ends s r t ↔
      (∃ f, r = .error f ∧ x.Ends s (.error f) t) ∨
        ∃ a u, x.Ends s (.ok a) u ∧ (k a).Ends u r t := by
  constructor
  · rintro ⟨l, hl, hr⟩
    rcases hx : x.within l s with ⟨f | a, u⟩
    · have hfault : (x.andThen k).within l s = (.error f, u) := Run.bind_apply_error hx
      cases hfault.symm.trans hl
      exact Or.inl ⟨f, rfl, l, hx, settled_error_iff.mpr (settled_error_iff.mp hr)⟩
    · have hrest : (x.andThen k).within l s = (k a).within l u := Run.bind_apply_ok hx
      exact Or.inr ⟨a, u, ⟨l, hx, settled_ok a⟩, l, hrest.symm.trans hl, hr⟩
  · rintro (⟨f, rfl, l, hl, hf⟩ | ⟨a, u, ⟨l, hl, ha⟩, m, hm, hr⟩)
    · exact ⟨l, Run.bind_apply_error hl, settled_error_iff.mpr (settled_error_iff.mp hf)⟩
    · -- both have their answers within the larger limits
      have hfirst := within_of_le (l.le_both_left m) hl ha
      have hsecond := within_of_le (l.le_both_right m) hm hr
      exact ⟨l.both m, (Run.bind_apply_ok hfirst).trans hsecond, hr⟩

end Limited

/-! ## Expressions -/

theorem evaluate_extends_of_le (forms : Forms) {l m : Limits} (hle : l.Le m) :
    (evaluate forms l.turns l.depth).Extends Fault.OfLimits (evaluate forms m.turns m.depth) :=
  evaluate_extends trivial forms hle.turns (fun _ => trivial) hle.depth

def evaluation (forms : Forms) (a : Expr) (e : FrameId) : Limited Value where
  within l := evaluate forms l.turns l.depth a e
  mono hle := evaluate_extends_of_le forms hle a e

/-- A body is repeated until a test gives `false`. -/
def repeating (forms : Forms) (test body : Expr) (e : FrameId) : Limited Value where
  within l := Evaluate.repeated (evaluate forms l.turns l.depth test e)
    (evaluate forms l.turns l.depth body e) l.turns
  mono hle := repeated_extends (evaluate_extends_of_le forms hle) hle.turns (fun _ => trivial)
    test body e

/-- What repeating comes to behind a test that gave `v`. -/
def turn (forms : Forms) (test body : Expr) (e : FrameId) (v : Value) : Limited Value :=
  if v.isFalse then .returning (.bool false)
  else (evaluation forms body e).andThen fun _ => repeating forms test body e

section
variable {forms : Forms} {test body : Expr} {e : FrameId} {s t : Store} {r : Except Fault Value}

/-! ## Repeating -/

theorem within_turn (v : Value) (l : Limits) :
    (turn forms test body e v).within l =
      if v.isFalse then pure (.bool false)
      else (evaluation forms body e).within l >>= fun _ =>
        (repeating forms test body e).within l := by
  unfold turn
  split <;> rfl

/-- Repeating is a test, and behind it a turn and repeating. -/
theorem ends_repeating_iff :
    (repeating forms test body e).Ends s r t ↔
      ((evaluation forms test e).andThen (turn forms test body e)).Ends s r t := by
  have hwithin : ∀ l, ((evaluation forms test e).andThen (turn forms test body e)).within l =
      evaluate forms l.turns l.depth test e >>= fun v =>
        if v.isFalse then pure (.bool false)
        else evaluate forms l.turns l.depth body e >>= fun _ =>
          (repeating forms test body e).within l := by
    intro l
    show (_ >>= fun v => (turn forms test body e v).within l) = _
    simp only [within_turn]
    rfl
  constructor
  · rintro ⟨⟨depth, _ | turns⟩, hl, hr⟩
    · cases hl
      exact absurd trivial (settled_error_iff.mp hr)
    · refine ⟨⟨depth, turns + 1⟩, ?_, hr⟩
      -- what is repeated behind the turn is given all the turns, and needs one less
      have heval : (evaluate forms (turns + 1) depth).Extends Fault.OfLimits
          (evaluate forms (turns + 1) depth) := fun a e => .refl _
      have hmore := repeated_extends heval (Nat.le_succ turns) (fun _ => trivial) test body e
      change (Evaluate.repeated _ _ (turns + 1) : Run Value) s = (r, t) at hl
      rw [Evaluate.repeated] at hl
      rw [hwithin, ← hl]
      refine (Run.Extends.refl _).bind (fun v => ?_) s (by rw [hl]; exact hr)
      split
      · exact .refl _
      · exact (Run.Extends.refl _).bind fun _ => hmore
  · rintro ⟨l, hl, hr⟩
    have hle : l.Le ⟨l.depth, l.turns + 1⟩ := ⟨Nat.le_refl _, Nat.le_succ _⟩
    have heval := evaluate_extends_of_le forms hle
    refine ⟨⟨l.depth, l.turns + 1⟩, ?_, hr⟩
    show (Evaluate.repeated _ _ (l.turns + 1) : Run Value) s = (r, t)
    rw [hwithin] at hl
    rw [Evaluate.repeated, ← hl]
    refine (heval test e).bind (fun v => ?_) s (by rw [hl]; exact hr)
    split
    · exact .refl _
    · exact (heval body e).bind fun _ =>
        repeated_extends heval (Nat.le_refl _) (fun _ => trivial) test body e

/-- One round: the test gives anything but `false`, and the body returns. -/
def Round (forms : Forms) (test body : Expr) (e : FrameId) (s t : Store) : Prop :=
  ∃ v u w, (evaluation forms test e).Ends s (.ok v) u ∧ v ≠ .bool false ∧
    (evaluation forms body e).Ends u (.ok w) t

/-- Any number of rounds, one after the other. -/
def Rounds (forms : Forms) (test body : Expr) (e : FrameId) : Store → Store → Prop :=
  Relation.ReflTransGen (Round forms test body e)

theorem Value.isFalse_iff {v : Value} : v.isFalse = true ↔ v = .bool false := by
  unfold isFalse
  split
  · exact iff_of_true rfl rfl
  · next h => exact iff_of_false Bool.false_ne_true h

/-- Repeating that returns has made whole rounds and then a last test. -/
theorem repeated_returns {l : Limits} {turns : Nat} {v : Value} :
    Evaluate.repeated (evaluate forms l.turns l.depth test e)
        (evaluate forms l.turns l.depth body e) turns s = (.ok v, t) →
      v = .bool false ∧ ∃ u, Rounds forms test body e s u ∧
        (evaluation forms test e).Ends u (.ok (.bool false)) t := by
  intro h
  induction turns generalizing s with
  | zero => cases h
  | succ turns ih =>
    rw [Evaluate.repeated] at h
    rcases htest : evaluate forms l.turns l.depth test e s with ⟨f | w, u⟩
    · cases (Run.bind_apply_error htest).symm.trans h
    have htests : (evaluation forms test e).Ends s (.ok w) u := ⟨l, htest, settled_ok w⟩
    rw [Run.bind_apply_ok htest] at h
    split at h
    · next hw =>
      cases h
      cases Value.isFalse_iff.mp hw
      exact ⟨rfl, s, .refl, htests⟩
    · next hw =>
      rcases hbody : evaluate forms l.turns l.depth body e u with ⟨f | w', u'⟩
      · cases (Run.bind_apply_error hbody).symm.trans h
      rw [Run.bind_apply_ok hbody] at h
      obtain ⟨hv, m, hrounds, hlast⟩ := ih h
      have hround : Round forms test body e s u' :=
        ⟨w, u, w', htests, fun hfalse => hw (Value.isFalse_iff.mpr hfalse), l, hbody, settled_ok w'⟩
      exact ⟨hv, m, .head hround hrounds, hlast⟩

/-! ## Forms -/

/-- A form ends as what it stands for does. -/
theorem ends_form_iff {keyword : String} {form : Form} {args : List Expr} {x : Limited Value}
    (hform : forms.find? keyword = some form)
    (hx : ∀ l : Limits, Evaluate.form (evaluate forms l.turns l.depth) l.turns form args e =
      x.within l) :
    (evaluation forms (.apply (.word keyword) args) e).Ends s r t ↔ x.Ends s r t := by
  have hdeeper : ∀ depth turns, evaluate forms turns (depth + 1) (.apply (.word keyword) args) e =
      x.within ⟨depth, turns⟩ := by
    intro depth turns
    rw [← hx]
    simp only [evaluate_apply, Evaluate.formOf?, hform]
  constructor
  · rintro ⟨⟨_ | depth, turns⟩, hl, hr⟩
    · cases hl
      exact absurd trivial (settled_error_iff.mp hr)
    · exact ⟨⟨depth, turns⟩, (congrFun (hdeeper depth turns) s).symm.trans hl, hr⟩
  · rintro ⟨⟨depth, turns⟩, hl, hr⟩
    exact ⟨⟨depth + 1, turns⟩, (congrFun (hdeeper depth turns) s).trans hl, hr⟩

theorem ends_while_iff (hwhile : forms.find? "while" = some .loop) :
    (evaluation forms (.apply (.word "while") [test, body]) e).Ends s r t ↔
      (repeating forms test body e).Ends s r t :=
  ends_form_iff hwhile fun _ => rfl

theorem ends_if_iff (hif : forms.find? "if" = some .conditional) {yes no : Expr} :
    (evaluation forms (.apply (.word "if") [test, yes, no]) e).Ends s r t ↔
      ((evaluation forms test e).andThen fun v =>
        evaluation forms (if v.isFalse then no else yes) e).Ends s r t :=
  ends_form_iff hif fun _ => rfl

theorem ends_do_nil_iff (hdo : forms.find? "do" = some .sequence) :
    (evaluation forms (.apply (.word "do") []) e).Ends s r t ↔
      (Limited.returning (.bool false)).Ends s r t :=
  ends_form_iff hdo fun _ => rfl

theorem ends_do_pair_iff (hdo : forms.find? "do" = some .sequence) {first last : Expr} :
    (evaluation forms (.apply (.word "do") [first, last]) e).Ends s r t ↔
      ((evaluation forms first e).andThen fun _ => evaluation forms last e).Ends s r t := by
  refine ends_form_iff hdo fun l => ?_
  show (evaluate forms l.turns l.depth first e >>= fun _ =>
    evaluate forms l.turns l.depth last e >>= pure) = _
  simp only [Run.bind_pure_eq]
  rfl

/-! ## The unrolling -/

/-- The conditional that makes the first turn of a loop. -/
def unrolled (test body : Expr) : Expr :=
  .apply (.word "if") [test,
    .apply (.word "do") [body, .apply (.word "while") [test, body]],
    .apply (.word "do") []]

theorem ends_unrolled_iff (hwhile : forms.find? "while" = some .loop)
    (hif : forms.find? "if" = some .conditional) (hdo : forms.find? "do" = some .sequence) :
    (evaluation forms (unrolled test body) e).Ends s r t ↔
      (evaluation forms (.apply (.word "while") [test, body]) e).Ends s r t := by
  -- what follows the test is the same, whatever its value
  have hturn : ∀ {v u}, (evaluation forms (if v.isFalse then .apply (.word "do") []
        else .apply (.word "do") [body, .apply (.word "while") [test, body]]) e).Ends u r t ↔
      (turn forms test body e v).Ends u r t := by
    intro v u
    unfold turn
    split
    · exact ends_do_nil_iff hdo
    · simp only [ends_do_pair_iff hdo, Limited.ends_andThen_iff, ends_while_iff hwhile]
  simp only [unrolled, ends_while_iff hwhile, ends_if_iff hif, ends_repeating_iff,
    Limited.ends_andThen_iff, hturn]

end

/-- A loop ends exactly if its unrolling does, and then with the same answer and
the same store.  If it returns, it returns `false`, and what it leaves is what
its last test has left, which gave `false` after rounds in which the test gave
something else. -/
theorem while_unrolled {forms : Forms} (hwhile : forms.find? "while" = some .loop)
    (hif : forms.find? "if" = some .conditional) (hdo : forms.find? "do" = some .sequence)
    (test body : Expr) (e : FrameId) (s : Store) :
    let loop := evaluation forms (.apply (.word "while") [test, body]) e
    let once := evaluation forms (unrolled test body) e
    ((∃ r t, loop.Ends s r t) ↔ ∃ r t, once.Ends s r t) ∧
    (∀ r t r' t', loop.Ends s r t → once.Ends s r' t' → r = r' ∧ t = t') ∧
    ∀ v t, loop.Ends s (.ok v) t → v = .bool false ∧
      ∃ u, Rounds forms test body e s u ∧
        (evaluation forms test e).Ends u (.ok (.bool false)) t := by
  intro loop once
  have hsame : ∀ r t, once.Ends s r t ↔ loop.Ends s r t :=
    fun r t => ends_unrolled_iff hwhile hif hdo
  refine ⟨?_, ?_, ?_⟩
  · simp only [hsame]
  · intro r t r' t' hloop honce
    exact hloop.unique ((hsame r' t').mp honce)
  · intro v t hloop
    obtain ⟨l, hl, -⟩ := (ends_while_iff hwhile).mp hloop
    exact repeated_returns hl

/-- A loop that counts to two and prints: its unrolling ends with `false` as
well, and prints the same. -/
theorem while_unrolled_counts :
    let s := Session.start.define Session.ownFrame "x" (.number (.int 0))
    let test := Expr.apply (.word "<") [.word "x", .number 2]
    let next := Expr.apply (.word "+") [.apply (.word "print") [.word "x"], .number 1]
    let body := Expr.apply (.word "set") [.word "x", next]
    ∃ t, (evaluation Forms.core (unrolled test body) Session.ownFrame).Ends s
        (.ok (.bool false)) t ∧ t.printed = #["0", "1"] := by
  intro s test next body
  let l : Limits := ⟨5, 3⟩
  let loop := evaluation Forms.core (.apply (.word "while") [test, body]) Session.ownFrame
  have hwhile : Forms.core.find? "while" = some .loop := rfl
  have hunrolled := while_unrolled hwhile rfl rfl test body Session.ownFrame s
  have hreturns : (loop.within l s).1.toOption.isSome = true := by decide +kernel
  have hprinted : (loop.within l s).2.printed = #["0", "1"] := by decide +kernel
  rcases hrun : loop.within l s with ⟨f | v, t⟩
  · rw [hrun] at hreturns
    cases hreturns
  · rw [hrun] at hprinted
    have hends : loop.Ends s (.ok v) t := ⟨l, hrun, settled_ok v⟩
    obtain ⟨rfl, -⟩ := hunrolled.2.2 v t hends
    obtain ⟨r, u, honce⟩ := hunrolled.1.mp ⟨_, _, hends⟩
    obtain ⟨rfl, rfl⟩ := hunrolled.2.1 _ _ _ _ hends honce
    exact ⟨t, honce, hprinted⟩

end EggLang
