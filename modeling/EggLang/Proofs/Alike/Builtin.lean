/-
# `EggLang.Proofs.Alike.Builtin` — builtins on alike values

The builtins that are functions of their operands give alike results on alike
operands, or the same fault.  For all of them but `element` this is an
equation: the result is a number, a boolean or a string, which has no number
of the kind that links are about.
-/
import EggLang.Builtin
import EggLang.Proofs.Alike.Value

namespace EggLang

/-- Both results are values, and these are related, or both are the same
fault. -/
inductive Outcome {α β : Type} (P : α → β → Prop) : Except Fault α → Except Fault β → Prop
  | ok {a : α} {b : β} : P a b → Outcome P (.ok a) (.ok b)
  | error (f : Fault) : Outcome P (.error f) (.error f)

theorem Outcome.refl {α : Type} (x : Except Fault α) : Outcome Eq x x := by
  cases x with
  | ok a => exact .ok rfl
  | error f => exact .error f

/-- The value is a number, a boolean or a string. -/
def Value.Plain : Value → Prop
  | .number _ => True
  | .bool _ => True
  | .string _ => True
  | _ => False

namespace Builtin

open Value (Alike Plain)

/-! ## Plain results -/

theorem arithmetic_plain {op : Builtin} {f : Number → Number → Option Number} {a b v : Value}
    (h : arithmetic op f a b = .ok v) : v.Plain := by
  unfold arithmetic at h
  split at h
  · split at h
    · cases h
      trivial
    · cases h
  · cases h

theorem sum_plain {a b v : Value} (h : sum a b = .ok v) : v.Plain := by
  unfold sum at h
  split at h
  · cases h
    trivial
  · exact arithmetic_plain h

theorem quotient_plain {a b v : Value} (h : quotient a b = .ok v) : v.Plain := by
  unfold quotient at h
  split at h
  · split at h
    · cases h
    · exact arithmetic_plain h
  · cases h

theorem ordering_plain {op : Builtin} {p : Number → Number → Bool} {q : String → String → Bool}
    {a b v : Value} (h : ordering op p q a b = .ok v) : v.Plain := by
  unfold ordering at h
  split at h
  · cases h
    trivial
  · cases h
    trivial
  · cases h

theorem lengthOf_plain {a v : Value} (h : lengthOf a = .ok v) : v.Plain := by
  unfold lengthOf at h
  split at h
  · cases h
    trivial
  · cases h

/-! ## Alike operands -/

section
variable {l : Links} {code : List String → Expr → Prop} {u v x y : Value}

theorem outcome_of_plain {r r' : Except Fault Value} (heq : r = r')
    (hp : ∀ v, r = .ok v → v.Plain) : Outcome (Alike l code) r r' := by
  subst heq
  cases r with
  | error f => exact .error f
  | ok v =>
    have hv := hp v rfl
    cases v with
    | number n => exact .ok (.number n)
    | bool b => exact .ok (.bool b)
    | string s => exact .ok (.string s)
    | _ => exact hv.elim

theorem arithmetic_eq (op : Builtin) (f : Number → Number → Option Number)
    (hu : Alike l code u v) (hx : Alike l code x y) :
    arithmetic op f u x = arithmetic op f v y := by
  cases hu <;> cases hx <;> rfl

theorem sum_eq (hu : Alike l code u v) (hx : Alike l code x y) : sum u x = sum v y := by
  cases hu <;> cases hx <;> rfl

theorem quotient_eq (hu : Alike l code u v) (hx : Alike l code x y) :
    quotient u x = quotient v y := by
  cases hu <;> cases hx <;> rfl

theorem ordering_eq (op : Builtin) (p : Number → Number → Bool) (q : String → String → Bool)
    (hu : Alike l code u v) (hx : Alike l code x y) :
    ordering op p q u x = ordering op p q v y := by
  cases hu <;> cases hx <;> rfl

theorem lengthOf_eq (hu : Alike l code u v) : lengthOf u = lengthOf v := by
  cases hu with
  | array _ hlen _ => simp only [lengthOf, hlen]
  | _ => rfl

theorem getElem?_alike {xs ys : List Value} (h : List.Forall₂ (Alike l code) xs ys) (n : Nat) :
    (xs[n]? = none ∧ ys[n]? = none) ∨
    ∃ u v, xs[n]? = some u ∧ ys[n]? = some v ∧ Alike l code u v := by
  induction h generalizing n with
  | nil => exact Or.inl ⟨rfl, rfl⟩
  | cons huv _ ih =>
    cases n with
    | zero => exact Or.inr ⟨_, _, rfl, rfl, huv⟩
    | succ n => exact ih n

theorem outside_alike (length : Nat) (n : Int) :
    Outcome (Alike l code) (outside length n) (outside length n) := by
  unfold outside
  cases Value.integerDebug n with
  | ok shown => exact .error _
  | error f => exact .error f

theorem elementAt_alike {xs ys : List Value} (h : List.Forall₂ (Alike l code) xs ys) (n : Int) :
    Outcome (Alike l code) (elementAt xs n) (elementAt ys n) := by
  unfold elementAt
  rw [h.length_eq]
  split
  · rcases getElem?_alike h n.toNat with ⟨hx, hy⟩ | ⟨u, v, hx, hy, huv⟩
    · rw [hx, hy]
      exact outside_alike _ n
    · rw [hx, hy]
      exact .ok huv
  · exact outside_alike _ n

theorem elementOf_alike (hu : Alike l code u v) (hx : Alike l code x y) :
    Outcome (Alike l code) (elementOf u x) (elementOf v y) := by
  cases hu with
  | array _ hlen hall =>
    have hitems := List.forall₂_iff_zip.mpr ⟨hlen, fun hp => hall _ hp⟩
    cases hx with
    | number n =>
      cases n with
      | int n => exact elementAt_alike hitems n
      | float d =>
        cases hd : d.integer? with
        | none =>
          simp only [elementOf, hd]
          exact .error _
        | some n =>
          simp only [elementOf, hd]
          exact elementAt_alike hitems n
    | _ => exact .error _
  | _ => cases hx <;> exact .error _

/-- The builtins of two operands do not look at the store. -/
theorem apply_pair_alike
    (hone : ∀ {i j i' j'}, l.identity i j → l.identity i' j' → (i = i' ↔ j = j'))
    (limit : Nat) {b : Builtin} (hb : b.arity? = some 2) (hu : Alike l code u v)
    (hx : Alike l code x y) :
    ∃ r r', b.apply limit [u, x] = Run.ofExcept r ∧ b.apply limit [v, y] = Run.ofExcept r' ∧
      Outcome (Alike l code) r r' := by
  cases b with
  | add => exact ⟨_, _, rfl, rfl, outcome_of_plain (sum_eq hu hx) fun _ => sum_plain⟩
  | sub =>
    exact ⟨_, _, rfl, rfl, outcome_of_plain (arithmetic_eq _ _ hu hx) fun _ => arithmetic_plain⟩
  | mul =>
    exact ⟨_, _, rfl, rfl, outcome_of_plain (arithmetic_eq _ _ hu hx) fun _ => arithmetic_plain⟩
  | div => exact ⟨_, _, rfl, rfl, outcome_of_plain (quotient_eq hu hx) fun _ => quotient_plain⟩
  | equal =>
    refine ⟨.ok (.bool (u.same x)), .ok (.bool (v.same y)), rfl, rfl, ?_⟩
    rw [hu.same_eq hone hx]
    exact .ok (.bool _)
  | less =>
    exact ⟨_, _, rfl, rfl, outcome_of_plain (ordering_eq _ _ _ hu hx) fun _ => ordering_plain⟩
  | greater =>
    exact ⟨_, _, rfl, rfl, outcome_of_plain (ordering_eq _ _ _ hu hx) fun _ => ordering_plain⟩
  | element => exact ⟨_, _, rfl, rfl, elementOf_alike hu hx⟩
  | array => cases hb
  | length => cases hb
  | print output => cases hb

end

/-- `array` takes any arguments; the others take one or two, or refuse their
number. -/
theorem arguments_cases (b : Builtin) (args : List Value) :
    b = .array ∨ (∃ n, b.arity? = some n ∧ args.length ≠ n) ∨
      (∃ u, args = [u] ∧ b.arity? = some 1) ∨ ∃ u v, args = [u, v] ∧ b.arity? = some 2 := by
  cases hb : b.arity? with
  | none =>
    cases b with
    | array => exact Or.inl rfl
    | _ => cases hb
  | some n =>
    by_cases hn : args.length = n
    · subst hn
      match args, hb with
      | [], hb => cases b <;> cases hb
      | [u], _ => exact Or.inr (Or.inr (Or.inl ⟨u, rfl, rfl⟩))
      | [u, v], _ => exact Or.inr (Or.inr (Or.inr ⟨u, v, rfl, rfl⟩))
      | _ :: _ :: _ :: _, hb => cases b <;> cases hb
    · exact Or.inr (Or.inl ⟨n, rfl, hn⟩)

/-- A builtin of fixed arity refuses every other number of arguments. -/
theorem apply_wrongCount (limit : Nat) (b : Builtin) {n : Nat} {args : List Value}
    (hb : b.arity? = some n) (h : args.length ≠ n) :
    b.apply limit args = Run.fail (.wrongBuiltinCount b.name n args.length) := by
  cases b <;> cases hb <;> rcases args with _ | ⟨x, _ | ⟨y, _ | ⟨z, rest⟩⟩⟩ <;>
    first | rfl | exact absurd rfl h

end Builtin

theorem globalBindings_cases {x : String} {v : Value} {output : Nat}
    (hv : (x, v) ∈ globalBindings output) : (∃ b, v = .bool b) ∨ ∃ f, v = .builtin f := by
  rcases List.mem_append.mp hv with hv | hv
  · simp only [List.mem_cons, Prod.mk.injEq, List.not_mem_nil, or_false] at hv
    rcases hv with ⟨_, rfl⟩ | ⟨_, rfl⟩
    · exact Or.inl ⟨true, rfl⟩
    · exact Or.inl ⟨false, rfl⟩
  · obtain ⟨f, _, hf⟩ := List.mem_map.mp hv
    exact Or.inr ⟨f, (Prod.mk.inj hf).2.symm⟩

/-- What programs start with is alike along any links. -/
theorem alike_globalBindings (l : Links) (code : List String → Expr → Prop) (output : Nat) :
    Bindings.Alike l code (globalBindings output) (globalBindings output) := by
  refine List.forall₂_same.mpr ?_
  rintro ⟨x, v⟩ hv
  rcases globalBindings_cases hv with ⟨b, rfl⟩ | ⟨f, rfl⟩
  · exact ⟨rfl, .bool b⟩
  · exact ⟨rfl, .builtin f⟩

end EggLang
