/-
# `EggLang.Proofs.Discipline.Effect` — what a builtin can do

A builtin is one of eleven functions of its arguments, but there are only six
things that one can do to a store and a result:

    fault      a fault; the store stays
    plain      a number, a boolean or a string; the store stays
    item       an item of an argument that is an array; the store stays
    array      a new array of the arguments, under the next identity
    prints     the argument, after one line has been printed
    returns    the argument; the store stays (a printer to another output)

`Effect` has one constructor for each, and `apply_effect` says that there is
no other.  What has to be known of all builtins at once is proved from these
six.  Only a proof that asks which fault it is, or which line, opens a builtin
again.
-/
import EggLang.Proofs.Alike.Builtin

namespace EggLang

namespace Builtin

/-- What applying a builtin to arguments does to a store. -/
inductive Effect (limit : Nat) (args : List Value) (s : Store) : Except Fault Value × Store → Prop
  | fault (f : Fault) : Effect limit args s (.error f, s)
  | plain {v : Value} : v.Plain → Effect limit args s (.ok v, s)
  | item {i : Nat} {items : List Value} {v : Value} : .array i items ∈ args → v ∈ items →
      Effect limit args s (.ok v, s)
  | array : Effect limit args s (.ok (.array s.fresh args), s.freshId.2)
  | prints {v : Value} {line : String} : v ∈ args → v.display limit false = .ok line →
      Effect limit args s (.ok v, s.printLine line)
  | returns {v : Value} : v ∈ args → Effect limit args s (.ok v, s)

variable {limit : Nat} {args : List Value} {s : Store}

theorem effect_of_plain {r : Except Fault Value} :
    (∀ v, r = .ok v → v.Plain) → Effect limit args s (Run.ofExcept r s) := by
  intro hr
  cases r with
  | error f => exact .fault f
  | ok v => exact .plain (hr v rfl)

theorem outside_effect (length : Nat) (n : Int) :
    Effect limit args s (Run.ofExcept (outside length n) s) := by
  unfold outside
  cases Value.integerDebug n with
  | error f => exact .fault f
  | ok shown => exact .fault _

theorem elementAt_effect {i : Nat} {items : List Value} (n : Int) :
    .array i items ∈ args → Effect limit args s (Run.ofExcept (elementAt items n) s) := by
  intro harray
  unfold elementAt
  split
  · cases hv : items[n.toNat]? with
    | none => exact outside_effect _ n
    | some v => exact .item harray (List.mem_of_getElem? hv)
  · exact outside_effect _ n

theorem elementOf_effect (a i : Value) :
    a ∈ args → Effect limit args s (Run.ofExcept (elementOf a i) s) := by
  intro ha
  unfold elementOf
  split
  · exact elementAt_effect _ ha
  · next x =>
    cases x.integer? with
    | none => exact .fault _
    | some n => exact elementAt_effect n ha
  · exact .fault _
  · exact .fault _

/-- A value that has no text is not printed. -/
theorem printValue_of_error {output : Nat} {v : Value} {f : Fault}
    (h : v.display limit false = .error f) : printValue limit output v s = (.error f, s) := by
  unfold printValue
  rw [h]
  rfl

theorem printValue_of_ok {output : Nat} {v : Value} {line : String}
    (h : v.display limit false = .ok line) :
    printValue limit output v s = (.ok v, if output = 0 then s.printLine line else s) := by
  unfold printValue
  rw [h]
  by_cases hout : output = 0 <;> simp only [hout, if_true, if_false] <;> rfl

theorem printValue_effect (output : Nat) (v : Value) :
    v ∈ args → Effect limit args s (printValue limit output v s) := by
  intro hv
  cases hline : v.display limit false with
  | error f =>
    rw [printValue_of_error hline]
    exact .fault f
  | ok line =>
    rw [printValue_of_ok hline]
    split
    · exact .prints hv hline
    · exact .returns hv

/-- The builtins of two operands. -/
theorem apply_pair_effect {b : Builtin} (x y : Value) :
    b.arity? = some 2 → Effect limit [x, y] s (b.apply limit [x, y] s) := by
  intro hb
  cases b with
  | add => exact effect_of_plain fun _ => sum_plain
  | sub => exact effect_of_plain fun _ => arithmetic_plain
  | mul => exact effect_of_plain fun _ => arithmetic_plain
  | div => exact effect_of_plain fun _ => quotient_plain
  | equal => exact .plain (show (Value.bool (x.same y)).Plain from trivial)
  | less => exact effect_of_plain fun _ => ordering_plain
  | greater => exact effect_of_plain fun _ => ordering_plain
  | element => exact elementOf_effect x y List.mem_cons_self
  | array => cases hb
  | length => cases hb
  | print output => cases hb

/-- The builtins of one operand. -/
theorem apply_single_effect {b : Builtin} (x : Value) :
    b.arity? = some 1 → Effect limit [x] s (b.apply limit [x] s) := by
  intro hb
  cases b with
  | length => exact effect_of_plain fun _ => lengthOf_plain
  | print output => exact printValue_effect output x List.mem_cons_self
  | _ => cases hb

/-- A builtin does one of the six things. -/
theorem apply_effect (limit : Nat) (b : Builtin) (args : List Value) (s : Store) :
    Effect limit args s (b.apply limit args s) := by
  rcases arguments_cases b args with rfl | ⟨n, hb, hn⟩ | ⟨x, rfl, hb⟩ | ⟨x, y, rfl, hb⟩
  · exact .array
  · rw [apply_wrongCount limit b hb hn]
    exact .fault _
  · exact apply_single_effect x hb
  · exact apply_pair_effect x y hb

end Builtin

end EggLang
