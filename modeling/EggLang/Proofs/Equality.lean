/-
# `EggLang.Proofs.Equality` — equal values are shown alike

`==` and the text of a value are two functions of their own.  The first compares
numbers by value and arrays and functions by identity; the second shows numbers
by kind and arrays and functions by content.  Yet what is equal has one text.

    numbers      equal ones are one integer, possibly once as a double, and a
                 whole double is shown as the integer; or they are one double,
                 as a double that is no integer is determined by its value
    identities   what is met in a session with one identity is one value
    the others   are equal only if they are the same

`==` is a partial equivalence: each value has at most one mark, and values are
equal if they have the same (`Value.same_iff`).  Only NaN has none.
-/
import EggLang.Proofs.Comparison
import EggLang.Proofs.Ledger
import EggLang.Proofs.Verdict

namespace EggLang

/-! ## Marks -/

/-- What `==` goes by. -/
inductive Mark where
  | number (value : Line)
  | bool (b : Bool)
  | string (s : String)
  | array (identity : Nat)
  | closure (identity : Nat)
  | builtin (b : Builtin)
  | void

def Mark.kind : Mark → Kind
  | .number _ => .number
  | .bool _ => .boolean
  | .string _ => .string
  | .array _ => .array
  | .closure _ => .function
  | .builtin _ => .function
  | .void => .void

namespace Value

/-- The mark of a value; NaN has none. -/
def mark? : Value → Option Mark
  | .number a => a.value?.map .number
  | .bool b => some (.bool b)
  | .string s => some (.string s)
  | .array i _ => some (.array i)
  | .closure i .. => some (.closure i)
  | .builtin b => some (.builtin b)
  | .void => some .void

variable {a b c : Value} {k : Mark}

theorem same_iff : a.same b = true ↔ ∃ k, a.mark? = some k ∧ b.mark? = some k := by
  cases a <;> cases b <;> simp [same, mark?, Number.equal_iff] <;> exact eq_comm

theorem mark?_eq_none_iff : a.mark? = none ↔ a = .number (.float .nan) := by
  cases a <;> simp [mark?, Number.value?_eq_none_iff]

theorem kind_of_mark? : a.mark? = some k → a.kind = k.kind := by
  intro h
  cases a with
  | number n =>
    obtain ⟨p, -, rfl⟩ := Option.map_eq_some_iff.mp h
    rfl
  | _ =>
    cases h
    rfl

theorem same_symm : a.same b = true → b.same a = true := by
  simp only [same_iff]
  rintro ⟨k, ha, hb⟩
  exact ⟨k, hb, ha⟩

theorem same_trans : a.same b = true → b.same c = true → a.same c = true := by
  simp only [same_iff]
  rintro ⟨k, ha, hb⟩ ⟨l, hb', hc⟩
  cases hb.symm.trans hb'
  exact ⟨k, ha, hc⟩

theorem same_self_iff : a.same a = true ↔ a ≠ .number (.float .nan) := by
  rw [same_iff, ne_eq, ← mark?_eq_none_iff, Option.eq_none_iff_forall_ne_some]
  simp

theorem kind_eq_of_same : a.same b = true → a.kind = b.kind := by
  intro h
  obtain ⟨k, ha, hb⟩ := same_iff.mp h
  exact (kind_of_mark? ha).trans (kind_of_mark? hb).symm

/-- Equal values are equal numbers, have one identity, or are the same. -/
theorem same_cases : a.same b = true →
    (∃ m n, a = .number m ∧ b = .number n ∧ m.equal n = true) ∨
      (∃ i, a.identity? = some i ∧ b.identity? = some i) ∨ a = b := by
  intro h
  unfold same at h
  split at h
  · exact Or.inl ⟨_, _, rfl, rfl, h⟩
  · exact Or.inr (Or.inr (congrArg Value.bool (beq_iff_eq.mp h)))
  · exact Or.inr (Or.inr (congrArg Value.string (beq_iff_eq.mp h)))
  · cases beq_iff_eq.mp h
    exact Or.inr (Or.inl ⟨_, rfl, rfl⟩)
  · cases beq_iff_eq.mp h
    exact Or.inr (Or.inl ⟨_, rfl, rfl⟩)
  · exact Or.inr (Or.inr (congrArg Value.builtin (beq_iff_eq.mp h)))
  · exact Or.inr (Or.inr rfl)
  · cases h

/-! ## Texts of numbers -/

/-- A number that is an integer is shown as one, double or not. -/
theorem display_whole {a : Number} {n : Int} (limit : Nat) (nested : Bool) :
    a.equal (.int n) = true → (number a).display (limit + 1) nested = Expr.numberText n := by
  intro h
  cases a with
  | int m =>
    cases Number.int_equal_int.mp h
    rfl
  | float x =>
    have hx := Double.integer?_eq_some_iff.mpr h
    rw [Expr.numberText_of_writable (Double.writable_of_integer? hx), display, doubleDisplay, hx]

theorem display_of_equal {a b : Number} (limit : Nat) (nested : Bool) :
    a.equal b = true → (number a).display limit nested = (number b).display limit nested := by
  intro h
  cases limit with
  | zero => rfl
  | succ limit =>
    by_cases hwhole : ∃ n, a.equal (.int n) = true
    · obtain ⟨n, hn⟩ := hwhole
      have hn' := Number.equal_trans (Number.equal_symm h) hn
      rw [display_whole limit nested hn, display_whole limit nested hn']
    · cases a with
      | int n => exact absurd ⟨n, Number.int_equal_int.mpr rfl⟩ hwhole
      | float x =>
        cases b with
        | int n => exact absurd ⟨n, h⟩ hwhole
        | float y =>
          -- the two zeros are the only doubles of one value, and they are whole
          obtain ⟨p, hx, hy⟩ := Number.equal_iff.mp h
          have hzero : p ≠ ((0 : ℚ) : Line) := by
            rintro rfl
            exact hwhole ⟨0, Number.equal_iff.mpr ⟨_, hx, by simp [Number.value?]⟩⟩
          rw [Double.eq_of_value? hx hy hzero]

end Value

/-! ## Equality in a session -/

namespace Session

/-- Values that are met in a session and are equal have one text, or both the
same fault instead of one. -/
theorem Met.display_of_same {forms : Forms} {history : List (Limits × Step)} {a b : Value}
    (ha : Met forms start history a) (hb : Met forms start history b) :
    a.same b = true → ∀ limit nested, a.display limit nested = b.display limit nested := by
  intro h limit nested
  obtain ⟨m, n, rfl, rfl, hequal⟩ | ⟨i, hai, hbi⟩ | rfl := Value.same_cases h
  · exact Value.display_of_equal limit nested hequal
  · rw [ha.eq_of_identity? hb hai hbi]
  · rfl

open Builtin in
/-- In every session, what `==` holds equal is shown alike, inside an array and
outside: both have the same text, or both fault in the same way.  `==` always
answers, is symmetric and transitive, holds of every value and itself except NaN,
and never of values of two kinds. -/
theorem equal_shown_alike (forms : Forms) (history : List (Limits × Step)) :
    (∀ a b, Met forms start history a → Met forms start history b → Answers .equal a b true →
      ∀ limit nested, a.display limit nested = b.display limit nested) ∧
    (∀ a b, ∃ r, Answers .equal a b r) ∧
    (∀ a b, Answers .equal a b true → Answers .equal b a true) ∧
    (∀ a b c, Answers .equal a b true → Answers .equal b c true → Answers .equal a c true) ∧
    (∀ a, Answers .equal a a true ↔ a ≠ .number (.float .nan)) ∧
    ∀ a b, Answers .equal a b true → a.kind = b.kind := by
  simp only [(answers_equal _ _).true_iff]
  refine ⟨?_, fun a b => ⟨_, answers_equal a b⟩, ?_, ?_, ?_, ?_⟩
  · intro a b ha hb
    exact ha.display_of_same hb
  · intro a b
    exact Value.same_symm
  · intro a b c
    exact Value.same_trans
  · intro a
    exact Value.same_self_iff
  · intro a b
    exact Value.kind_eq_of_same

open Builtin in
/-- Zero times minus one half is the negative zero, which equals the integer zero
and is shown like it. -/
theorem equal_shown_alike_zero :
    let product := Step.eval "*(0, -(0, /(1, 2)))"
    let history := [(⟨9, 9⟩, product), (⟨9, 9⟩, .eval "0")]
    let b := Value.number (.int 0)
    ∃ a, (a.debug 1).toOption = some "-0.0" ∧ Met Forms.core start history a ∧
      Met Forms.core start history b ∧ Answers .equal a b true ∧
      ∀ limit nested, a.display limit nested = b.display limit nested := by
  intro product history b
  have hproduct : (product.perform Forms.core ⟨9, 9⟩ start).1.toOption.map
      (fun v => ((v.debug 1).toOption, v.same b)) = some (some "-0.0", true) := by decide +kernel
  have hb : Met Forms.core start history b :=
    ⟨b, .later (.returned (by with_unfolding_all rfl)), .self⟩
  rcases hreturned : (product.perform Forms.core ⟨9, 9⟩ start).1 with f | a
  · rw [hreturned] at hproduct
    cases hproduct
  · rw [hreturned] at hproduct
    obtain ⟨hdebug, hsame⟩ := Prod.mk.inj (Option.some.inj hproduct)
    have ha : Met Forms.core start history a := ⟨a, .returned hreturned, .self⟩
    have hequal : Answers .equal a b true := (answers_equal a b).true_iff.mpr hsame
    exact ⟨a, hdebug, ha, hb, hequal, (equal_shown_alike Forms.core history).1 a b ha hb hequal⟩

end Session

end EggLang
