/-
# `EggLang.Proofs.Comparison` — `==`, `<` and `>` agree

The three comparisons are builtins of their own, and each looks at its operands
for itself.  On numbers, NaN left aside, and on strings they are nevertheless
the three relations of one order:

    exactly one of  x < y,  x == y,  x > y  is true
    x < y  exactly if  y > x
    x < y  and  y < z   give  x < z,  and either `<` may be an `==`

The reason is the same for both.  There is a rank in a linear order, the value
of a number and the code points of a string, and each builtin answers by the
ranks of its operands (`ordered_of_rank`).  NaN has no rank, and all comparisons
with it are false.
-/
import EggLang.Builtin
import EggLang.Proofs.Number.Order
import Mathlib.Data.List.Lex

namespace EggLang

namespace Builtin

/-! ## Answers -/

/-- For these operands the builtin returns this boolean, and leaves the store. -/
def Answers (b : Builtin) (x y : Value) (r : Bool) : Prop :=
  ∀ limit s, b.apply limit [x, y] s = (.ok (.bool r), s)

/-- What the three comparisons return for two operands. -/
structure Compares (x y : Value) (less equal greater : Bool) : Prop where
  less : Answers .less x y less
  equal : Answers .equal x y equal
  greater : Answers .greater x y greater

theorem Answers.unique {b : Builtin} {x y : Value} {r r' : Bool} :
    b.Answers x y r → b.Answers x y r' → r = r' := by
  intro h h'
  have hsame := (h 0 Store.empty).symm.trans (h' 0 Store.empty)
  simpa using hsame

theorem Answers.true_iff {b : Builtin} {x y : Value} {r : Bool} (h : b.Answers x y r) :
    b.Answers x y true ↔ r = true := by
  constructor
  · intro htrue
    exact h.unique htrue
  · rintro rfl
    exact h

theorem answers_equal (x y : Value) : Answers .equal x y (x.same y) := fun _ _ => rfl

theorem compares_number (a b : Number) :
    Compares (.number a) (.number b) (a.less b) (a.equal b) (b.less a) :=
  ⟨fun _ _ => rfl, fun _ _ => rfl, fun _ _ => rfl⟩

theorem compares_string (s t : String) :
    Compares (.string s) (.string t) (stringLess s t) (s == t) (stringLess t s) :=
  ⟨fun _ _ => rfl, fun _ _ => rfl, fun _ _ => rfl⟩

/-! ## Orders -/

/-- On the given values, the comparisons are the relations of one order. -/
structure Ordered {α : Type} (value : α → Value) : Prop where
  one_of : ∀ a b, Compares (value a) (value b) true false false ∨
    Compares (value a) (value b) false true false ∨ Compares (value a) (value b) false false true
  converse : ∀ a b, Answers .less (value a) (value b) true ↔
    Answers .greater (value b) (value a) true
  trans : ∀ {a b c}, Answers .less (value a) (value b) true →
    Answers .less (value b) (value c) true → Answers .less (value a) (value c) true
  trans_equal : ∀ {a b c}, Answers .less (value a) (value b) true →
    Answers .equal (value b) (value c) true → Answers .less (value a) (value c) true
  equal_trans : ∀ {a b c}, Answers .equal (value a) (value b) true →
    Answers .less (value b) (value c) true → Answers .less (value a) (value c) true

/-- Values that are compared by a rank are ordered. -/
theorem ordered_of_rank {α R : Type} [LinearOrder R] {value : α → Value} (rank : α → R)
    {less equal : α → α → Bool}
    (h : ∀ a b, Compares (value a) (value b) (less a b) (equal a b) (less b a))
    (hless : ∀ {a b}, less a b = true ↔ rank a < rank b)
    (hequal : ∀ {a b}, equal a b = true ↔ rank a = rank b) : Ordered value := by
  have hanswer : ∀ {a b}, Answers .less (value a) (value b) true ↔ rank a < rank b :=
    fun {a b} => (h a b).less.true_iff.trans hless
  have hconverse : ∀ {a b}, Answers .greater (value b) (value a) true ↔ rank a < rank b :=
    fun {a b} => (h b a).greater.true_iff.trans hless
  have hsame : ∀ {a b}, Answers .equal (value a) (value b) true ↔ rank a = rank b :=
    fun {a b} => (h a b).equal.true_iff.trans hequal
  have hnotLess : ∀ {a b}, ¬ rank a < rank b → less a b = false := by
    intro a b hab
    exact Bool.eq_false_iff.mpr fun hl => hab (hless.mp hl)
  have hnotEqual : ∀ {a b}, rank a ≠ rank b → equal a b = false := by
    intro a b hab
    exact Bool.eq_false_iff.mpr fun he => hab (hequal.mp he)
  refine ⟨?_, ?_, ?_, ?_, ?_⟩
  · intro a b
    have hab := h a b
    rcases lt_trichotomy (rank a) (rank b) with hlt | heq | hgt
    · rw [hless.mpr hlt, hnotEqual hlt.ne, hnotLess hlt.not_gt] at hab
      exact Or.inl hab
    · rw [hnotLess heq.not_lt, hequal.mpr heq, hnotLess heq.symm.not_lt] at hab
      exact Or.inr (Or.inl hab)
    · rw [hnotLess hgt.not_gt, hnotEqual hgt.ne', hless.mpr hgt] at hab
      exact Or.inr (Or.inr hab)
  · intro a b
    rw [hanswer, hconverse]
  · intro a b c hab hbc
    exact hanswer.mpr ((hanswer.mp hab).trans (hanswer.mp hbc))
  · intro a b c hab hbc
    exact hanswer.mpr ((hanswer.mp hab).trans_eq (hsame.mp hbc))
  · intro a b c hab hbc
    exact hanswer.mpr ((hsame.mp hab).trans_lt (hanswer.mp hbc))

/-! ## Numbers -/

theorem compares_of_value? {a b : Number} {p q : Line} (ha : a.value? = some p)
    (hb : b.value? = some q) :
    Compares (.number a) (.number b) (decide (p < q)) (decide (p = q)) (decide (q < p)) := by
  rw [← Number.less_of_value? ha hb, ← Number.equal_of_value? ha hb, ← Number.less_of_value? hb ha]
  exact compares_number a b

theorem compares_nan {a b : Number} (h : a = .float .nan ∨ b = .float .nan) :
    Compares (.number a) (.number b) false false false := by
  have hnone : a.value? = none ∨ b.value? = none :=
    h.imp Number.value?_eq_none_iff.mpr Number.value?_eq_none_iff.mpr
  have hcompares := compares_number a b
  rwa [Number.less_of_none hnone, Number.equal_of_none hnone,
    Number.less_of_none hnone.symm] at hcompares

/-- The value of a number that has one. -/
def rankOf (a : {a : Number // a ≠ .float .nan}) : Line :=
  a.1.value?.get (Option.isSome_iff_ne_none.mpr fun h => a.2 (Number.value?_eq_none_iff.mp h))

theorem value?_eq_rankOf (a : {a : Number // a ≠ .float .nan}) : a.1.value? = some (rankOf a) :=
  (Option.some_get _).symm

theorem less_iff_rankOf {a b : {a : Number // a ≠ .float .nan}} :
    a.1.less b.1 = true ↔ rankOf a < rankOf b := by
  rw [Number.less_of_value? (value?_eq_rankOf a) (value?_eq_rankOf b), decide_eq_true_iff]

theorem equal_iff_rankOf {a b : {a : Number // a ≠ .float .nan}} :
    a.1.equal b.1 = true ↔ rankOf a = rankOf b := by
  rw [Number.equal_of_value? (value?_eq_rankOf a) (value?_eq_rankOf b), decide_eq_true_iff]

/-! ## Strings -/

def codePoints (s : String) : List Nat := s.toList.map Char.toNat

theorem codePoints_inj {s t : String} : codePoints s = codePoints t ↔ s = t := by
  have hinj : Function.Injective Char.toNat := fun _ _ => Char.toNat_inj.mp
  rw [codePoints, codePoints, (List.map_injective_iff.mpr hinj).eq_iff, String.toList_inj]

theorem map_toNat_lt_iff {cs ds : List Char} :
    cs.map Char.toNat < ds.map Char.toNat ↔ cs < ds := by
  induction cs generalizing ds with
  | nil => cases ds <;> simp
  | cons c cs ih =>
    cases ds with
    | nil => simp
    | cons d ds =>
      simp only [List.map_cons, List.cons_lt_cons_iff, ih, Char.toNat_inj]
      rfl

theorem stringLess_iff {s t : String} : stringLess s t = true ↔ codePoints s < codePoints t := by
  rw [codePoints, codePoints, map_toNat_lt_iff, ← String.lt_iff]
  exact decide_eq_true_iff

theorem compares_codePoints (s t : String) :
    Compares (.string s) (.string t) (decide (codePoints s < codePoints t))
      (decide (codePoints s = codePoints t)) (decide (codePoints t < codePoints s)) := by
  have hless : ∀ s t, decide (codePoints s < codePoints t) = stringLess s t := by
    intro s t
    rw [Bool.eq_iff_iff, decide_eq_true_iff, stringLess_iff]
  have hequal : decide (codePoints s = codePoints t) = (s == t) := by
    rw [Bool.eq_iff_iff, decide_eq_true_iff, codePoints_inj, beq_iff_eq]
  rw [hless, hless, hequal]
  exact compares_string s t

/-! ## The order of numbers and strings -/

/-- The comparisons are those of an order, on the numbers that are not NaN and on
strings.  Numbers are compared by their values, whether they are integers or
doubles, and strings by their code points; with NaN every comparison is false. -/
theorem comparisons_ordered :
    Ordered (fun a : {a : Number // a ≠ .float .nan} => .number a.1) ∧
    Ordered Value.string ∧
    (∀ a b p q, a.value? = some p → b.value? = some q →
      Compares (.number a) (.number b) (decide (p < q)) (decide (p = q)) (decide (q < p))) ∧
    (∀ a b : Number, a = .float .nan ∨ b = .float .nan →
      Compares (.number a) (.number b) false false false) ∧
    (∀ s t, Compares (.string s) (.string t) (decide (codePoints s < codePoints t))
      (decide (codePoints s = codePoints t)) (decide (codePoints t < codePoints s))) := by
  refine ⟨?_, ?_, ?_, ?_, compares_codePoints⟩
  · exact ordered_of_rank rankOf (fun a b => compares_number a.1 b.1)
      less_iff_rankOf equal_iff_rankOf
  · exact ordered_of_rank codePoints compares_string stringLess_iff
      (beq_iff_eq.trans codePoints_inj.symm)
  · intro a b p q ha hb
    exact compares_of_value? ha hb
  · intro a b h
    exact compares_nan h

/-- Two to the power 53 equals the double of this value, which is less than the
next integer, although that has no double of its own. -/
theorem comparisons_ordered_beyond_doubles :
    let a : Number := .int (twoTo 53)
    let b : Number := .float (Double.ofBits 0x4340000000000000)
    let c : Number := .int (twoTo 53 + 1)
    Answers .equal (.number a) (.number b) true ∧ Answers .less (.number b) (.number c) true ∧
      Answers .less (.number a) (.number c) true := by
  intro a b c
  have ha : a ≠ .float .nan := by decide
  have hb : b ≠ .float .nan := by decide +kernel
  have hc : c ≠ .float .nan := by decide
  have hequal : a.equal b = true := by decide +kernel
  have hless : b.less c = true := by decide +kernel
  have hab := (compares_number a b).equal.true_iff.mpr hequal
  have hbc := (compares_number b c).less.true_iff.mpr hless
  exact ⟨hab, hbc, comparisons_ordered.1.equal_trans (a := ⟨a, ha⟩) (b := ⟨b, hb⟩) (c := ⟨c, hc⟩)
    hab hbc⟩

end Builtin

end EggLang
