/-
# `EggLang.Proofs.Verdict` — how an application of a builtin ends

Whatever a builtin is applied to, it ends in one of four ways, and the
arguments alone decide in which:

    Mistyped     a type fault: too many or too few arguments, or one of the
                 wrong kind
    OutOfRange   a range fault: a divisor that is zero, an integer that is
                 to become a double and has none, a quotient of integers
                 that has none, an index at which there is no element, an
                 integer with too many digits in what is to be printed
    Unshowable   a digits fault: an integer index that is outside and has
                 too many digits for the message that says so
    otherwise    a value

The three predicates are tables, with a rule for each reason, and say nothing of
the order in which a builtin looks for them.  That the order does not matter is
part of the result (`Verdict`): at most one of the three holds, and none of them
if there is a value.

`print` also needs levels of nesting for the text of what it prints.  It is the
only builtin on which the limit has a bearing, and a value that nests deeper may
be a fault of depth instead.
-/
import EggLang.Proofs.Faults
import EggLang.Proofs.Number.Overflow

namespace EggLang

/-! ## Texts of values -/

theorem Expr.numberText_of_writable {n : Int} (h : Writable n) :
    numberText n = .ok (decimalText n) := by
  have htext : decimalText? n = some (decimalText n) := if_pos h
  unfold numberText
  rw [htext]

theorem Expr.numberText_of_not_writable {n : Int} (h : ¬ Writable n) :
    numberText n = .error (.tooLargeToWrite (bitCount n)) := by
  have htext : decimalText? n = none := if_neg h
  unfold numberText
  rw [htext]

namespace Value

mutual

/-- How many levels of nesting the text of a value takes. -/
def nesting : Value → Nat
  | .array _ items => nestings items + 1
  | _ => 1

def nestings : List Value → Nat
  | [] => 0
  | v :: vs => max v.nesting (nestings vs)

end

theorem nesting_array (i : Nat) (items : List Value) :
    (array i items).nesting = nestings items + 1 := by rw [nesting]

theorem nesting_le_nestings {v : Value} {items : List Value} (h : v ∈ items) :
    v.nesting ≤ nestings items := by
  induction items with
  | nil => cases h
  | cons w items ih =>
    rw [nestings]
    rcases List.mem_cons.mp h with rfl | h
    · exact Nat.le_max_left _ _
    · exact Nat.le_trans (ih h) (Nat.le_max_right _ _)

theorem nesting_pos (v : Value) : 0 < v.nesting := by
  cases v <;> simp [nesting]

/-- A value has a text, and then all integers in it can be written, or one of
them is too large, or the levels are not enough. -/
theorem display_cases (limit : Nat) (nested : Bool) (v : Value) :
    (∃ text, v.display limit nested = .ok text ∧ v.Showable) ∨
      (∃ bits, v.display limit nested = .error (.tooLargeToWrite bits) ∧ ¬ v.Showable) ∨
        (v.display limit nested = .error .tooDeep ∧ limit < v.nesting) := by
  induction limit generalizing v nested with
  | zero => exact Or.inr (Or.inr ⟨rfl, nesting_pos v⟩)
  | succ limit ih =>
    cases v with
    | number n =>
      cases n with
      | int n =>
        rw [showable_int, display]
        by_cases hn : Writable n
        · exact Or.inl ⟨_, Expr.numberText_of_writable hn, hn⟩
        · exact Or.inr (Or.inl ⟨_, Expr.numberText_of_not_writable hn, hn⟩)
      | float x =>
        refine Or.inl ⟨_, rfl, fun n hpart => ?_⟩
        cases hpart
    | array i items =>
      rw [display, showable_array]
      obtain ⟨texts, htexts, hall⟩ | ⟨e, he, w, hw, hwe⟩ := mapM_cases (display limit true) items
      · rw [htexts]
        refine Or.inl ⟨_, rfl, fun w hw => ?_⟩
        obtain ⟨text, htext⟩ := hall w hw
        rcases ih true w with ⟨_, _, hshow⟩ | ⟨_, hfault, _⟩ | ⟨hfault, _⟩
        · exact hshow
        · cases htext.symm.trans hfault
        · cases htext.symm.trans hfault
      · rw [he]
        rcases ih true w with ⟨_, htext, _⟩ | ⟨bits, hfault, hnot⟩ | ⟨hfault, hdeep⟩
        · cases hwe.symm.trans htext
        · cases hwe.symm.trans hfault
          exact Or.inr (Or.inl ⟨bits, rfl, fun hall => hnot (hall w hw)⟩)
        · cases hwe.symm.trans hfault
          refine Or.inr (Or.inr ⟨rfl, ?_⟩)
          rw [nesting_array]
          exact Nat.succ_lt_succ (Nat.lt_of_lt_of_le hdeep (nesting_le_nestings hw))
    | _ =>
      refine Or.inl ⟨_, rfl, fun n hpart => ?_⟩
      cases hpart

/-! ## Kinds -/

def Both (k : Kind) (a b : Value) : Prop := a.kind = k ∧ b.kind = k

theorem eq_number {v : Value} (h : v.kind = .number) : ∃ n, v = .number n := by
  cases v with
  | number n => exact ⟨n, rfl⟩
  | _ => cases h

theorem eq_string {v : Value} (h : v.kind = .string) : ∃ s, v = .string s := by
  cases v with
  | string s => exact ⟨s, rfl⟩
  | _ => cases h

theorem eq_array {v : Value} (h : v.kind = .array) : ∃ i items, v = .array i items := by
  cases v with
  | array i items => exact ⟨i, items, rfl⟩
  | _ => cases h

end Value

/-! ## Numbers without a result -/

namespace Number

/-- One of the numbers is a double, and the other an integer that has none. -/
inductive Unmixable : Number → Number → Prop
  | left {n : Int} {x : Double} : Double.overflowFrom ≤ n.natAbs → Unmixable (.int n) (.float x)
  | right {n : Int} {x : Double} : Double.overflowFrom ≤ n.natAbs → Unmixable (.float x) (.int n)

theorem unmixable_left {n : Int} {x : Double} :
    Unmixable (.int n) (.float x) ↔ Double.ofInt? n = none := by
  rw [Double.ofInt?_eq_none_iff]
  constructor
  · intro h
    cases h with
    | left h => exact h
  · exact .left

theorem unmixable_right {n : Int} {x : Double} :
    Unmixable (.float x) (.int n) ↔ Double.ofInt? n = none := by
  rw [Double.ofInt?_eq_none_iff]
  constructor
  · intro h
    cases h with
    | right h => exact h
  · exact .right

theorem viaDouble_eq_none_iff {op : Double → Double → Double} {a b : Number}
    (h : ∀ m n, ¬ (a = .int m ∧ b = .int n)) : viaDouble op a b = none ↔ a.Unmixable b := by
  cases a with
  | int m =>
    cases b with
    | int n => exact absurd ⟨rfl, rfl⟩ (h m n)
    | float y =>
      rw [unmixable_left]
      simp only [viaDouble, toDouble?]
      cases Double.ofInt? m <;> simp
  | float x =>
    cases b with
    | int n =>
      rw [unmixable_right]
      simp only [viaDouble, toDouble?]
      cases Double.ofInt? n <;> simp
    | float y => exact iff_of_false nofun nofun

/-- Two integers have a sum, a difference and a product, and other numbers
unless they cannot be mixed. -/
theorem operation_eq_none_iff {g : Number → Number → Option Number}
    (hg : g = add? ∨ g = sub? ∨ g = mul?) {a b : Number} : g a b = none ↔ a.Unmixable b := by
  cases a with
  | int m =>
    cases b with
    | int n => rcases hg with rfl | rfl | rfl <;> exact iff_of_false nofun nofun
    | float y => rcases hg with rfl | rfl | rfl <;> exact viaDouble_eq_none_iff nofun
  | float x => rcases hg with rfl | rfl | rfl <;> exact viaDouble_eq_none_iff nofun

/-- The numbers are integers of which the second does not divide the first, and
their quotient has no double. -/
inductive Unroundable : Number → Number → Prop
  | quotient {a b : Int} : ¬ b ∣ a → Double.overflowFrom * b.natAbs ≤ a.natAbs →
      Unroundable (.int a) (.int b)

theorem unroundable_int {a b : Int} :
    Unroundable (.int a) (.int b) ↔ ¬ b ∣ a ∧ Double.overflowFrom * b.natAbs ≤ a.natAbs := by
  constructor
  · intro h
    cases h with
    | quotient hndvd hlarge => exact ⟨hndvd, hlarge⟩
  · rintro ⟨hndvd, hlarge⟩
    exact .quotient hndvd hlarge

theorem div?_eq_none_iff {a b : Number} (hb : b.isZero = false) :
    a.div? b = none ↔ a.Unmixable b ∨ a.Unroundable b := by
  unfold div?
  split
  · next m n =>
    have hn : n ≠ 0 := by
      rintro rfl
      exact absurd (isZero_iff.mpr (Or.inl rfl)) (Bool.eq_false_iff.mp hb)
    have hmixable : ¬ Unmixable (.int m) (.int n) := nofun
    rw [or_iff_right hmixable, unroundable_int, Int.dvd_iff_emod_eq_zero]
    split
    · next hmod => exact iff_of_false nofun fun h => h.1 hmod
    · next hmod =>
      rw [ratio?_eq_none_iff hn]
      exact (and_iff_right hmod).symm
  · next h =>
    rw [viaDouble_eq_none_iff fun m n hmn => h m n hmn.1 hmn.2]
    refine (or_iff_left ?_).symm
    rintro ⟨_, _⟩
    exact h _ _ rfl rfl

end Number

namespace Builtin

/-! ## The three tables -/

/-- There is no element at the index. -/
def Outside (items : List Value) (n : Int) : Prop := ¬ (0 ≤ n ∧ n < items.length)

/-- The arguments are too many or too few, or one is of the wrong kind. -/
inductive Mistyped : Builtin → List Value → Prop
  | count {b : Builtin} {n : Nat} {args : List Value} : b.arity? = some n → args.length ≠ n →
      Mistyped b args
  | numbers {b : Builtin} {x y : Value} : b ∈ [.sub, .mul, .div] → ¬ Value.Both .number x y →
      Mistyped b [x, y]
  | numbersOrStrings {b : Builtin} {x y : Value} : b ∈ [.add, .less, .greater] →
      ¬ Value.Both .number x y → ¬ Value.Both .string x y → Mistyped b [x, y]
  | length {x : Value} : x.kind ≠ .array → Mistyped .length [x]
  | element {x y : Value} : x.kind ≠ .array ∨ y.kind ≠ .number → Mistyped .element [x, y]

/-- The arguments are of the right kinds, but there is no value for them. -/
inductive OutOfRange : Builtin → List Value → Prop
  | mixed {b : Builtin} {m n : Number} : b ∈ [.add, .sub, .mul, .div] → m.Unmixable n →
      OutOfRange b [.number m, .number n]
  | zero {m n : Number} : (n = .int 0 ∨ ∃ negative, n = .float (Double.zero negative)) →
      OutOfRange .div [.number m, .number n]
  | quotient {m n : Number} : m.Unroundable n → OutOfRange .div [.number m, .number n]
  | index {i : Nat} {items : List Value} {n : Int} : Outside items n → Writable n →
      OutOfRange .element [.array i items, .number (.int n)]
  | whole {i : Nat} {items : List Value} {x : Double} {n : Int} :
      (Number.float x).equal (.int n) = true → Outside items n →
      OutOfRange .element [.array i items, .number (.float x)]
  | notWhole {i : Nat} {items : List Value} {x : Double} :
      (∀ n, (Number.float x).equal (.int n) = false) →
      OutOfRange .element [.array i items, .number (.float x)]
  | print {output : Nat} {v : Value} : ¬ v.Showable → OutOfRange (.print output) [v]

/-- The index is outside, and has too many digits for a message. -/
inductive Unshowable : Builtin → List Value → Prop
  | index {i : Nat} {items : List Value} {n : Int} : Outside items n → ¬ Writable n →
      Unshowable .element [.array i items, .number (.int n)]

/-- In an array that is not itself too long to be counted, every index with too
many digits is outside. -/
theorem outside_of_length {items : List Value} {n : Int} (hlength : items.length ≤ unwritableFrom)
    (hn : ¬ Writable n) : Outside items n := by
  rintro ⟨hpos, hlt⟩
  have hn' : unwritableFrom ≤ n.natAbs := Nat.not_lt.mp hn
  omega

/-! ## Verdicts -/

/-- The result of a builtin on arguments, with the one reason that there is for
it. -/
inductive Verdict (b : Builtin) (args : List Value) : Except Fault Value → Prop
  | type {f : Fault} : f.family = .type → b.Mistyped args → ¬ b.OutOfRange args →
      ¬ b.Unshowable args → Verdict b args (.error f)
  | range {f : Fault} : f.family = .range → ¬ b.Mistyped args → b.OutOfRange args →
      ¬ b.Unshowable args → Verdict b args (.error f)
  | digits {f : Fault} : f.family = .digits → ¬ b.Mistyped args → ¬ b.OutOfRange args →
      b.Unshowable args → Verdict b args (.error f)
  | value {v : Value} : ¬ b.Mistyped args → ¬ b.OutOfRange args → ¬ b.Unshowable args →
      Verdict b args (.ok v)

section
variable {b : Builtin} {x y v : Value} {m n : Number}

theorem not_unshowable {args : List Value} (hb : b ≠ .element) : ¬ b.Unshowable args := by
  intro h
  cases h
  exact hb rfl

/-- With the right number of arguments it is a kind that is wrong. -/
theorem not_count {args : List Value} (hb : b.arity? = some args.length) {n : Nat}
    (harity : b.arity? = some n) : ¬ args.length ≠ n := by
  intro hne
  exact hne (Option.some.inj (hb.symm.trans harity))

/-! ### Operators -/

theorem arity?_operator (hb : b ∈ [.add, .sub, .mul, .div, .less, .greater]) :
    b.arity? = some 2 := by
  simp only [List.mem_cons, List.not_mem_nil, or_false] at hb
  rcases hb with rfl | rfl | rfl | rfl | rfl | rfl <;> rfl

theorem mistyped_numbersOrStrings_iff (hb : b ∈ [.add, .less, .greater]) :
    b.Mistyped [x, y] ↔ ¬ Value.Both .number x y ∧ ¬ Value.Both .string x y := by
  refine ⟨fun h => ?_, fun h => .numbersOrStrings hb h.1 h.2⟩
  cases h with
  | count harity hcount =>
    refine absurd hcount (not_count (arity?_operator ?_) harity)
    simp only [List.mem_cons] at hb ⊢
    grind
  | numbers hb' _ =>
    simp only [List.mem_cons, List.not_mem_nil, or_false] at hb hb'
    grind
  | numbersOrStrings _ hn hs => exact ⟨hn, hs⟩
  | element _ => simp at hb

/-- A builtin of two operands that is not `element` has a range only on
numbers. -/
theorem both_number_of_outOfRange (hb : b ≠ .element) (h : b.OutOfRange [x, y]) :
    Value.Both .number x y := by
  cases h with
  | index _ _ => exact absurd rfl hb
  | whole _ _ => exact absurd rfl hb
  | notWhole _ => exact absurd rfl hb
  | _ => exact ⟨rfl, rfl⟩

theorem outOfRange_mixed_iff (hb : b ∈ [.add, .sub, .mul]) :
    b.OutOfRange [.number m, .number n] ↔ m.Unmixable n := by
  constructor
  · intro h
    cases h with
    | mixed _ h => exact h
    | zero _ => simp at hb
    | quotient _ => simp at hb
  · intro h
    refine .mixed ?_ h
    simp only [List.mem_cons] at hb ⊢
    grind

theorem outOfRange_div_iff :
    OutOfRange .div [.number m, .number n] ↔
      (n = .int 0 ∨ ∃ negative, n = .float (Double.zero negative)) ∨
        m.Unmixable n ∨ m.Unroundable n := by
  constructor
  · intro h
    cases h with
    | mixed _ h => exact Or.inr (Or.inl h)
    | zero h => exact Or.inl h
    | quotient h => exact Or.inr (Or.inr h)
  · rintro (h | h | h)
    · exact .zero h
    · exact .mixed (by simp) h
    · exact .quotient h

theorem not_outOfRange_order (hb : b ∈ [.less, .greater]) : ¬ b.OutOfRange [x, y] := by
  intro h
  cases h with
  | mixed hb' _ =>
    simp only [List.mem_cons, List.not_mem_nil, or_false] at hb hb'
    grind
  | _ => simp at hb

theorem not_mistyped_numbers (hb : b ∈ [.add, .sub, .mul, .div, .less, .greater]) :
    ¬ b.Mistyped [.number m, .number n] := by
  intro h
  cases h with
  | count harity hcount => exact not_count (arity?_operator hb) harity hcount
  | numbers _ h => exact h ⟨rfl, rfl⟩
  | numbersOrStrings _ h _ => exact h ⟨rfl, rfl⟩
  | element _ => simp at hb

/-- Adding, subtracting and multiplying two numbers. -/
theorem operation_verdict {op : Builtin} {g : Number → Number → Option Number}
    (hb : b ∈ [.add, .sub, .mul]) (hg : g = Number.add? ∨ g = Number.sub? ∨ g = Number.mul?) :
    Verdict b [.number m, .number n] (arithmetic op g (.number m) (.number n)) := by
  have hmistyped : ¬ b.Mistyped [.number m, .number n] := by
    refine not_mistyped_numbers ?_
    simp only [List.mem_cons] at hb ⊢
    grind
  have hunshowable : ¬ b.Unshowable [.number m, .number n] := nofun
  have hrange := outOfRange_mixed_iff (m := m) (n := n) hb
  rw [← Number.operation_eq_none_iff hg] at hrange
  unfold arithmetic
  dsimp only
  cases hresult : g m n with
  | none => exact .range rfl hmistyped (hrange.mpr hresult) hunshowable
  | some r =>
    refine .value hmistyped ?_ hunshowable
    rw [hrange, hresult]
    exact nofun

theorem arithmetic_of_not_numbers {op : Builtin} {g : Number → Number → Option Number}
    (hxy : ¬ Value.Both .number x y) :
    arithmetic op g x y = .error (.notNumbers op.name x.kind y.kind) := by
  unfold arithmetic
  split
  · exact absurd ⟨rfl, rfl⟩ hxy
  · rfl

/-- Subtracting and multiplying any two values. -/
theorem arithmetic_verdict {op : Builtin} {g : Number → Number → Option Number}
    (hb : b ∈ [.sub, .mul]) (hg : g = Number.sub? ∨ g = Number.mul?) (x y : Value) :
    Verdict b [x, y] (arithmetic op g x y) := by
  by_cases hxy : Value.Both .number x y
  · obtain ⟨m, rfl⟩ := Value.eq_number hxy.1
    obtain ⟨n, rfl⟩ := Value.eq_number hxy.2
    refine operation_verdict ?_ (Or.inr hg)
    simp only [List.mem_cons] at hb ⊢
    grind
  · have hb' : b ∈ [sub, mul, div] := by
      simp only [List.mem_cons] at hb ⊢
      grind
    have helement : b ≠ .element := by
      rintro rfl
      simp at hb
    rw [arithmetic_of_not_numbers hxy]
    refine .type rfl (.numbers hb' hxy) ?_ (not_unshowable helement)
    intro h
    exact hxy (both_number_of_outOfRange helement h)

theorem sum_verdict (x y : Value) : Verdict .add [x, y] (sum x y) := by
  have hmistyped := mistyped_numbersOrStrings_iff (b := .add) (x := x) (y := y) (by simp)
  have hunshowable : ¬ Unshowable .add [x, y] := nofun
  have hrange : OutOfRange .add [x, y] → Value.Both .number x y :=
    both_number_of_outOfRange nofun
  by_cases hnumber : Value.Both .number x y
  · obtain ⟨m, rfl⟩ := Value.eq_number hnumber.1
    obtain ⟨n, rfl⟩ := Value.eq_number hnumber.2
    exact operation_verdict (by simp) (Or.inl rfl)
  · by_cases hstring : Value.Both .string x y
    · obtain ⟨s, rfl⟩ := Value.eq_string hstring.1
      obtain ⟨t, rfl⟩ := Value.eq_string hstring.2
      exact .value (fun h => (hmistyped.mp h).2 hstring) (fun h => hnumber (hrange h)) hunshowable
    · have hsum : sum x y = .error (.notNumbers Builtin.add.name x.kind y.kind) := by
        unfold sum
        split
        · exact absurd ⟨rfl, rfl⟩ hstring
        · exact arithmetic_of_not_numbers hnumber
      rw [hsum]
      exact .type rfl (hmistyped.mpr ⟨hnumber, hstring⟩) (fun h => hnumber (hrange h)) hunshowable

theorem quotient_verdict (x y : Value) : Verdict .div [x, y] (quotient x y) := by
  have hunshowable : ¬ Unshowable .div [x, y] := nofun
  by_cases hnumber : Value.Both .number x y
  · obtain ⟨m, rfl⟩ := Value.eq_number hnumber.1
    obtain ⟨n, rfl⟩ := Value.eq_number hnumber.2
    have hmistyped : ¬ Mistyped .div [.number m, .number n] := not_mistyped_numbers (by simp)
    have hrange := outOfRange_div_iff (m := m) (n := n)
    rw [← Number.isZero_iff] at hrange
    unfold quotient
    dsimp only
    cases hzero : n.isZero with
    | true => exact .range rfl hmistyped (hrange.mpr (Or.inl hzero)) hunshowable
    | false =>
      rw [hzero, or_iff_right Bool.false_ne_true, ← Number.div?_eq_none_iff hzero] at hrange
      unfold arithmetic
      dsimp only
      cases hresult : m.div? n with
      | none => exact .range rfl hmistyped (hrange.mpr hresult) hunshowable
      | some r =>
        refine .value hmistyped ?_ hunshowable
        rw [hrange, hresult]
        exact nofun
  · have hquotient : quotient x y = .error (.notNumbers Builtin.div.name x.kind y.kind) := by
      unfold quotient
      split
      · exact absurd ⟨rfl, rfl⟩ hnumber
      · rfl
    rw [hquotient]
    refine .type rfl (.numbers (by simp) hnumber) ?_ hunshowable
    intro h
    exact hnumber (both_number_of_outOfRange (b := .div) nofun h)

theorem ordering_verdict {op : Builtin} (hb : b ∈ [.less, .greater])
    (onNumbers : Number → Number → Bool) (onStrings : String → String → Bool) (x y : Value) :
    Verdict b [x, y] (ordering op onNumbers onStrings x y) := by
  have hrange : ¬ b.OutOfRange [x, y] := not_outOfRange_order hb
  have hunshowable : ¬ b.Unshowable [x, y] := by
    refine not_unshowable ?_
    rintro rfl
    simp at hb
  have hmistyped : b.Mistyped [x, y] ↔ ¬ Value.Both .number x y ∧ ¬ Value.Both .string x y := by
    refine mistyped_numbersOrStrings_iff ?_
    simp only [List.mem_cons] at hb ⊢
    grind
  unfold ordering
  split
  · exact .value (fun h => (hmistyped.mp h).1 ⟨rfl, rfl⟩) hrange hunshowable
  · exact .value (fun h => (hmistyped.mp h).2 ⟨rfl, rfl⟩) hrange hunshowable
  · next hnumber hstring =>
    refine .type rfl (hmistyped.mpr ⟨?_, ?_⟩) hrange hunshowable
    · rintro ⟨hx, hy⟩
      obtain ⟨m, rfl⟩ := Value.eq_number hx
      obtain ⟨n, rfl⟩ := Value.eq_number hy
      exact hnumber m n rfl rfl
    · rintro ⟨hx, hy⟩
      obtain ⟨s, rfl⟩ := Value.eq_string hx
      obtain ⟨t, rfl⟩ := Value.eq_string hy
      exact hstring s t rfl rfl

/-- Any two values can be compared for equality. -/
theorem equal_verdict (x y v : Value) : Verdict .equal [x, y] (.ok v) := by
  refine .value ?_ ?_ nofun
  · intro h
    cases h with
    | count harity hcount => exact not_count rfl harity hcount
    | numbers hb _ => simp at hb
    | numbersOrStrings hb _ _ => simp at hb
  · intro h
    cases h with
    | mixed hb _ => simp at hb

/-! ### Arrays and printing -/

theorem lengthOf_verdict (x : Value) : Verdict .length [x] (lengthOf x) := by
  have hrange : ¬ OutOfRange .length [x] := nofun
  have hunshowable : ¬ Unshowable .length [x] := nofun
  cases x with
  | array i items =>
    refine .value ?_ hrange hunshowable
    intro h
    cases h with
    | count harity hcount => exact not_count rfl harity hcount
    | length h => exact h rfl
  | _ => exact .type rfl (.length nofun) hrange hunshowable

theorem elementAt_inside {items : List Value} {n : Int} (h : ¬ Outside items n) :
    ∃ v, elementAt items n = .ok v := by
  obtain ⟨hpos, hlt⟩ := not_not.mp h
  have hlen : n.toNat < items.length := by omega
  refine ⟨items[n.toNat], ?_⟩
  rw [elementAt, if_pos hpos, List.getElem?_eq_getElem hlen]

theorem not_mistyped_element {i : Nat} {items : List Value} :
    ¬ Mistyped .element [.array i items, .number n] := by
  intro h
  cases h with
  | count harity hcount => exact not_count rfl harity hcount
  | numbers hb _ => simp at hb
  | numbersOrStrings hb _ _ => simp at hb
  | element h => exact h.elim (· rfl) (· rfl)

theorem elementOf_int_verdict (i : Nat) (items : List Value) (n : Int) :
    Verdict .element [.array i items, .number (.int n)]
      (elementOf (.array i items) (.number (.int n))) := by
  show Verdict _ _ (elementAt items n)
  by_cases hout : Outside items n
  · have hout' : n < 0 ∨ (items.length : Int) ≤ n := by
      unfold Outside at hout
      omega
    rw [elementAt_outside hout']
    by_cases hn : Writable n
    · rw [outside_of_writable _ hn]
      refine .range rfl not_mistyped_element (.index hout hn) ?_
      rintro ⟨_, h⟩
      exact h hn
    · rw [outside_of_not_writable _ hn]
      refine .digits rfl not_mistyped_element ?_ (.index hout hn)
      intro h
      cases h with
      | index _ h => exact hn h
  · obtain ⟨v, hv⟩ := elementAt_inside hout
    rw [hv]
    refine .value not_mistyped_element ?_ ?_
    · intro h
      cases h with
      | index h _ => exact hout h
    · rintro ⟨h, _⟩
      exact hout h

theorem elementOf_float_verdict (i : Nat) (items : List Value) (x : Double) :
    Verdict .element [.array i items, .number (.float x)]
      (elementOf (.array i items) (.number (.float x))) := by
  have hunshowable : ¬ Unshowable .element [.array i items, .number (.float x)] := by
    intro h
    cases h
  simp only [elementOf]
  cases hx : x.integer? with
  | none =>
    refine .range rfl not_mistyped_element (.notWhole fun n => ?_) hunshowable
    rw [← Bool.not_eq_true, ← Double.integer?_eq_some_iff, hx]
    intro h
    cases h
  | some n =>
    have hequal := Double.integer?_eq_some_iff.mp hx
    by_cases hout : Outside items n
    · have hout' : n < 0 ∨ (items.length : Int) ≤ n := by
        unfold Outside at hout
        omega
      show Verdict _ _ (elementAt items n)
      rw [elementAt_outside hout', outside_of_writable _ (Double.writable_of_integer? hx)]
      exact .range rfl not_mistyped_element (.whole hequal hout) hunshowable
    · obtain ⟨v, hv⟩ := elementAt_inside hout
      show Verdict _ _ (elementAt items n)
      rw [hv]
      refine .value not_mistyped_element ?_ hunshowable
      intro h
      cases h with
      | whole hequal' hout' =>
        -- a double equals one integer only
        cases hx.symm.trans (Double.integer?_eq_some_iff.mpr hequal')
        exact hout hout'
      | notWhole hnot => exact absurd hequal (Bool.eq_false_iff.mp (hnot n))

theorem elementOf_verdict (x y : Value) : Verdict .element [x, y] (elementOf x y) := by
  by_cases hkinds : x.kind = .array ∧ y.kind = .number
  · obtain ⟨i, items, rfl⟩ := Value.eq_array hkinds.1
    obtain ⟨n, rfl⟩ := Value.eq_number hkinds.2
    cases n with
    | int n => exact elementOf_int_verdict i items n
    | float x => exact elementOf_float_verdict i items x
  · have hmistyped : Mistyped .element [x, y] := by
      refine .element ?_
      by_cases hx : x.kind = .array
      · exact Or.inr fun hy => hkinds ⟨hx, hy⟩
      · exact Or.inl hx
    have hrange : ¬ OutOfRange .element [x, y] := by
      intro h
      cases h with
      | mixed hb _ => simp at hb
      | _ => exact hkinds ⟨rfl, rfl⟩
    have hunshowable : ¬ Unshowable .element [x, y] := by
      intro h
      cases h
      exact hkinds ⟨rfl, rfl⟩
    unfold elementOf
    split
    · exact absurd ⟨rfl, rfl⟩ hkinds
    · exact absurd ⟨rfl, rfl⟩ hkinds
    · exact .type rfl hmistyped hrange hunshowable
    · exact .type rfl hmistyped hrange hunshowable

theorem printValue_verdict (limit output : Nat) (v : Value) (s : Store) :
    Verdict (.print output) [v] (printValue limit output v s).1 ∨
      ((printValue limit output v s).1 = .error .tooDeep ∧ limit < v.nesting) := by
  have hmistyped : ¬ Mistyped (.print output) [v] := by
    intro h
    cases h with
    | count harity hcount => exact not_count rfl harity hcount
  have hunshowable : ¬ Unshowable (.print output) [v] := nofun
  rcases v.display_cases limit false with ⟨text, htext, hshow⟩ | ⟨bits, hfault, hnot⟩ |
    ⟨hfault, hdeep⟩
  · rw [printValue_of_ok htext]
    refine Or.inl (.value hmistyped ?_ hunshowable)
    intro h
    cases h with
    | print hnot => exact hnot hshow
  · rw [printValue_of_error hfault]
    exact Or.inl (.range rfl hmistyped (.print hnot) hunshowable)
  · rw [printValue_of_error hfault]
    exact Or.inr ⟨rfl, hdeep⟩

/-! ### All builtins -/

theorem verdict_wrongCount {args : List Value} {count : Nat} (hb : b.arity? = some count)
    (hcount : args.length ≠ count) {f : Fault} (hf : f.family = .type) :
    Verdict b args (.error f) := by
  refine .type hf (.count hb hcount) ?_ ?_
  · intro h
    cases h with
    | mixed hop _ =>
      refine not_count (arity?_operator ?_) hb hcount
      simp only [List.mem_cons] at hop ⊢
      grind
    | _ => exact not_count rfl hb hcount
  · intro h
    cases h with
    | index _ _ => exact not_count rfl hb hcount

/-- Every builtin has a verdict on all arguments, unless what is to be printed
nests too deeply. -/
theorem apply_verdict (limit : Nat) (b : Builtin) (args : List Value) (s : Store) :
    Verdict b args (b.apply limit args s).1 ∨
      ((b.apply limit args s).1 = .error .tooDeep ∧
        ∃ output v, b = .print output ∧ args = [v] ∧ limit < v.nesting) := by
  rcases arguments_cases b args with rfl | ⟨count, hb, hcount⟩ | ⟨x, rfl, hb⟩ | ⟨x, y, rfl, hb⟩
  · have hmistyped : ¬ Mistyped .array args := by
      intro h
      cases h with
      | count harity _ => cases harity
      | numbers hb _ => simp at hb
      | numbersOrStrings hb _ _ => simp at hb
    refine Or.inl (.value hmistyped ?_ nofun)
    intro h
    cases h with
    | mixed hb _ => simp at hb
  · rw [apply_wrongCount limit b hb hcount]
    exact Or.inl (verdict_wrongCount hb hcount rfl)
  · cases b with
    | length => exact Or.inl (lengthOf_verdict x)
    | print output =>
      refine (printValue_verdict limit output x s).imp_right ?_
      rintro ⟨hfault, hdeep⟩
      exact ⟨hfault, output, x, rfl, rfl, hdeep⟩
    | _ => cases hb
  · refine Or.inl ?_
    cases b with
    | add => exact sum_verdict x y
    | sub => exact arithmetic_verdict (by simp) (Or.inl rfl) x y
    | mul => exact arithmetic_verdict (by simp) (Or.inr rfl) x y
    | div => exact quotient_verdict x y
    | equal => exact equal_verdict x y _
    | less => exact ordering_verdict (by simp) _ _ x y
    | greater => exact ordering_verdict (by simp) _ _ x y
    | element => exact elementOf_verdict x y
    | _ => cases hb

end

/-! ## Outcomes -/

namespace Verdict

variable {b : Builtin} {args : List Value} {r : Except Fault Value}

theorem type_iff (h : Verdict b args r) :
    (∃ f, r = .error f ∧ f.family = .type) ↔ b.Mistyped args := by
  cases h <;> simp [*]

theorem range_iff (h : Verdict b args r) :
    (∃ f, r = .error f ∧ f.family = .range) ↔ ¬ b.Mistyped args ∧ b.OutOfRange args := by
  cases h <;> simp [*]

theorem digits_iff (h : Verdict b args r) :
    (∃ f, r = .error f ∧ f.family = .digits) ↔ b.Unshowable args := by
  cases h <;> simp [*]

theorem value_iff (h : Verdict b args r) :
    (∃ v, r = .ok v) ↔ ¬ b.Mistyped args ∧ ¬ b.OutOfRange args ∧ ¬ b.Unshowable args := by
  cases h <;> simp [*]

end Verdict

theorem unshowable_iff {i : Nat} {items : List Value} {n : Int} :
    Unshowable .element [.array i items, .number (.int n)] ↔ Outside items n ∧ ¬ Writable n := by
  constructor
  · intro h
    cases h with
    | index hout hn => exact ⟨hout, hn⟩
  · rintro ⟨hout, hn⟩
    exact .index hout hn

theorem Verdict.ne_tooDeep {b : Builtin} {args : List Value} {r : Except Fault Value}
    (h : Verdict b args r) : r ≠ .error .tooDeep := by
  rintro rfl
  cases h with
  | type hf _ _ _ => cases hf
  | range hf _ _ _ => cases hf
  | digits hf _ _ _ => cases hf

/-- A builtin that is applied ends with a type fault exactly if its arguments
are mistyped, with a range fault exactly if they are not, but out of range, with
a digits fault exactly if they are an index that cannot be shown, and otherwise
with a value.  Only `print` may also fault on the depth of its argument, if that
exceeds the limit.  In an array that is not too long to be counted, the indices
that cannot be shown are all those with too many digits. -/
theorem application_outcomes (eval : Evaluator) (limit : Nat) (b : Builtin) (args : List Value)
    (s : Store) :
    ∃ r t, Evaluate.application eval limit (.builtin b) args s = (r, t) ∧
      (r = .error .tooDeep →
        ∃ output v, b = .print output ∧ args = [v] ∧ limit < v.nesting) ∧
      (r ≠ .error .tooDeep →
        ((∃ f, r = .error f ∧ f.family = .type) ↔ b.Mistyped args) ∧
        ((∃ f, r = .error f ∧ f.family = .range) ↔ ¬ b.Mistyped args ∧ b.OutOfRange args) ∧
        ((∃ f, r = .error f ∧ f.family = .digits) ↔ b.Unshowable args) ∧
        ((∃ v, r = .ok v) ↔
          ¬ b.Mistyped args ∧ ¬ b.OutOfRange args ∧ ¬ b.Unshowable args)) ∧
      ∀ i items n, b = .element → args = [.array i items, .number (.int n)] →
        items.length ≤ unwritableFrom → (b.Unshowable args ↔ ¬ Writable n) := by
  refine ⟨(b.apply limit args s).1, (b.apply limit args s).2, rfl, ?_, ?_, ?_⟩
  · intro hdeep
    rcases apply_verdict limit b args s with hverdict | ⟨-, hprint⟩
    · exact absurd hdeep hverdict.ne_tooDeep
    · exact hprint
  · intro hshallow
    rcases apply_verdict limit b args s with hverdict | ⟨hdeep, -⟩
    · exact ⟨hverdict.type_iff, hverdict.range_iff, hverdict.digits_iff, hverdict.value_iff⟩
    · exact absurd hdeep hshallow
  · rintro i items n rfl rfl hlength
    rw [unshowable_iff]
    exact and_iff_right_of_imp (outside_of_length hlength)

end Builtin

end EggLang
