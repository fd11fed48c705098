/-
# `EggLang.Proofs.Number.Order` — numbers are compared by their values

Every number but NaN has a value on the line of the rationals with two ends:

    an integer                 itself
    a finite double  ± m·2^e   that rational
    an infinity                the end of its side

and two numbers are equal, or one is less than the other, exactly if their
values are.  No rounding comes into it, so that integers and doubles of any size
may be mixed.  In a comparison of exact values both are brought to one exponent;
this is what has to be looked at (`Exact.value_eq_numAt`), everything else is
the order of the line.

A double is determined by its value, the two zeros apart (`Double.eq_of_value?`).
-/
import EggLang.Number.Basic
import Mathlib.Algebra.Order.Field.Power
import Mathlib.Algebra.Order.Field.Rat
import Mathlib.Data.Int.CharZero
import Mathlib.Order.WithBotTop

namespace EggLang

/-! ## Exact values -/

namespace Exact

variable {a b : Exact}

/-- The rational that an exact value is. -/
def value (a : Exact) : ℚ := a.num * 2 ^ a.exp

theorem unit_pos (k : Int) : (0 : ℚ) < 2 ^ k := zpow_pos (by decide) k

theorem value_eq_numAt {k : Int} (hk : k ≤ a.exp) : a.value = a.numAt k * 2 ^ k := by
  have hexp : a.exp = ((a.exp - k).toNat : Int) + k := by omega
  have hunit : ((twoTo (a.exp - k).toNat : Nat) : ℚ) = 2 ^ ((a.exp - k).toNat : Int) := by
    rw [zpow_natCast]
    exact Nat.cast_pow 2 _
  calc a.value
    _ = a.num * 2 ^ (((a.exp - k).toNat : Int) + k) := by rw [← hexp]; rfl
    _ = a.num * (2 ^ ((a.exp - k).toNat : Int) * 2 ^ k) := by rw [zpow_add₀ two_ne_zero]
    _ = a.numAt k * 2 ^ k := by rw [← mul_assoc, ← hunit, numAt, Int.cast_mul, Int.cast_natCast]

theorem eq_iff : a.eq b = true ↔ a.value = b.value := by
  rw [value_eq_numAt (min_le_left a.exp b.exp), value_eq_numAt (min_le_right a.exp b.exp),
    mul_left_inj' (unit_pos _).ne', Int.cast_inj]
  exact beq_iff_eq

theorem lt_iff : a.lt b = true ↔ a.value < b.value := by
  rw [value_eq_numAt (min_le_left a.exp b.exp), value_eq_numAt (min_le_right a.exp b.exp),
    mul_lt_mul_iff_left₀ (unit_pos _), Int.cast_lt]
  exact decide_eq_true_iff

end Exact

/-! ## Points -/

/-- The rationals with an end on either side. -/
abbrev Line := WithBotTop ℚ

namespace Point

/-- Where on the line a point is. -/
def value? : Point → Option Line
  | .nowhere => none
  | .bottom => some ⊥
  | .top => some ⊤
  | .exact a => some (a.value : ℚ)

theorem same_iff {p q : Point} :
    p.same q = true ↔ ∃ x, p.value? = some x ∧ q.value? = some x := by
  have hbot : ∀ x : ℚ, ⊥ ≠ (x : Line) := fun x => (WithBotTop.coe_ne_bot x).symm
  have htop : ∀ x : ℚ, ⊤ ≠ (x : Line) := fun x => (WithBotTop.coe_ne_top x).symm
  cases p <;> cases q <;>
    simp [same, value?, Exact.eq_iff, WithBotTop.coe_injective.eq_iff, @eq_comm ℚ, hbot, htop]

theorem before_iff {p q : Point} :
    p.before q = true ↔ ∃ x y, p.value? = some x ∧ q.value? = some y ∧ x < y := by
  cases p <;> cases q <;>
    simp [before, value?, Exact.lt_iff, bot_lt_iff_ne_bot, lt_top_iff_ne_top]

end Point

/-! ## Numbers -/

namespace Number

/-- The value of a number; NaN has none. -/
def value? : Number → Option Line
  | .int n => some (n : ℚ)
  | .float .nan => none
  | .float (.infinite negative) => some (if negative then ⊥ else ⊤)
  | .float (.finite negative m e _) => some ((if negative then -(m : ℚ) else m) * 2 ^ e : ℚ)

theorem value?_point (a : Number) : a.point.value? = a.value? := by
  cases a with
  | int n => simp [point, Point.value?, value?, Exact.value, Exact.ofInt]
  | float x =>
    cases x with
    | nan => rfl
    | infinite negative => cases negative <;> rfl
    | finite negative m e h =>
      cases negative <;> simp [point, Double.point, Point.value?, value?, Exact.value, Double.exact]

variable {a b : Number} {p q : Line}

theorem value?_eq_none_iff : a.value? = none ↔ a = .float .nan := by
  unfold value?
  split <;> simp

theorem equal_iff : a.equal b = true ↔ ∃ p, a.value? = some p ∧ b.value? = some p := by
  rw [← value?_point, ← value?_point]
  exact Point.same_iff

theorem less_iff :
    a.less b = true ↔ ∃ p q, a.value? = some p ∧ b.value? = some q ∧ p < q := by
  rw [← value?_point, ← value?_point]
  exact Point.before_iff

theorem equal_of_value? (ha : a.value? = some p) (hb : b.value? = some q) :
    a.equal b = decide (p = q) := by
  rw [Bool.eq_iff_iff, equal_iff, decide_eq_true_iff, ha, hb]
  simp [eq_comm]

theorem equal_of_none (h : a.value? = none ∨ b.value? = none) : a.equal b = false := by
  rw [Bool.eq_false_iff, ne_eq, equal_iff]
  rcases h with h | h <;> simp [h]

theorem less_of_none (h : a.value? = none ∨ b.value? = none) : a.less b = false := by
  rw [Bool.eq_false_iff, ne_eq, less_iff]
  rcases h with h | h <;> simp [h]

theorem less_of_value? (ha : a.value? = some p) (hb : b.value? = some q) :
    a.less b = decide (p < q) := by
  rw [Bool.eq_iff_iff, less_iff, decide_eq_true_iff, ha, hb]
  simp

theorem equal_symm (h : a.equal b = true) : b.equal a = true := by
  obtain ⟨p, ha, hb⟩ := equal_iff.mp h
  exact equal_iff.mpr ⟨p, hb, ha⟩

theorem equal_trans {c : Number} (hab : a.equal b = true) (hbc : b.equal c = true) :
    a.equal c = true := by
  obtain ⟨p, ha, hb⟩ := equal_iff.mp hab
  obtain ⟨q, hb', hc⟩ := equal_iff.mp hbc
  cases hb.symm.trans hb'
  exact equal_iff.mpr ⟨p, ha, hc⟩

theorem int_equal_int {m n : Int} : (int m).equal (int n) = true ↔ m = n := by
  rw [equal_iff]
  simp [value?, WithBotTop.coe_injective.eq_iff, eq_comm]

theorem int_less_int (m n : Int) : (int m).less (int n) = decide (m < n) := by
  rw [less_of_value? rfl rfl]
  simp

end Number

/-! ## Doubles by their values -/

namespace IsBinary64

variable {m m' : Nat} {e e' : Int}

/-- The greater value does not have the lesser exponent: at a lesser exponent a
significand of 54 bits would be needed. -/
theorem exponent_le (h : IsBinary64 m e) (h' : IsBinary64 m' e')
    (hvalue : (m' : ℚ) * 2 ^ e' ≤ m * 2 ^ e) : e' ≤ e := by
  by_contra hlt
  have hm : (m : ℚ) < significandBound := Nat.cast_lt.mpr h.1
  have hm' : (significandBound : ℚ) ≤ m' * 2 := by
    have hnormal : leastNormal ≤ m' := by
      rcases h'.2.2.2 with hnormal | he'
      · exact hnormal
      · have he := h.2.1
        omega
    have hdouble : significandBound ≤ m' * 2 := Nat.mul_le_mul_right 2 hnormal
    exact_mod_cast hdouble
  have hstep : (2 : ℚ) ^ (1 + e) ≤ 2 ^ e' := zpow_le_zpow_right₀ (by decide) (by omega)
  have hless : (m : ℚ) * 2 ^ e < m' * 2 ^ e' :=
    calc (m : ℚ) * 2 ^ e
      _ < significandBound * 2 ^ e := mul_lt_mul_of_pos_right hm (Exact.unit_pos e)
      _ ≤ m' * 2 * 2 ^ e := mul_le_mul_of_nonneg_right hm' (Exact.unit_pos e).le
      _ = m' * 2 ^ (1 + e) := by rw [zpow_add₀ two_ne_zero, zpow_one, mul_assoc]
      _ ≤ m' * 2 ^ e' := mul_le_mul_of_nonneg_left hstep (Nat.cast_nonneg m')
  exact absurd hvalue hless.not_ge

theorem unique (h : IsBinary64 m e) (h' : IsBinary64 m' e')
    (hvalue : (m : ℚ) * 2 ^ e = m' * 2 ^ e') : m = m' ∧ e = e' := by
  have he : e = e' := le_antisymm (h'.exponent_le h hvalue.le) (h.exponent_le h' hvalue.ge)
  subst he
  rw [mul_left_inj' (Exact.unit_pos e).ne', Nat.cast_inj] at hvalue
  exact ⟨hvalue, rfl⟩

end IsBinary64

/-- A sign goes with the significand and not with the absolute value. -/
theorem abs_signed (negative : Bool) (m : Nat) (e : Int) :
    |(if negative then -(m : ℚ) else m) * 2 ^ e| = m * 2 ^ e := by
  have hunit : |(2 : ℚ) ^ e| = 2 ^ e := abs_of_pos (Exact.unit_pos e)
  cases negative <;> simp [abs_mul, hunit]

/-- Doubles of one value are equal, unless they are zeros. -/
theorem Double.eq_of_value? {x y : Double} {p : Line} (hx : (Number.float x).value? = some p)
    (hy : (Number.float y).value? = some p) (hp : p ≠ ((0 : ℚ) : Line)) : x = y := by
  have h : (Number.float x).value? = (Number.float y).value? := hx.trans hy.symm
  cases x with
  | nan => cases hx
  | infinite negative =>
    cases y with
    | nan => cases hy
    | infinite negative' => cases negative <;> cases negative' <;> first | rfl | cases h
    | finite negative' m' e' h' => cases negative <;> cases h
  | finite negative m e hme =>
    cases y with
    | nan => cases hy
    | infinite negative' => cases negative' <;> cases h
    | finite negative' m' e' hme' =>
      simp only [Number.value?, Option.some.injEq, WithBotTop.coe_injective.eq_iff] at h
      have habs := congrArg abs h
      rw [abs_signed, abs_signed] at habs
      obtain ⟨rfl, rfl⟩ := hme.unique hme' habs
      -- one significand with two signs is zero
      have hm : m ≠ 0 := by
        rintro rfl
        apply hp
        rw [← Option.some.inj hx]
        simp
      rw [mul_left_inj' (Exact.unit_pos e).ne'] at h
      cases negative <;> cases negative' <;> first | rfl | simp [hm] at h

end EggLang
