/-
# `EggLang.Proofs.Number.Overflow` — where the finite doubles end

Rounding a ratio gives an infinity exactly from `overflowFrom` on.  That is
half a unit beyond the greatest finite double,

    (2^53 - 1) · 2^971  +  2^970   =   (2^54 - 1) · 2^970,

and the half itself goes up, as the greatest significand is odd.

The argument follows `Double.round`.  Its exponent `e` is the one at which the
ratio has 53 bits, unless it is too small for that (`exponentFor_spec`), so the
significand is at most `2^53`, and at least `2^52` unless `e` is the least
exponent (`scaled_bounds`).  The parts are then those of a double unless the
exponent is above 971; and this happens if the ratio is large by itself, or if
its exponent is 971 and rounding brings the significand to `2^53`.

At the other end, the last section says which doubles are integers and which
numbers are zero.
-/
import EggLang.Number.Basic

namespace EggLang

theorem twoTo_add (m n : Nat) : twoTo (m + n) = twoTo m * twoTo n := Nat.pow_add 2 m n

theorem twoTo_pos (n : Nat) : 0 < twoTo n := Nat.two_pow_pos n

namespace Double

/-- The least ratio that is rounded to an infinity. -/
def overflowFrom : Nat := (2 * significandBound - 1) * twoTo 970

section
variable {a b k num den : Nat}

/-! ## Rounding to a natural -/

theorem roundDiv_le (h : a < k * b) : roundDiv a b ≤ k := by
  have hb : 0 < b := Nat.pos_of_ne_zero fun h0 => by simp [h0] at h
  have hq : a / b < k := (Nat.div_lt_iff_lt_mul hb).mpr h
  unfold roundDiv
  dsimp only
  split
  · omega
  · split <;> omega

theorem le_roundDiv (hb : 0 < b) (h : k * b ≤ a) : k ≤ roundDiv a b := by
  have hq : k ≤ a / b := (Nat.le_div_iff_mul_le hb).mpr h
  unfold roundDiv
  dsimp only
  split
  · omega
  · split <;> omega

/-- Below an even natural, what is rounded up to it are the ratios from the half
on. -/
theorem roundDiv_eq_succ_iff (hk : k % 2 = 1) (h : a < (k + 1) * b) :
    roundDiv a b = k + 1 ↔ (2 * k + 1) * b ≤ 2 * a := by
  have hb : 0 < b := Nat.pos_of_ne_zero fun h0 => by simp [h0] at h
  have hq : a / b < k + 1 := (Nat.div_lt_iff_lt_mul hb).mpr h
  have hdiv : b * (a / b) + a % b = a := Nat.div_add_mod a b
  have hmod : a % b < b := Nat.mod_lt a hb
  have hexpand : (2 * k + 1) * b = 2 * (b * k) + b := by
    rw [Nat.add_mul, Nat.one_mul, Nat.mul_assoc, Nat.mul_comm k b]
  rw [hexpand]
  by_cases hqk : a / b = k
  · rw [hqk] at hdiv
    unfold roundDiv
    dsimp only
    rw [hqk]
    split
    · omega
    · split <;> omega
  · -- the quotient is smaller by one at least, and rounding adds one at most
    have hlt : a / b + 1 ≤ k := by omega
    have hmul : b * (a / b) + b ≤ b * k := by
      have hle := Nat.mul_le_mul_left b hlt
      rwa [Nat.mul_add, Nat.mul_one] at hle
    constructor
    · intro hround
      unfold roundDiv at hround
      dsimp only at hround
      split at hround
      · omega
      · split at hround <;> omega
    · intro hge
      omega

/-! ## The exponent of a ratio -/

/-- A ratio is below a power of two, whichever way the power is written as a
quotient of two. -/
theorem ratioBelow_iff {i j : Nat} {n : Int} (hn : n = (i : Int) - j) :
    ratioBelow num den n = true ↔ num * twoTo j < den * twoTo i := by
  have hj : j = (-n).toNat + min i j := by omega
  have hi : i = n.toNat + min i j := by omega
  unfold ratioBelow
  rw [decide_eq_true_eq]
  generalize min i j = c at hi hj
  rw [hi, hj, twoTo_add, twoTo_add, ← Nat.mul_assoc, ← Nat.mul_assoc]
  exact (Nat.mul_lt_mul_right (twoTo_pos c)).symm

theorem ratioBelow_mono {m n : Int} (hmn : m ≤ n) (h : ratioBelow num den m = true) :
    ratioBelow num den n = true := by
  have hm : m = (m.toNat : Int) - (-m).toNat := by omega
  have hn : n = ((m.toNat + (n - m).toNat : Nat) : Int) - (-m).toNat := by omega
  rw [ratioBelow_iff hm] at h
  rw [ratioBelow_iff hn, twoTo_add, ← Nat.mul_assoc]
  exact Nat.lt_of_lt_of_le h (Nat.le_mul_of_pos_right _ (twoTo_pos _))

/-- The exponent is 52 less than that of the greatest power of two in the
ratio, unless this is below the least exponent. -/
theorem exponentFor_spec (hnum : num ≠ 0) (hden : den ≠ 0) :
    ∃ top : Int, exponentFor num den = max (top - 52) (-1074) ∧
      ratioBelow num den top = false ∧ ratioBelow num den (top + 1) = true := by
  have hnumLow : twoTo num.log2 ≤ num := Nat.log2_self_le hnum
  have hnumHigh : num < twoTo (num.log2 + 1) := Nat.lt_log2_self
  have hdenLow : twoTo den.log2 ≤ den := Nat.log2_self_le hden
  have hdenHigh : den < twoTo (den.log2 + 1) := Nat.lt_log2_self
  -- the quotient of the two leading powers is off by one at most
  have hbelow : ratioBelow num den ((num.log2 : Int) - den.log2 + 1) = true := by
    rw [ratioBelow_iff (i := num.log2 + 1) (j := den.log2) (by omega)]
    calc num * twoTo den.log2
      _ < twoTo (num.log2 + 1) * twoTo den.log2 :=
        Nat.mul_lt_mul_of_pos_right hnumHigh (twoTo_pos _)
      _ ≤ twoTo (num.log2 + 1) * den := Nat.mul_le_mul_left _ hdenLow
      _ = den * twoTo (num.log2 + 1) := Nat.mul_comm _ _
  have habove : ratioBelow num den ((num.log2 : Int) - den.log2 - 1) = false := by
    rw [← Bool.not_eq_true, ratioBelow_iff (i := num.log2) (j := den.log2 + 1) (by omega),
      Nat.not_lt]
    calc den * twoTo num.log2
      _ ≤ twoTo (den.log2 + 1) * num := Nat.mul_le_mul (Nat.le_of_lt hdenHigh) hnumLow
      _ = num * twoTo (den.log2 + 1) := Nat.mul_comm _ _
  cases hl : ratioBelow num den ((num.log2 : Int) - den.log2) with
  | true =>
    refine ⟨(num.log2 : Int) - den.log2 - 1, ?_, habove, ?_⟩
    · simp only [exponentFor, hl, if_true]
    · rw [Int.sub_add_cancel]
      exact hl
  | false =>
    refine ⟨(num.log2 : Int) - den.log2, ?_, hl, hbelow⟩
    simp only [exponentFor, hl, Bool.false_eq_true, if_false]

theorem le_exponentFor (num den : Nat) : -1074 ≤ exponentFor num den := by
  unfold exponentFor
  exact Int.le_max_right _ _

/-- Divided by two to its exponent, a ratio has 53 bits at most, and no fewer
unless the exponent is the least one. -/
theorem exponentFor_bounds (hnum : num ≠ 0) (hden : den ≠ 0) :
    ratioBelow num den (exponentFor num den + 53) = true ∧
      (ratioBelow num den (exponentFor num den + 52) = false ∨ exponentFor num den = -1074) := by
  obtain ⟨top, he, hlow, hhigh⟩ := exponentFor_spec hnum hden
  refine ⟨ratioBelow_mono (by omega) hhigh, ?_⟩
  by_cases htop : -1074 ≤ top - 52
  · have hexp : exponentFor num den + 52 = top := by omega
    rw [hexp]
    exact Or.inl hlow
  · exact Or.inr (by omega)

theorem scaled_bounds (hnum : num ≠ 0) (hden : den ≠ 0) :
    scaled num den (exponentFor num den) ≤ significandBound ∧
      (leastNormal ≤ scaled num den (exponentFor num den) ∨ exponentFor num den = -1074) := by
  obtain ⟨hhigh, hlow⟩ := exponentFor_bounds hnum hden
  generalize exponentFor num den = e at hhigh hlow
  have hpos : 0 < den * twoTo e.toNat := Nat.mul_pos (Nat.pos_of_ne_zero hden) (twoTo_pos _)
  rw [ratioBelow_iff (i := e.toNat + 53) (j := (-e).toNat) (by omega), twoTo_add,
    ← Nat.mul_assoc] at hhigh
  rw [← Bool.not_eq_true, ratioBelow_iff (i := e.toNat + 52) (j := (-e).toNat) (by omega),
    twoTo_add, ← Nat.mul_assoc, Nat.not_lt] at hlow
  refine ⟨roundDiv_le ?_, hlow.imp_left fun hlow => le_roundDiv hpos ?_⟩
  · exact Nat.lt_of_lt_of_eq hhigh (Nat.mul_comm _ _)
  · exact Nat.le_trans (Nat.le_of_eq (Nat.mul_comm _ _)) hlow

/-! ## Finite results -/

def IsFinite : Double → Prop
  | .finite .. => True
  | _ => False

theorem isFinite_ofParts {negative : Bool} {m : Nat} {e : Int} :
    (ofParts negative m e).IsFinite ↔ IsBinary64 m e := by
  unfold ofParts
  split
  · next h => exact iff_of_true trivial h
  · next h => exact iff_of_false id h

/-- Rounding gives a finite double up to exponent 971, and at 971 unless it
brings the significand to 54 bits. -/
theorem isFinite_round_iff_exponent {negative : Bool} (hnum : num ≠ 0) (hden : den ≠ 0) :
    (round negative num den).IsFinite ↔
      exponentFor num den ≤ 970 ∨ (exponentFor num den = 971 ∧
        scaled num den (exponentFor num den) ≠ significandBound) := by
  obtain ⟨hbound, hleast⟩ := scaled_bounds hnum hden
  have hexp := le_exponentFor num den
  have hnormal : leastNormal < significandBound := by decide
  simp only [round, if_neg hnum]
  generalize exponentFor num den = e at hbound hleast hexp
  generalize scaled num den e = m at hbound hleast
  split
  · next hm =>
    rw [isFinite_ofParts]
    unfold IsBinary64
    omega
  · next hm =>
    rw [isFinite_ofParts]
    unfold IsBinary64
    omega

/-- A ratio is rounded to a finite double exactly if it is below
`overflowFrom`. -/
theorem isFinite_round_iff {negative : Bool} (hden : den ≠ 0) :
    (round negative num den).IsFinite ↔ num < overflowFrom * den := by
  have hdenPos := Nat.pos_of_ne_zero hden
  by_cases hnum : num = 0
  · subst hnum
    exact iff_of_true trivial (Nat.mul_pos (Nat.mul_pos (by decide) (twoTo_pos 970)) hdenPos)
  rw [isFinite_round_iff_exponent hnum hden]
  obtain ⟨hhigh, hlow⟩ := exponentFor_bounds hnum hden
  unfold overflowFrom scaled
  generalize exponentFor num den = e at hhigh hlow
  rcases Int.lt_trichotomy e 971 with he | rfl | he
  · -- the ratio is below 2^1023
    refine iff_of_true (Or.inl (by omega)) ?_
    have hsmall := ratioBelow_mono (show e + 53 ≤ 1023 by omega) hhigh
    rw [ratioBelow_iff (i := 53 + 970) (j := 0) (by omega), twoTo_add] at hsmall
    calc num
      _ = num * twoTo 0 := (Nat.mul_one num).symm
      _ < den * (twoTo 53 * twoTo 970) := hsmall
      _ = twoTo 53 * twoTo 970 * den := Nat.mul_comm _ _
      _ ≤ (2 * significandBound - 1) * twoTo 970 * den :=
        Nat.mul_le_mul_right _ (Nat.mul_le_mul_right _ (by decide))
  · -- the significand decides, and it does so at the half
    rw [ratioBelow_iff (i := 53 + 971) (j := 0) (by omega), twoTo_add] at hhigh
    have hup : roundDiv (num * twoTo 0) (den * twoTo 971) = significandBound ↔
        (2 * significandBound - 1) * (den * twoTo 971) ≤ 2 * (num * twoTo 0) := by
      refine roundDiv_eq_succ_iff (k := significandBound - 1) (by decide)
        (Nat.lt_of_lt_of_eq hhigh ?_)
      exact Nat.mul_left_comm _ _ _
    have hhalf : (2 * significandBound - 1) * (den * twoTo 971) =
        2 * ((2 * significandBound - 1) * twoTo 970 * den) := by
      rw [twoTo_succ, Nat.mul_comm den, Nat.mul_assoc 2, Nat.mul_left_comm _ 2,
        ← Nat.mul_assoc _ _ den]
    have hnum1 : num * twoTo 0 = num := Nat.mul_one num
    rw [hhalf, hnum1] at hup
    show (_ ∨ _ ∧ roundDiv (num * twoTo 0) (den * twoTo 971) ≠ _) ↔ _
    rw [hnum1]
    omega
  · -- the ratio is 2^1024 or more
    refine iff_of_false (by omega) (Nat.not_lt.mpr ?_)
    have hlarge : ratioBelow num den 1024 = false := by
      rcases hlow with hlow | hlow
      · rw [← Bool.not_eq_true] at hlow ⊢
        exact fun h => hlow (ratioBelow_mono (by omega) h)
      · omega
    rw [← Bool.not_eq_true, ratioBelow_iff (i := 54 + 970) (j := 0) (by omega), twoTo_add,
      Nat.not_lt] at hlarge
    calc (2 * significandBound - 1) * twoTo 970 * den
      _ ≤ twoTo 54 * twoTo 970 * den := Nat.mul_le_mul_right _ (Nat.mul_le_mul_right _ (by decide))
      _ = den * (twoTo 54 * twoTo 970) := Nat.mul_comm _ _
      _ ≤ num * twoTo 0 := hlarge
      _ = num := Nat.mul_one num

end

/-! ## Integers and quotients without a double -/

/-- An integer has a double exactly if it is below `overflowFrom`. -/
theorem ofInt?_eq_none_iff {n : Int} : ofInt? n = none ↔ overflowFrom ≤ n.natAbs := by
  have hfinite : (round (n < 0) n.natAbs 1).IsFinite ↔ n.natAbs < overflowFrom * 1 :=
    isFinite_round_iff Nat.one_ne_zero
  rw [Nat.mul_one] at hfinite
  unfold ofInt?
  cases hround : round (n < 0) n.natAbs 1 with
  | finite s m e h =>
    rw [hround] at hfinite
    exact iff_of_false nofun (Nat.not_le.mpr (hfinite.mp trivial))
  | _ =>
    rw [hround] at hfinite
    exact iff_of_true rfl (Nat.not_lt.mp hfinite.mpr)

end Double

/-- A quotient of two integers has a double exactly if it is below
`overflowFrom`. -/
theorem Number.ratio?_eq_none_iff {a b : Int} (hb : b ≠ 0) :
    ratio? a b = none ↔ Double.overflowFrom * b.natAbs ≤ a.natAbs := by
  have hfinite : ∀ negative, (Double.round negative a.natAbs b.natAbs).IsFinite ↔
      a.natAbs < Double.overflowFrom * b.natAbs :=
    fun negative => Double.isFinite_round_iff (Int.natAbs_ne_zero.mpr hb)
  unfold ratio?
  generalize (decide (a < 0) ^^ decide (b < 0)) = negative
  specialize hfinite negative
  cases hround : Double.round negative a.natAbs b.natAbs with
  | finite s m e h =>
    rw [hround] at hfinite
    exact iff_of_false nofun (Nat.not_le.mpr (hfinite.mp trivial))
  | _ =>
    rw [hround] at hfinite
    exact iff_of_true rfl (Nat.not_lt.mp hfinite.mpr)

/-! ## Whole numbers and zeros -/

namespace Double

/-- The exact value of a finite double, compared with an integer. -/
theorem finite_equal_int {negative : Bool} {m : Nat} {e : Int} {h : IsBinary64 m e} {n : Int} :
    (Number.float (.finite negative m e h)).equal (.int n) = true ↔
      (if negative then -(m : Int) else m) * (twoTo e.toNat : Nat) =
        n * (twoTo (-e).toNat : Nat) := by
  have hleft : e - min e 0 = e.toNat := by omega
  have hright : 0 - min e 0 = (-e).toNat := by omega
  show (Exact.eq _ _ = true) ↔ _
  simp only [Exact.eq, Exact.base, Exact.numAt, Double.exact, Exact.ofInt, beq_iff_eq, hleft,
    hright, Int.toNat_natCast]

/-- Whether a multiple of one power of two is a multiple of another, if one of
the two is 1. -/
theorem whole_iff {m p u : Nat} (hu : 0 < u) (hpu : p = 1 ∨ u = 1) (n : Int) :
    (m % u = 0 ∧ ((m / u * p : Nat) : Int) = n) ↔ (m : Int) * p = n * u := by
  have huInt : (u : Int) ≠ 0 := by omega
  constructor
  · rintro ⟨hmod, rfl⟩
    have hm : m / u * u = m := Nat.div_mul_cancel (Nat.dvd_of_mod_eq_zero hmod)
    have heq : m * p = m / u * p * u := by
      rw [Nat.mul_right_comm, hm]
    exact_mod_cast heq
  · intro h
    have hmod : m % u = 0 := by
      rcases hpu with rfl | rfl
      · have hdvd : (u : Int) ∣ m := ⟨n, by rw [Int.mul_comm, ← h, Int.natCast_one, Int.mul_one]⟩
        exact Nat.mod_eq_zero_of_dvd (Int.natCast_dvd_natCast.mp hdvd)
      · exact Nat.mod_one m
    have hm : m / u * u = m := Nat.div_mul_cancel (Nat.dvd_of_mod_eq_zero hmod)
    refine ⟨hmod, Int.eq_of_mul_eq_mul_right huInt ?_⟩
    rw [← h, ← Int.natCast_mul, ← Int.natCast_mul, Nat.mul_right_comm, hm]

/-- A double is the integer that it equals. -/
theorem integer?_eq_some_iff {x : Double} {n : Int} :
    x.integer? = some n ↔ (Number.float x).equal (.int n) = true := by
  cases x with
  | nan => exact iff_of_false nofun nofun
  | infinite negative => cases negative <;> exact iff_of_false nofun nofun
  | finite negative m e h =>
    have hpu : twoTo e.toNat = 1 ∨ twoTo (-e).toNat = 1 := by
      rcases Int.le_total 0 e with he | he
      · rw [show (-e).toNat = 0 by omega]
        exact Or.inr rfl
      · rw [show e.toNat = 0 by omega]
        exact Or.inl rfl
    rw [finite_equal_int]
    simp only [integer?, Option.ite_none_right_eq_some, Option.some.injEq]
    cases negative with
    | false => exact whole_iff (twoTo_pos _) hpu n
    | true =>
      have hneg := whole_iff (m := m) (twoTo_pos (-e).toNat) hpu (-n)
      generalize m / twoTo (-e).toNat * twoTo e.toNat = q at hneg ⊢
      have hvalue : -(q : Int) = n ↔ (q : Int) = -n := by omega
      have hproduct : -(m : Int) * (twoTo e.toNat : Nat) = n * (twoTo (-e).toNat : Nat) ↔
          (m : Int) * (twoTo e.toNat : Nat) = -n * (twoTo (-e).toNat : Nat) := by
        rw [Int.neg_mul, Int.neg_mul]
        omega
      simp only [if_true]
      rw [hvalue, hproduct, hneg]

end Double

/-- A number is zero if it is the integer or one of the two doubles. -/
theorem Number.isZero_iff {n : Number} :
    n.isZero = true ↔ n = .int 0 ∨ ∃ negative, n = .float (Double.zero negative) := by
  unfold isZero
  cases n with
  | int k =>
    have hequal : (Number.int k).equal (.int 0) = true ↔ k = 0 := by
      show (Exact.eq _ _ = true) ↔ _
      simp [Exact.eq, Exact.base, Exact.numAt, Exact.ofInt, twoTo]
    rw [hequal]
    simp
  | float x =>
    simp only [reduceCtorEq, Number.float.injEq, false_or]
    cases x with
    | nan => exact iff_of_false nofun nofun
    | infinite s => cases s <;> exact iff_of_false nofun nofun
    | finite s m e h =>
      rw [Double.finite_equal_int]
      have hpow : ((twoTo e.toNat : Nat) : Int) ≠ 0 := by
        have hpos := twoTo_pos e.toNat
        omega
      have hzero : (if s then -(m : Int) else m) * (twoTo e.toNat : Nat) =
          0 * (twoTo (-e).toNat : Nat) ↔ m = 0 := by
        rw [Int.zero_mul, Int.mul_eq_zero]
        split <;> omega
      rw [hzero]
      constructor
      · rintro rfl
        have he : e = -1074 := by
          have hparts := h.2.2.2
          rcases hparts with hnormal | he
          · exact absurd hnormal (by decide)
          · exact he
        subst he
        exact ⟨s, rfl⟩
      · rintro ⟨s', hs⟩
        cases hs
        rfl

end EggLang
