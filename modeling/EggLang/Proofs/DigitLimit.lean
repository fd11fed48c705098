/-
# `EggLang.Proofs.DigitLimit` — one limit for the digits of an integer

An integer is written in three places: in the display of a value, in its debug
text, and in the source of a tree.  It is read in a fourth.  Each of them refuses
more than 4300 digits, and they do so each in a way of their own: a display and a
source are a range fault that tells the number of bits, a debug text is a digits
fault, and a literal is a source that cannot be read.

The integers in a value or a tree have an order, from left to right, and a text
is put together in that order.  So all three writers stop at the first integer
that is too long, and if there is none they have a text (`Told`).  This is shown
for a row of computations once, and each writer is a row of computations.

The longest integer that can be written is the longest that can be read, so the
text of a natural number, if it has one, reads back as that number.
-/
import EggLang.Proofs.Source.RoundTrip
import EggLang.Proofs.Verdict
import Mathlib.Data.Nat.Size

namespace EggLang

/-! ## Integers that are too long -/

/-- The integer has more than 4300 digits. -/
def TooLong (n : Int) : Prop := tenTo 4300 ≤ n.natAbs

instance (n : Int) : Decidable (TooLong n) := inferInstanceAs (Decidable (_ ≤ _))

theorem writable_iff {n : Int} : Writable n ↔ ¬ TooLong n := Nat.not_le.symm

/-- The first of the integers that is too long. -/
def firstTooLong? (ns : List Int) : Option Int := ns.find? fun n => TooLong n

theorem exists_firstTooLong?_iff {ns : List Int} :
    (∃ n, firstTooLong? ns = some n) ↔ ∃ n ∈ ns, TooLong n := by
  rw [← Option.isSome_iff_exists, firstTooLong?, List.find?_isSome]
  simp

/-- The bits of an absolute value are counted from its first one. -/
theorem bitCount_eq_size (n : Int) : bitCount n = n.natAbs.size := by
  unfold bitCount
  split
  · next h =>
    rw [h]
    rfl
  · next h =>
    have hne : n.natAbs ≠ 0 := Int.natAbs_ne_zero.mpr h
    refine Nat.le_antisymm ?_ ?_
    · exact Nat.lt_size.mpr (Nat.log2_self_le hne)
    · exact Nat.size_le.mpr Nat.lt_log2_self

/-! ## Rows of computations -/

/-- A computation that goes through integers from the left: it stops at the first
that is too long, with a fault for it, and returns if there is none. -/
structure Told {α : Type} (report : Int → Fault) (ns : List Int) (r : Except Fault α) : Prop where
  stops : ∀ {n}, firstTooLong? ns = some n → r = .error (report n)
  returns : firstTooLong? ns = none → ∃ a, r = .ok a

namespace Told

variable {α β γ : Type} {report : Int → Fault} {ns ms : List Int} {r : Except Fault α}

theorem ok (a : α) : Told report [] (.ok a) := ⟨nofun, fun _ => ⟨a, rfl⟩⟩

theorem of_some {n : Int} : firstTooLong? ns = some n →
    Told report ns (.error (report n) : Except Fault α) := by
  intro hn
  refine ⟨?_, fun hnone => nomatch hn.symm.trans hnone⟩
  intro m hm
  cases hn.symm.trans hm
  rfl

/-- A single integer. -/
theorem single {n : Int} (hok : Writable n → ∃ a, r = .ok a)
    (herror : ¬ Writable n → r = .error (report n)) : Told report [n] r := by
  have hfirst : firstTooLong? [n] = if TooLong n then some n else none := by simp [firstTooLong?]
  by_cases hn : TooLong n
  · rw [herror fun hw => writable_iff.mp hw hn]
    exact of_some (hfirst.trans (if_pos hn))
  · obtain ⟨a, rfl⟩ := hok (writable_iff.mpr hn)
    refine ⟨?_, fun _ => ⟨a, rfl⟩⟩
    intro m hm
    cases (hfirst.trans (if_neg hn)).symm.trans hm

/-- One computation after another goes through the integers of both. -/
theorem bind {k : α → Except Fault β} (hr : Told report ns r) (hk : ∀ a, Told report ms (k a)) :
    Told report (ns ++ ms) (r >>= k) := by
  have hfirst : firstTooLong? (ns ++ ms) = (firstTooLong? ns).or (firstTooLong? ms) :=
    List.find?_append
  cases hns : firstTooLong? ns with
  | some n =>
    rw [hns, Option.some_or] at hfirst
    rw [hr.stops hns]
    exact of_some hfirst
  | none =>
    rw [hns, Option.none_or] at hfirst
    obtain ⟨a, rfl⟩ := hr.returns hns
    exact ⟨fun hm => (hk a).stops (hfirst.symm.trans hm),
      fun hnone => (hk a).returns (hfirst.symm.trans hnone)⟩

theorem map (g : α → β) (hr : Told report ns r) : Told report ns (r >>= fun a => .ok (g a)) := by
  have hmap := hr.bind fun a => ok (g a)
  rw [List.append_nil] at hmap
  exact hmap

theorem mapM {f : γ → Except Fault α} {integers : γ → List Int} {xs : List γ}
    (h : ∀ x ∈ xs, Told report (integers x) (f x)) :
    Told report (xs.flatMap integers) (xs.mapM f) := by
  induction xs with
  | nil => exact ok []
  | cons x xs ih =>
    rw [List.flatMap_cons, List.mapM_cons]
    refine bind (h x List.mem_cons_self) ?_
    intro y
    exact map (y :: ·) (ih fun z hz => h z (List.mem_cons_of_mem x hz))

theorem error_iff {f : Fault} (h : Told report ns r) :
    r = .error f ↔ ∃ n, firstTooLong? ns = some n ∧ f = report n := by
  constructor
  · rintro rfl
    cases hns : firstTooLong? ns with
    | some n => exact ⟨n, rfl, Except.error.inj (h.stops hns)⟩
    | none => exact nomatch h.returns hns
  · rintro ⟨n, hn, rfl⟩
    exact h.stops hn

/-- What there is to stop at is one of the integers. -/
theorem exists_error_iff {P : Fault → Prop} (h : Told report ns r) (hP : ∀ n, P (report n)) :
    (∃ f, r = .error f ∧ P f) ↔ ∃ n ∈ ns, TooLong n := by
  rw [← exists_firstTooLong?_iff]
  constructor
  · rintro ⟨f, hf, -⟩
    obtain ⟨n, hn, -⟩ := h.error_iff.mp hf
    exact ⟨n, hn⟩
  · rintro ⟨n, hn⟩
    exact ⟨report n, h.stops hn, hP n⟩

end Told

/-- The fault of a display or a source in which the integer is too long. -/
def tooLarge (n : Int) : Fault := .tooLargeToWrite (bitCount n)

theorem Expr.told_numberText (n : Int) : Told tooLarge [n] (numberText n) :=
  .single (fun hn => ⟨_, numberText_of_writable hn⟩) numberText_of_not_writable

/-! ## Values -/

namespace Value

mutual

/-- The integers in a value, from left to right. -/
def integers : Value → List Int
  | .number (.int n) => [n]
  | .array _ items => integersIn items
  | _ => []

def integersIn : List Value → List Int
  | [] => []
  | v :: vs => v.integers ++ integersIn vs

end

theorem integers_array (i : Nat) (items : List Value) :
    (array i items).integers = items.flatMap integers := by
  rw [integers]
  induction items with
  | nil => rfl
  | cons v vs ih => rw [integersIn, List.flatMap_cons, ih]

mutual

theorem part_of_mem_integers {n : Int} : ∀ v : Value, n ∈ v.integers → Part (.number (.int n)) v
  | .number (.int m), h => by
      cases List.mem_singleton.mp h
      exact .self
  | .array i items, h => by
      obtain ⟨v, hv, hpart⟩ := part_of_mem_integersIn items h
      exact .item hv hpart
  | .number (.float _), h => nomatch h
  | .bool _, h => nomatch h
  | .string _, h => nomatch h
  | .closure .., h => nomatch h
  | .builtin _, h => nomatch h
  | .void, h => nomatch h

theorem part_of_mem_integersIn {n : Int} : ∀ vs : List Value, n ∈ integersIn vs →
    ∃ v ∈ vs, Part (.number (.int n)) v
  | [], h => nomatch h
  | v :: vs, h => by
      rcases List.mem_append.mp h with h | h
      · exact ⟨v, List.mem_cons_self, part_of_mem_integers v h⟩
      · obtain ⟨w, hw, hpart⟩ := part_of_mem_integersIn vs h
        exact ⟨w, List.mem_cons_of_mem v hw, hpart⟩

end

theorem mem_integers {v : Value} {n : Int} : n ∈ v.integers ↔ Part (.number (.int n)) v := by
  refine ⟨part_of_mem_integers v, ?_⟩
  intro h
  induction h with
  | self => exact List.mem_singleton.mpr rfl
  | item hv _ ih =>
    rw [integers_array]
    exact List.mem_flatMap.mpr ⟨_, hv, ih⟩

/-- The value is neither an integer nor an array. -/
inductive Leaf : Value → Prop
  | float (x : Double) : Leaf (.number (.float x))
  | bool (b : Bool) : Leaf (.bool b)
  | string (s : String) : Leaf (.string s)
  | closure (i : Nat) (params : List String) (body : Expr) (e : FrameId) :
      Leaf (.closure i params body e)
  | builtin (b : Builtin) : Leaf (.builtin b)
  | void : Leaf .void

/-- A way to put values into words.  An integer may be a fault, an array is put
together from its items, and all else has a text. -/
structure Wording (report : Int → Fault) (text : Nat → Bool → Value → Except Fault String) :
    Prop where
  int : ∀ limit nested n, Told report [n] (text (limit + 1) nested (.number (.int n)))
  array : ∀ limit nested i items, text (limit + 1) nested (.array i items) =
    items.mapM (text limit true) >>= fun texts => .ok (bracketed texts)
  leaf : ∀ limit nested v, Leaf v → ∃ s, text (limit + 1) nested v = .ok s

theorem Wording.told {report : Int → Fault} {text : Nat → Bool → Value → Except Fault String}
    (h : Wording report text) {limit : Nat} {v : Value} (nested : Bool) :
    v.nesting ≤ limit → Told report v.integers (text limit nested v) := by
  intro hv
  induction limit generalizing v nested with
  | zero => exact absurd hv (Nat.not_le.mpr v.nesting_pos)
  | succ limit ih =>
    have hleaf : Leaf v → Told report v.integers (text (limit + 1) nested v) := by
      intro hv
      obtain ⟨s, hs⟩ := h.leaf limit nested v hv
      rw [hs]
      cases hv <;> exact .ok s
    cases v with
    | number n =>
      cases n with
      | int n => exact h.int limit nested n
      | float x => exact hleaf (.float x)
    | array i items =>
      rw [nesting_array] at hv
      rw [h.array, integers_array]
      have hitems : ∀ w ∈ items, Told report w.integers (text limit true w) := by
        intro w hw
        exact ih true (Nat.le_trans (nesting_le_nestings hw) (Nat.le_of_succ_le_succ hv))
      exact (Told.mapM hitems).map bracketed
    | _ => exact hleaf (by constructor)

theorem wording_display : Wording tooLarge display where
  int _ _ n := Expr.told_numberText n
  array _ _ _ _ := rfl
  leaf _ _ _ h := by cases h <;> exact ⟨_, rfl⟩

theorem wording_debug : Wording (fun _ => .tooManyDigits) (fun limit _ => debug limit) where
  int _ _ _ := .single (fun hn => ⟨_, integerDebug_of_writable hn⟩) integerDebug_of_not_writable
  array _ _ _ _ := rfl
  leaf _ _ _ h := by cases h <;> exact ⟨_, rfl⟩

end Value

/-! ## Trees -/

namespace Expr

mutual

/-- The integers in a tree, from left to right. -/
def literals : Expr → List Int
  | .number n => [n]
  | .apply operator args => operator.literals ++ literalsIn args
  | _ => []

def literalsIn : List Expr → List Int
  | [] => []
  | a :: as => a.literals ++ literalsIn as

end

theorem literals_apply (operator : Expr) (args : List Expr) :
    (apply operator args).literals = operator.literals ++ args.flatMap literals := by
  rw [literals]
  congr 1
  induction args with
  | nil => rfl
  | cons a as ih => rw [literalsIn, List.flatMap_cons, ih]

mutual

theorem subtree_of_mem_literals {n : Int} : ∀ t : Expr, n ∈ t.literals → Subtree (.number n) t
  | .number m, h => by
      cases List.mem_singleton.mp h
      exact .self
  | .apply operator args, h => by
      rcases List.mem_append.mp h with h | h
      · exact .operator (subtree_of_mem_literals operator h)
      · obtain ⟨a, ha, hsub⟩ := subtree_of_mem_literalsIn args h
        exact .argument ha hsub
  | .text _, h => nomatch h
  | .word _, h => nomatch h
  | .hole, h => nomatch h

theorem subtree_of_mem_literalsIn {n : Int} : ∀ ts : List Expr, n ∈ literalsIn ts →
    ∃ t ∈ ts, Subtree (.number n) t
  | [], h => nomatch h
  | t :: ts, h => by
      rcases List.mem_append.mp h with h | h
      · exact ⟨t, List.mem_cons_self, subtree_of_mem_literals t h⟩
      · obtain ⟨u, hu, hsub⟩ := subtree_of_mem_literalsIn ts h
        exact ⟨u, List.mem_cons_of_mem t hu, hsub⟩

end

theorem mem_literals {t : Expr} {n : Int} : n ∈ t.literals ↔ Subtree (.number n) t := by
  refine ⟨subtree_of_mem_literals t, ?_⟩
  intro h
  induction h with
  | self => exact List.mem_singleton.mpr rfl
  | operator _ ih =>
    rw [literals_apply]
    exact List.mem_append_left _ ih
  | argument ha _ ih =>
    rw [literals_apply]
    exact List.mem_append_right _ (List.mem_flatMap.mpr ⟨_, ha, ih⟩)

/-- Writing a tree without holes goes through its integers. -/
theorem told_write {limit : Nat} {t : Expr} :
    ¬ Subtree .hole t → t.height ≤ limit → Told tooLarge t.literals (t.write limit) := by
  intro hhole ht
  induction limit generalizing t with
  | zero =>
    obtain ⟨k, hk⟩ := exists_succ_of_height_le ht
    cases hk
  | succ limit ih =>
    cases t with
    | number n => exact told_numberText n
    | text s => exact .ok _
    | word name => exact .ok _
    | hole => exact absurd .self hhole
    | apply operator args =>
      rw [height_apply] at ht
      rw [write, literals_apply]
      have hoperator : Told tooLarge operator.literals (operator.write limit) :=
        ih (fun h => hhole (.operator h)) (by omega)
      have hargs : ∀ a ∈ args, Told tooLarge a.literals (a.write limit) := by
        intro a ha
        have hle := height_le_heights ha
        exact ih (fun h => hhole (.argument ha h)) (by omega)
      refine hoperator.bind fun head => ?_
      exact (Told.mapM hargs).map fun items => head ++ "(" ++ ", ".intercalate items ++ ")"

theorem numberText_ok_iff {n : Int} : (∃ s, numberText n = .ok s) ↔ ¬ TooLong n := by
  rw [← writable_iff]
  constructor
  · rintro ⟨s, hs⟩
    by_contra hn
    cases hs.symm.trans (numberText_of_not_writable hn)
  · intro hn
    exact ⟨_, numberText_of_writable hn⟩

/-- A text that renders a tree is a source of it. -/
theorem read_of_renders {limit : Nat} {s : String} {t : Expr} (h : Grammar.Renders s.toList t)
    (ht : t.nesting ≤ limit) : read limit s = .ok t := by
  refine read_eq_ok_iff.mpr ⟨⟨[], s.toList, [], by simp, .nil, h, .ended .nil, ?_⟩, ht⟩
  exact (gap_nil t).clear

/-- A natural number that can be written is read back. -/
theorem read_of_numberText {limit n : Nat} {s : String} (h : numberText n = .ok s)
    (hlimit : 0 < limit) : read limit s = .ok (.number n) := by
  have hn : (n : Int) < tenTo 4300 :=
    Int.ofNat_lt.mpr (Nat.not_le.mp (numberText_ok_iff.mp ⟨s, h⟩))
  have h0 : (0 : Int) ≤ n := Int.natCast_nonneg n
  cases h.symm.trans (numberText_eq_ok h0 hn)
  exact read_of_renders (renders_repr h0 hn) hlimit

end Expr

/-! ## The limit -/

/-- A text that is a range fault instead. -/
def IsRangeFault (r : Except Fault String) : Prop := ∃ f, r = .error f ∧ f.family = .range

/-- Of a value that does not nest too deeply, the display is a range fault and the
debug text a digits fault exactly if there is an integer of more than 4300 digits
in it, and the message of the former gives the bits of the first one.  The same
integers make the source of a tree a range fault.  A natural number has a display
and a source exactly if it is below the limit; the two are then equal, and a
source of the number. -/
theorem one_digit_limit :
    (∀ (v : Value) limit nested, v.nesting ≤ limit →
      (IsRangeFault (v.display limit nested) ↔
        ∃ n, Value.Part (.number (.int n)) v ∧ TooLong n) ∧
      (v.debug limit = .error .tooManyDigits ↔
        ∃ n, Value.Part (.number (.int n)) v ∧ TooLong n) ∧
      ∀ f, v.display limit nested = .error f → ∃ n, firstTooLong? v.integers = some n ∧
        f.message = "Number too large to write (" ++ n.natAbs.size.repr ++ " bits)") ∧
    (∀ (t : Expr) limit, ¬ Expr.Subtree .hole t → t.height ≤ limit →
      (IsRangeFault (t.write limit) ↔ ∃ n, Expr.Subtree (.number n) t ∧ TooLong n)) ∧
    ∀ (n limit : Nat) nested, 0 < limit →
      ((∃ s, (Value.number (.int n)).display limit nested = .ok s) ↔ n < tenTo 4300) ∧
      ((∃ s, (Expr.number n).write limit = .ok s) ↔ n < tenTo 4300) ∧
      (n < tenTo 4300 → ∃ s, (Value.number (.int n)).display limit nested = .ok s ∧
        (Expr.number n).write limit = .ok s ∧ Expr.read limit s = .ok (.number n)) := by
  refine ⟨?_, ?_, ?_⟩
  · intro v limit nested hv
    have hdisplay := Value.wording_display.told nested hv
    have hdebug := Value.wording_debug.told nested hv
    simp only [← Value.mem_integers]
    refine ⟨hdisplay.exists_error_iff fun _ => rfl, ?_, ?_⟩
    · rw [hdebug.error_iff, ← exists_firstTooLong?_iff]
      simp
    · intro f hf
      obtain ⟨n, hn, rfl⟩ := hdisplay.error_iff.mp hf
      refine ⟨n, hn, ?_⟩
      rw [← bitCount_eq_size]
      rfl
  · intro t limit hhole ht
    simp only [← Expr.mem_literals]
    exact (Expr.told_write hhole ht).exists_error_iff fun _ => rfl
  · intro n limit nested hlimit
    obtain ⟨k, rfl⟩ := Nat.exists_eq_succ_of_ne_zero (Nat.ne_of_gt hlimit)
    have hok : (∃ s, Expr.numberText n = .ok s) ↔ n < tenTo 4300 :=
      Expr.numberText_ok_iff.trans Nat.not_le
    refine ⟨hok, hok, ?_⟩
    intro hn
    obtain ⟨s, hs⟩ := hok.mpr hn
    exact ⟨s, hs, hs, Expr.read_of_numberText hs hlimit⟩

/-- The least integer that is too long, with a minus sign: inside two arrays, and
as the argument of a call.  Of the two that are inside the arrays, the message is
about the first, which has 14285 bits. -/
theorem one_digit_limit_nested :
    let n : Int := -tenTo 4300
    let v := Value.array 0 [.string "x", .array 1 [.number (.int n), .number (.int (n * n))]]
    let t := Expr.apply (.word "f") [.number 1, .number n]
    IsRangeFault (v.display 3 false) ∧ v.debug 3 = .error .tooManyDigits ∧
      (∀ f, v.display 3 false = .error f →
        f.message = "Number too large to write (14285 bits)") ∧
      IsRangeFault (t.write 2) ∧
      ∃ s, (Value.number (.int 7)).display 1 true = .ok s ∧ Expr.read 1 s = .ok (.number 7) := by
  intro n v t
  have habs : n.natAbs = tenTo 4300 := (Int.natAbs_neg _).trans (Int.natAbs_natCast _)
  have hn : TooLong n := Nat.le_of_eq habs.symm
  have hpart : Value.Part (.number (.int n)) v :=
    .item (List.mem_cons_of_mem _ List.mem_cons_self) (.item List.mem_cons_self .self)
  have hsub : Expr.Subtree (.number n) t :=
    .argument (List.mem_cons_of_mem _ List.mem_cons_self) .self
  have hhole : ∀ m, ¬ Expr.Subtree .hole (.apply (.word "f") [.number 1, .number m]) := by
    intro m h
    cases h with
    | operator h => cases h
    | argument ha h =>
      rcases List.mem_pair.mp ha with rfl | rfl <;> cases h
  have hfirst : firstTooLong? v.integers = some n := List.find?_cons_of_pos (decide_eq_true hn)
  have hbits : n.natAbs.size = 14285 := by
    rw [← bitCount_eq_size]
    decide +kernel
  obtain ⟨hvalues, htrees, hnaturals⟩ := one_digit_limit
  obtain ⟨hdisplay, hdebug, hmessage⟩ := hvalues v 3 false (by decide)
  refine ⟨hdisplay.mpr ⟨n, hpart, hn⟩, hdebug.mpr ⟨n, hpart, hn⟩, ?_, ?_, ?_⟩
  · intro f hf
    obtain ⟨m, hm, hf⟩ := hmessage f hf
    have hmn : m = n := Option.some.inj (hm.symm.trans hfirst)
    rw [hf, hmn, hbits]
    decide +kernel
  · exact (htrees t 2 (hhole n) (by decide)).mpr ⟨n, hsub, hn⟩
  · have hseven : 7 < tenTo 4300 :=
      Nat.lt_of_lt_of_le (by decide) (tenTo_le_tenTo (by decide : 1 ≤ 4300))
    obtain ⟨s, hs, -, hread⟩ := (hnaturals 7 1 true Nat.one_pos).2.2 hseven
    exact ⟨s, hs, hread⟩

end EggLang
