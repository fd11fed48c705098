/-
# `EggLang.Proofs.Source.RoundTrip` — which trees survive writing and reading

A tree can be written and read back exactly if it is `Printable`, and these
are also the only trees that reading ever gives.  So the writer loses nothing
of what the reader can make, and what it writes wrongly — a text with a
double quote in it, a negative number, an odd word — no source stands for.

    Printable t  ⟹  the canonical source renders t           (`write_renders`)
                ⟹  reading it gives t                        (`read_eq_ok_iff`)
    reading gives t  ⟹  some text renders t  ⟹  Printable t  (`printable_of_renders`)

The height of a tree counts the operators as well as the arguments, since
writing goes down into both; nesting, which bounds reading, is at most that.
-/
import EggLang.Proofs.Source.Acceptance
import EggLang.Source.Writer
import Mathlib.Data.List.Forall2
import Mathlib.Tactic.TFAE

namespace EggLang

open Grammar

/-! ## Digits -/

theorem ofDigitChars_lt {ds : List Char} (h : ∀ d ∈ ds, Token.isDigit d = true) :
    Nat.ofDigitChars 10 ds 0 < tenTo ds.length := by
  induction ds with
  | nil => exact Nat.one_pos
  | cons d ds ih =>
    have hd := Token.isDigit_iff.mp (h d List.mem_cons_self)
    have hds := ih fun c hc => h c (List.mem_cons_of_mem d hc)
    have hcons : Nat.ofDigitChars 10 (d :: ds) 0 =
        tenTo ds.length * (d.toNat - 48) + Nat.ofDigitChars 10 ds 0 := by
      rw [Nat.ofDigitChars_cons, Nat.ofDigitChars_eq_ofDigitChars_zero]
      simp [tenTo]
    have hle : tenTo ds.length * (d.toNat - 48) ≤ tenTo ds.length * 9 :=
      Nat.mul_le_mul_left _ (by omega)
    rw [hcons, List.length_cons, tenTo_succ]
    omega

theorem tenTo_le_tenTo {m n : Nat} (h : m ≤ n) : tenTo m ≤ tenTo n :=
  Nat.pow_le_pow_right (by decide) h

theorem isDigit_of_mem_toDigits {n : Nat} {c : Char} (h : c ∈ Nat.toDigits 10 n) :
    Token.isDigit c = true := by
  have hc := Nat.isDigit_of_mem_toDigits (by decide) (by decide) h
  simp only [Char.isDigit, Bool.and_eq_true, decide_eq_true_eq, ge_iff_le,
    UInt32.le_iff_toNat_le] at hc
  exact Token.isDigit_iff.mpr hc

theorem length_toDigits_le {n k : Nat} (hk : 0 < k) (h : n < tenTo k) :
    (Nat.toDigits 10 n).length ≤ k :=
  (Nat.length_toDigits_le_iff (by decide) hk).mpr h

namespace Expr

/-! ## Height -/

mutual

/-- How many levels a tree has. -/
def height : Expr → Nat
  | .apply operator args => max operator.height (heights args) + 1
  | _ => 1

def heights : List Expr → Nat
  | [] => 0
  | a :: as => max a.height (heights as)

end

theorem height_apply (operator : Expr) (args : List Expr) :
    (apply operator args).height = max operator.height (heights args) + 1 := by
  rw [height]

theorem heights_cons (a : Expr) (as : List Expr) :
    heights (a :: as) = max a.height (heights as) := by
  rw [heights]

/-- No limit of zero has room for a tree. -/
theorem exists_succ_of_height_le {e : Expr} {limit : Nat} (h : e.height ≤ limit) :
    ∃ k, limit = k + 1 := by
  have hpos : 0 < e.height := by cases e <;> exact Nat.succ_pos _
  exact Nat.exists_eq_succ_of_ne_zero (by omega)

theorem height_le_heights {a : Expr} {as : List Expr} (h : a ∈ as) : a.height ≤ heights as := by
  induction as with
  | nil => cases h
  | cons b as ih =>
    rw [heights_cons]
    rcases List.mem_cons.mp h with rfl | hmem
    · exact Nat.le_max_left _ _
    · exact Nat.le_trans (ih hmem) (Nat.le_max_right _ _)

mutual

theorem nesting_le_height : ∀ e : Expr, e.nesting ≤ e.height
  | .number _ => Nat.le_refl _
  | .text _ => Nat.le_refl _
  | .word _ => Nat.le_refl _
  | .hole => Nat.le_refl _
  | .apply operator args => by
      have ho := nesting_le_height operator
      have ha := nestings_le_heights args
      rw [nesting_apply, height_apply]
      omega

theorem nestings_le_heights : ∀ es : List Expr, nestings es ≤ heights es
  | [] => Nat.le_refl _
  | e :: es => by
      have he := nesting_le_height e
      have hes := nestings_le_heights es
      rw [nestings_cons, heights_cons]
      omega

end

/-! ## Printable trees -/

/-- The tree has a source that reads back as the tree. -/
inductive Printable : Expr → Prop
  | number {n : Int} : 0 ≤ n → n < tenTo 4300 → Printable (.number n)
  | text {s : String} : '"' ∉ s.toList → Printable (.text s)
  | word {name : String} : IsName name.toList → Printable (.word name)
  | apply {operator : Expr} {args : List Expr} : Printable operator →
      (∀ a ∈ args, Printable a) → Printable (.apply operator args)

mutual

/-- Only printable trees are rendered. -/
theorem printable_of_renders : ∀ (e : Expr) {r : List Char}, Renders r e → Printable e
  | .number _, _, .number _ hd hlen =>
      .number (Int.natCast_nonneg _) (Int.ofNat_lt.mpr
        (Nat.lt_of_lt_of_le (ofDigitChars_lt hd) (tenTo_le_tenTo hlen)))
  | .text _, _, .text hs => .text (by rwa [String.toList_ofList])
  | .word _, _, .word hname => .word (by rwa [String.toList_ofList])
  | .apply operator args, _, .apply ho _ ha =>
      .apply (printable_of_renders operator ho) (printable_of_rendersArgs args ha)

theorem printable_of_rendersArgs : ∀ (es : List Expr) {as : List Char}, RendersArgs as es →
    ∀ e ∈ es, Printable e
  | [], _, _, _, h => nomatch h
  | [e], _, .last _ ha _, _, h =>
      (List.mem_singleton.mp h) ▸ printable_of_renders e ha
  | e :: es, _, .more _ ha _ has, a, h =>
      (List.mem_cons.mp h).elim (fun heq => heq ▸ printable_of_renders e ha)
        (printable_of_rendersArgs es has a)

end

/-! ## The canonical source -/

/-- A list of computations that all succeed succeeds as a whole. -/
theorem mapM_ok {α β : Type} {f : α → Except Fault β} {P : α → β → Prop} {xs : List α}
    (h : ∀ x ∈ xs, ∃ y, f x = .ok y ∧ P x y) :
    ∃ ys, xs.mapM f = .ok ys ∧ List.Forall₂ P xs ys := by
  induction xs with
  | nil => exact ⟨[], rfl, .nil⟩
  | cons x xs ih =>
    obtain ⟨y, hy, hxy⟩ := h x List.mem_cons_self
    obtain ⟨ys, hys, hall⟩ := ih fun z hz => h z (List.mem_cons_of_mem x hz)
    refine ⟨y :: ys, ?_, .cons hxy hall⟩
    rw [List.mapM_cons, hy, hys]
    rfl

theorem gap_nil (e : Expr) : Gap e [] := by
  refine ⟨.nil, ?_⟩
  cases e with
  | word _ => exact Or.inl rfl
  | _ => trivial

/-- Renderings with a comma and a space between them render arguments. -/
theorem rendersArgs_intercalate {args : List Expr} {items : List String}
    (h : List.Forall₂ (fun a s => Renders s.toList a) args items) {l : List Char}
    (hl : Layout l) :
    RendersArgs (l ++ ((", ".intercalate items).toList ++ [')'])) args := by
  induction h generalizing l with
  | nil => simpa using RendersArgs.close hl
  | @cons a s args items ha hrest ih =>
    cases hrest with
    | nil => simpa using RendersArgs.last hl ha (gap_nil a)
    | @cons b t args items hb hrest =>
      have hspace : Layout [' '] := .blank (by decide) .nil
      have hmore := RendersArgs.more hl ha (gap_nil a) (ih hspace)
      simpa [String.intercalate_cons_cons] using hmore

-- `m` stands for ten to the power 4300, which is better left alone
theorem natAbs_lt {n : Int} {m : Nat} (h0 : 0 ≤ n) (hn : n < m) : n.natAbs < m := by
  omega

theorem numberText_eq_ok {n : Int} (h0 : 0 ≤ n) (hn : n < tenTo 4300) :
    numberText n = .ok n.natAbs.repr := by
  have hw : Writable n := by
    rw [Writable, unwritableFrom, Text.digitLimit]
    exact natAbs_lt h0 hn
  have htext : decimalText? n = some n.natAbs.repr := by
    simp only [decimalText?, decimalText]
    rw [if_pos hw, if_neg (Int.not_lt.mpr h0)]
  unfold numberText
  rw [htext]

theorem renders_repr {n : Int} (h0 : 0 ≤ n) (hn : n < tenTo 4300) :
    Renders n.natAbs.repr.toList (.number n) := by
  have hlen := length_toDigits_le (by decide) (natAbs_lt h0 hn)
  have hr := Renders.number Nat.toDigits_ne_nil (fun _ => isDigit_of_mem_toDigits) hlen
  rwa [Nat.ofDigitChars_ten_toDigits, Int.natAbs_of_nonneg h0, ← Nat.toList_repr] at hr

/-- The canonical source of a printable tree renders it. -/
theorem write_renders {t : Expr} (h : Printable t) :
    ∀ {limit : Nat}, t.height ≤ limit → ∃ s, t.write limit = .ok s ∧ Renders s.toList t := by
  induction h with
  | number h0 hn =>
    intro limit hh
    obtain ⟨k, rfl⟩ := exists_succ_of_height_le hh
    exact ⟨_, numberText_eq_ok h0 hn, renders_repr h0 hn⟩
  | text hs =>
    intro limit hh
    obtain ⟨k, rfl⟩ := exists_succ_of_height_le hh
    have hr := Renders.text hs
    rw [String.ofList_toList] at hr
    exact ⟨_, rfl, by simpa using hr⟩
  | word hname =>
    intro limit hh
    obtain ⟨k, rfl⟩ := exists_succ_of_height_le hh
    have hr := Renders.word hname
    rw [String.ofList_toList] at hr
    exact ⟨_, rfl, hr⟩
  | @apply operator args _ _ iho iha =>
    intro limit hh
    obtain ⟨k, rfl⟩ := exists_succ_of_height_le hh
    rw [height_apply] at hh
    obtain ⟨head, hhead, hrhead⟩ := iho (by omega : operator.height ≤ k)
    have hargs : ∀ a ∈ args, ∃ s, a.write k = .ok s ∧ Renders s.toList a := by
      intro a ha
      have hle := height_le_heights ha
      exact iha a ha (by omega)
    obtain ⟨items, hitems, hritems⟩ := mapM_ok hargs
    refine ⟨head ++ "(" ++ ", ".intercalate items ++ ")", ?_, ?_⟩
    · rw [write, hhead]
      simp only [hitems, bind, Except.bind]
    · have hr := Renders.apply hrhead (gap_nil operator) (rendersArgs_intercalate hritems .nil)
      simpa using hr

/-- A tree that is not too high is what reading its canonical source gives,
and is what reading any source gives, exactly if it is printable. -/
theorem round_trip_tfae (limit : Nat) (t : Expr) (h : t.height ≤ limit) :
    List.TFAE [
      ∃ s, t.write limit = .ok s ∧ read limit s = .ok t,
      ∃ s, read limit s = .ok t,
      Printable t] := by
  tfae_have 1 → 2 := fun ⟨s, _, hread⟩ => ⟨s, hread⟩
  tfae_have 2 → 3 := by
    rintro ⟨s, hread⟩
    obtain ⟨⟨_, _, _, _, _, hr, _, _⟩, _⟩ := read_eq_ok_iff.mp hread
    exact printable_of_renders t hr
  tfae_have 3 → 1 := by
    intro hp
    obtain ⟨s, hwrite, hr⟩ := write_renders hp h
    have hprogram : Program s.toList t :=
      ⟨[], s.toList, [], by simp, .nil, hr, .ended .nil, (gap_nil t).clear⟩
    exact ⟨s, hwrite, read_eq_ok_iff.mpr ⟨hprogram, Nat.le_trans (nesting_le_height t) h⟩⟩
  tfae_finish

/-- A call of a call, with a `#` inside a word and one inside a text. -/
theorem round_trip_chained_call :
    let t := Expr.apply (.apply (.word "a#b") [.number 7, .text "x # y"]) []
    t.height ≤ 3 ∧ Printable t ∧ ∃ s, t.write 3 = .ok s ∧ read 3 s = .ok t := by
  intro t
  have hname : IsName "a#b".toList := by
    refine ⟨by decide, List.all_eq_true.mp (by decide), by decide, ?_⟩
    rw [← Token.startsNumber_iff]
    decide
  have hseven : (7 : Int) < tenTo 4300 :=
    Int.ofNat_lt.mpr (Nat.lt_of_lt_of_le (by decide) (tenTo_le_tenTo (by decide : 1 ≤ 4300)))
  have hargs : ∀ a ∈ [Expr.number 7, .text "x # y"], Printable a := by
    intro a ha
    rcases List.mem_cons.mp ha with rfl | ha
    · exact .number (by decide) hseven
    · rw [List.mem_singleton.mp ha]
      exact .text (by decide)
  have hprintable : Printable t := .apply (.apply (.word hname) hargs) (by simp)
  exact ⟨by decide, hprintable, ((round_trip_tfae 3 t (by decide)).out 2 0).mp hprintable⟩

end Expr

end EggLang
