/-
# `EggLang.Proofs.Unambiguous` — a display can be read in one way only

Inside an array a string is shown between quotes, and nothing in it is escaped.
So a string with a quote in it may look like other values.  Without quotes in
strings, and without doubles and functions, the display tells all there is to
know about a value but the numbers its arrays were made under:

    begins with     is                   ends
    `"`             a string             before the next quote
    `[`             an array             at a bracket where an item would end
    `t`, `f`        a boolean            after its last letter
    `-`, a digit    an integer           before the first other character

What is shown is first written down as a relation between characters and values
(`Shows`), with the rest of an array from any item on as a second one.  A value
is then read off the front of a longer text: if the same text begins with two
values, they have the same contents, and the same characters are left.  An
integer is the one that needs to look ahead, and what follows a value in an
array is a comma or a bracket.
-/
import EggLang.Proofs.Alike.Value
import EggLang.Proofs.DigitLimit

namespace EggLang

open Token (stops isDigit)

/-! ## Runs -/

/-- A text that begins with a run, up to where it stops, begins with one only. -/
theorem run_append_inj {p : Char → Bool} {run run' rest rest' : List Char}
    (hrun : ∀ c ∈ run, p c = true) (hrun' : ∀ c ∈ run', p c = true)
    (hrest : stops p rest) (hrest' : stops p rest') :
    run ++ rest = run' ++ rest' → run = run' ∧ rest = rest' := by
  intro h
  have htake := congrArg (List.takeWhile p) h
  have hdrop := congrArg (List.dropWhile p) h
  rw [Token.takeWhile_run hrun hrest, Token.takeWhile_run hrun' hrest'] at htake
  rw [Token.dropWhile_run hrun hrest, Token.dropWhile_run hrun' hrest'] at hdrop
  exact ⟨htake, hdrop⟩

theorem toDigits_append_inj {m n : Nat} {rest rest' : List Char} (hrest : stops isDigit rest)
    (hrest' : stops isDigit rest') :
    Nat.toDigits 10 m ++ rest = Nat.toDigits 10 n ++ rest' → m = n ∧ rest = rest' := by
  intro h
  obtain ⟨hdigits, hleft⟩ := run_append_inj (fun _ => isDigit_of_mem_toDigits)
    (fun _ => isDigit_of_mem_toDigits) hrest hrest' h
  have hvalue := congrArg (Nat.ofDigitChars 10 · 0) hdigits
  simp only [Nat.ofDigitChars_ten_toDigits] at hvalue
  exact ⟨hvalue, hleft⟩

theorem exists_toDigits_eq_cons (n : Nat) :
    ∃ c cs, Nat.toDigits 10 n = c :: cs ∧ isDigit c = true := by
  obtain ⟨c, cs, h⟩ := List.exists_cons_of_ne_nil (@Nat.toDigits_ne_nil n 10)
  exact ⟨c, cs, h, isDigit_of_mem_toDigits (h ▸ List.mem_cons_self)⟩

theorem toDigits_append_ne {n : Nat} {rest cs : List Char} :
    Nat.toDigits 10 n ++ rest ≠ '-' :: cs := by
  intro h
  obtain ⟨c, ds, hdigits, hc⟩ := exists_toDigits_eq_cons n
  rw [hdigits] at h
  cases h
  cases hc

theorem toList_decimalText (n : Int) : (decimalText n).toList =
    if n < 0 then '-' :: Nat.toDigits 10 n.natAbs else Nat.toDigits 10 n.natAbs := by
  unfold decimalText
  split
  · rw [String.toList_append, Nat.toList_repr]
    rfl
  · exact Nat.toList_repr

/-- The sign, and the digits up to where they stop, tell the integer. -/
theorem decimalText_append_inj {m n : Int} {rest rest' : List Char} (hrest : stops isDigit rest)
    (hrest' : stops isDigit rest') :
    (decimalText m).toList ++ rest = (decimalText n).toList ++ rest' → m = n ∧ rest = rest' := by
  intro h
  rw [toList_decimalText, toList_decimalText] at h
  by_cases hm : m < 0
  · by_cases hn : n < 0
    · rw [if_pos hm, if_pos hn] at h
      obtain ⟨habs, hleft⟩ := toDigits_append_inj hrest hrest' (List.cons.inj h).2
      exact ⟨by omega, hleft⟩
    · rw [if_pos hm, if_neg hn] at h
      exact absurd h.symm toDigits_append_ne
  · by_cases hn : n < 0
    · rw [if_neg hm, if_pos hn] at h
      exact absurd h toDigits_append_ne
    · rw [if_neg hm, if_neg hn] at h
      obtain ⟨habs, hleft⟩ := toDigits_append_inj hrest hrest' h
      exact ⟨by omega, hleft⟩

namespace Value

/-! ## Contents -/

/-- All numbers belong together. -/
def anyLinks : Links := ⟨fun _ _ => True, fun _ _ => True⟩

/-- The values are the same but for the numbers they were made under. -/
def SameContents : Value → Value → Prop := Alike anyLinks fun _ _ => True

/-- Arrays have the same contents item by item. -/
theorem sameContents_array_iff {i j : Nat} {items items' : List Value} :
    SameContents (.array i items) (.array j items') ↔ List.Forall₂ SameContents items items' := by
  constructor
  · intro h
    cases h with
    | array _ hlen hall => exact List.forall₂_iff_zip.mpr ⟨hlen, fun hp => hall _ hp⟩
  · intro h
    exact alike_array trivial h

/-- The value is made of integers that can be written, booleans and strings
without quotes. -/
inductive Legible : Value → Prop
  | int {n : Int} : ¬ TooLong n → Legible (.number (.int n))
  | bool (b : Bool) : Legible (.bool b)
  | string {s : String} : '"' ∉ s.toList → Legible (.string s)
  | array {i : Nat} {items : List Value} : (∀ v ∈ items, Legible v) → Legible (.array i items)

theorem Legible.showable {v : Value} : Legible v → v.Showable := by
  intro h
  induction h with
  | int hn => exact showable_int.mpr (writable_iff.mpr hn)
  | bool b => exact fun _ hpart => nomatch hpart
  | string _ => exact fun _ hpart => nomatch hpart
  | array _ ih => exact showable_array.mpr ih

/-- A legible value has a display within enough levels. -/
theorem Legible.display {v : Value} {limit : Nat} (h : Legible v) (hlimit : v.nesting ≤ limit)
    (nested : Bool) : ∃ text, v.display limit nested = .ok text := by
  obtain ⟨text, htext, -⟩ | ⟨_, -, hnot⟩ | ⟨-, hdeep⟩ := display_cases limit nested v
  · exact ⟨text, htext⟩
  · exact absurd h.showable hnot
  · exact absurd hdeep (Nat.not_lt.mpr hlimit)

/-! ## What is shown -/

mutual

/-- The characters that show a value in an array. -/
inductive Shows : List Char → Value → Prop
  | int (n : Int) : Shows (decimalText n).toList (.number (.int n))
  | bool (b : Bool) : Shows (if b then "true" else "false").toList (.bool b)
  | string {s : String} : '"' ∉ s.toList → Shows ('"' :: (s.toList ++ ['"'])) (.string s)
  | empty (i : Nat) : Shows ['[', ']'] (.array i [])
  | array {cs ds : List Char} {v : Value} {vs : List Value} (i : Nat) : Shows cs v →
      ShowsRest ds vs → Shows ('[' :: (cs ++ ds)) (.array i (v :: vs))

/-- The characters after an item of an array, with the items that follow it. -/
inductive ShowsRest : List Char → List Value → Prop
  | close : ShowsRest [']'] []
  | more {cs ds : List Char} {v : Value} {vs : List Value} : Shows cs v → ShowsRest ds vs →
      ShowsRest (',' :: ' ' :: (cs ++ ds)) (v :: vs)

end

/-- Texts with a comma and a space between them show items. -/
theorem showsRest_intercalate {vs : List Value} {s : String} {texts : List String}
    (h : List.Forall₂ (fun v s => Shows s.toList v) vs texts) :
    ∃ ds, ShowsRest ds vs ∧ (", ".intercalate (s :: texts)).toList ++ [']'] = s.toList ++ ds := by
  induction h generalizing s with
  | nil => exact ⟨_, .close, by simp⟩
  | @cons w t vs texts hw _ ih =>
    obtain ⟨ds, hds, htail⟩ := @ih t
    refine ⟨_, .more hw hds, ?_⟩
    rw [← htail]
    simp [String.intercalate_cons_cons]

theorem shows_bracketed {i : Nat} {items : List Value} {texts : List String}
    (h : List.Forall₂ (fun v s => Shows s.toList v) items texts) :
    Shows (bracketed texts).toList (.array i items) := by
  have hchars : (bracketed texts).toList = '[' :: ((", ".intercalate texts).toList ++ [']']) := by
    simp [bracketed]
  rw [hchars]
  cases h with
  | nil => exact .empty i
  | cons hv hrest =>
    obtain ⟨ds, hds, htail⟩ := showsRest_intercalate hrest
    rw [htail]
    exact .array i hv hds

/-- The display of a legible value shows it. -/
theorem display_shows {limit : Nat} {v : Value} {text : String} (hv : Legible v) :
    v.display limit true = .ok text → Shows text.toList v := by
  intro h
  induction limit generalizing v text with
  | zero => cases h
  | succ limit ih =>
    cases hv with
    | int hn =>
      cases h.symm.trans (Expr.numberText_of_writable (writable_iff.mpr hn))
      exact .int _
    | bool b =>
      cases h
      exact .bool b
    | string hs =>
      cases h
      simpa using Shows.string hs
    | @array i items hitems =>
      rw [Value.display] at h
      obtain ⟨_, -, hall⟩ | ⟨_, he, -⟩ := mapM_cases (Value.display limit true) items
      · have hshows : ∀ w ∈ items, ∃ s, w.display limit true = .ok s ∧ Shows s.toList w := by
          intro w hw
          obtain ⟨s, hs⟩ := hall w hw
          exact ⟨s, hs, ih (hitems w hw) hs⟩
        obtain ⟨texts, hok, hrow⟩ := Expr.mapM_ok hshows
        rw [hok] at h
        cases h
        exact shows_bracketed hrow
      · rw [he] at h
        cases h

/-! ## Reading it -/

/-- The kind of a value by the character that it begins with. -/
def kindAt : Char → Kind
  | '"' => .string
  | '[' => .array
  | 't' => .boolean
  | 'f' => .boolean
  | _ => .number

theorem kindAt_of_isDigit {c : Char} : isDigit c = true → kindAt c = .number := by
  intro h
  unfold kindAt
  split <;> first | rfl | cases h

/-- The first character tells the kind, and is not the bracket that ends an array. -/
theorem Shows.head {cs : List Char} {v : Value} :
    Shows cs v → ∃ c ds, cs = c :: ds ∧ kindAt c = v.kind ∧ c ≠ ']' := by
  intro h
  cases h with
  | int n =>
    rw [toList_decimalText]
    obtain ⟨c, ds, hdigits, hc⟩ := exists_toDigits_eq_cons n.natAbs
    split
    · exact ⟨'-', _, rfl, rfl, by decide⟩
    · refine ⟨c, ds, hdigits, kindAt_of_isDigit hc, ?_⟩
      rintro rfl
      cases hc
  | bool b => cases b <;> exact ⟨_, _, rfl, rfl, by decide⟩
  | string _ => exact ⟨_, _, rfl, rfl, by decide⟩
  | empty i => exact ⟨_, _, rfl, rfl, by decide⟩
  | array i _ _ => exact ⟨_, _, rfl, rfl, by decide⟩

theorem Shows.kind_eq {cs ds rest rest' : List Char} {v w : Value} (hv : Shows cs v)
    (hw : Shows ds w) : cs ++ rest = ds ++ rest' → v.kind = w.kind := by
  intro h
  obtain ⟨c, _, rfl, hc, -⟩ := hv.head
  obtain ⟨d, _, rfl, hd, -⟩ := hw.head
  rw [← hc, ← hd, (List.cons.inj h).1]

theorem Shows.ne_close {cs rest ds : List Char} {v : Value} (hv : Shows cs v) :
    cs ++ rest ≠ ']' :: ds := by
  intro h
  obtain ⟨c, _, rfl, -, hc⟩ := hv.head
  exact hc (List.cons.inj h).1

/-- No digit follows an item. -/
theorem ShowsRest.stops_append {cs : List Char} {vs : List Value} (h : ShowsRest cs vs)
    (rest : List Char) : stops isDigit (cs ++ rest) := by
  cases h <;> exact rfl

/-- A string ends before the next quote. -/
theorem quoted_append_inj {s t : String} {rest rest' : List Char} (hs : '"' ∉ s.toList)
    (ht : '"' ∉ t.toList) :
    s.toList ++ '"' :: rest = t.toList ++ '"' :: rest' → s = t ∧ rest = rest' := by
  intro h
  have hrun : ∀ {u : String}, '"' ∉ u.toList → ∀ c ∈ u.toList, decide (c ≠ '"') = true := by
    intro u hu c hc
    refine decide_eq_true ?_
    rintro rfl
    exact hu hc
  have hquote : ∀ cs : List Char, stops (fun c => decide (c ≠ '"')) ('"' :: cs) := fun _ => rfl
  obtain ⟨hrun, hleft⟩ := run_append_inj (hrun hs) (hrun ht) (hquote rest) (hquote rest') h
  exact ⟨String.toList_inj.mp hrun, (List.cons.inj hleft).2⟩

mutual

/-- A text that begins with a value, and does not go on with a digit, begins with
no other. -/
theorem shows_append_inj : ∀ (v w : Value) {cs ds rest rest' : List Char}, Shows cs v →
    Shows ds w → stops isDigit rest → stops isDigit rest' → cs ++ rest = ds ++ rest' →
    SameContents v w ∧ rest = rest'
  | v, w, cs, ds, rest, rest', hv, hw, hrest, hrest', h => by
    -- the first characters agree, so only values of one kind are compared
    have hkind := hv.kind_eq hw h
    match v, hv with
    | _, .int m =>
      cases hw with
      | int n =>
        obtain ⟨rfl, hleft⟩ := decimalText_append_inj hrest hrest' h
        exact ⟨.number _, hleft⟩
      | _ => cases hkind
    | _, .bool a =>
      cases hw with
      | bool b => cases a <;> cases b <;> cases h <;> exact ⟨.bool _, rfl⟩
      | _ => cases hkind
    | _, .string hs =>
      cases hw with
      | string ht =>
        simp only [List.cons_append, List.append_assoc, List.cons.injEq, true_and] at h
        obtain ⟨rfl, hleft⟩ := quoted_append_inj hs ht h
        exact ⟨.string _, hleft⟩
      | _ => cases hkind
    | _, .empty i =>
      cases hw with
      | empty j =>
        cases h
        exact ⟨sameContents_array_iff.mpr .nil, rfl⟩
      | array j hw _ =>
        simp only [List.cons_append, List.append_assoc, List.cons.injEq, true_and] at h
        exact absurd h.symm hw.ne_close
      | _ => cases hkind
    | .array _ (v :: vs), .array i hv hvs =>
      cases hw with
      | empty j =>
        simp only [List.cons_append, List.append_assoc, List.cons.injEq, true_and] at h
        exact absurd h hv.ne_close
      | array j hw hws =>
        simp only [List.cons_append, List.append_assoc, List.cons.injEq, true_and] at h
        obtain ⟨hfirst, hleft⟩ := shows_append_inj v _ hv hw (hvs.stops_append _)
          (hws.stops_append _) h
        obtain ⟨hall, hleft⟩ := showsRest_append_inj vs _ hvs hws hleft
        exact ⟨sameContents_array_iff.mpr (.cons hfirst hall), hleft⟩
      | _ => cases hkind

/-- After an item, a bracket or a comma says whether there are more. -/
theorem showsRest_append_inj : ∀ (vs ws : List Value) {cs ds rest rest' : List Char},
    ShowsRest cs vs → ShowsRest ds ws → cs ++ rest = ds ++ rest' →
    List.Forall₂ SameContents vs ws ∧ rest = rest'
  | vs, ws, cs, ds, rest, rest', hvs, hws, h => by
    match vs, hvs with
    | _, .close =>
      cases hws with
      | close => exact ⟨.nil, (List.cons.inj h).2⟩
      | more _ _ => cases (List.cons.inj h).1
    | v :: vs, .more hv hvs =>
      cases hws with
      | close => cases (List.cons.inj h).1
      | more hw hws =>
        simp only [List.cons_append, List.append_assoc, List.cons.injEq, true_and] at h
        obtain ⟨hfirst, hleft⟩ := shows_append_inj v _ hv hw (hvs.stops_append _)
          (hws.stops_append _) h
        obtain ⟨hall, hleft⟩ := showsRest_append_inj vs _ hvs hws hleft
        exact ⟨.cons hfirst hall, hleft⟩

end

/-- Two legible values with the same text have the same contents. -/
theorem sameContents_of_display {v w : Value} {limit limit' : Nat} {text : String}
    (hv : Legible v) (hw : Legible w) (hvtext : v.display limit true = .ok text) :
    w.display limit' true = .ok text → SameContents v w := by
  intro hwtext
  have hshows := display_shows hv hvtext
  have hshows' := display_shows hw hwtext
  exact (@shows_append_inj v w _ _ [] [] hshows hshows' trivial trivial rfl).1

theorem display_array_nested (limit : Nat) (nested nested' : Bool) (i : Nat) (items : List Value) :
    (array i items).display limit nested = (array i items).display limit nested' := by
  cases limit <;> rfl

/-! ## One reading -/

/-- Values made of integers of at most 4300 digits, booleans, strings without a
quote and arrays of such values have a display if they do not nest too deeply.  If
two of them have the same one inside an array, however many levels each was
allowed, they have the same contents.  So two arrays of them have the same display
exactly if they have the same contents item by item. -/
theorem display_unambiguous :
    (∀ (v : Value) limit nested, Legible v → v.nesting ≤ limit →
      ∃ text, v.display limit nested = .ok text) ∧
    (∀ (v w : Value) limit limit' text, Legible v → Legible w →
      v.display limit true = .ok text → w.display limit' true = .ok text → SameContents v w) ∧
    ∀ i j (items items' : List Value) limit nested,
      (∀ v ∈ items, Legible v) → (∀ v ∈ items', Legible v) →
      (array i items).nesting ≤ limit →
      ((array i items).display limit nested = (array j items').display limit nested ↔
        List.Forall₂ SameContents items items') := by
  refine ⟨?_, ?_, ?_⟩
  · intro v limit nested hv hlimit
    exact hv.display hlimit nested
  · intro v w limit limit' text hv hw hvtext hwtext
    exact sameContents_of_display hv hw hvtext hwtext
  · intro i j items items' limit nested hitems hitems' hlimit
    rw [← @sameContents_array_iff i j]
    constructor
    · intro h
      rw [display_array_nested limit nested true, display_array_nested limit nested true] at h
      obtain ⟨text, htext⟩ := (Legible.array hitems).display hlimit true
      exact sameContents_of_display (.array hitems) (.array hitems') htext (h.symm.trans htext)
    · intro h
      exact h.display_eq limit nested

/-- A string that looks like two items of the array it is in.  The array is told
from the one with the two items, and not from one made at another time. -/
theorem display_unambiguous_comma :
    let twelve (i : Nat) := array i [.number (.int (-12))]
    (∃ text, (array 0 [.string "a, b", twelve 1]).display 3 false = .ok text) ∧
      SameContents (array 0 [.string "a, b", twelve 1]) (array 4 [.string "a, b", twelve 2]) ∧
      (array 0 [.string "a, b", twelve 1]).display 3 false ≠
        (array 0 [.string "a", .string "b", twelve 1]).display 3 false := by
  intro twelve
  have htwelve : ∀ i, Legible (twelve i) := by
    intro i
    exact .array (List.forall_mem_singleton.mpr (.int (by decide +kernel)))
  have hpair : ∀ i, ∀ v ∈ [.string "a, b", twelve i], Legible v := by
    intro i
    exact List.forall_mem_cons.mpr ⟨.string (by decide), List.forall_mem_singleton.mpr (htwelve i)⟩
  have htriple : ∀ v ∈ [.string "a", .string "b", twelve 1], Legible v := by
    refine List.forall_mem_cons.mpr ⟨.string (by decide), ?_⟩
    exact List.forall_mem_cons.mpr ⟨.string (by decide), List.forall_mem_singleton.mpr (htwelve 1)⟩
  obtain ⟨hreturns, hreads, harrays⟩ := display_unambiguous
  refine ⟨?_, ?_, ?_⟩
  · exact hreturns _ 3 false (.array (hpair 1)) (by decide)
  · refine hreads _ _ 3 5 "[\"a, b\", [-12]]" (.array (hpair 1)) (.array (hpair 2)) ?_ ?_
    · decide +kernel
    · decide +kernel
  · rw [Ne, harrays 0 0 _ _ 3 false (hpair 1) htriple (by decide)]
    intro h
    cases h.length_eq

end Value

end EggLang
