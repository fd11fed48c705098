/-
# `EggLang.Proofs.Source.Pieces` — the pieces of a source are those it spells

`Token.lexemes` cuts a source into pieces with a scanner.  Here the cut is
characterised without one: `Spells token text rest` says that `text` followed
by `rest` is the token `token` followed by `rest`, and

    lexemes_last      layout has no pieces
    lexemes_piece     a source that begins with layout and a spelling has
                      that piece first, and then the pieces of the rest
    source_induction  every source is made in these two ways

What may follow a token is part of `Spells`, because a token is as long as it
can be: a word ends where no character of a word follows, and a number where
no letter, digit or underscore does.
-/
import EggLang.Proofs.Source.Grammar

namespace EggLang.Token

open Text (isBlank)
open Grammar

/-! ## Characters

All that a number may not run into lies between `0` and `z`, and none of the
characters with a meaning of their own does. -/

theorem isDigit_iff {c : Char} : isDigit c = true ↔ 48 ≤ c.toNat ∧ c.toNat ≤ 57 := by
  simp only [isDigit, Bool.and_eq_true, decide_eq_true_eq, Char.le_def, UInt32.le_iff_toNat_le]
  exact Iff.rfl

theorem isWordChar_of_toNat {c : Char} (h : 48 ≤ c.toNat) (h' : c.toNat ≤ 122) :
    isWordChar c = true := by
  have hb : isBlank c = false := by
    simp [isBlank, Text.inRanges, Text.blankRanges]
    omega
  have hne (d : Char) (hd : d.toNat < 48) : c ≠ d := by
    rintro rfl
    omega
  simp [isWordChar, hb, hne '(' (by decide), hne ')' (by decide), hne ',' (by decide),
    hne '"' (by decide)]

theorem isWordChar_of_joinsNumber {c : Char} (h : joinsNumber c = true) :
    isWordChar c = true := by
  simp only [joinsNumber, Bool.or_eq_true, Bool.and_eq_true, decide_eq_true_eq, isDigit_iff,
    Char.le_def, UInt32.le_iff_toNat_le] at h
  rcases h with ((h | h) | h) | rfl
  · exact isWordChar_of_toNat h.1 (by omega)
  · exact isWordChar_of_toNat (Nat.le_trans (by decide) h.1) h.2
  · exact isWordChar_of_toNat (Nat.le_trans (by decide) h.1) (Nat.le_trans h.2 (by decide))
  · decide

theorem joinsNumber_of_isDigit {c : Char} (h : isDigit c = true) : joinsNumber c = true := by
  simp [joinsNumber, h]

theorem isWordChar_of_isDigit {c : Char} (h : isDigit c = true) : isWordChar c = true :=
  isWordChar_of_joinsNumber (joinsNumber_of_isDigit h)

theorem not_blank_of_isWordChar {c : Char} (h : isWordChar c = true) : isBlank c = false := by
  simp only [isWordChar, Bool.and_eq_true, Bool.not_eq_true'] at h
  exact h.1.1.1.1

/-! ## Runs

A run of characters with a property ends where the property does. -/

/-- The property does not hold of the next character. -/
def stops (p : Char → Bool) : List Char → Prop
  | [] => True
  | c :: _ => p c = false

theorem endsNumber_iff {cs : List Char} : endsNumber cs = true ↔ stops joinsNumber cs := by
  cases cs with
  | nil => simp [endsNumber, stops]
  | cons c cs => simp [endsNumber, stops]

theorem stops_mono {p q : Char → Bool} (h : ∀ c, p c = true → q c = true) {cs : List Char}
    (hs : stops q cs) : stops p cs := by
  cases cs with
  | nil => trivial
  | cons c cs => exact Bool.eq_false_iff.mpr fun hp => Bool.eq_false_iff.mp hs (h c hp)

theorem stops_dropWhile (p : Char → Bool) (cs : List Char) : stops p (cs.dropWhile p) := by
  induction cs with
  | nil => trivial
  | cons c cs ih =>
    rw [List.dropWhile_cons]
    split
    · exact ih
    · next hc => exact Bool.eq_false_iff.mpr hc

theorem takeWhile_run {p : Char → Bool} {run rest : List Char} (hr : ∀ c ∈ run, p c = true)
    (hs : stops p rest) : (run ++ rest).takeWhile p = run := by
  rw [List.takeWhile_append_of_pos hr]
  cases rest with
  | nil => simp
  | cons c rest => rw [List.takeWhile_cons_of_neg (Bool.eq_false_iff.mp hs), List.append_nil]

theorem dropWhile_run {p : Char → Bool} {run rest : List Char} (hr : ∀ c ∈ run, p c = true)
    (hs : stops p rest) : (run ++ rest).dropWhile p = rest := by
  rw [List.dropWhile_append_of_pos hr]
  cases rest with
  | nil => rfl
  | cons c rest => rw [List.dropWhile_cons_of_neg (Bool.eq_false_iff.mp hs)]

theorem mem_takeWhile {p : Char → Bool} {cs : List Char} {c : Char} (h : c ∈ cs.takeWhile p) :
    p c = true :=
  List.all_eq_true.mp List.all_takeWhile c h

/-! ## Numbers at the beginning of a text -/

theorem startsNumber_iff {cs : List Char} : startsNumber cs = true ↔ BeginsWithNumber cs := by
  simp only [startsNumber, Bool.and_eq_true, Bool.not_eq_true', List.isEmpty_eq_false_iff]
  constructor
  · rintro ⟨hd, he⟩
    exact ⟨_, _, List.takeWhile_append_dropWhile.symm, hd, fun _ => mem_takeWhile, he⟩
  · rintro ⟨ds, rest, rfl, hd, hds, he⟩
    have hs : stops isDigit rest :=
      stops_mono (fun _ => joinsNumber_of_isDigit) (endsNumber_iff.mp he)
    rw [takeWhile_run hds hs, dropWhile_run hds hs]
    exact ⟨hd, he⟩

/-- Behind a word that has ended, no text changes whether it begins with a
number. -/
theorem beginsWithNumber_append {name rest : List Char} (hn : ∀ c ∈ name, isWordChar c = true)
    (hs : stops isWordChar rest) :
    BeginsWithNumber (name ++ rest) ↔ BeginsWithNumber name := by
  have hj : stops joinsNumber rest := stops_mono (fun _ => isWordChar_of_joinsNumber) hs
  constructor
  · rintro ⟨ds, r, h, hd, hds, he⟩
    rcases List.append_eq_append_iff.mp h with ⟨ds', rfl, hr⟩ | ⟨r', rfl, rfl⟩
    · cases ds' with
      | nil => exact ⟨name, [], by simp, by simpa using hd, by simpa using hds, rfl⟩
      | cons d ds' =>
        -- the run of digits would go on into what ends the word
        have hdig : isDigit d = true := hds d (by simp)
        rw [hr] at hs
        exact absurd (isWordChar_of_isDigit hdig) (Bool.eq_false_iff.mp hs)
    · refine ⟨ds, r', rfl, hd, hds, ?_⟩
      cases r' with
      | nil => rfl
      | cons c r' => exact he
  · rintro ⟨ds, r, rfl, hd, hds, he⟩
    refine ⟨ds, r ++ rest, List.append_assoc .., hd, hds, ?_⟩
    cases r with
    | nil => exact endsNumber_iff.mpr hj
    | cons c r => exact he

/-! ## Layout

`skipLayout true` is `skipLayout false` behind a `#` that has been read, so
each fact about both is one fact about the text with that `#` put back. -/

theorem layout_head {c : Char} {cs : List Char} (h : Layout (c :: cs)) :
    isBlank c = true ∨ c = '#' := by
  cases h with
  | blank hb _ => exact Or.inl hb
  | comment _ _ => exact Or.inr rfl

theorem lastLayout_head {c : Char} {cs : List Char} (h : LastLayout (c :: cs)) :
    isBlank c = true ∨ c = '#' := by
  generalize hd : c :: cs = ds at h
  cases h with
  | ended hl => exact layout_head (hd ▸ hl)
  | @opened l body hl hn =>
    cases l with
    | nil =>
      cases hd
      exact Or.inr rfl
    | cons d l =>
      cases hd
      exact layout_head hl

/-- A comment may be longer. -/
theorem layout_comment_cons {c : Char} {cs : List Char} (hc : c ≠ '\n')
    (h : Layout ('#' :: cs)) : Layout ('#' :: c :: cs) := by
  generalize hd : '#' :: cs = ds at h
  cases h with
  | nil => cases hd
  | blank hb _ =>
    cases hd
    exact absurd hb (by decide)
  | comment hn hl =>
    cases hd
    rw [← List.cons_append]
    exact .comment (by simpa [Ne.symm hc] using hn) hl

/-- An open comment may be longer. -/
theorem lastLayout_comment_cons {c : Char} {cs : List Char} (hc : c ≠ '\n')
    (h : LastLayout ('#' :: cs)) : LastLayout ('#' :: c :: cs) := by
  generalize hd : '#' :: cs = ds at h
  cases h with
  | ended hl =>
    subst hd
    exact .ended (layout_comment_cons hc hl)
  | @opened l body hl hn =>
    cases l with
    | nil =>
      cases hd
      exact @LastLayout.opened [] _ .nil (by simpa [Ne.symm hc] using hn)
    | cons d l =>
      obtain ⟨rfl, rfl⟩ := List.cons.inj hd
      exact .opened (layout_comment_cons hc hl) hn

theorem lastLayout_blank_cons {c : Char} {cs : List Char} (hc : isBlank c = true)
    (h : LastLayout cs) : LastLayout (c :: cs) := by
  cases h with
  | ended hl => exact .ended (.blank hc hl)
  | opened hl hn => exact .opened (.blank hc hl) hn

theorem lastLayout_line {cs : List Char} (h : LastLayout cs) :
    LastLayout ('#' :: '\n' :: cs) := by
  cases h with
  | ended hl => exact .ended (@Layout.comment [] _ (by simp) hl)
  | opened hl hn => exact .opened (@Layout.comment [] _ (by simp) hl) hn

theorem skipLayout_of_not_layout {c : Char} (cs : List Char) (hb : isBlank c = false)
    (hc : c ≠ '#') : skipLayout false (c :: cs) = c :: cs := by
  simp [skipLayout, hb, hc]

theorem skipLayout_body {body : List Char} (cs : List Char) (h : '\n' ∉ body) :
    skipLayout true (body ++ '\n' :: cs) = skipLayout false cs := by
  induction body with
  | nil => simp [skipLayout]
  | cons c body ih =>
    rw [List.mem_cons, not_or] at h
    obtain ⟨hc, hb⟩ := h
    simpa [skipLayout, Ne.symm hc] using ih hb

theorem skipLayout_open {body : List Char} (h : '\n' ∉ body) : skipLayout true body = [] := by
  induction body with
  | nil => rfl
  | cons c body ih =>
    rw [List.mem_cons, not_or] at h
    obtain ⟨hc, hb⟩ := h
    simpa [skipLayout, Ne.symm hc] using ih hb

theorem skipLayout_append {l : List Char} (cs : List Char) (h : Layout l) :
    skipLayout false (l ++ cs) = skipLayout false cs := by
  induction h with
  | nil => rfl
  | blank hb _ ih => simpa [skipLayout, hb] using ih
  | comment hn _ ih =>
    have hh : isBlank '#' = false := by decide
    simpa [skipLayout, hh, skipLayout_body _ hn] using ih

theorem skipLayout_last {cs : List Char} (h : LastLayout cs) : skipLayout false cs = [] := by
  cases h with
  | ended hl => simpa [skipLayout] using skipLayout_append [] hl
  | opened hl hn =>
    have hh : isBlank '#' = false := by decide
    rw [skipLayout_append _ hl]
    simpa [skipLayout, hh] using skipLayout_open hn

/-- What is skipped before a piece is layout. -/
theorem skipLayout_eq_cons {comment : Bool} {cs rest : List Char} {c : Char}
    (h : skipLayout comment cs = c :: rest) :
    c ≠ '#' ∧ ∃ l, cs = l ++ c :: rest ∧ Layout (if comment then '#' :: l else l) := by
  induction cs generalizing comment with
  | nil => simp [skipLayout] at h
  | cons d ds ih =>
    unfold skipLayout at h
    split at h
    · next hcomment =>
      obtain ⟨hc, l, rfl, hl⟩ := ih h
      refine ⟨hc, d :: l, rfl, ?_⟩
      rw [if_pos hcomment]
      by_cases hd : d = '\n'
      · subst hd
        exact @Layout.comment [] _ (by simp) (by simpa using hl)
      · exact layout_comment_cons hd (by simpa [hd] using hl)
    · next hcomment =>
      simp only [if_neg hcomment]
      split at h
      · next hb =>
        obtain ⟨hc, l, rfl, hl⟩ := ih h
        exact ⟨hc, d :: l, rfl, .blank hb (by simpa using hl)⟩
      · split at h
        · next hd =>
          obtain ⟨hc, l, rfl, hl⟩ := ih h
          exact ⟨hc, d :: l, rfl, by simpa [hd] using hl⟩
        · next hd =>
          cases h
          exact ⟨hd, [], rfl, .nil⟩

/-- A source of which nothing is left after layout is layout. -/
theorem skipLayout_eq_nil {comment : Bool} {cs : List Char} (h : skipLayout comment cs = []) :
    LastLayout (if comment then '#' :: cs else cs) := by
  induction cs generalizing comment with
  | nil =>
    cases comment with
    | true => exact @LastLayout.opened [] _ .nil (by simp)
    | false => exact .ended .nil
  | cons d ds ih =>
    unfold skipLayout at h
    split at h
    · next hcomment =>
      have hl := ih h
      rw [if_pos hcomment]
      by_cases hd : d = '\n'
      · subst hd
        exact lastLayout_line (by simpa using hl)
      · exact lastLayout_comment_cons hd (by simpa [hd] using hl)
    · next hcomment =>
      rw [if_neg hcomment]
      split at h
      · next hb => exact lastLayout_blank_cons hb (by simpa using ih h)
      · split at h
        · next hd => simpa [hd] using ih h
        · cases h

/-! ## Spellings -/

/-- The text, if `rest` follows it, is the piece. -/
inductive Spells : Token → (text rest : List Char) → Prop
  | text {s rest : List Char} : '"' ∉ s → Spells (.text s) ('"' :: (s ++ ['"'])) rest
  | number {ds rest : List Char} : ds ≠ [] → (∀ d ∈ ds, isDigit d = true) →
      endsNumber rest = true → Spells (.number ds) ds rest
  | word {name rest : List Char} : IsName name → stops isWordChar rest →
      Spells (.word name) name rest
  | opening {rest : List Char} : Spells .opening ['('] rest
  | closing {rest : List Char} : Spells .closing [')'] rest
  | comma {rest : List Char} : Spells .comma [','] rest
  | loneQuote {rest : List Char} : '"' ∉ rest → Spells .loneQuote ['"'] rest

theorem scanText_spells (cs : List Char) :
    ∃ text, '"' :: cs = text ++ (scanText cs).2 ∧ Spells (scanText cs).1 text (scanText cs).2 := by
  have hsplit := @List.takeWhile_append_dropWhile _ (· ≠ '"') cs
  have hno : '"' ∉ cs.takeWhile (· ≠ '"') := fun h => by simpa using mem_takeWhile h
  have hstop := stops_dropWhile (· ≠ '"') cs
  unfold scanText
  generalize cs.takeWhile (· ≠ '"') = s at hsplit hno
  generalize cs.dropWhile (· ≠ '"') = d at hsplit hstop
  subst hsplit
  cases d with
  | nil => exact ⟨['"'], rfl, .loneQuote (by simpa using hno)⟩
  | cons c rest =>
    have hc : c = '"' := by simpa [stops] using hstop
    subst hc
    exact ⟨'"' :: (s ++ ['"']), by simp, .text hno⟩

theorem scanAtom_spells {c : Char} (cs : List Char) (hw : isWordChar c = true) (hc : c ≠ '#') :
    ∃ text, c :: cs = text ++ (scanAtom (c :: cs)).2 ∧
      Spells (scanAtom (c :: cs)).1 text (scanAtom (c :: cs)).2 := by
  unfold scanAtom
  split
  · next hn =>
    simp only [startsNumber, Bool.and_eq_true, Bool.not_eq_true', List.isEmpty_eq_false_iff] at hn
    exact ⟨_, List.takeWhile_append_dropWhile.symm, .number hn.1 (fun _ => mem_takeWhile) hn.2⟩
  · next hn =>
    have hsplit := @List.takeWhile_append_dropWhile _ isWordChar (c :: cs)
    have hstop := stops_dropWhile isWordChar (c :: cs)
    refine ⟨_, hsplit.symm, .word ⟨?_, fun _ => mem_takeWhile, ?_, ?_⟩ hstop⟩
    · simp [hw]
    · simpa [hw] using hc
    · rw [← beginsWithNumber_append (fun _ => mem_takeWhile) hstop, hsplit, ← startsNumber_iff]
      exact hn

/-- The scanner finds a spelling. -/
theorem scan_spells {c : Char} (cs : List Char) (hb : isBlank c = false) (hc : c ≠ '#') :
    ∃ text, c :: cs = text ++ (scan c cs).2 ∧ Spells (scan c cs).1 text (scan c cs).2 := by
  unfold scan
  split
  · next h => exact h ▸ scanText_spells cs
  · split
    · next h => exact ⟨['('], by simp [h], .opening⟩
    · split
      · next h => exact ⟨[')'], by simp [h], .closing⟩
      · split
        · next h => exact ⟨[','], by simp [h], .comma⟩
        · exact scanAtom_spells cs (by simp_all [isWordChar]) hc

theorem scan_of_isWordChar {c : Char} (cs : List Char) (hw : isWordChar c = true) :
    scan c cs = scanAtom (c :: cs) := by
  simp only [isWordChar, Bool.and_eq_true, decide_eq_true_eq] at hw
  obtain ⟨⟨⟨⟨_, ho⟩, hc⟩, hm⟩, hq⟩ := hw
  rw [scan, if_neg hq, if_neg ho, if_neg hc, if_neg hm]

/-- A spelling begins with a character that is neither blank nor a comment,
and the scanner finds it there. -/
theorem spells_scan {token : Token} {text rest : List Char} (h : Spells token text rest) :
    ∃ c cs, text ++ rest = c :: cs ∧ isBlank c = false ∧ c ≠ '#' ∧ scan c cs = (token, rest) := by
  cases h with
  | @text s _ hs =>
    have hp : ∀ c ∈ s, (c ≠ '"' : Bool) = true := fun c hc => by
      simpa using fun e : c = '"' => hs (e ▸ hc)
    have hstop : stops (· ≠ '"') ('"' :: rest) := by simp [stops]
    refine ⟨'"', s ++ '"' :: rest, by simp, by decide, by decide, ?_⟩
    simp only [scan, if_true, scanText, takeWhile_run hp hstop, dropWhile_run hp hstop]
  | number hne hd he =>
    cases text with
    | nil => exact absurd rfl hne
    | cons c ds =>
      have hstop : stops isDigit rest :=
        stops_mono (fun _ => joinsNumber_of_isDigit) (endsNumber_iff.mp he)
      have hw : isWordChar c = true := isWordChar_of_isDigit (hd c (by simp))
      have hn : startsNumber (c :: ds ++ rest) = true :=
        startsNumber_iff.mpr ⟨c :: ds, rest, rfl, hne, hd, he⟩
      refine ⟨c, ds ++ rest, rfl, not_blank_of_isWordChar hw, ?_, ?_⟩
      · rintro rfl
        exact absurd (hd '#' (by simp)) (by decide)
      · rw [scan_of_isWordChar _ hw, ← List.cons_append, scanAtom, if_pos hn,
          takeWhile_run hd hstop, dropWhile_run hd hstop]
  | word hname hstop =>
    cases text with
    | nil => exact absurd rfl hname.ne_nil
    | cons c name =>
      have hw : isWordChar c = true := hname.chars c (by simp)
      have hn : ¬ startsNumber (c :: name ++ rest) = true := by
        rw [startsNumber_iff, beginsWithNumber_append hname.chars hstop]
        exact hname.no_number
      refine ⟨c, name ++ rest, rfl, not_blank_of_isWordChar hw, ?_, ?_⟩
      · simpa using hname.no_comment
      · rw [scan_of_isWordChar _ hw, ← List.cons_append, scanAtom, if_neg hn,
          takeWhile_run hname.chars hstop, dropWhile_run hname.chars hstop]
  | opening => exact ⟨'(', rest, rfl, by decide, by decide, rfl⟩
  | closing => exact ⟨')', rest, rfl, by decide, by decide, rfl⟩
  | comma => exact ⟨',', rest, rfl, by decide, by decide, rfl⟩
  | loneQuote hr =>
    have hp : ∀ c ∈ rest, (c ≠ '"' : Bool) = true := fun c hc => by
      simpa using fun e : c = '"' => hr (e ▸ hc)
    have hd : rest.dropWhile (· ≠ '"') = [] := by
      simpa using @dropWhile_run (· ≠ '"') rest [] hp trivial
    exact ⟨'"', rest, rfl, by decide, by decide, by simp only [scan, if_true, scanText, hd]⟩

/-! ## The pieces of a source -/

theorem lexemes_eq_nil {cs : List Char} (h : skipLayout false cs = []) : lexemes cs = [] := by
  rw [lexemes]
  split
  · rfl
  · next heq => rw [h] at heq; cases heq

theorem lexemes_eq_cons {cs rest : List Char} {c : Char} (h : skipLayout false cs = c :: rest) :
    lexemes cs = ⟨(scan c rest).1, c :: rest⟩ :: lexemes (scan c rest).2 := by
  rw [lexemes]
  split
  · next heq => rw [h] at heq; cases heq
  · next heq => rw [h] at heq; cases heq; rfl

/-- Layout in front of a source changes no piece. -/
theorem lexemes_layout {l : List Char} (cs : List Char) (h : Layout l) :
    lexemes (l ++ cs) = lexemes cs := by
  have hskip := skipLayout_append cs h
  cases hs : skipLayout false cs with
  | nil => rw [lexemes_eq_nil (hskip.trans hs), lexemes_eq_nil hs]
  | cons c rest => rw [lexemes_eq_cons (hskip.trans hs), lexemes_eq_cons hs]

/-- Layout has no pieces. -/
theorem lexemes_last {cs : List Char} (h : LastLayout cs) : lexemes cs = [] :=
  lexemes_eq_nil (skipLayout_last h)

/-- A source that begins with layout and a spelling has that piece first. -/
theorem lexemes_piece {token : Token} {l text rest : List Char} (hl : Layout l)
    (h : Spells token text rest) :
    lexemes (l ++ (text ++ rest)) = ⟨token, text ++ rest⟩ :: lexemes rest := by
  obtain ⟨c, cs, heq, hb, hc, hscan⟩ := spells_scan h
  rw [lexemes_layout _ hl, heq, lexemes_eq_cons (skipLayout_of_not_layout cs hb hc), hscan]

/-- Every source is layout, or layout and a spelling and another source. -/
theorem source_cases (cs : List Char) :
    LastLayout cs ∨ ∃ l token text rest, cs = l ++ (text ++ rest) ∧ Layout l ∧
      Spells token text rest := by
  cases hs : skipLayout false cs with
  | nil => exact Or.inl (by simpa using skipLayout_eq_nil hs)
  | cons c rest =>
    obtain ⟨hc, l, hcs, hl⟩ := skipLayout_eq_cons hs
    obtain ⟨text, htext, hsp⟩ := scan_spells rest (skipLayout_head hs) hc
    exact Or.inr ⟨l, _, text, _, by rw [hcs, htext], by simpa using hl, hsp⟩

theorem spells_ne_nil {token : Token} {text rest : List Char} (h : Spells token text rest) :
    text ≠ [] := by
  cases h with
  | number hne _ _ => exact hne
  | word hname _ => exact hname.ne_nil
  | _ => simp

/-- Induction over a source, piece by piece. -/
theorem source_induction {motive : List Char → Prop}
    (last : ∀ cs, LastLayout cs → motive cs)
    (piece : ∀ l token text rest, Layout l → Spells token text rest → motive rest →
      motive (l ++ (text ++ rest)))
    (cs : List Char) : motive cs := by
  induction hn : cs.length using Nat.strongRecOn generalizing cs with
  | ind n ih =>
    rcases source_cases cs with hlast | ⟨l, token, text, rest, rfl, hl, hsp⟩
    · exact last cs hlast
    · have htext := List.length_pos_iff.mpr (spells_ne_nil hsp)
      rw [List.length_append, List.length_append] at hn
      exact piece l token text rest hl hsp (ih rest.length (by omega) rest rfl)

end EggLang.Token
