/-
# `EggLang.Proofs.Text.Location` — line and column locate an offset

The line of an offset is found by counting line ends before it, its column by
looking back for the last of them.  These are two passes over one text, and they
have to agree with a third, which cuts the text into its lines:

    the line     is one that the text has
    the column   is in this line, or one behind its last character
    the offset   is the characters of the lines before, each with its line
                 end, and those before the column

so that line and column together give the offset back (`place_locates`).

The text before an offset is either the beginning of the first line, or it is a
text `above`, a line end, and the beginning of a line (`lineBefore`).  In the
second case the lines of the whole text are those of `above` and those of the
rest, so the lines before the offset are exactly the lines of `above`.
-/
import EggLang.Proofs.Source.Refusal
import Mathlib.Algebra.Ring.Nat
import Mathlib.Data.List.Basic

namespace EggLang

namespace Text

/-- The lines of a text, without their ends.  There is always one. -/
def linesOf (cs : List Char) : List (List Char) := cs.splitOn '\n'

/-- How many characters lines have, with a line end behind each. -/
def widthOf (lines : List (List Char)) : Nat := (lines.map fun l => l.length + 1).sum

/-- The place is in one of the lines, or right behind its last character, and its
offset is what it should be there. -/
structure Place.Locates (lines : List (List Char)) (p : Place) : Prop where
  line_pos : 1 ≤ p.line
  line_le : p.line ≤ lines.length
  column_pos : 1 ≤ p.column
  column_le : ∃ l, lines[p.line - 1]? = some l ∧ p.column ≤ l.length + 1
  offset_eq : widthOf (lines.take (p.line - 1)) + (p.column - 1) = p.offset

/-! ## Lines -/

theorem linesOf_cons (c : Char) (cs : List Char) :
    linesOf (c :: cs) =
      if c = '\n' then [] :: linesOf cs else (linesOf cs).modifyHead (c :: ·) := by
  unfold linesOf
  rw [List.splitOn_cons_eq_if_modifyHead]
  simp only [beq_iff_eq]

/-- A text has one line more than it has line ends. -/
theorem length_linesOf (cs : List Char) : (linesOf cs).length = cs.count '\n' + 1 := by
  induction cs with
  | nil => rfl
  | cons c cs ih =>
    rw [linesOf_cons, List.count_cons]
    split
    · next hc => simp [hc, ih]
    · next hc => simp [hc, ih]

/-- The lines with their ends have one character more than the text, as the last
one has no end. -/
theorem widthOf_linesOf (cs : List Char) : widthOf (linesOf cs) = cs.length + 1 := by
  induction cs with
  | nil => rfl
  | cons c cs ih =>
    rw [linesOf_cons, List.length_cons]
    split
    · rw [← ih]
      simp only [widthOf, List.map_cons, List.sum_cons, List.length_nil]
      omega
    · cases hlines : linesOf cs with
      | nil => exact absurd hlines (List.splitOn_ne_nil _ _)
      | cons l lines =>
        rw [hlines] at ih
        rw [← ih]
        simp only [widthOf, List.modifyHead_cons, List.map_cons, List.sum_cons, List.length_cons]
        omega

theorem linesOf_append_line (above below : List Char) :
    linesOf (above ++ '\n' :: below) = linesOf above ++ linesOf below :=
  List.splitOn_append_cons_self above below

/-- What has no line end begins the first line. -/
theorem linesOf_append {line : List Char} (below : List Char) (hline : '\n' ∉ line) :
    ∃ l lines, linesOf (line ++ below) = (line ++ l) :: lines := by
  induction line with
  | nil =>
    cases hlines : linesOf below with
    | nil => exact absurd hlines (List.splitOn_ne_nil _ _)
    | cons l lines => exact ⟨l, lines, hlines⟩
  | cons c line ih =>
    have hc : c ≠ '\n' := by
      rintro rfl
      exact hline List.mem_cons_self
    obtain ⟨l, lines, hlines⟩ := ih fun h => hline (List.mem_cons_of_mem c h)
    refine ⟨l, lines, ?_⟩
    rw [List.cons_append, linesOf_cons, if_neg hc, hlines]
    rfl

/-! ## The line that a text ends in -/

theorem not_mem_lastLine (cs : List Char) : '\n' ∉ lastLine cs := by
  intro h
  have hline := Token.mem_takeWhile (List.mem_reverse.mp h)
  exact absurd hline (by decide)

/-- A text is one line, or its last line follows a line end. -/
theorem lastLine_or_append (cs : List Char) :
    cs = lastLine cs ∨ ∃ above, cs = above ++ '\n' :: lastLine cs := by
  have hparts : cs = (cs.reverse.dropWhile (· ≠ '\n')).reverse ++ lastLine cs := by
    unfold lastLine
    rw [← List.reverse_append, List.takeWhile_append_dropWhile, List.reverse_reverse]
  cases hrest : cs.reverse.dropWhile (· ≠ '\n') with
  | nil =>
    rw [hrest] at hparts
    exact Or.inl hparts
  | cons c rest =>
    have hc : c = '\n' := by
      have hstops := Token.stops_dropWhile (· ≠ '\n') cs.reverse
      rw [hrest] at hstops
      simpa [Token.stops] using hstops
    subst hc
    refine Or.inr ⟨rest.reverse, ?_⟩
    rw [hrest, List.reverse_cons, List.append_assoc] at hparts
    exact hparts

/-! ## Places -/

/-- The lines of a text, told apart at the end of a beginning of it: those before
the last line of the beginning, the line that goes on from it, and the others. -/
theorem linesOf_at (before after : List Char) :
    ∃ upper rest lower, linesOf (before ++ after) = upper ++ (lastLine before ++ rest) :: lower ∧
      upper.length = before.count '\n' ∧
      widthOf upper + (lastLine before).length = before.length := by
  obtain ⟨rest, lower, hlines⟩ := linesOf_append after (not_mem_lastLine before)
  have hnone : (lastLine before).count '\n' = 0 := List.count_eq_zero.mpr (not_mem_lastLine before)
  rcases lastLine_or_append before with hbefore | ⟨above, hbefore⟩
  · refine ⟨[], rest, lower, ?_, ?_, ?_⟩
    · rw [← hlines, ← hbefore]
      rfl
    · rw [hbefore, hnone]
      rfl
    · rw [← hbefore]
      exact Nat.zero_add _
  · refine ⟨linesOf above, rest, lower, ?_, ?_, ?_⟩
    · rw [← hlines, ← linesOf_append_line, ← List.cons_append, ← List.append_assoc, ← hbefore]
    · rw [hbefore, List.count_append, List.count_cons_self, hnone, length_linesOf]
    · have hlength := congrArg List.length hbefore
      rw [List.length_append, List.length_cons] at hlength
      rw [widthOf_linesOf]
      omega

theorem locates_of_lines (upper lower : List (List Char)) (line rest : List Char) :
    Place.Locates (upper ++ (line ++ rest) :: lower)
      ⟨widthOf upper + line.length, upper.length + 1, line.length + 1⟩ where
  line_pos := Nat.le_add_left 1 _
  line_le := by simp
  column_pos := Nat.le_add_left 1 _
  column_le := ⟨line ++ rest, by simp, by simp⟩
  offset_eq := by simp

/-- The place of an offset is where the offset is. -/
theorem locates_ofOffset {cs : List Char} {offset : Nat} (h : offset ≤ cs.length) :
    Place.Locates (linesOf cs) (Place.ofOffset cs offset) := by
  obtain ⟨upper, rest, lower, hlines, hcount, hwidth⟩ :=
    linesOf_at (cs.take offset) (cs.drop offset)
  rw [List.take_append_drop] at hlines
  rw [List.length_take, Nat.min_eq_left h] at hwidth
  have hplace : Place.ofOffset cs offset = ⟨widthOf upper + (lastLine (cs.take offset)).length,
      upper.length + 1, (lastLine (cs.take offset)).length + 1⟩ := by
    rw [hwidth, hcount]
    rfl
  rw [hlines, hplace]
  exact locates_of_lines upper lower _ rest

/-- A line and a column are the place of one offset. -/
theorem Place.Locates.offset_unique {lines : List (List Char)} {p q : Place}
    (hp : p.Locates lines) (hq : q.Locates lines) (hline : p.line = q.line)
    (hcolumn : p.column = q.column) : p.offset = q.offset := by
  rw [← hp.offset_eq, ← hq.offset_eq, hline, hcolumn]

end Text

/-! ## Places of syntax errors -/

namespace Expr

open Text (Place linesOf)

/-- A source that is refused with a syntax error is refused at a place in it. -/
theorem read_syntactic {limit : Nat} {s : String} {f : Fault} (h : read limit s = .error f)
    (hf : f.family = .syntactic) :
    ∃ offset problem, offset ≤ s.length ∧
      f = .unreadable (Place.ofOffset s.toList offset) problem := by
  obtain ⟨stop, left, hrun, rfl⟩ := read_eq_error h
  cases stop with
  | tooDeep => cases hf
  | problem p =>
    have hinitial : Reading.initial.Proper := rfl
    obtain ⟨before, _, hs, -⟩ := Reading.run_halts hinitial hrun
    refine ⟨before.length, p, ?_, ?_⟩
    · rw [← String.length_toList, hs, List.length_append]
      exact Nat.le_add_right _ _
    · rw [Reading.Stop.fault, hs, List.length_append, Nat.add_sub_cancel]

/-- Every offset into a text, its end included, has a place on one of the text's
lines, from which it can be counted again, so that no two offsets have the same
line and column.  And every syntax error that reading finds has the place of an
offset into the source. -/
theorem place_locates (s : String) :
    (∀ offset ≤ s.length, (Place.ofOffset s.toList offset).offset = offset ∧
      (Place.ofOffset s.toList offset).Locates (linesOf s.toList)) ∧
    (∀ offset ≤ s.length, ∀ offset' ≤ s.length,
      (Place.ofOffset s.toList offset).line = (Place.ofOffset s.toList offset').line →
      (Place.ofOffset s.toList offset).column = (Place.ofOffset s.toList offset').column →
      offset = offset') ∧
    (∀ limit f, read limit s = .error f → f.family = .syntactic →
      ∃ offset problem, offset ≤ s.length ∧
        f = .unreadable (Place.ofOffset s.toList offset) problem) := by
  have hlocates : ∀ offset ≤ s.length,
      (Place.ofOffset s.toList offset).Locates (linesOf s.toList) := by
    intro offset h
    rw [← String.length_toList] at h
    exact Text.locates_ofOffset h
  refine ⟨?_, ?_, ?_⟩
  · intro offset h
    exact ⟨rfl, hlocates offset h⟩
  · intro offset h offset' h' hline hcolumn
    exact (hlocates offset h).offset_unique (hlocates offset' h') hline hcolumn
  · intro limit f h hf
    exact read_syntactic h hf

/-- A comma is missing on the third line, of which the second is empty. -/
theorem place_locates_third_line :
    let place : Place := ⟨9, 3, 4⟩
    read 2 "f(a,\n\n b c" = .error (.unreadable place .unclosed) ∧
    linesOf "f(a,\n\n b c".toList = ["f(a,".toList, [], " b c".toList] ∧
    place.Locates (linesOf "f(a,\n\n b c".toList) := by
  intro place
  have h : read 2 "f(a,\n\n b c" = .error (.unreadable place .unclosed) := by
    with_unfolding_all rfl
  obtain ⟨hlocates, -, hread⟩ := place_locates "f(a,\n\n b c"
  obtain ⟨offset, problem, hoffset, hfault⟩ := hread 2 _ h rfl
  obtain ⟨hplace, -⟩ := Fault.unreadable.inj hfault
  exact ⟨h, by decide +kernel, hplace ▸ (hlocates offset hoffset).2⟩

end Expr

end EggLang
