/-
# `EggLang.Proofs.Source.Refusal` — a source is refused where it goes wrong

The reader refuses a source at the first piece that no program can have there,
neither later nor earlier:

    before the place   the source can still become a program: a new line, an
                       expression if one is missing, and enough `)` do
    at the place       the source cannot be saved: with the character there
                       it is refused at the same place whatever follows

The second half has two exceptions, pieces that are refused for what comes
after their first character: a number that is too long, and a double quote
that has no partner.

Both halves come from one lemma about the reader in the middle of a source
(`run_halts`): up to the place, it goes through the same states if the source
goes on in another way, as long as no piece before the place notices.  That is
so if a new line begins there, or if the character at the place stays
(`Replaces`), because all that a piece can see of the text behind it is one
character.
-/
import EggLang.Proofs.Source.Acceptance

namespace EggLang

open Grammar

/-- What can stand at the place of a problem, on a new line: an expression if
one is missing there. -/
def ReadProblem.remedy : ReadProblem → List Char
  | .unexpected _ => ['\n', 'x']
  | .literalTooLong _ => ['\n', 'x']
  | .unclosed => ['\n']
  | .afterProgram => ['\n']

/-! ## Another text behind a piece -/

namespace Token

open Text (isBlank)

/-- The second text can stand where the first one stood, and no piece before
it notices. -/
inductive Replaces : List Char → List Char → Prop
  | line {left rest : List Char} : Replaces left ('\n' :: rest)
  | same {c : Char} {left rest : List Char} : Replaces (c :: left) (c :: rest)

theorem stops_replaces {p : Char → Bool} {mid left rest : List Char} (hp : p '\n' = false)
    (hr : Replaces left rest) : stops p (mid ++ left) → stops p (mid ++ rest) := by
  intro h
  cases mid with
  | cons c mid => exact h
  | nil =>
    cases hr with
    | line => exact hp
    | same => exact h

/-- A piece stays what it is.  Only the lone quote looks at all of the text
behind it. -/
theorem Spells.replaces {token : Token} {text mid left rest : List Char}
    (h : Spells token text (mid ++ left)) (ht : token ≠ .loneQuote) (hr : Replaces left rest) :
    Spells token text (mid ++ rest) := by
  cases h with
  | text hs => exact .text hs
  | number hne hd he =>
    have hstops := stops_replaces (by decide) hr (endsNumber_iff.mp he)
    exact .number hne hd (endsNumber_iff.mpr hstops)
  | word hname hstops => exact .word hname (stops_replaces (by decide) hr hstops)
  | opening => exact .opening
  | closing => exact .closing
  | comma => exact .comma
  | loneQuote _ => exact absurd rfl ht

theorem layout_append {l l' : List Char} (h : Layout l) (h' : Layout l') : Layout (l ++ l') := by
  induction h with
  | nil => exact h'
  | blank hb _ ih => exact .blank hb ih
  | comment hn _ ih =>
    rw [List.cons_append, List.append_assoc]
    exact .comment hn ih

/-- A line end closes the comment that layout may have left open. -/
theorem layout_last_line {cs : List Char} (h : LastLayout cs) : Layout (cs ++ ['\n']) := by
  cases h with
  | ended hl => exact layout_append hl (.blank (by decide) .nil)
  | opened hl hn =>
    rw [List.append_assoc]
    exact layout_append hl (.comment hn .nil)

theorem lexemes_last_line {cs : List Char} (h : LastLayout cs) (rest : List Char) :
    lexemes (cs ++ '\n' :: rest) = lexemes rest := by
  rw [List.append_cons, lexemes_layout rest (layout_last_line h)]

theorem lexemes_line (rest : List Char) : lexemes ('\n' :: rest) = lexemes rest :=
  lexemes_last_line (.ended .nil) rest

/-- The piece is one of the three marks between expressions. -/
def IsMark (token : Token) : Prop :=
  token = .opening ∨ token = .closing ∨ token = .comma

theorem scanText_not_mark (cs : List Char) : ¬ (scanText cs).1.IsMark := by
  unfold scanText
  split <;> simp [IsMark]

theorem scanAtom_not_mark (cs : List Char) : ¬ (scanAtom cs).1.IsMark := by
  unfold scanAtom
  split <;> simp [IsMark]

/-- A mark is known by its first character. -/
theorem scan_mark {c : Char} {cs : List Char} (rest : List Char) (h : (scan c cs).1.IsMark) :
    (scan c rest).1 = (scan c cs).1 := by
  unfold scan at h ⊢
  by_cases hq : c = '"'
  · rw [if_pos hq] at h
    exact absurd h (scanText_not_mark cs)
  by_cases ho : c = '('
  · simp only [if_neg hq, if_pos ho]
  by_cases hc : c = ')'
  · simp only [if_neg hq, if_neg ho, if_pos hc]
  by_cases hm : c = ','
  · simp only [if_neg hq, if_neg ho, if_neg hc, if_pos hm]
  rw [if_neg hq, if_neg ho, if_neg hc, if_neg hm] at h
  exact absurd h (scanAtom_not_mark _)

theorem scan_loneQuote {c : Char} {cs : List Char} (h : (scan c cs).1 = .loneQuote) : c = '"' := by
  unfold scan scanAtom at h
  split at h
  · assumption
  · split at h
    · cases h
    · split at h
      · cases h
      · split at h
        · cases h
        · split at h <;> cases h

/-- A character that is no layout begins a piece. -/
theorem lexemes_first {c : Char} (cs : List Char) (hb : isBlank c = false) (hc : c ≠ '#') :
    ∃ ls, lexemes (c :: cs) = ⟨(scan c cs).1, c :: cs⟩ :: ls :=
  ⟨_, lexemes_eq_cons (skipLayout_of_not_layout cs hb hc)⟩

end Token

/-! ## Refusals -/

namespace Reading

open Token (Replaces Spells lexemes scan)

/-- The stack fits the focus: at the start no list is open, and an argument
stands in an open list. -/
def Proper (r : Reading) : Prop :=
  match r.focus with
  | .start => r.stack = []
  | .argument => r.stack ≠ []
  | .done _ => True

/-- The piece is refused, with a problem. -/
inductive Refuses (limit : Nat) : Reading → Lexeme → ReadProblem → Prop
  | noExpression {stack : List Pending} {focus : Focus} {l : Lexeme} {p : ReadProblem} :
      focus.Awaits → stack.length < limit →
      (focus = .argument → l.token = .closing → stack = []) → atom l = .error p →
      Refuses limit ⟨stack, focus⟩ l p
  | afterProgram {e : Expr} {l : Lexeme} : l.token ≠ .opening →
      Refuses limit ⟨[], .done e⟩ l .afterProgram
  | unclosed {e : Expr} {q : Pending} {stack : List Pending} {l : Lexeme} :
      ¬ l.token.IsMark → Refuses limit ⟨q :: stack, .done e⟩ l .unclosed

variable {limit : Nat} {r r' : Reading}

theorem begin_eq_problem {stack : List Pending} {l : Lexeme} {p : ReadProblem}
    (h : begin limit stack l = .error (.problem p)) :
    stack.length < limit ∧ atom l = .error p := by
  unfold begin at h
  split at h
  · next hlt =>
    split at h
    · cases h
    · next hatom =>
      cases h
      exact ⟨hlt, hatom⟩
  · cases h

theorem refuses_of_step_awaits {stack : List Pending} {focus : Focus} {l : Lexeme}
    {p : ReadProblem} (hf : focus.Awaits) (h : step limit ⟨stack, focus⟩ l = .error (.problem p)) :
    Refuses limit ⟨stack, focus⟩ l p := by
  -- where a list may end, its end is no problem
  have hend : focus = .argument → l.token = .closing → stack = [] := by
    rintro rfl ht
    cases stack with
    | nil => rfl
    | cons q stack =>
      rw [step_of_moves (.none ht)] at h
      cases h
  rcases step_awaits stack l hf with hb | ⟨q, rest, rfl, rfl, ht⟩
  · rw [hb] at h
    obtain ⟨hlt, hatom⟩ := begin_eq_problem h
    exact .noExpression hf hlt hend hatom
  · cases hend rfl ht

theorem refuses_of_step_done {stack : List Pending} {e : Expr} {l : Lexeme} {p : ReadProblem}
    (h : step limit ⟨stack, .done e⟩ l = .error (.problem p)) :
    Refuses limit ⟨stack, .done e⟩ l p := by
  obtain ⟨token, tail⟩ := l
  cases stack with
  | nil =>
    cases token with
    | opening => cases h
    | _ =>
      cases h
      exact .afterProgram nofun
  | cons q stack =>
    cases token with
    | opening => cases h
    | closing => cases h
    | comma => cases h
    | _ =>
      cases h
      exact .unclosed (by simp [Token.IsMark])

theorem step_of_refuses {l : Lexeme} {p : ReadProblem} (h : Refuses limit r l p) :
    step limit r l = .error (.problem p) := by
  obtain ⟨token, tail⟩ := l
  cases h with
  | @noExpression stack focus _ _ hf hlt hend hatom =>
    rcases step_awaits stack ⟨token, tail⟩ hf with hb | ⟨_, _, rfl, rfl, ht⟩
    · rw [hb, begin, if_pos hlt, hatom]
    · cases hend rfl ht
  | afterProgram ht =>
    cases token with
    | opening => exact absurd rfl ht
    | _ => rfl
  | unclosed ht =>
    cases token with
    | opening => exact absurd (Or.inl rfl) ht
    | closing => exact absurd (Or.inr (Or.inl rfl)) ht
    | comma => exact absurd (Or.inr (Or.inr rfl)) ht
    | _ => rfl

/-- The step function finds exactly these problems. -/
theorem step_eq_problem_iff {l : Lexeme} {p : ReadProblem} :
    step limit r l = .error (.problem p) ↔ Refuses limit r l p := by
  refine ⟨fun h => ?_, step_of_refuses⟩
  obtain ⟨stack, focus⟩ := r
  cases focus with
  | start => exact refuses_of_step_awaits trivial h
  | argument => exact refuses_of_step_awaits trivial h
  | done e => exact refuses_of_step_done h

theorem atom_eq_error {token : Token} {tail : List Char} {p : ReadProblem}
    (h : atom ⟨token, tail⟩ = .error p) :
    (∃ n, p = .literalTooLong n) ∨
      (∃ shown, p = .unexpected shown) ∧ (token.IsMark ∨ token = .loneQuote) := by
  cases token with
  | text _ => cases h
  | word _ => cases h
  | number ds =>
    simp only [atom] at h
    split at h
    · cases h
    · cases h
      exact Or.inl ⟨_, rfl⟩
  | loneQuote =>
    cases h
    exact Or.inr ⟨⟨_, rfl⟩, Or.inr rfl⟩
  | _ =>
    cases h
    exact Or.inr ⟨⟨_, rfl⟩, Or.inl (by simp [Token.IsMark])⟩

theorem atom_mark {token : Token} (tail : List Char) (h : token.IsMark) :
    ∃ p, atom ⟨token, tail⟩ = .error p := by
  rcases h with rfl | rfl | rfl <;> exact ⟨_, rfl⟩

/-- A piece that is refused for its first character is refused with any text
behind that. -/
theorem Refuses.again {c : Char} {cs tail : List Char} {p : ReadProblem}
    (h : Refuses limit r ⟨(scan c cs).1, tail⟩ p) (hlong : ∀ n, p ≠ .literalTooLong n)
    (hquote : ∀ shown, p = .unexpected shown → c ≠ '"') (rest tail' : List Char) :
    ∃ p', Refuses limit r ⟨(scan c rest).1, tail'⟩ p' := by
  cases h with
  | noExpression hf hlt hend hatom =>
    rcases atom_eq_error hatom with ⟨n, hn⟩ | ⟨⟨shown, hshown⟩, hmark | hlone⟩
    · exact absurd hn (hlong n)
    · rw [Token.scan_mark rest hmark]
      obtain ⟨p', hp'⟩ := atom_mark tail' hmark
      exact ⟨p', .noExpression hf hlt hend hp'⟩
    · exact absurd (Token.scan_loneQuote hlone) (hquote shown hshown)
  | afterProgram ht =>
    refine ⟨_, .afterProgram fun h => ht ?_⟩
    show (scan c cs).1 = .opening
    rw [Token.scan_mark cs (Or.inl h)]
    exact h
  | unclosed ht =>
    refine ⟨_, .unclosed fun h => ht ?_⟩
    show Token.IsMark (scan c cs).1
    rw [Token.scan_mark cs h]
    exact h

/-! ## Moves -/

theorem Moves.proper {l : Lexeme} (h : Moves limit r l r') : r'.Proper := by
  cases h with
  | begin _ _ _ => trivial
  | none _ => trivial
  | opens _ => exact List.cons_ne_nil _ _
  | comma _ => exact List.cons_ne_nil _ _
  | closes _ => trivial

theorem atom_eq_ok {token : Token} {tail : List Char} {e : Expr} (h : atom ⟨token, tail⟩ = .ok e) :
    token ≠ .loneQuote ∧ ∀ tail', atom ⟨token, tail'⟩ = .ok e := by
  cases token with
  | text _ => exact ⟨nofun, fun _ => h⟩
  | word _ => exact ⟨nofun, fun _ => h⟩
  | number _ => exact ⟨nofun, fun _ => h⟩
  | _ => cases h

/-- A lone quote makes no move, and no move depends on the text behind its
piece. -/
theorem Moves.of_token {token : Token} {tail : List Char} (h : Moves limit r ⟨token, tail⟩ r') :
    token ≠ .loneQuote ∧ ∀ tail', Moves limit r ⟨token, tail'⟩ r' := by
  cases h with
  | begin hf hlt he =>
    obtain ⟨hlone, hatom⟩ := atom_eq_ok he
    exact ⟨hlone, fun tail' => .begin hf hlt (hatom tail')⟩
  | none ht =>
    cases ht
    exact ⟨nofun, fun _ => .none rfl⟩
  | opens ht =>
    cases ht
    exact ⟨nofun, fun _ => .opens rfl⟩
  | comma ht =>
    cases ht
    exact ⟨nofun, fun _ => .comma rfl⟩
  | closes ht =>
    cases ht
    exact ⟨nofun, fun _ => .closes rfl⟩

/-! ## The state in which a source is refused -/

/-- In this state and with this text left, the reader finds the problem. -/
inductive Halts (limit : Nat) (r : Reading) : ReadProblem → List Char → Prop
  | ended {p : ReadProblem} : finish limit r = .error (.problem p) → Halts limit r p []
  | piece {token : Token} {text rest : List Char} {p : ReadProblem} : Spells token text rest →
      Refuses limit r ⟨token, text ++ rest⟩ p → Halts limit r p (text ++ rest)

/-- A source that is refused takes the reader to a state in which the text that
is left is refused, and so does the same source with that text replaced. -/
theorem run_halts {cs left : List Char} {p : ReadProblem} (hr : r.Proper)
    (h : run limit r (lexemes cs) = .error (.problem p, left)) :
    ∃ before r', cs = before ++ left ∧ r'.Proper ∧ Halts limit r' p left ∧
      ∀ rest, Replaces left rest →
        run limit r (lexemes (before ++ rest)) = run limit r' (lexemes rest) := by
  induction cs using Token.source_induction generalizing r with
  | last cs hl =>
    rw [Token.lexemes_last hl, run] at h
    cases hfinish : finish limit r with
    | ok e => simp [hfinish] at h
    | error stop =>
      simp only [hfinish] at h
      cases h
      refine ⟨cs, r, (List.append_nil cs).symm, hr, .ended hfinish, ?_⟩
      -- a comment may still be open, so the text must begin with a line end
      rintro _ ⟨⟩
      rw [Token.lexemes_last_line hl, Token.lexemes_line]
  | piece l token text rest hl hsp ih =>
    rw [Token.lexemes_piece hl hsp, run] at h
    cases hstep : step limit r ⟨token, text ++ rest⟩ with
    | error stop =>
      simp only [hstep] at h
      cases h
      refine ⟨l, r, rfl, hr, .piece hsp (step_eq_problem_iff.mp hstep), fun rest' _ => ?_⟩
      rw [Token.lexemes_layout rest' hl]
    | ok next =>
      simp only [hstep] at h
      have hmove := step_eq_ok_iff.mp hstep
      obtain ⟨hlone, hmoves⟩ := hmove.of_token
      obtain ⟨before, r', rfl, hr', hhalts, hrun⟩ := ih hmove.proper h
      refine ⟨l ++ (text ++ before), r', by simp only [List.append_assoc], hr', hhalts, ?_⟩
      intro rest' hreplaces
      have hsp' := hsp.replaces hlone hreplaces
      rw [List.append_assoc, List.append_assoc, Token.lexemes_piece hl hsp',
        run_moves (hmoves _), hrun rest' hreplaces]

/-! ## Before the place -/

theorem run_closing {rest : List Char} (h : Moves limit r ⟨.closing, ')' :: rest⟩ r') :
    run limit r (lexemes (')' :: rest)) = run limit r' (lexemes rest) := by
  show run limit r (lexemes ([] ++ ([')'] ++ rest))) = run limit r' (lexemes rest)
  rw [Token.lexemes_piece .nil .closing]
  exact run_moves h _

/-- Behind an expression, as many `)` as there are open lists make a program. -/
theorem run_closings (limit : Nat) (stack : List Pending) (e : Expr) :
    ∃ t, run limit ⟨stack, .done e⟩ (lexemes (List.replicate stack.length ')')) = .ok t := by
  induction stack generalizing e with
  | nil =>
    refine ⟨e, ?_⟩
    rw [List.length_nil, List.replicate_zero, Token.lexemes_last (.ended .nil)]
    rfl
  | cons q stack ih =>
    rw [List.length_cons, List.replicate_succ, run_closing (.closes rfl)]
    exact ih _

theorem run_line_closings (limit : Nat) (hr : r.Proper) (hstart : r.focus ≠ .start) :
    ∃ t, run limit r (lexemes ('\n' :: List.replicate r.stack.length ')')) = .ok t := by
  obtain ⟨stack, focus⟩ := r
  rw [Token.lexemes_line]
  cases focus with
  | start => exact absurd rfl hstart
  | done e => exact run_closings limit stack e
  | argument =>
    cases stack with
    | nil => exact absurd rfl hr
    | cons q stack =>
      rw [List.length_cons, List.replicate_succ, run_closing (.none rfl)]
      exact run_closings limit stack _

theorem run_word_closings {stack : List Pending} {focus : Focus} (hf : focus.Awaits)
    (hlt : stack.length < limit) :
    ∃ t, run limit ⟨stack, focus⟩
      (lexemes ('\n' :: 'x' :: List.replicate stack.length ')')) = .ok t := by
  have hname : IsName ['x'] := by
    refine ⟨by decide, List.all_eq_true.mp (by decide), by decide, ?_⟩
    rw [← Token.startsNumber_iff]
    decide
  have hstops : Token.stops Token.isWordChar (List.replicate stack.length ')') := by
    cases stack.length with
    | zero => trivial
    | succ k => exact (by decide : Token.isWordChar ')' = false)
  obtain ⟨t, ht⟩ := run_closings limit stack (.word (String.ofList ['x']))
  refine ⟨t, ?_⟩
  rw [Token.lexemes_line, ← ht]
  exact run_atom hf hlt .nil (.word hname hstops) rfl

theorem remedy_of_atom {l : Lexeme} {p : ReadProblem} (h : atom l = .error p) :
    p ≠ .afterProgram ∧ p.remedy = ['\n', 'x'] := by
  obtain ⟨token, tail⟩ := l
  rcases atom_eq_error h with ⟨n, rfl⟩ | ⟨⟨shown, rfl⟩, _⟩
  · exact ⟨nofun, rfl⟩
  · exact ⟨nofun, rfl⟩

theorem finish_eq_problem {stack : List Pending} {focus : Focus} {p : ReadProblem}
    (h : finish limit ⟨stack, focus⟩ = .error (.problem p)) :
    (focus = .start ∧ 0 < limit ∧ p = .unexpected []) ∨ (focus ≠ .start ∧ p = .unclosed) := by
  cases focus with
  | start =>
    by_cases hpos : 0 < limit
    · simp only [finish, if_pos hpos] at h
      cases h
      exact Or.inl ⟨rfl, hpos, rfl⟩
    · simp only [finish, if_neg hpos] at h
      cases h
  | argument =>
    cases h
    exact Or.inr ⟨by simp, rfl⟩
  | done e =>
    cases stack with
    | nil => cases h
    | cons q stack =>
      cases h
      exact Or.inr ⟨by simp, rfl⟩

/-- In place of what is refused, the remedy and closing parentheses make a
program. -/
theorem Halts.remedied {left : List Char} {p : ReadProblem} (hr : r.Proper)
    (h : Halts limit r p left) :
    ∃ k t, (p = .afterProgram → k = 0) ∧
      run limit r (lexemes (p.remedy ++ List.replicate k ')')) = .ok t := by
  refine ⟨r.stack.length, ?_⟩
  cases h with
  | ended hfinish =>
    obtain ⟨stack, focus⟩ := r
    rcases finish_eq_problem hfinish with ⟨rfl, hpos, rfl⟩ | ⟨hstart, rfl⟩
    · cases hr
      obtain ⟨t, ht⟩ := @run_word_closings limit [] .start Focus.awaits_start hpos
      exact ⟨t, nofun, ht⟩
    · obtain ⟨t, ht⟩ := run_line_closings limit hr hstart
      exact ⟨t, nofun, ht⟩
  | piece _ hrefuses =>
    cases hrefuses with
    | noExpression hf hlt _ hatom =>
      obtain ⟨hne, hremedy⟩ := remedy_of_atom hatom
      obtain ⟨t, ht⟩ := run_word_closings hf hlt
      rw [hremedy]
      exact ⟨t, fun h => absurd h hne, ht⟩
    | afterProgram _ =>
      obtain ⟨t, ht⟩ := run_line_closings limit hr nofun
      exact ⟨t, fun _ => rfl, ht⟩
    | unclosed _ =>
      obtain ⟨t, ht⟩ := run_line_closings limit hr nofun
      exact ⟨t, nofun, ht⟩

/-! ## At the place -/

/-- What is refused for its first character is refused again. -/
theorem Halts.again {c : Char} {left : List Char} {p : ReadProblem}
    (h : Halts limit r p (c :: left)) (hlong : ∀ n, p ≠ .literalTooLong n)
    (hquote : ∀ shown, p = .unexpected shown → c ≠ '"') (rest : List Char) :
    ∃ p', run limit r (lexemes (c :: rest)) = .error (.problem p', c :: rest) := by
  generalize hcs : c :: left = cs at h
  cases h with
  | ended _ => cases hcs
  | @piece token _ _ _ hsp hrefuses =>
    obtain ⟨d, ds, htext, hb, hd, hscan⟩ := Token.spells_scan hsp
    obtain ⟨rfl, rfl⟩ := List.cons.inj (hcs.trans htext)
    have htoken : token = (scan c left).1 := by rw [hscan]
    rw [htext, htoken] at hrefuses
    obtain ⟨p', hp'⟩ := hrefuses.again hlong hquote rest (c :: rest)
    obtain ⟨ls, hls⟩ := Token.lexemes_first rest hb hd
    refine ⟨p', ?_⟩
    rw [hls, run, step_of_refuses hp']

/-- The place of a problem is the end of what was read without one. -/
theorem Stop.fault_append (before left : List Char) (p : ReadProblem) :
    (Stop.problem p).fault (before ++ left) left =
      .unreadable (.ofOffset before before.length) p := by
  rw [Stop.fault, List.length_append, Nat.add_sub_cancel]
  simp only [Text.Place.ofOffset, List.take_left, List.take_length]

end Reading

namespace Expr

open Token (lexemes)

/-! ## The place of a syntax error -/

theorem read_ofList_ok {limit : Nat} {cs : List Char} {t : Expr}
    (h : Reading.run limit .initial (lexemes cs) = .ok t) :
    read limit (String.ofList cs) = .ok t := by
  rw [read, String.toList_ofList, readChars, h]

theorem read_ofList_problem {limit : Nat} {before left : List Char} {p : ReadProblem}
    (h : Reading.run limit .initial (lexemes (before ++ left)) = .error (.problem p, left)) :
    read limit (String.ofList (before ++ left)) =
      .error (.unreadable (.ofOffset before before.length) p) := by
  rw [read, String.toList_ofList, readChars, h]
  exact congrArg Except.error (Reading.Stop.fault_append before left p)

/-- If a source cannot be read, then the text before the place can be completed
to a program, by the remedy for the problem and closing parentheses, of which
none is needed behind a program.  And with the character at the place, if there
is one, the source cannot be read whatever follows, and for a problem at the
same place; unless the problem is a number that is too long, or a double quote
where an expression is expected. -/
theorem read_place_exact {limit : Nat} {s : String} {place : Text.Place}
    {problem : ReadProblem} (h : read limit s = .error (.unreadable place problem)) :
    place.offset ≤ s.length ∧
    (∃ k t, (problem = .afterProgram → k = 0) ∧
      read limit (String.ofList (s.toList.take place.offset ++
        (problem.remedy ++ List.replicate k ')'))) = .ok t) ∧
    (place.offset < s.length → (∀ n, problem ≠ .literalTooLong n) →
      (∀ shown, problem = .unexpected shown → s.toList[place.offset]? ≠ some '"') →
      ∀ rest, ∃ problem',
        read limit (String.ofList (s.toList.take (place.offset + 1) ++ rest)) =
          .error (.unreadable place problem')) := by
  obtain ⟨stop, left, hrun, hfault⟩ := read_eq_error h
  cases stop with
  | tooDeep => cases hfault
  | problem p =>
    have hinitial : Reading.initial.Proper := rfl
    obtain ⟨before, r, hs, hr, hhalts, hreplaced⟩ := Reading.run_halts hinitial hrun
    rw [hs, Reading.Stop.fault_append] at hfault
    cases hfault
    have hoffset : (Text.Place.ofOffset before before.length).offset = before.length := rfl
    rw [← String.length_toList, hs, hoffset]
    refine ⟨?_, ?_, ?_⟩
    · rw [List.length_append]
      exact Nat.le_add_right _ _
    · obtain ⟨k, t, hk, ht⟩ := hhalts.remedied hr
      refine ⟨k, t, hk, read_ofList_ok ?_⟩
      rw [List.take_left, ← ht]
      -- every remedy begins a new line
      cases problem <;> exact hreplaced _ .line
    · intro hlt hlong hquote rest
      cases left with
      | nil => simp at hlt
      | cons c left =>
        rw [List.getElem?_append_right (Nat.le_refl _), Nat.sub_self] at hquote
        have hc : ∀ shown, problem = .unexpected shown → c ≠ '"' := by
          rintro shown hshown rfl
          exact hquote shown hshown rfl
        obtain ⟨problem', hproblem'⟩ := hhalts.again hlong hc rest
        refine ⟨problem', ?_⟩
        rw [List.take_length_add_append, List.append_assoc]
        exact read_ofList_problem ((hreplaced _ .same).trans hproblem')

/-- Where a comma is missing, the list could end instead, and what comes
instead of it is a problem with anything behind it. -/
theorem read_place_exact_missing_comma :
    let place : Text.Place := ⟨4, 1, 5⟩
    read 2 "f(a b" = .error (.unreadable place .unclosed) ∧
    (∃ k t, read 2 (String.ofList ("f(a \n".toList ++ List.replicate k ')')) = .ok t) ∧
    ∀ rest, ∃ problem,
      read 2 (String.ofList ("f(a b".toList ++ rest)) = .error (.unreadable place problem) := by
  intro place
  have h : read 2 "f(a b" = .error (.unreadable place .unclosed) := by with_unfolding_all rfl
  obtain ⟨-, ⟨k, t, -, hbefore⟩, hat⟩ := read_place_exact h
  exact ⟨h, ⟨k, t, hbefore⟩, hat (by decide) nofun nofun⟩

end Expr

end EggLang
