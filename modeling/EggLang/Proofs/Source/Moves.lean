/-
# `EggLang.Proofs.Source.Moves` — what one piece does to the reader

The reader's step as a relation with one constructor for each thing that a
piece can do, so that no later proof opens the step function again.

    begin    an atom where an expression may stand
    none     `)` where an argument may stand: the list ends
    opens    `(` behind an expression: a list begins
    comma    `,` behind an argument
    closes   `)` behind an argument: the list ends

`limit` is consulted by `begin` alone.  Raising it changes no answer but
`tooDeep` (`run_mono`), and `tooDeep` needs as many opening parentheses as
the limit says (`run_tooDeep`).
-/
import EggLang.Proofs.Source.Pieces

namespace EggLang

/-- An expression may begin here. -/
def Focus.Awaits : Focus → Prop
  | .start => True
  | .argument => True
  | .done _ => False

theorem Focus.awaits_start : Focus.start.Awaits := trivial

theorem Focus.awaits_argument : Focus.argument.Awaits := trivial

namespace Reading

/-- The piece takes the reader from one state to another. -/
inductive Moves (limit : Nat) : Reading → Lexeme → Reading → Prop
  | begin {stack : List Pending} {focus : Focus} {l : Lexeme} {e : Expr} :
      focus.Awaits → stack.length < limit → atom l = .ok e →
      Moves limit ⟨stack, focus⟩ l ⟨stack, .done e⟩
  | none {p : Pending} {stack : List Pending} {l : Lexeme} : l.token = .closing →
      Moves limit ⟨p :: stack, .argument⟩ l ⟨stack, .done (.apply p.operator p.args.reverse)⟩
  | opens {e : Expr} {stack : List Pending} {l : Lexeme} : l.token = .opening →
      Moves limit ⟨stack, .done e⟩ l ⟨⟨e, []⟩ :: stack, .argument⟩
  | comma {e : Expr} {p : Pending} {stack : List Pending} {l : Lexeme} : l.token = .comma →
      Moves limit ⟨p :: stack, .done e⟩ l ⟨⟨p.operator, e :: p.args⟩ :: stack, .argument⟩
  | closes {e : Expr} {p : Pending} {stack : List Pending} {l : Lexeme} : l.token = .closing →
      Moves limit ⟨p :: stack, .done e⟩ l
        ⟨stack, .done (.apply p.operator (e :: p.args).reverse)⟩

theorem begin_eq_ok {limit : Nat} {stack : List Pending} {l : Lexeme} {r : Reading}
    (h : begin limit stack l = .ok r) :
    stack.length < limit ∧ ∃ e, atom l = .ok e ∧ r = ⟨stack, .done e⟩ := by
  unfold begin at h
  split at h
  · next hlt =>
    split at h
    · next e he =>
      cases h
      exact ⟨hlt, e, he, rfl⟩
    · cases h
  · cases h

/-- Where an expression may begin, a piece begins one or ends the list. -/
theorem step_awaits (stack : List Pending) {focus : Focus} (l : Lexeme) (hf : focus.Awaits) :
    (∀ limit, step limit ⟨stack, focus⟩ l = begin limit stack l) ∨
    (∃ p rest, stack = p :: rest ∧ focus = .argument ∧ l.token = .closing) := by
  obtain ⟨token, tail⟩ := l
  cases focus with
  | start => exact Or.inl fun _ => rfl
  | argument =>
    cases stack with
    | nil => cases token <;> exact Or.inl fun _ => rfl
    | cons p rest =>
      cases token with
      | closing => exact Or.inr ⟨p, rest, rfl, rfl, rfl⟩
      | _ => exact Or.inl fun _ => rfl
  | done e => exact hf.elim

theorem moves_of_step_awaits {limit : Nat} {stack : List Pending} {focus : Focus} {l : Lexeme}
    {r : Reading} (hf : focus.Awaits) (h : step limit ⟨stack, focus⟩ l = .ok r) :
    Moves limit ⟨stack, focus⟩ l r := by
  rcases step_awaits stack l hf with hb | ⟨p, rest, rfl, rfl, ht⟩
  · rw [hb] at h
    obtain ⟨hlt, e, he, rfl⟩ := begin_eq_ok h
    exact .begin hf hlt he
  · obtain ⟨token, tail⟩ := l
    cases ht
    cases h
    exact .none rfl

theorem moves_of_step_done {limit : Nat} {stack : List Pending} {e : Expr} {l : Lexeme}
    {r : Reading} (h : step limit ⟨stack, .done e⟩ l = .ok r) :
    Moves limit ⟨stack, .done e⟩ l r := by
  obtain ⟨token, tail⟩ := l
  cases stack with
  | nil =>
    cases token with
    | opening =>
      cases h
      exact .opens rfl
    | _ => cases h
  | cons p stack =>
    cases token with
    | opening =>
      cases h
      exact .opens rfl
    | comma =>
      cases h
      exact .comma rfl
    | closing =>
      cases h
      exact .closes rfl
    | _ => cases h

theorem step_of_moves {limit : Nat} {r r' : Reading} {l : Lexeme} (h : Moves limit r l r') :
    step limit r l = .ok r' := by
  obtain ⟨token, tail⟩ := l
  cases h with
  | begin hf hlt he =>
    rcases step_awaits _ _ hf with hb | ⟨_, _, _, _, ht⟩
    · rw [hb, begin, if_pos hlt, he]
    · cases ht
      cases he
  | none ht =>
    cases ht
    rfl
  | @opens _ stack _ ht =>
    cases ht
    cases stack <;> rfl
  | comma ht =>
    cases ht
    rfl
  | closes ht =>
    cases ht
    rfl

/-- The step function takes exactly the moves. -/
theorem step_eq_ok_iff {limit : Nat} {r r' : Reading} {l : Lexeme} :
    step limit r l = .ok r' ↔ Moves limit r l r' := by
  refine ⟨fun h => ?_, step_of_moves⟩
  obtain ⟨stack, focus⟩ := r
  cases focus with
  | start => exact moves_of_step_awaits trivial h
  | argument => exact moves_of_step_awaits trivial h
  | done e => exact moves_of_step_done h

/-- A move takes the reader on. -/
theorem run_moves {limit : Nat} {r r' : Reading} {l : Lexeme} (h : Moves limit r l r')
    (ls : List Lexeme) : run limit r (l :: ls) = run limit r' ls := by
  simp only [run, step_eq_ok_iff.mpr h]

/-! ## The limit -/

theorem begin_mono {limit limit' : Nat} (hle : limit ≤ limit') {stack : List Pending}
    {l : Lexeme} (h : begin limit stack l ≠ .error .tooDeep) :
    begin limit' stack l = begin limit stack l := by
  by_cases hlt : stack.length < limit
  · rw [begin, begin, if_pos hlt, if_pos (Nat.lt_of_lt_of_le hlt hle)]
  · rw [begin, if_neg hlt] at h
    exact absurd rfl h

theorem step_awaits_mono {limit limit' : Nat} (hle : limit ≤ limit') {stack : List Pending}
    {focus : Focus} {l : Lexeme} (hf : focus.Awaits)
    (h : step limit ⟨stack, focus⟩ l ≠ .error .tooDeep) :
    step limit' ⟨stack, focus⟩ l = step limit ⟨stack, focus⟩ l := by
  rcases step_awaits stack l hf with hb | ⟨p, rest, rfl, rfl, ht⟩
  · rw [hb] at h
    rw [hb, hb, begin_mono hle h]
  · rw [step_of_moves (.none ht), step_of_moves (.none ht)]

theorem step_mono {limit limit' : Nat} (hle : limit ≤ limit') {r : Reading} {l : Lexeme}
    (h : step limit r l ≠ .error .tooDeep) : step limit' r l = step limit r l := by
  obtain ⟨stack, focus⟩ := r
  cases focus with
  | start => exact step_awaits_mono hle trivial h
  | argument => exact step_awaits_mono hle trivial h
  | done e =>
    obtain ⟨token, tail⟩ := l
    cases stack <;> cases token <;> rfl

theorem finish_mono {limit limit' : Nat} (hle : limit ≤ limit') {r : Reading}
    (h : finish limit r ≠ .error .tooDeep) : finish limit' r = finish limit r := by
  obtain ⟨stack, focus⟩ := r
  cases focus with
  | start =>
    by_cases hlt : 0 < limit
    · simp only [finish, if_pos hlt, if_pos (Nat.lt_of_lt_of_le hlt hle)]
    · simp only [finish, if_neg hlt] at h
      exact absurd rfl h
  | argument => cases stack <;> rfl
  | done e => cases stack <;> rfl

/-- Raising the limit changes no answer but `tooDeep`. -/
theorem run_mono {limit limit' : Nat} (hle : limit ≤ limit') {r : Reading} {ls : List Lexeme}
    (h : ∀ left, run limit r ls ≠ .error (.tooDeep, left)) :
    run limit' r ls = run limit r ls := by
  induction ls generalizing r with
  | nil =>
    have hf : finish limit r ≠ .error .tooDeep := by
      intro hf
      exact h [] (by simp only [run, hf])
    simp only [run, finish_mono hle hf]
  | cons l ls ih =>
    have hs : step limit r l ≠ .error .tooDeep := by
      intro hs
      exact h l.tail (by simp only [run, hs])
    rw [run, run, step_mono hle hs]
    cases hr : step limit r l with
    | error s => rfl
    | ok r' =>
      refine ih fun left hleft => h left ?_
      simp only [run, hr, hleft]

/-- A piece that is too deep stands inside as many lists as the limit says. -/
theorem step_tooDeep {limit : Nat} {r : Reading} {l : Lexeme}
    (h : step limit r l = .error .tooDeep) : limit ≤ r.stack.length := by
  refine Nat.le_of_not_lt fun hlt => ?_
  obtain ⟨stack, focus⟩ := r
  have hbegin : begin limit stack l ≠ .error .tooDeep := by
    rw [begin, if_pos hlt]
    cases atom l <;> exact nofun
  have hawaits : ¬ focus.Awaits := by
    intro hf
    rcases step_awaits stack l hf with hb | ⟨p, rest, rfl, rfl, ht⟩
    · exact hbegin (hb limit ▸ h)
    · rw [step_of_moves (.none ht)] at h
      cases h
  cases focus with
  | start => exact hawaits trivial
  | argument => exact hawaits trivial
  | done e =>
    obtain ⟨token, tail⟩ := l
    cases stack <;> cases token <;> cases h

theorem finish_tooDeep {limit : Nat} {r : Reading} (h : finish limit r = .error .tooDeep) :
    limit = 0 := by
  obtain ⟨stack, focus⟩ := r
  cases focus with
  | start =>
    refine Nat.eq_zero_of_not_pos fun hlt => ?_
    rw [finish, if_pos hlt] at h
    cases h
  | argument => cases stack <;> cases h
  | done e => cases stack <;> cases h

/-- One move puts at most one list on the stack, and only for a `(`. -/
theorem Moves.length_le {limit : Nat} {r r' : Reading} {l : Lexeme} (h : Moves limit r l r') :
    r'.stack.length ≤ r.stack.length + if l.token = .opening then 1 else 0 := by
  cases h with
  | begin _ _ _ => exact Nat.le_add_right _ _
  | none _ => simp only [List.length_cons]; omega
  | opens ht => simp [ht]
  | comma _ => simp
  | closes _ => simp only [List.length_cons]; omega

/-- A source that is too deep has as many opening parentheses as the limit
says. -/
theorem run_tooDeep {limit : Nat} {r : Reading} {cs left : List Char}
    (h : run limit r (Token.lexemes cs) = .error (.tooDeep, left)) :
    limit ≤ r.stack.length + cs.count '(' := by
  induction cs using Token.source_induction generalizing r with
  | last cs hl =>
    rw [Token.lexemes_last hl, run] at h
    cases hf : finish limit r with
    | ok e => simp [hf] at h
    | error s =>
      have hs : s = .tooDeep := by simp_all
      have hzero : limit = 0 := finish_tooDeep (hs ▸ hf)
      exact hzero ▸ Nat.zero_le _
  | piece l token text rest hl hsp ih =>
    rw [Token.lexemes_piece hl hsp, run] at h
    cases hs : step limit r ⟨token, text ++ rest⟩ with
    | error s =>
      have hdeep : s = .tooDeep := by simp_all
      exact Nat.le_trans (step_tooDeep (hdeep ▸ hs)) (Nat.le_add_right _ _)
    | ok r' =>
      simp only [hs] at h
      have hrest := ih h
      have hlen : r'.stack.length ≤ r.stack.length + if token = .opening then 1 else 0 :=
        (step_eq_ok_iff.mp hs).length_le
      have hcount : (if token = .opening then 1 else 0) ≤ text.count '(' := by
        split
        · next ht => subst ht; cases hsp; decide
        · exact Nat.zero_le _
      simp only [List.count_append]
      omega

end Reading

end EggLang
