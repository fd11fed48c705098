/-
# `EggLang.Proofs.Source.Acceptance` — the reader accepts the grammar, exactly

    Expr.read limit s = .ok t  ↔  Program s t  and  t.nesting ≤ limit

and every other source is refused with a place and a problem, unless it nests
too deeply for the limit.

**Completeness** is a statement about the middle of a text: whatever lists are
open and whatever follows, a rendering of `e` takes the reader to `done e`
(`run_renders`).  The induction is on the tree, with the argument lists as the
other half; what may follow `e` is `Follows`.

**Soundness** is a statement about the text that has been read: `Consumed`
says that it renders the reader's state, the open lists included.  Each move
preserves it (`Consumed.moves`), and at the end it is the grammar's `Program`.
-/
import EggLang.Proofs.Source.Moves

namespace EggLang.Reading

open Grammar
open Text (isBlank)
open Token (isDigit isWordChar endsNumber stops joinsNumber lexemes Spells)

/-! ## What may follow an expression -/

/-- The text does not go on with what the expression ends in. -/
def Follows (e : Expr) (rest : List Char) : Prop :=
  match e with
  | .word _ => stops isWordChar rest
  | .number _ => stops joinsNumber rest
  | _ => True

theorem follows_of_head {c : Char} (e : Expr) (cs : List Char) (h : isWordChar c = false) :
    Follows e (c :: cs) := by
  have hs : stops isWordChar (c :: cs) := h
  cases e with
  | word _ => exact hs
  | number _ => exact Token.stops_mono (fun _ => Token.isWordChar_of_joinsNumber) hs
  | _ => trivial

theorem not_isWordChar_of_isBlank {c : Char} (h : isBlank c = true) : isWordChar c = false := by
  simp [isWordChar, h]

/-- Layout that is clear of an expression may follow it. -/
theorem follows_layout {c : Char} {e : Expr} {cs : List Char} (hh : isBlank c = true ∨ c = '#')
    (hc : Clear e (c :: cs)) (rest : List Char) : Follows e (c :: rest) := by
  rcases hh with hb | rfl
  · exact follows_of_head e rest (not_isWordChar_of_isBlank hb)
  · cases e with
    | word _ =>
      rcases hc with hnil | ⟨d, ds, hcons, hb⟩
      · cases hnil
      · cases hcons
        exact absurd hb (by decide)
    | number _ => exact (by decide : joinsNumber '#' = false)
    | _ => trivial

theorem follows_gap {c : Char} {e : Expr} {g : List Char} (cs : List Char) (hg : Gap e g)
    (hc : isWordChar c = false) : Follows e (g ++ c :: cs) := by
  cases g with
  | nil => exact follows_of_head e cs hc
  | cons d ds => exact follows_layout (Token.layout_head hg.layout) hg.clear _

theorem follows_last {e : Expr} {g : List Char} (hl : LastLayout g) (hc : Clear e g) :
    Follows e g := by
  cases g with
  | nil => cases e <;> trivial
  | cons d ds => exact follows_layout (Token.lastLayout_head hl) hc ds

/-- Layout that may follow an expression is clear of it. -/
theorem clear_of_follows {e : Expr} {l rest : List Char}
    (hl : ∀ c cs, l = c :: cs → isBlank c = true ∨ c = '#') (h : Follows e (l ++ rest)) :
    Clear e l := by
  cases e with
  | word _ =>
    cases l with
    | nil => exact Or.inl rfl
    | cons c cs =>
      rcases hl c cs rfl with hb | rfl
      · exact Or.inr ⟨c, cs, rfl, hb⟩
      · exact absurd h (by simp [Follows, stops, isWordChar]; decide)
  | _ => trivial

/-! ## A rendering is read -/

/-- An atom takes the reader to the expression that it is. -/
theorem run_atom {limit : Nat} {stack : List Pending} {focus : Focus} {token : Token} {e : Expr}
    {l text rest : List Char} (hf : focus.Awaits) (hlt : stack.length < limit) (hl : Layout l)
    (hsp : Spells token text rest) (he : atom ⟨token, text ++ rest⟩ = .ok e) :
    run limit ⟨stack, focus⟩ (lexemes (l ++ (text ++ rest))) =
      run limit ⟨stack, .done e⟩ (lexemes rest) := by
  rw [Token.lexemes_piece hl hsp, run_moves (.begin hf hlt he)]

mutual

/-- A rendering takes the reader to the tree that it renders. -/
theorem run_renders (limit : Nat) : ∀ (e : Expr) {r : List Char} (rest : List Char)
    {stack : List Pending} {focus : Focus} {l : List Char}, Renders r e → Follows e rest →
    focus.Awaits → stack.length + e.nesting ≤ limit → Layout l →
      run limit ⟨stack, focus⟩ (lexemes (l ++ (r ++ rest))) =
        run limit ⟨stack, .done e⟩ (lexemes rest)
  | .text _, _, _, _, _, _, .text hs, _, hf, hn, hl =>
      run_atom hf hn hl (.text hs) rfl
  | .number _, _, _, _, _, _, .number hne hd hlen, hr, hf, hn, hl =>
      run_atom hf hn hl (.number hne hd (Token.endsNumber_iff.mpr hr)) (if_pos hlen)
  | .word _, _, _, _, _, _, .word hname, hr, hf, hn, hl =>
      run_atom hf hn hl (.word hname hr) rfl
  | .apply operator args, _, rest, stack, focus, l, @Renders.apply f g as _ _ ho hg ha,
      _, hf, hn, hl => by
      rw [Expr.nesting_apply] at hn
      have hfollows : Follows operator (g ++ '(' :: (as ++ rest)) :=
        follows_gap _ hg (by decide)
      calc run limit ⟨stack, focus⟩ (lexemes (l ++ ((f ++ (g ++ '(' :: as)) ++ rest)))
          = run limit ⟨stack, focus⟩ (lexemes (l ++ (f ++ (g ++ '(' :: (as ++ rest))))) := by
            simp only [List.append_assoc, List.cons_append]
        _ = run limit ⟨stack, .done operator⟩ (lexemes (g ++ (['('] ++ (as ++ rest)))) :=
            run_renders limit operator _ ho hfollows hf (by omega) hl
        _ = run limit ⟨⟨operator, []⟩ :: stack, .argument⟩ (lexemes (as ++ rest)) := by
            rw [Token.lexemes_piece hg.layout .opening, run_moves (.opens rfl)]
        _ = run limit ⟨stack, .done (.apply operator args)⟩ (lexemes rest) :=
            run_rendersArgs limit args rest ha (by omega)

/-- A rendering of arguments ends the innermost list with them. -/
theorem run_rendersArgs (limit : Nat) : ∀ (es : List Expr) {as : List Char} (rest : List Char)
    {operator : Expr} {acc : List Expr} {stack : List Pending}, RendersArgs as es →
    stack.length + 1 + Expr.nestings es ≤ limit →
      run limit ⟨⟨operator, acc⟩ :: stack, .argument⟩ (lexemes (as ++ rest)) =
        run limit ⟨stack, .done (.apply operator (acc.reverse ++ es))⟩ (lexemes rest)
  | [], _, rest, _, _, _, .close hl, _ => by
      rw [List.append_assoc, Token.lexemes_piece hl .closing, run_moves (.none rfl),
        List.append_nil]
  | [e], _, rest, operator, acc, stack, @RendersArgs.last _ _ g _ hl ha hg, hn => by
      rw [Expr.nestings_cons] at hn
      have hfollows : Follows e (g ++ ([')'] ++ rest)) := follows_gap rest hg (by decide)
      have hroom : (⟨operator, acc⟩ :: stack : List Pending).length + e.nesting ≤ limit := by
        simp only [List.length_cons]
        omega
      simp only [List.append_assoc]
      rw [run_renders limit e _ ha hfollows Focus.awaits_argument hroom hl,
        Token.lexemes_piece hg.layout .closing, run_moves (.closes rfl), List.reverse_cons]
  | e :: es, _, rest, operator, acc, stack,
      @RendersArgs.more l a g as _ _ hl ha hg has, hn => by
      rw [Expr.nestings_cons] at hn
      have hfollows : Follows e (g ++ ([','] ++ (as ++ rest))) :=
        follows_gap _ hg (by decide)
      have hassoc : (l ++ (a ++ (g ++ ',' :: as))) ++ rest =
          l ++ (a ++ (g ++ ([','] ++ (as ++ rest)))) := by
        simp only [List.append_assoc, List.cons_append, List.nil_append]
      have hroom : (⟨operator, acc⟩ :: stack : List Pending).length + e.nesting ≤ limit := by
        simp only [List.length_cons]
        omega
      rw [hassoc, run_renders limit e _ ha hfollows Focus.awaits_argument hroom hl,
        Token.lexemes_piece hg.layout .comma, run_moves (.comma rfl),
        run_rendersArgs limit es rest has (by omega)]
      simp only [List.reverse_cons, List.append_assoc, List.cons_append, List.nil_append]

end

/-! ## What has been read is a rendering -/

/-- Arguments with a comma behind each, the last one first. -/
inductive Listed : List Char → List Expr → Prop
  | nil : Listed [] []
  | snoc {as l a g : List Char} {args : List Expr} {e : Expr} : Listed as args → Layout l →
      Renders a e → Gap e g → Listed (as ++ (l ++ (a ++ (g ++ [','])))) (e :: args)

theorem Listed.rendersArgs {as r : List Char} {args es : List Expr} (h : Listed as args)
    (hr : RendersArgs r es) : RendersArgs (as ++ r) (args.reverse ++ es) := by
  induction h generalizing r es with
  | nil => exact hr
  | snoc _ hl ha hg ih =>
    have h := ih (.more hl ha hg hr)
    simpa only [List.reverse_cons, List.append_assoc, List.cons_append, List.nil_append] using h

/-- The text opens the argument lists that are on the stack. -/
inductive Opened (limit : Nat) : List Char → List Pending → Prop
  | nil : Opened limit [] []
  | push {cs l f g as : List Char} {stack : List Pending} {operator : Expr}
      {args : List Expr} : Opened limit cs stack → Layout l → Renders f operator →
      Gap operator g → Listed as args →
      stack.length + (Expr.apply operator args).nesting ≤ limit →
      Opened limit (cs ++ (l ++ (f ++ (g ++ '(' :: as)))) (⟨operator, args⟩ :: stack)

/-- The text has taken the reader to its state. -/
inductive Consumed (limit : Nat) : List Char → Reading → Prop
  | start : Consumed limit [] ⟨[], .start⟩
  | argument {cs : List Char} {p : Pending} {stack : List Pending} :
      Opened limit cs (p :: stack) → Consumed limit cs ⟨p :: stack, .argument⟩
  | done {cs l r : List Char} {stack : List Pending} {e : Expr} : Opened limit cs stack →
      Layout l → Renders r e → stack.length + e.nesting ≤ limit →
      Consumed limit (cs ++ (l ++ r)) ⟨stack, .done e⟩

/-- What is left to read does not go on with the last expression. -/
def FollowsFocus : Focus → List Char → Prop
  | .done e, cs => Follows e cs
  | _, _ => True

theorem Consumed.opened {limit : Nat} {cs : List Char} {stack : List Pending} {focus : Focus}
    (h : Consumed limit cs ⟨stack, focus⟩) (hf : focus.Awaits) : Opened limit cs stack := by
  cases h with
  | start => exact .nil
  | argument ho => exact ho
  | done _ _ _ _ => exact hf.elim

theorem gap_of_follows {e : Expr} {l rest : List Char} (hl : Layout l)
    (h : Follows e (l ++ rest)) : Gap e l :=
  ⟨hl, clear_of_follows (fun _ _ heq => Token.layout_head (heq ▸ hl)) h⟩

theorem atom_renders {token : Token} {text rest : List Char} {e : Expr}
    (hsp : Spells token text rest) (he : atom ⟨token, text ++ rest⟩ = .ok e) :
    Renders text e ∧ Follows e rest ∧ e.nesting = 1 := by
  cases hsp with
  | text hs =>
    cases he
    exact ⟨.text hs, trivial, rfl⟩
  | number hne hd hend =>
    simp only [atom] at he
    split at he
    · next hlen =>
      cases he
      exact ⟨.number hne hd hlen, Token.endsNumber_iff.mp hend, rfl⟩
    · cases he
  | word hname hstop =>
    cases he
    exact ⟨.word hname, hstop, rfl⟩
  | _ => cases he

theorem Opened.length_le {limit : Nat} {cs : List Char} {p : Pending} {stack : List Pending}
    (h : Opened limit cs (p :: stack)) : stack.length + 1 ≤ limit := by
  cases h with
  | push _ _ _ _ _ hn => exact Nat.le_trans (Nat.add_le_add_left (Expr.nesting_pos _) _) hn

/-- A list that ends makes an application of what the stack has of it. -/
theorem Opened.close {limit : Nat} {cs r : List Char} {p : Pending} {stack : List Pending}
    {es : List Expr} (h : Opened limit cs (p :: stack)) (hr : RendersArgs r es)
    (hn : stack.length + 1 + Expr.nestings es ≤ limit) :
    Consumed limit (cs ++ r) ⟨stack, .done (.apply p.operator (p.args.reverse ++ es))⟩ := by
  cases h with
  | push ho hl hf hg has hnest =>
    have happly := Renders.apply hf hg (has.rendersArgs hr)
    have hdone := Consumed.done ho hl happly (by
      rw [Expr.nesting_apply] at hnest
      rw [Expr.nesting_apply, Expr.nestings_append, Expr.nestings_reverse]
      omega)
    simpa only [List.append_assoc, List.cons_append] using hdone

/-- A comma adds an argument to what the stack has of the innermost list. -/
theorem Opened.comma {limit : Nat} {cs l a g : List Char} {p : Pending} {stack : List Pending}
    {e : Expr} (h : Opened limit cs (p :: stack)) (hl : Layout l) (ha : Renders a e)
    (hg : Gap e g) (hn : stack.length + 1 + e.nesting ≤ limit) :
    Opened limit (cs ++ (l ++ (a ++ (g ++ [','])))) (⟨p.operator, e :: p.args⟩ :: stack) := by
  cases h with
  | push ho hl' hf hg' has hnest =>
    have hopened := Opened.push ho hl' hf hg' (has.snoc hl ha hg) (by
      rw [Expr.nesting_apply] at hnest
      rw [Expr.nesting_apply, Expr.nestings_cons]
      omega)
    simpa only [List.append_assoc, List.cons_append] using hopened

/-- A move keeps what has been read a rendering of the state. -/
theorem Consumed.moves {limit : Nat} {cs l text rest : List Char} {token : Token}
    {r r' : Reading} (hc : Consumed limit cs r) (hl : Layout l) (hsp : Spells token text rest)
    (hfollows : FollowsFocus r.focus (l ++ (text ++ rest)))
    (hm : Moves limit r ⟨token, text ++ rest⟩ r') :
    Consumed limit (cs ++ (l ++ text)) r' ∧ FollowsFocus r'.focus rest := by
  cases hm with
  | begin hf hlt he =>
    obtain ⟨hr, hrest, hone⟩ := atom_renders hsp he
    exact ⟨.done (hc.opened hf) hl hr (by omega), hrest⟩
  | none ht =>
    cases ht
    cases hsp
    have ho := hc.opened Focus.awaits_argument
    have hdone := ho.close (.close hl) ho.length_le
    rw [List.append_nil] at hdone
    exact ⟨hdone, trivial⟩
  | @opens e stack _ ht =>
    cases ht
    cases hsp
    cases hc with
    | done ho hl' hr hn =>
      have hopened := Opened.push ho hl' hr (gap_of_follows hl hfollows) .nil (by
        have := Expr.nesting_pos e
        rw [Expr.nesting_apply, Expr.nestings]
        omega)
      have hargument := Consumed.argument hopened
      simp only [List.append_assoc] at hargument ⊢
      exact ⟨hargument, trivial⟩
  | comma ht =>
    cases ht
    cases hsp
    cases hc with
    | done ho hl' hr hn =>
      have hopened := ho.comma hl' hr (gap_of_follows hl hfollows) hn
      have hargument := Consumed.argument hopened
      simp only [List.append_assoc] at hargument ⊢
      exact ⟨hargument, trivial⟩
  | @closes e _ _ _ ht =>
    cases ht
    cases hsp
    cases hc with
    | done ho hl' hr hn =>
      have hdone := ho.close (.last hl' hr (gap_of_follows hl hfollows)) (by
        rw [Expr.nestings_cons, Expr.nestings, Nat.max_zero]
        exact hn)
      simp only [List.append_assoc, List.reverse_cons] at hdone ⊢
      exact ⟨hdone, trivial⟩

/-- A tree that the reader returns is the one its source is a program of. -/
theorem Consumed.run {limit : Nat} {cs rest : List Char} {r : Reading} {t : Expr}
    (hc : Consumed limit cs r) (hfollows : FollowsFocus r.focus rest)
    (h : Reading.run limit r (lexemes rest) = .ok t) :
    Program (cs ++ rest) t ∧ t.nesting ≤ limit := by
  induction rest using Token.source_induction generalizing cs r with
  | last rest hl =>
    rw [Token.lexemes_last hl] at h
    cases hc with
    | start => simp [Reading.run, finish] at h
    | argument _ => simp [Reading.run, finish] at h
    | @done _ l r stack e ho hlay hr hn =>
      cases stack with
      | cons p stack => simp [Reading.run, finish] at h
      | nil =>
        cases h
        cases ho
        have hfollows : Follows t (rest ++ []) := (List.append_nil rest).symm ▸ hfollows
        have hclear : Clear t rest :=
          clear_of_follows (fun _ _ heq => Token.lastLayout_head (heq ▸ hl)) hfollows
        exact ⟨⟨l, r, rest, by simp, hlay, hr, hl, hclear⟩, by simpa using hn⟩
  | piece l token text rest hl hsp ih =>
    rw [Token.lexemes_piece hl hsp, Reading.run] at h
    cases hs : step limit r ⟨token, text ++ rest⟩ with
    | error s => simp [hs] at h
    | ok r' =>
      simp only [hs] at h
      obtain ⟨hc', hrest⟩ := hc.moves hl hsp hfollows (step_eq_ok_iff.mp hs)
      have hprogram := ih hc' hrest h
      simpa only [List.append_assoc] using hprogram

/-- A program is read to its tree if the limit allows its nesting. -/
theorem run_program {limit : Nat} {cs : List Char} {t : Expr} (h : Program cs t)
    (hn : t.nesting ≤ limit) : run limit .initial (lexemes cs) = .ok t := by
  obtain ⟨l, r, g, rfl, hl, hr, hg, hc⟩ := h
  have hfollows := follows_last hg hc
  rw [initial, run_renders limit t g hr hfollows Focus.awaits_start (by simpa using hn) hl,
    Token.lexemes_last hg]
  rfl

end EggLang.Reading

namespace EggLang.Expr

open Grammar

/-! ## The reader and the grammar -/

theorem read_eq_ok_iff_run {limit : Nat} {s : String} {t : Expr} :
    read limit s = .ok t ↔ Reading.run limit .initial (Token.lexemes s.toList) = .ok t := by
  unfold read readChars
  cases Reading.run limit .initial (Token.lexemes s.toList) with
  | ok e => simp only [Except.ok.injEq]
  | error stop => exact ⟨nofun, nofun⟩

/-- The reader returns the trees of its programs that the limit allows. -/
theorem read_eq_ok_iff {limit : Nat} {s : String} {t : Expr} :
    read limit s = .ok t ↔ Program s.toList t ∧ t.nesting ≤ limit := by
  rw [read_eq_ok_iff_run]
  constructor
  · intro h
    exact Reading.Consumed.start.run trivial h
  · rintro ⟨hp, hn⟩
    exact Reading.run_program hp hn

/-- A refusal is a place and a problem, or the limit. -/
theorem read_eq_error {limit : Nat} {s : String} {f : Fault} (h : read limit s = .error f) :
    ∃ stop left, Reading.run limit .initial (Token.lexemes s.toList) = .error (stop, left) ∧
      f = stop.fault s.toList left := by
  unfold read readChars at h
  split at h
  · cases h
  · next stop left hrun =>
    cases h
    exact ⟨stop, left, hrun, rfl⟩

theorem read_tooDeep {limit : Nat} {s : String} (h : read limit s = .error .tooDeep) :
    limit ≤ s.toList.count '(' := by
  obtain ⟨stop, left, hrun, hf⟩ := read_eq_error h
  cases stop with
  | problem p => cases hf
  | tooDeep => simpa [Reading.initial] using Reading.run_tooDeep hrun

/-- What the reader finds a problem in is no program, of whatever nesting. -/
theorem not_program_of_unreadable {limit : Nat} {s : String} {place : Text.Place}
    {problem : ReadProblem} (h : read limit s = .error (.unreadable place problem)) (t : Expr) :
    ¬ Program s.toList t := by
  intro hp
  obtain ⟨stop, left, hrun, hf⟩ := read_eq_error h
  cases stop with
  | tooDeep => cases hf
  | problem p =>
    -- a larger limit reads the tree, and finds the same problem
    have hmono := Reading.run_mono (Nat.le_max_left limit t.nesting) (by rw [hrun]; exact nofun)
    rw [Reading.run_program hp (Nat.le_max_right _ _), hrun] at hmono
    cases hmono

/-- The reader accepts exactly the programs of the grammar whose nesting is
within the limit, and returns the tree they render.  It finds a problem in
nothing that the grammar has, and in everything that the grammar does not
have, unless the source is too deep, with at least `limit` parentheses
opened. -/
theorem read_accepts_grammar (limit : Nat) (s : String) :
    (∀ t, read limit s = .ok t ↔ Program s.toList t ∧ t.nesting ≤ limit) ∧
    ((∃ place problem, read limit s = .error (.unreadable place problem)) →
      ∀ t, ¬ Program s.toList t) ∧
    ((∀ t, ¬ Program s.toList t) →
      (∃ place problem, read limit s = .error (.unreadable place problem)) ∨
      (read limit s = .error .tooDeep ∧ limit ≤ s.toList.count '(')) := by
  refine ⟨fun t => read_eq_ok_iff, ?_, fun hno => ?_⟩
  · rintro ⟨place, problem, h⟩ t
    exact not_program_of_unreadable h t
  · cases h : read limit s with
    | ok t => exact absurd (read_eq_ok_iff.mp h).1 (hno t)
    | error f =>
      obtain ⟨stop, left, -, rfl⟩ := read_eq_error h
      cases stop with
      | problem p => exact Or.inl ⟨_, p, rfl⟩
      | tooDeep => exact Or.inr ⟨rfl, read_tooDeep h⟩

end EggLang.Expr
