/-
# `EggLang.Proofs.Source.Progress` — reading goes on, and ends

The reader with the source that it has left, from piece to piece (`Reads`).  Its
place in the source only ever goes forward: what is left is always the end of what
was left before, and each piece takes at least one character of it.  So

    however it goes on    no more pieces are read than there are characters left
    an argument list      has no more turns than that, and neither have the
                          lists behind an expression
    the whole source      is read to its end, or up to a piece that is refused,
                          and the answer is the one that is given there (`Stops`)

How large a tree gets is a matter of the pieces as well.  The reader's state has a
weight, the nodes of all expressions in it and one more for each open list.  A
piece that begins an expression and a piece that opens a list add one to it, and
no other piece adds anything (`Moves.weight_le`).  An expression that has been read
is weight that was not there before it, so it has at most as many nodes as there
were pieces.
-/
import EggLang.Proofs.Source.Acceptance

namespace EggLang

/-! ## What is left of a source -/

namespace Token

open Text (isBlank)

theorem skipLayout_suffix (comment : Bool) (cs : List Char) : skipLayout comment cs <:+ cs := by
  induction cs generalizing comment with
  | nil => exact List.suffix_rfl
  | cons c cs ih =>
    have hrest : ∀ comment, skipLayout comment cs <:+ c :: cs :=
      fun comment => (ih comment).trans (List.suffix_cons c cs)
    unfold skipLayout
    split
    · exact hrest _
    · split
      · exact hrest _
      · split
        · exact hrest _
        · exact List.suffix_rfl

theorem skipLayout_stops {cs rest : List Char} {c : Char} :
    skipLayout false cs = c :: rest → isBlank c = false ∧ c ≠ '#' := by
  intro h
  exact ⟨skipLayout_head h, (skipLayout_eq_cons h).1⟩

/-- What follows a piece is what follows its first character, or an end of that. -/
theorem scan_suffix {cs rest : List Char} {c : Char} :
    skipLayout false cs = c :: rest → (scan c rest).2 <:+ rest := by
  intro h
  obtain ⟨hb, hc⟩ := skipLayout_stops h
  obtain ⟨text, htext, hspells⟩ := scan_spells rest hb hc
  cases text with
  | nil => exact absurd rfl (spells_ne_nil hspells)
  | cons d text =>
    obtain ⟨-, hrest⟩ := List.cons.inj htext
    exact ⟨text, hrest.symm⟩

/-- What follows a piece is shorter than what the layout before it begins. -/
theorem scan_suffix_lt {cs rest : List Char} {c : Char} (h : skipLayout false cs = c :: rest) :
    (scan c rest).2 <:+ cs ∧ (scan c rest).2.length < cs.length := by
  have hcons : c :: rest <:+ cs := h ▸ skipLayout_suffix false cs
  have hscan := scan_suffix h
  refine ⟨(hscan.trans (List.suffix_cons c rest)).trans hcons, ?_⟩
  exact Nat.lt_of_lt_of_le (Nat.lt_succ_of_le hscan.length_le) hcons.length_le

end Token

/-! ## Nodes -/

namespace Expr

mutual

/-- How many nodes a tree has. -/
def nodes : Expr → Nat
  | .apply operator args => operator.nodes + nodesIn args + 1
  | _ => 1

def nodesIn : List Expr → Nat
  | [] => 0
  | a :: as => a.nodes + nodesIn as

end

theorem nodes_apply (operator : Expr) (args : List Expr) :
    (apply operator args).nodes = operator.nodes + nodesIn args + 1 := by
  rw [nodes]

theorem nodesIn_cons (a : Expr) (as : List Expr) : nodesIn (a :: as) = a.nodes + nodesIn as := by
  rw [nodesIn]

theorem nodesIn_append (as bs : List Expr) : nodesIn (as ++ bs) = nodesIn as + nodesIn bs := by
  induction as with
  | nil => exact (Nat.zero_add _).symm
  | cons a as ih => rw [List.cons_append, nodesIn_cons, nodesIn_cons, ih, Nat.add_assoc]

theorem nodesIn_reverse (as : List Expr) : nodesIn as.reverse = nodesIn as := by
  induction as with
  | nil => rfl
  | cons a as ih =>
    rw [List.reverse_cons, nodesIn_append, ih, nodesIn_cons, nodesIn_cons, Nat.add_comm]
    rfl

theorem nodes_pos (e : Expr) : 0 < e.nodes := by
  cases e with
  | apply operator args =>
    rw [nodes_apply]
    exact Nat.succ_pos _
  | _ => exact Nat.one_pos

end Expr

/-- The nodes in an open application, which is one itself. -/
def Pending.weight (p : Pending) : Nat := p.operator.nodes + Expr.nodesIn p.args + 1

def Pending.weights : List Pending → Nat
  | [] => 0
  | p :: ps => p.weight + weights ps

/-- The nodes of the expression at hand. -/
def Focus.weight : Focus → Nat
  | .done e => e.nodes
  | _ => 0

namespace Reading

open Token (skipLayout scan lexemes)

/-- The nodes in all that the reader has. -/
def weight (r : Reading) : Nat := Pending.weights r.stack + r.focus.weight

theorem weight_push (p : Pending) (stack : List Pending) (focus : Focus) :
    weight ⟨p :: stack, focus⟩ = p.weight + weight ⟨stack, focus⟩ := by
  unfold weight
  rw [Pending.weights, Nat.add_assoc]

theorem nodes_atom {l : Lexeme} {e : Expr} : atom l = .ok e → e.nodes = 1 := by
  intro h
  unfold atom at h
  split at h
  · cases h
    rfl
  · split at h
    · cases h
      rfl
    · cases h
  · cases h
    rfl
  · cases h

/-- A piece adds one node at most. -/
theorem Moves.weight_le {limit : Nat} {r r' : Reading} {l : Lexeme} (h : Moves limit r l r') :
    r'.weight ≤ r.weight + 1 := by
  cases h with
  | begin _ _ he =>
    have hone := nodes_atom he
    simp only [weight, Focus.weight]
    omega
  | @none p stack _ _ =>
    have hreverse := Expr.nodesIn_reverse p.args
    rw [weight_push]
    simp only [weight, Focus.weight, Pending.weight, Expr.nodes_apply]
    omega
  | @opens e stack _ _ =>
    rw [weight_push]
    simp only [weight, Focus.weight, Pending.weight, Expr.nodesIn]
    omega
  | @comma e p stack _ _ =>
    rw [weight_push, weight_push]
    simp only [weight, Focus.weight, Pending.weight, Expr.nodesIn_cons]
    omega
  | @closes e p stack _ _ =>
    have hreverse := Expr.nodesIn_reverse (e :: p.args)
    rw [Expr.nodesIn_cons] at hreverse
    rw [weight_push]
    simp only [weight, Focus.weight, Pending.weight, Expr.nodes_apply]
    omega

/-! ## From piece to piece -/

/-- By `n` pieces the reader comes from a state, with the source that is left in
it, to another one, with what is then left. -/
inductive Reads (limit : Nat) : Nat → Reading → List Char → Reading → List Char → Prop
  | here {r : Reading} {cs : List Char} : Reads limit 0 r cs r cs
  | piece {n : Nat} {r r' r'' : Reading} {cs rest cs'' : List Char} {c : Char} :
      skipLayout false cs = c :: rest →
      step limit r ⟨(scan c rest).1, c :: rest⟩ = .ok r' →
      Reads limit n r' (scan c rest).2 r'' cs'' → Reads limit (n + 1) r cs r'' cs''

namespace Reads

variable {limit n : Nat} {r r' : Reading} {cs cs' : List Char}

/-- What is left is the end of what was left. -/
theorem suffix (h : Reads limit n r cs r' cs') : cs' <:+ cs := by
  induction h with
  | here => exact List.suffix_rfl
  | piece hskip _ _ ih => exact ih.trans (Token.scan_suffix_lt hskip).1

/-- Each piece takes a character. -/
theorem length_le (h : Reads limit n r cs r' cs') : n + cs'.length ≤ cs.length := by
  induction h with
  | here => exact Nat.le_of_eq (Nat.zero_add _)
  | piece hskip _ _ ih =>
    have hlt := (Token.scan_suffix_lt hskip).2
    omega

/-- Each piece adds one node at most. -/
theorem weight_le (h : Reads limit n r cs r' cs') : r'.weight ≤ r.weight + n := by
  induction h with
  | here => exact Nat.le_refl _
  | piece _ hstep _ ih =>
    have hone := (step_eq_ok_iff.mp hstep).weight_le
    omega

theorem pos_of_ne (h : Reads limit n r cs r' cs') : r ≠ r' → 0 < n := by
  intro hne
  cases h with
  | here => exact absurd rfl hne
  | piece _ _ _ => exact Nat.succ_pos _

/-- An expression has at most as many nodes as it took pieces. -/
theorem nodes_le {stack : List Pending} {focus : Focus} {e : Expr} (hf : focus.Awaits)
    (h : Reads limit n ⟨stack, focus⟩ cs ⟨stack, .done e⟩ cs') : e.nodes ≤ n := by
  have hweight := h.weight_le
  have hzero : focus.weight = 0 := by
    cases focus with
    | done _ => exact hf.elim
    | _ => rfl
  unfold weight at hweight
  rw [hzero] at hweight
  exact Nat.add_le_add_iff_left.mp hweight

end Reads

/-! ## The end of reading -/

/-- Reading a source ends in this state, with what is left of it, and gives this
answer: no piece is left, and the state is what has been read or is refused, or
there is a piece that is refused. -/
inductive Stops (limit : Nat) (source : List Char) (r : Reading) (cs : List Char) :
    Except Fault Expr → Prop
  | returned {t : Expr} : skipLayout false cs = [] → finish limit r = .ok t →
      Stops limit source r cs (.ok t)
  | ended {stop : Stop} : skipLayout false cs = [] → finish limit r = .error stop →
      Stops limit source r cs (.error (stop.fault source []))
  | refused {rest : List Char} {c : Char} {stop : Stop} : skipLayout false cs = c :: rest →
      step limit r ⟨(scan c rest).1, c :: rest⟩ = .error stop →
      Stops limit source r cs (.error (stop.fault source (c :: rest)))

/-- The answer that a source gets for what its pieces come to. -/
def answer (source : List Char) : Except (Stop × List Char) Expr → Except Fault Expr
  | .ok t => .ok t
  | .error (stop, left) => .error (stop.fault source left)

theorem readChars_eq_answer (limit : Nat) (source : List Char) :
    Expr.readChars limit source = answer source (run limit .initial (lexemes source)) := by
  unfold Expr.readChars answer
  cases run limit .initial (lexemes source) <;> rfl

/-- Wherever the reader is, it comes to a stop, and the answer is that of the stop. -/
theorem reads_stops (limit : Nat) (source cs : List Char) (r : Reading) :
    ∃ n r' cs', Reads limit n r cs r' cs' ∧
      Stops limit source r' cs' (answer source (run limit r (lexemes cs))) := by
  induction cs using Token.lexemes.induct generalizing r with
  | case1 cs hskip =>
    refine ⟨0, r, cs, .here, ?_⟩
    rw [Token.lexemes_eq_nil hskip, run]
    cases hfinish : finish limit r with
    | ok t => exact .returned hskip hfinish
    | error stop => exact .ended hskip hfinish
  | case2 cs c rest hskip ih =>
    rw [Token.lexemes_eq_cons hskip, run]
    cases hstep : step limit r ⟨(scan c rest).1, c :: rest⟩ with
    | error stop => exact ⟨0, r, cs, .here, .refused hskip hstep⟩
    | ok r' =>
      obtain ⟨n, r'', cs'', hreads, hstops⟩ := ih r'
      exact ⟨n + 1, r'', cs'', .piece hskip hstep hreads, hstops⟩

theorem finish_eq_ok {limit : Nat} {r : Reading} {t : Expr} :
    finish limit r = .ok t → r = ⟨[], .done t⟩ := by
  intro h
  obtain ⟨stack, focus⟩ := r
  cases focus with
  | done e =>
    cases stack with
    | nil =>
      cases h
      rfl
    | cons p stack => cases h
  | _ => cases stack <;> cases h

end Reading

namespace Expr

open Reading (Reads Stops)

/-- Skipping layout goes forward, to the end or to a character that is neither blank
nor a comment's first.  Wherever reading a source comes to, what is left is an end
of the source, and from there on it goes forward too, by a character for each piece
at least, so that it is never in another state at the same place.  An expression
takes a character at least, and one for each of its nodes.  Reading ends after no
more pieces than the source has characters, with the answer of the state that it
ends in, and a tree that it returns has no more nodes than that. -/
theorem read_progresses (limit : Nat) (s : String) :
    (∀ cs, Token.skipLayout false cs <:+ cs ∧ (Token.skipLayout false cs = [] ∨
      ∃ c rest, Token.skipLayout false cs = c :: rest ∧ Text.isBlank c = false ∧ c ≠ '#')) ∧
    (∀ n r cs, Reads limit n .initial s.toList r cs → cs <:+ s.toList ∧
      ∀ m r' cs', Reads limit m r cs r' cs' → cs' <:+ cs ∧ m + cs'.length ≤ cs.length ∧
        (r ≠ r' → cs'.length < cs.length)) ∧
    (∀ m stack focus cs e cs', focus.Awaits →
      Reads limit m ⟨stack, focus⟩ cs ⟨stack, .done e⟩ cs' →
        cs'.length < cs.length ∧ e.nodes + cs'.length ≤ cs.length) ∧
    (∃ n r cs, n ≤ s.length ∧ Reads limit n .initial s.toList r cs ∧
      Stops limit s.toList r cs (read limit s)) ∧
    ∀ t, read limit s = .ok t → t.nodes ≤ s.length := by
  obtain ⟨n, r, cs, hreads, hstops⟩ := Reading.reads_stops limit s.toList s.toList .initial
  rw [← Reading.readChars_eq_answer] at hstops
  change Stops limit s.toList r cs (read limit s) at hstops
  have hn : n ≤ s.length := by
    have hlength := hreads.length_le
    rw [String.length_toList] at hlength
    omega
  refine ⟨?_, ?_, ?_, ⟨n, r, cs, hn, hreads, hstops⟩, ?_⟩
  · intro cs
    refine ⟨Token.skipLayout_suffix false cs, ?_⟩
    cases hskip : Token.skipLayout false cs with
    | nil => exact Or.inl rfl
    | cons c rest => exact Or.inr ⟨c, rest, rfl, Token.skipLayout_stops hskip⟩
  · intro n r cs hreads
    refine ⟨hreads.suffix, ?_⟩
    intro m r' cs' hgoes
    have hlength := hgoes.length_le
    refine ⟨hgoes.suffix, hlength, ?_⟩
    intro hne
    have hpos := hgoes.pos_of_ne hne
    omega
  · intro m stack focus cs e cs' hf hreads
    have hnodes := hreads.nodes_le hf
    have hlength := hreads.length_le
    have hpos := e.nodes_pos
    exact ⟨by omega, by omega⟩
  · intro t ht
    rw [ht] at hstops
    cases hstops with
    | returned _ hfinish =>
      cases Reading.finish_eq_ok hfinish
      exact Nat.le_trans (hreads.nodes_le Focus.awaits_start) hn

/-- Two argument lists, one of them with a comma at its end, and layout around
them: five nodes in twelve characters. -/
theorem read_progresses_two_lists :
    let t := Expr.apply (.apply (.word "f") [.number 1]) [.text "x"]
    read 2 " f(1)(\"x\",)#" = .ok t ∧ t.nodes = 5 ∧ t.nodes ≤ " f(1)(\"x\",)#".length := by
  intro t
  have h : read 2 " f(1)(\"x\",)#" = .ok t := by with_unfolding_all rfl
  obtain ⟨-, -, -, -, hnodes⟩ := read_progresses 2 " f(1)(\"x\",)#"
  exact ⟨h, by decide, hnodes t h⟩

end Expr

end EggLang
