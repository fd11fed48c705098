/-
# `EggLang.Proofs.Alike.Store` — two runs side by side

Two runs begin in stores of their own.  A `Start` says which frames and which
identities of the two belong together; whatever the runs make afterwards
belongs together if it was made at the same time, so the links grow in
lockstep with the stores and are never stored anywhere.

Two later stores are `Matched` if

    sizes       both runs have made as many frames and identities
    visible     linked frames have the same names, bound to alike values,
                and are both global, or inside linked frames made earlier
    output      both runs have printed the same lines
    kept        a frame of the start that is linked with none, or that is
                locked, is as it was

A frame that is not linked may hold anything, on either side, and is not
touched.  A locked frame is read but not written, which is why a start with
locked frames does not allow assignment.

Each operation on stores takes matched stores to matched stores.
-/
import EggLang.Evaluate
import EggLang.Store.Lemmas
import EggLang.Proofs.Alike.Builtin

namespace EggLang

/-! ## Expressions with some forms only -/

namespace Expr

/-- The expression is the other one, or a part of it at some depth. -/
inductive Subtree (u : Expr) : Expr → Prop
  | self : Subtree u u
  | operator {op : Expr} {args : List Expr} : Subtree u op → Subtree u (.apply op args)
  | argument {op a : Expr} {args : List Expr} : a ∈ args → Subtree u a →
      Subtree u (.apply op args)

/-- All forms that the expression uses are allowed. -/
def Within (forms : Forms) (allowed : Form → Prop) (e : Expr) : Prop :=
  ∀ op args f, Subtree (.apply op args) e → Evaluate.formOf? forms op = some f → allowed f

section
variable {forms : Forms} {allowed : Form → Prop} {op : Expr} {args : List Expr}

theorem Within.operator (h : (Expr.apply op args).Within forms allowed) : op.Within forms allowed :=
  fun op' args' f hs => h op' args' f (.operator hs)

theorem Within.argument {a : Expr} (h : (Expr.apply op args).Within forms allowed)
    (ha : a ∈ args) : a.Within forms allowed :=
  fun op' args' f hs => h op' args' f (.argument ha hs)

theorem Within.form {f : Form} (h : (Expr.apply op args).Within forms allowed)
    (hf : Evaluate.formOf? forms op = some f) : allowed f :=
  h op args f .self hf

end

end Expr

/-! ## Pairs of numbers -/

/-- Some of the numbers below `m` and below `n` in pairs, none of them in
two. -/
structure Pairing (m n : Nat) where
  pair : Nat → Nat → Prop
  left_lt : ∀ {i j}, pair i j → i < m
  right_lt : ∀ {i j}, pair i j → j < n
  one_to_one : ∀ {i j i' j'}, pair i j → pair i' j' → (i = i' ↔ j = j')

namespace Pairing

/-- The pairs, and those of the numbers that come next on both sides. -/
def grown {m n : Nat} (r : Pairing m n) (i j : Nat) : Prop :=
  r.pair i j ∨ ∃ d, i = m + d ∧ j = n + d

section
variable {m n a b i j i' j' : Nat} {r : Pairing m n}

theorem grown_one_to_one (h : r.grown i j) (h' : r.grown i' j') : i = i' ↔ j = j' := by
  rcases h with h | ⟨d, hi, hj⟩
  · rcases h' with h' | ⟨d', hi', hj'⟩
    · exact r.one_to_one h h'
    · have hlt := r.left_lt h
      have hlt' := r.right_lt h
      omega
  · rcases h' with h' | ⟨d', hi', hj'⟩
    · have hlt := r.left_lt h'
      have hlt' := r.right_lt h'
      omega
    · omega

/-- Numbers that belong together are taken at the same time. -/
theorem grown_lt_iff (hm : m ≤ a) (hab : a + n = b + m) (h : r.grown i j) : i < a ↔ j < b := by
  rcases h with h | ⟨d, hi, hj⟩
  · have hlt := r.left_lt h
    have hlt' := r.right_lt h
    omega
  · omega

theorem grown_next (hm : m ≤ a) (hab : a + n = b + m) : r.grown a b :=
  Or.inr ⟨a - m, by omega, by omega⟩

theorem pair_of_left_lt (h : r.grown i j) (hi : i < m) : r.pair i j := by
  rcases h with h | ⟨d, hd, _⟩
  · exact h
  · omega

theorem pair_of_right_lt (h : r.grown i j) (hj : j < n) : r.pair i j := by
  rcases h with h | ⟨d, _, hd⟩
  · exact h
  · omega

end

/-- The pairs up to a later time, at which as many numbers have been taken on
both sides. -/
def upTo {m n a b : Nat} (r : Pairing m n) (hm : m ≤ a) (hab : a + n = b + m) : Pairing a b where
  pair i j := i < a ∧ r.grown i j
  left_lt h := h.1
  right_lt h := (grown_lt_iff hm hab h.2).mp h.1
  one_to_one h h' := grown_one_to_one h.2 h'.2

/-- The same pairs, when more numbers have been taken on the left. -/
def widen {m n a : Nat} (r : Pairing m n) (hm : m ≤ a) : Pairing a n where
  pair := r.pair
  left_lt h := Nat.lt_of_lt_of_le (r.left_lt h) hm
  right_lt := r.right_lt
  one_to_one := r.one_to_one

end Pairing

/-! ## Frames -/

/-- Nothing is around either frame, or linked frames with smaller numbers. -/
inductive AlikeOuter (l : Links) (e f : FrameId) : Option FrameId → Option FrameId → Prop
  | global : AlikeOuter l e f none none
  | inside {o o' : FrameId} : o < e → o' < f → l.frame o o' → AlikeOuter l e f (some o) (some o')

/-- Frames with linked frames around them and alike bindings. -/
structure Frame.Alike (l : Links) (code : List String → Expr → Prop) (e f : FrameId)
    (a b : Frame) : Prop where
  outer : AlikeOuter l e f a.outer b.outer
  bindings : Bindings.Alike l code a.bindings b.bindings

theorem AlikeOuter.mono {l m : Links} {e f : FrameId} {o o' : Option FrameId} (hle : l.Le m)
    (h : AlikeOuter l e f o o') : AlikeOuter m e f o o' := by
  cases h with
  | global => exact .global
  | inside ho ho' hl => exact .inside ho ho' (hle.frame hl)

theorem Frame.Alike.mono {l m : Links} {code : List String → Expr → Prop} {e f : FrameId}
    {a b : Frame} (hle : l.Le m) (h : Frame.Alike l code e f a b) : Frame.Alike m code e f a b :=
  ⟨h.outer.mono hle, h.bindings.mono hle⟩

theorem Frame.Alike.eq {l : Links} {code : List String → Expr → Prop} {e f : FrameId} {a b : Frame}
    (hi : ∀ {i j}, l.identity i j → i = j) (hf : ∀ {e f}, l.frame e f → e = f)
    (h : Frame.Alike l code e f a b) : a = b := by
  obtain ⟨outer, bs⟩ := a
  obtain ⟨outer', cs⟩ := b
  obtain ⟨houter, hbs⟩ := h
  cases hbs.eq hi hf
  cases houter with
  | global => rfl
  | inside _ _ hl => rw [hf hl]

/-- No frame and no identity was given back. -/
structure Store.Grows (s t : Store) : Prop where
  frames : s.frames.size ≤ t.frames.size
  fresh : s.fresh ≤ t.fresh

namespace Store.Grows

theorem refl (s : Store) : s.Grows s := ⟨Nat.le_refl _, Nat.le_refl _⟩

theorem trans {s t u : Store} (h : s.Grows t) (h' : t.Grows u) : s.Grows u :=
  ⟨Nat.le_trans h.frames h'.frames, Nat.le_trans h.fresh h'.fresh⟩

theorem push (s : Store) (outer : Option FrameId) (bs : Bindings) :
    s.Grows (s.push outer bs).2 :=
  ⟨Nat.le_of_lt (by rw [size_push]; omega), Nat.le_refl _⟩

theorem define (s : Store) (e : FrameId) (x : String) (v : Value) : s.Grows (s.define e x v) :=
  ⟨Nat.le_of_eq (size_define s e x v).symm, Nat.le_refl _⟩

end Store.Grows

/-! ## Starts -/

/-- Two stores, what belongs together in them, and what runs may do. -/
structure Start where
  left : Store
  right : Store
  frames : Pairing left.frames.size right.frames.size
  identities : Pairing left.fresh right.fresh
  /-- Frames of the left store that are not written, like their partners. -/
  locked : FrameId → Prop
  forms : Forms
  allowed : Form → Prop
  locked_lt : ∀ {f}, locked f → f < left.frames.size
  assign_unlocked : allowed .assign → ∀ f, ¬ locked f

namespace Start

/-- What is known of a closure's code. -/
def code (p : Start) (_ : List String) (body : Expr) : Prop :=
  body.Within p.forms p.allowed

/-- What belongs together when the left run has come to store `s`. -/
def links (p : Start) (s : Store) : Links where
  identity i j := i < s.fresh ∧ p.identities.grown i j
  frame e f := e < s.frames.size ∧ p.frames.grown e f

/-- The values are alike when the left run has come to store `s`. -/
def Values (p : Start) (s : Store) (u v : Value) : Prop :=
  Value.Alike (p.links s) p.code u v

theorem links_le (p : Start) {s t : Store} (h : s.Grows t) : (p.links s).Le (p.links t) where
  identity := fun hl => ⟨Nat.lt_of_lt_of_le hl.1 h.fresh, hl.2⟩
  frame := fun hl => ⟨Nat.lt_of_lt_of_le hl.1 h.frames, hl.2⟩

theorem links_define (p : Start) (s : Store) (e : FrameId) (x : String) (v : Value) :
    p.links (s.define e x v) = p.links s := by
  unfold links
  rw [Store.size_define]
  rfl

/-- The stores are where two runs may have come to. -/
structure Matched (p : Start) (s t : Store) : Prop where
  frames_le : p.left.frames.size ≤ s.frames.size
  frames_step : s.frames.size + p.right.frames.size = t.frames.size + p.left.frames.size
  fresh_le : p.left.fresh ≤ s.fresh
  fresh_step : s.fresh + p.right.fresh = t.fresh + p.left.fresh
  visible : ∀ {e f}, (p.links s).frame e f → ∃ a b, s.frames[e]? = some a ∧
    t.frames[f]? = some b ∧ Frame.Alike (p.links s) p.code e f a b
  output : ∃ lines : Array String, s.printed = p.left.printed ++ lines ∧
    t.printed = p.right.printed ++ lines
  left_kept : ∀ {e}, e < p.left.frames.size → (∀ f, p.frames.pair e f → p.locked e) →
    s.frames[e]? = p.left.frames[e]?
  right_kept : ∀ {f}, f < p.right.frames.size → (∀ e, p.frames.pair e f → p.locked e) →
    t.frames[f]? = p.right.frames[f]?

/-- The frames belong together and may be written. -/
structure Site (p : Start) (s : Store) (e f : FrameId) : Prop where
  linked : (p.links s).frame e f
  unlocked : ¬ p.locked e

section
variable {p : Start} {s s' t : Store} {e f : FrameId} {u v : Value}

theorem Values.mono (h : p.Values s u v) (hg : s.Grows s') : p.Values s' u v :=
  Value.Alike.mono (p.links_le hg) h

theorem Site.mono (h : p.Site s e f) (hg : s.Grows s') : p.Site s' e f :=
  ⟨(p.links_le hg).frame h.linked, h.unlocked⟩

theorem links_one_to_one {i j i' j' : Nat} (h : (p.links s).identity i j)
    (h' : (p.links s).identity i' j') : i = i' ↔ j = j' :=
  Pairing.grown_one_to_one h.2 h'.2

/-! ## Beginning and going on -/

/-- At the start only the pairs of the start have to be looked at. -/
theorem matched_start (hv : ∀ {e f}, p.frames.pair e f → ∃ a b, p.left.frames[e]? = some a ∧
      p.right.frames[f]? = some b ∧ Frame.Alike (p.links p.left) p.code e f a b) :
    p.Matched p.left p.right where
  frames_le := Nat.le_refl _
  frames_step := Nat.add_comm _ _
  fresh_le := Nat.le_refl _
  fresh_step := Nat.add_comm _ _
  visible := fun hl => hv (Pairing.pair_of_left_lt hl.2 hl.1)
  output := ⟨#[], Array.append_empty.symm, Array.append_empty.symm⟩
  left_kept := fun _ _ => rfl
  right_kept := fun _ _ => rfl

/-- Where two runs have come to is a start for what they do next. -/
def resume (p : Start) {s t : Store} (h : p.Matched s t) : Start where
  left := s
  right := t
  frames := p.frames.upTo h.frames_le h.frames_step
  identities := p.identities.upTo h.fresh_le h.fresh_step
  locked := p.locked
  forms := p.forms
  allowed := p.allowed
  locked_lt hf := Nat.lt_of_lt_of_le (p.locked_lt hf) h.frames_le
  assign_unlocked := p.assign_unlocked

theorem matched_resume (h : p.Matched s t) : (p.resume h).Matched s t := by
  refine matched_start ?_
  intro e f hef
  obtain ⟨a, b, ha, hb, hab⟩ := h.visible hef
  refine ⟨a, b, ha, hb, hab.mono ⟨?_, ?_⟩⟩
  · exact fun hl => ⟨hl.1, Or.inl hl⟩
  · exact fun hl => ⟨hl.1, Or.inl hl⟩

/-- The left run has gone on by itself to a store `s`. -/
def alone (p : Start) {s : Store} (hg : p.left.Grows s) : Start where
  left := s
  right := p.right
  frames := p.frames.widen hg.frames
  identities := p.identities.widen hg.fresh
  locked := p.locked
  forms := p.forms
  allowed := p.allowed
  locked_lt hf := Nat.lt_of_lt_of_le (p.locked_lt hf) hg.frames
  assign_unlocked := p.assign_unlocked

/-- What the left run does by itself may change no frame that has a partner. -/
theorem matched_alone (h : p.Matched p.left p.right) (hg : p.left.Grows s)
    (hkept : ∀ {e f}, p.frames.pair e f → s.frames[e]? = p.left.frames[e]?) :
    (p.alone hg).Matched s p.right := by
  refine matched_start ?_
  intro e f hef
  obtain ⟨a, b, ha, hb, hab⟩ := h.visible ⟨p.frames.left_lt hef, Or.inl hef⟩
  refine ⟨a, b, (hkept hef).trans ha, hb, hab.mono ⟨?_, ?_⟩⟩
  · intro i j hl
    have hpair : p.identities.pair i j := Pairing.pair_of_left_lt hl.2 hl.1
    exact ⟨Nat.lt_of_lt_of_le hl.1 hg.fresh, Or.inl hpair⟩
  · intro e f hl
    have hpair : p.frames.pair e f := Pairing.pair_of_left_lt hl.2 hl.1
    exact ⟨Nat.lt_of_lt_of_le hl.1 hg.frames, Or.inl hpair⟩

namespace Matched

theorem right_lt (h : p.Matched s t) (hl : (p.links s).frame e f) : f < t.frames.size :=
  (Pairing.grown_lt_iff h.frames_le h.frames_step hl.2).mp hl.1

/-! ## Reading -/

/-- Linked frames have chains of linked frames.  The two walks are bounded by
different counts, but neither bound is reached, as numbers fall outward. -/
theorem chainFrom_linked (h : p.Matched s t) (m n : Nat) (hm : e < m) (hn : f < n)
    (hl : (p.links s).frame e f) :
    List.Forall₂ (p.links s).frame (s.chainFrom m e) (t.chainFrom n f) := by
  induction m generalizing n e f with
  | zero => exact absurd hm (Nat.not_lt_zero e)
  | succ m ih =>
    cases n with
    | zero => exact absurd hn (Nat.not_lt_zero f)
    | succ n =>
      obtain ⟨a, b, ha, hb, hab⟩ := h.visible hl
      have houter := hab.outer
      simp only [Store.chainFrom, ha, hb]
      generalize a.outer = o, b.outer = o' at houter
      cases houter with
      | global => exact .cons hl .nil
      | inside ho ho' hlo =>
        have hom := Nat.lt_of_lt_of_le ho (Nat.le_of_lt_succ hm)
        have hon := Nat.lt_of_lt_of_le ho' (Nat.le_of_lt_succ hn)
        exact .cons hl (ih n hom hon hlo)

theorem chain_linked (h : p.Matched s t) (hl : (p.links s).frame e f) :
    List.Forall₂ (p.links s).frame (s.chain e) (t.chain f) :=
  h.chainFrom_linked (e + 1) (f + 1) (Nat.lt_succ_self e) (Nat.lt_succ_self f) hl

theorem bindings_alike (h : p.Matched s t) (hl : (p.links s).frame e f) :
    Bindings.Alike (p.links s) p.code (s.bindings e) (t.bindings f) := by
  obtain ⟨a, b, ha, hb, hab⟩ := h.visible hl
  simpa only [Store.bindings, ha, hb] using hab.bindings

/-- Both stores find a name in linked frames, or neither finds it. -/
theorem find?_linked (h : p.Matched s t) (hl : (p.links s).frame e f) (x : String) :
    (s.find? e x = none ∧ t.find? f x = none) ∨
    ∃ g g', s.find? e x = some g ∧ t.find? f x = some g' ∧ (p.links s).frame g g' := by
  have hchains := h.chain_linked hl
  unfold Store.find?
  generalize s.chain e = cs, t.chain f = ds at hchains
  induction hchains with
  | nil => exact Or.inl ⟨rfl, rfl⟩
  | @cons g g' _ _ hg _ ih =>
    have howns : s.owns g x = t.owns g' x := (h.bindings_alike hg).owns_eq x
    rw [List.find?_cons, List.find?_cons, howns]
    cases t.owns g' x with
    | true => exact Or.inr ⟨g, g', rfl, rfl, hg⟩
    | false => exact ih

theorem lookup_alike (h : p.Matched s t) (hl : (p.links s).frame e f) (x : String) :
    Outcome (p.Values s) (s.lookup e x) (t.lookup f x) := by
  rcases h.find?_linked hl x with ⟨hs, ht⟩ | ⟨g, g', hs, ht, hg⟩
  · simp only [Store.lookup, hs, ht]
    exact .error _
  · rcases (h.bindings_alike hg).get? x with ⟨hu, hv⟩ | ⟨u, v, hu, hv, huv⟩
    · simp only [Store.lookup, hs, ht, hu, hv]
      exact .error _
    · simp only [Store.lookup, hs, ht, hu, hv]
      exact .ok huv

/-! ## Writing -/

theorem define (h : p.Matched s t) (hs : p.Site s e f) (x : String) (huv : p.Values s u v) :
    p.Matched (s.define e x u) (t.define f x v) where
  frames_le := by
    rw [Store.size_define]
    exact h.frames_le
  frames_step := by
    rw [Store.size_define, Store.size_define]
    exact h.frames_step
  fresh_le := h.fresh_le
  fresh_step := h.fresh_step
  visible := by
    intro g g' hg
    rw [links_define] at hg ⊢
    obtain ⟨a, b, ha, hb, hab⟩ := h.visible hg
    -- the frames are the two that are written, or both are others
    by_cases he : e = g
    · have hf : f = g' := (Pairing.grown_one_to_one hs.linked.2 hg.2).mp he
      subst he hf
      refine ⟨_, _, Store.frames_define_self x u ha, Store.frames_define_self x v hb, hab.outer, ?_⟩
      exact hab.bindings.put x huv
    · have hf : f ≠ g' := fun hf => he ((Pairing.grown_one_to_one hs.linked.2 hg.2).mpr hf)
      refine ⟨a, b, ?_, ?_, hab⟩
      · rw [Store.frames_define_of_ne x u he, ha]
      · rw [Store.frames_define_of_ne x v hf, hb]
  output := h.output
  left_kept := by
    intro g hg hlocked
    have hne : e ≠ g := by
      rintro rfl
      exact hs.unlocked (hlocked f (Pairing.pair_of_left_lt hs.linked.2 hg))
    rw [Store.frames_define_of_ne x u hne]
    exact h.left_kept hg hlocked
  right_kept := by
    intro g hg hlocked
    have hne : f ≠ g := by
      rintro rfl
      exact hs.unlocked (hlocked e (Pairing.pair_of_right_lt hs.linked.2 hg))
    rw [Store.frames_define_of_ne x v hne]
    exact h.right_kept hg hlocked

/-- Assignment writes the frames that bind the name, which are linked.  That
neither is locked has to be known of all frames. -/
theorem set (h : p.Matched s t) (hp : ∀ g, ¬ p.locked g) (hl : (p.links s).frame e f) (x : String)
    (huv : p.Values s u v) :
    Outcome (fun s' t' => s.Grows s' ∧ p.Matched s' t') (s.set e x u) (t.set f x v) := by
  rcases h.find?_linked hl x with ⟨hs, ht⟩ | ⟨g, g', hs, ht, hg⟩
  · simp only [Store.set, hs, ht]
    exact .error _
  · simp only [Store.set, hs, ht]
    exact .ok ⟨.define s g x u, h.define ⟨hg, hp g⟩ x huv⟩

/-! ## Making -/

theorem push (h : p.Matched s t) (hl : (p.links s).frame e f) {bs cs : Bindings}
    (hbs : Bindings.Alike (p.links s) p.code bs cs) :
    p.Matched (s.push (some e) bs).2 (t.push (some f) cs).2 where
  frames_le := Nat.le_trans h.frames_le (Store.Grows.push s _ bs).frames
  frames_step := by
    have hstep := h.frames_step
    rw [Store.size_push, Store.size_push]
    omega
  fresh_le := h.fresh_le
  fresh_step := h.fresh_step
  visible := by
    intro g g' hg
    have hle := p.links_le (Store.Grows.push s (some e) bs)
    by_cases hlt : g < s.frames.size
    · have hlt' := (Pairing.grown_lt_iff h.frames_le h.frames_step hg.2).mp hlt
      obtain ⟨a, b, ha, hb, hab⟩ := h.visible ⟨hlt, hg.2⟩
      refine ⟨a, b, ?_, ?_, hab.mono hle⟩
      · rw [Store.frames_push_of_lt _ _ hlt, ha]
      · rw [Store.frames_push_of_lt _ _ hlt', hb]
    · -- the only other number is that of the new frame
      have hlast := hg.1
      rw [Store.size_push] at hlast
      have hgs : s.frames.size = g :=
        Nat.le_antisymm (Nat.le_of_not_lt hlt) (Nat.le_of_lt_succ hlast)
      have hnext := Pairing.grown_next (r := p.frames) h.frames_le h.frames_step
      have hgt : t.frames.size = g' := (Pairing.grown_one_to_one hnext hg.2).mp hgs
      subst hgs hgt
      refine ⟨_, _, Store.frames_push_self s _ bs, Store.frames_push_self t _ cs, ?_, hbs.mono hle⟩
      exact .inside hl.1 (h.right_lt hl) (hle.frame hl)
  output := h.output
  left_kept := by
    intro g hg hlocked
    rw [Store.frames_push_of_lt _ _ (Nat.lt_of_lt_of_le hg h.frames_le)]
    exact h.left_kept hg hlocked
  right_kept := by
    intro g hg hlocked
    have hle := h.frames_le
    have hstep := h.frames_step
    rw [Store.frames_push_of_lt _ _ (by omega : g < t.frames.size)]
    exact h.right_kept hg hlocked

/-- The frames that both runs make next belong together. -/
theorem site_push (h : p.Matched s t) (outer : Option FrameId) (bs : Bindings) :
    p.Site (s.push outer bs).2 s.frames.size t.frames.size where
  linked := by
    refine ⟨?_, Pairing.grown_next h.frames_le h.frames_step⟩
    rw [Store.size_push]
    exact Nat.lt_succ_self _
  unlocked := fun hlocked => Nat.not_lt_of_le h.frames_le (p.locked_lt hlocked)

theorem fresh (h : p.Matched s t) :
    p.Matched s.freshId.2 t.freshId.2 ∧ (p.links s.freshId.2).identity s.fresh t.fresh := by
  have hg : s.Grows s.freshId.2 := ⟨Nat.le_refl _, Nat.le_succ _⟩
  have hstep := h.fresh_step
  refine ⟨⟨h.frames_le, h.frames_step, Nat.le_trans h.fresh_le hg.fresh, ?_, ?_, h.output,
    h.left_kept, h.right_kept⟩, Nat.lt_succ_self _, Pairing.grown_next h.fresh_le h.fresh_step⟩
  · show s.fresh + 1 + p.right.fresh = t.fresh + 1 + p.left.fresh
    omega
  · intro g g' hg'
    obtain ⟨a, b, ha, hb, hab⟩ := h.visible hg'
    exact ⟨a, b, ha, hb, hab.mono (p.links_le hg)⟩

theorem printLine (h : p.Matched s t) (line : String) :
    p.Matched (s.printLine line) (t.printLine line) := by
  obtain ⟨lines, hs, ht⟩ := h.output
  refine ⟨h.frames_le, h.frames_step, h.fresh_le, h.fresh_step, h.visible, ?_, h.left_kept,
    h.right_kept⟩
  refine ⟨lines.push line, ?_, ?_⟩
  · simp only [Store.printLine, hs, Array.push_eq_append, Array.append_assoc]
  · simp only [Store.printLine, ht, Array.push_eq_append, Array.append_assoc]

end Matched

end

end Start

end EggLang
