/-
# `EggLang.Proofs.Locality` — evaluation stays among the frames it can reach

From a frame one reaches the frame around it, and the frames of the closures
that are bound in it, at any depth of arrays.  Evaluation in a frame

    writes no other frame,
    makes no closure and keeps none that refers to another frame,
    and does not depend on what other frames hold,

where the frames that it makes itself count as its own.

The third is a statement about two runs, and the first two follow from the
same argument: the two runs are matched along the links of every reachable
frame with itself.  Both then count alike, so that linked numbers stay equal
and alike values are equal.
-/
import EggLang.Proofs.Alike.Evaluate

namespace EggLang

/-- Every closure inside the value refers to a frame where `R` holds. -/
def Value.RefersTo (R : FrameId → Prop) (v : Value) : Prop :=
  ∀ i params body g, Part (.closure i params body g) v → R g

namespace Store

/-! ## Reachable frames -/

/-- The frames that an evaluation in frame `e` can come to. -/
inductive Reachable (s : Store) (e : FrameId) : FrameId → Prop
  | here : Reachable s e e
  | outer {f o : FrameId} : Reachable s e f → s.outer? f = some o → Reachable s e o
  | captured {f g : FrameId} {x : String} {v : Value} {i : Nat} {params : List String}
      {body : Expr} : Reachable s e f → (x, v) ∈ s.bindings f →
      Value.Part (.closure i params body g) v → Reachable s e g

/-- A frame is inside an earlier one, and what is bound was made before. -/
structure WellFormed (s : Store) : Prop where
  outer_lt : ∀ {f o}, s.outer? f = some o → o < f
  array_lt : ∀ {f x v i items}, (x, v) ∈ s.bindings f → Value.Part (.array i items) v →
    i < s.fresh
  closure_lt : ∀ {f x v i params body g}, (x, v) ∈ s.bindings f →
    Value.Part (.closure i params body g) v → i < s.fresh ∧ g < s.frames.size

/-- The frames that are reachable from `e`, and those made between `s` and
`u`. -/
def Near (s : Store) (e : FrameId) (u : Store) (f : FrameId) : Prop :=
  s.Reachable e f ∨ s.frames.size ≤ f ∧ f < u.frames.size

/-- The stores have made as much as each other and have the same frames
where `R` holds. -/
structure AgreeOn (R : FrameId → Prop) (s t : Store) : Prop where
  size_eq : s.frames.size = t.frames.size
  fresh_eq : s.fresh = t.fresh
  frames_eq : ∀ {f}, R f → s.frames[f]? = t.frames[f]?

theorem AgreeOn.refl (R : FrameId → Prop) (s : Store) : AgreeOn R s s := ⟨rfl, rfl, fun _ => rfl⟩

section
variable {s t : Store} {e f : FrameId}

theorem WellFormed.reachable_lt (hs : s.WellFormed) (he : e < s.frames.size)
    (hr : s.Reachable e f) : f < s.frames.size := by
  induction hr with
  | here => exact he
  | outer _ ho hf => exact Nat.lt_trans (hs.outer_lt ho) hf
  | captured _ hv hp _ => exact (hs.closure_lt hv hp).2

/-- Both runs in the same frames, with every form. -/
def reachStart (forms : Forms) (hs : s.WellFormed) (he : e < s.frames.size)
    (hst : AgreeOn (s.Reachable e) s t) : Start where
  left := s
  right := t
  frames := {
    pair := fun f g => f = g ∧ s.Reachable e f
    left_lt := fun h => hs.reachable_lt he h.2
    right_lt := fun h => hst.size_eq ▸ h.1 ▸ hs.reachable_lt he h.2
    one_to_one := fun h h' => by rw [h.1, h'.1] }
  identities := {
    pair := fun i j => i = j ∧ i < s.fresh
    left_lt := fun h => h.2
    right_lt := fun h => hst.fresh_eq ▸ h.1 ▸ h.2
    one_to_one := fun h h' => by rw [h.1, h'.1] }
  locked := fun _ => False
  forms := forms
  allowed := fun _ => True
  locked_lt := False.elim
  assign_unlocked := fun _ _ => id

variable {forms : Forms} {hs : s.WellFormed} {he : e < s.frames.size}
variable {hst : AgreeOn (s.Reachable e) s t}

/-! ## What links mean here -/

theorem frame_reachStart {u : Store} {f g : FrameId}
    (h : ((reachStart forms hs he hst).links u).frame f g) :
    f = g ∧ f < u.frames.size ∧ (s.Reachable e f ∨ s.frames.size ≤ f) := by
  obtain ⟨hlt, ⟨rfl, hr⟩ | ⟨d, hf, hg⟩⟩ := h
  · exact ⟨rfl, hlt, Or.inl hr⟩
  · refine ⟨?_, hlt, Or.inr (hf ▸ Nat.le_add_right _ d)⟩
    rw [hf, hg]
    exact congrArg (· + d) hst.size_eq

theorem identity_reachStart {u : Store} {i j : Nat}
    (h : ((reachStart forms hs he hst).links u).identity i j) : i = j := by
  obtain ⟨_, ⟨rfl, _⟩ | ⟨d, hi, hj⟩⟩ := h
  · rfl
  · rw [hi, hj]
    exact congrArg (· + d) hst.fresh_eq

theorem link_reachStart {u : Store} {f : FrameId} (hlt : f < u.frames.size)
    (hf : s.Reachable e f ∨ s.frames.size ≤ f) :
    ((reachStart forms hs he hst).links u).frame f f := by
  refine ⟨hlt, ?_⟩
  rcases hf with hr | hle
  · exact Or.inl ⟨rfl, hr⟩
  · refine Or.inr ⟨f - s.frames.size, (Nat.add_sub_cancel' hle).symm, ?_⟩
    show f = t.frames.size + (f - s.frames.size)
    rw [← hst.size_eq, Nat.add_sub_cancel' hle]

/-- All that is bound in a reachable frame is alike to itself. -/
theorem alike_self_of_reachable {f : FrameId} {x : String} {v : Value} (hr : s.Reachable e f)
    (hv : (x, v) ∈ s.bindings f) : (reachStart forms hs he hst).Values s v v := by
  refine Value.alike_self _ _ v ?_ ?_
  · intro i items hp
    have hi := hs.array_lt hv hp
    exact ⟨hi, Or.inl ⟨rfl, hi⟩⟩
  · intro i params body g hp
    obtain ⟨hi, hg⟩ := hs.closure_lt hv hp
    refine ⟨⟨hi, Or.inl ⟨rfl, hi⟩⟩, link_reachStart hg (Or.inl (.captured hr hv hp)), ?_⟩
    intro _ _ _ _ _
    trivial

theorem matched_reachStart : (reachStart forms hs he hst).Matched s t := by
  refine Start.matched_start ?_
  rintro f _ ⟨rfl, hr⟩
  have hlt := hs.reachable_lt he hr
  have ha : s.frames[f]? = some s.frames[f] := Array.getElem?_eq_getElem hlt
  refine ⟨s.frames[f], s.frames[f], ha, hst.frames_eq hr ▸ ha, ?_, ?_⟩
  · cases ho : s.frames[f].outer with
    | none => exact .global
    | some o =>
      have hout : s.outer? f = some o := by simp only [outer?, ha, ho]
      have hof := hs.outer_lt hout
      exact .inside hof hof (link_reachStart (Nat.lt_trans hof hlt) (Or.inl (.outer hr hout)))
  · have hbs : s.bindings f = s.frames[f].bindings := by simp only [bindings, ha]
    refine List.forall₂_same.mpr ?_
    rintro ⟨x, v⟩ hv
    exact ⟨rfl, alike_self_of_reachable hr (hbs ▸ hv)⟩

theorem refersTo_of_values {u : Store} {v v' : Value}
    (hv : (reachStart forms hs he hst).Values u v v') : v.RefersTo (s.Near e u) := by
  intro i params body g hp
  obtain ⟨g', hl⟩ := hv.part_closure hp
  obtain ⟨_, hlt, hr | hle⟩ := frame_reachStart hl
  · exact Or.inl hr
  · exact Or.inr ⟨hle, hlt⟩

/-! ## Two evaluations -/

theorem evaluate_reachStart (forms : Forms) (turns limit : Nat) (expr : Expr)
    (hs : s.WellFormed) (he : e < s.frames.size) (hst : AgreeOn (s.Reachable e) s t) :
    (reachStart forms hs he hst).Agrees (reachStart forms hs he hst).Values s
      (evaluate forms turns limit expr e s) (evaluate forms turns limit expr e t) := by
  refine (reachStart forms hs he hst).respects_evaluate turns limit ?_ matched_reachStart ?_
  · intro _ _ _ _ _
    trivial
  · exact ⟨link_reachStart he (Or.inl .here), id⟩

section
variable {u w : Store} {x y : Except Fault Value}
variable (h : (reachStart forms hs he hst).Agrees (reachStart forms hs he hst).Values s
  (x, u) (y, w))
include h

theorem kept_of_agrees {f : FrameId} (hf : f < s.frames.size) (hr : ¬ s.Reachable e f) :
    u.frames[f]? = s.frames[f]? :=
  h.matched.left_kept hf fun _ hpair => absurd hpair.2 hr

theorem result_eq_of_agrees : x = y := by
  cases h.outcome with
  | ok huv => rw [huv.eq identity_reachStart fun hl => (frame_reachStart hl).1]
  | error _ => rfl

theorem size_eq_of_agrees : u.frames.size = w.frames.size := by
  have hstep : u.frames.size + t.frames.size = w.frames.size + s.frames.size :=
    h.matched.frames_step
  have hsize := hst.size_eq
  omega

theorem fresh_eq_of_agrees : u.fresh = w.fresh := by
  have hstep : u.fresh + t.fresh = w.fresh + s.fresh := h.matched.fresh_step
  have hfresh := hst.fresh_eq
  omega

theorem frames_eq_of_agrees {f : FrameId} (hf : s.Reachable e f ∨ s.frames.size ≤ f) :
    u.frames[f]? = w.frames[f]? := by
  by_cases hlt : f < u.frames.size
  · obtain ⟨a, b, ha, hb, hab⟩ := h.matched.visible (link_reachStart hlt hf)
    rw [ha, hb, hab.eq identity_reachStart fun hl => (frame_reachStart hl).1]
  · have hle := Nat.le_of_not_lt hlt
    rw [Array.getElem?_eq_none hle, Array.getElem?_eq_none (size_eq_of_agrees h ▸ hle)]

theorem agreeOn_of_agrees : AgreeOn (s.Near e u) u w :=
  ⟨size_eq_of_agrees h, fresh_eq_of_agrees h,
    fun hf => frames_eq_of_agrees h (hf.imp id And.left)⟩

theorem refersTo_of_agrees {f : FrameId} {z : String} {v : Value} (hf : s.Near e u f)
    (hv : (z, v) ∈ u.bindings f) : v.RefersTo (s.Near e u) := by
  have hlt : f < u.frames.size := by
    rcases hf with hr | ⟨_, hlt⟩
    · exact Nat.lt_of_lt_of_le (hs.reachable_lt he hr) h.grows.frames
    · exact hlt
  have hl : ((reachStart forms hs he hst).links u).frame f f :=
    link_reachStart hlt (hf.imp id And.left)
  obtain ⟨v', hv'⟩ := (h.matched.bindings_alike hl).of_mem hv
  exact refersTo_of_values hv'

end

/-- Evaluation leaves the frames that it cannot reach. -/
theorem WellFormed.frames_evaluate (hs : s.WellFormed) (he : e < s.frames.size) (forms : Forms)
    (turns limit : Nat) (expr : Expr) {f : FrameId} (hf : f < s.frames.size)
    (hr : ¬ s.Reachable e f) :
    (evaluate forms turns limit expr e s).2.frames[f]? = s.frames[f]? :=
  kept_of_agrees (evaluate_reachStart forms turns limit expr hs he (.refl _ s)) hf hr

/-- From a new frame one reaches itself and what is reached from the frame around it. -/
theorem reachable_push {g : FrameId} (h : (s.push (some g) []).2.Reachable s.frames.size f) :
    f = s.frames.size ∨ s.Reachable g f := by
  induction h with
  | here => exact Or.inl rfl
  | @outer f o _ ho ih =>
    rw [outer?_push] at ho
    split at ho
    · cases ho
      exact Or.inr .here
    · next hne => exact Or.inr (.outer (ih.resolve_left hne) ho)
  | @captured f g x v i params body _ hv hp ih =>
    rw [bindings_push] at hv
    split at hv
    · cases hv
    · next hne => exact Or.inr (.captured (ih.resolve_left hne) hv hp)

end

end Store

/-! ## Locality -/

/-- Evaluation is local to the frames that it can reach. -/
theorem evaluate_local (forms : Forms) (turns limit : Nat) (expr : Expr) {s u : Store}
    {e : FrameId} {x : Except Fault Value} (hs : s.WellFormed) (he : e < s.frames.size)
    (hx : evaluate forms turns limit expr e s = (x, u)) :
    (∀ f, f < s.frames.size → ¬ s.Reachable e f → u.frames[f]? = s.frames[f]?) ∧
    (∀ v, x = .ok v → v.RefersTo (s.Near e u)) ∧
    (∀ f z v, s.Near e u f → (z, v) ∈ u.bindings f → v.RefersTo (s.Near e u)) ∧
    (∀ t, Store.AgreeOn (s.Reachable e) s t →
      ∃ w, evaluate forms turns limit expr e t = (x, w) ∧ Store.AgreeOn (s.Near e u) u w ∧
        ∃ lines, u.printed = s.printed ++ lines ∧ w.printed = t.printed ++ lines) := by
  -- what is said of one run is read off from the run beside itself
  have hself := Store.evaluate_reachStart forms turns limit expr hs he (.refl _ s)
  rw [hx] at hself
  refine ⟨?_, ?_, ?_, ?_⟩
  · intro f hf hr
    exact Store.kept_of_agrees hself hf hr
  · rintro v rfl
    cases hself.outcome with
    | ok hv => exact Store.refersTo_of_values hv
  · intro f z v hf hv
    exact Store.refersTo_of_agrees hself hf hv
  · intro t hst
    have hboth := Store.evaluate_reachStart forms turns limit expr hs he hst
    rcases hy : evaluate forms turns limit expr e t with ⟨y, w⟩
    rw [hx, hy] at hboth
    refine ⟨w, ?_, ?_, hboth.matched.output⟩
    · rw [Store.result_eq_of_agrees hboth]
    · exact Store.agreeOn_of_agrees hboth

/-! ## Two counters

A counter is a closure that adds one to a number in a frame of its own.  Here
the program in frame 1 has a counter in frame 2, and the program in frame 4
one in frame 3. -/

/-- Adds one to the counter's number and returns it. -/
def countUp : Expr :=
  .apply (.word "set") [.word "n", .apply (.word "+") [.word "n", .number 1]]

/-- Two programs that have a counter each. -/
def twoCounters : Store where
  frames := #[⟨none, globalBindings 0⟩, ⟨some 0, [("next", .closure 0 [] countUp 2)]⟩,
    ⟨some 0, [("n", .number (.int 6))]⟩, ⟨some 0, [("n", .number (.int 41))]⟩,
    ⟨some 0, [("next", .closure 1 [] countUp 3)]⟩]
  fresh := 2
  printed := #[]

theorem twoCounters_bound {f : FrameId} {x : String} {v : Value}
    (hv : (x, v) ∈ twoCounters.bindings f) :
    (∃ b, v = .bool b) ∨ (∃ b, v = .builtin b) ∨ (∃ n, v = .number n) ∨
    (f = 1 ∧ v = .closure 0 [] countUp 2) ∨ (f = 4 ∧ v = .closure 1 [] countUp 3) := by
  rcases f with _ | _ | _ | _ | _ | f
  · rcases globalBindings_cases hv with h | h
    · exact Or.inl h
    · exact Or.inr (Or.inl h)
  · cases List.mem_singleton.mp hv
    simp
  · cases List.mem_singleton.mp hv
    simp
  · cases List.mem_singleton.mp hv
    simp
  · cases List.mem_singleton.mp hv
    simp
  · simp [Store.bindings, twoCounters] at hv

theorem twoCounters_wellFormed : twoCounters.WellFormed where
  outer_lt := by
    intro f o ho
    rcases f with _ | _ | _ | _ | _ | f
    · cases ho
    · cases ho
      decide
    · cases ho
      decide
    · cases ho
      decide
    · cases ho
      decide
    · simp [Store.outer?, twoCounters] at ho
  array_lt := by
    intro f x v i items hv hp
    rcases twoCounters_bound hv with ⟨b, rfl⟩ | ⟨b, rfl⟩ | ⟨n, rfl⟩ | ⟨_, rfl⟩ | ⟨_, rfl⟩ <;>
      cases hp
  closure_lt := by
    intro f x v i params body g hv hp
    rcases twoCounters_bound hv with ⟨b, rfl⟩ | ⟨b, rfl⟩ | ⟨n, rfl⟩ | ⟨_, rfl⟩ | ⟨_, rfl⟩ <;>
      cases hp <;> decide

theorem twoCounters_reachable {f : FrameId} (h : twoCounters.Reachable 1 f) : f ≤ 2 := by
  induction h with
  | here => decide
  | outer _ ho hf => exact Nat.le_of_lt (Nat.lt_of_lt_of_le (twoCounters_wellFormed.outer_lt ho) hf)
  | captured _ hv hp hf =>
    rcases twoCounters_bound hv with ⟨b, rfl⟩ | ⟨b, rfl⟩ | ⟨n, rfl⟩ | ⟨_, rfl⟩ | ⟨rfl, _⟩
    · cases hp
    · cases hp
    · cases hp
    · cases hp
      decide
    · exact absurd hf (by decide)

/-- Calling the one counter counts it up and leaves the other. -/
theorem twoCounters_independent :
    (evaluate Forms.core 0 5 (.apply (.word "next") []) 1 twoCounters).1 =
      .ok (.number (.int 7)) ∧
    (evaluate Forms.core 0 5 (.apply (.word "next") []) 1 twoCounters).2.frames[3]? =
      twoCounters.frames[3]? := by
  refine ⟨rfl, ?_⟩
  have hlocal := evaluate_local Forms.core 0 5 (.apply (.word "next") []) twoCounters_wellFormed
    (show 1 < 5 by decide) rfl
  exact hlocal.1 3 (by decide) fun hr => absurd (twoCounters_reachable hr) (by decide)

end EggLang
