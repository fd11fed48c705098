/-
# `EggLang.Proofs.Sound` — stores as sessions make them

The type of stores allows more than sessions ever make: frames inside
themselves, a name that is bound twice, a closure whose frame does not exist.
A store is *sound* if

    global        there is a global frame, and it is inside no other
    links         every other frame is inside one that was made earlier
    names         no frame binds a name twice
    values        what is bound is sound

and a value is sound in a store if every array and closure in it, at any
depth, was made under an identity that has been taken, and every closure has
parameters that differ and a frame that exists and is not the global one.

The last clause is the one that matters most.  A name is bound where an
expression is evaluated, and that is the frame of a program or a frame inside
that of a closure; so as long as no closure has the global frame, no program
binds a name there.

What soundness gives is that walks outward end.  `Outward` is the walk along
the links, without a bound, and in a sound store `chain` takes that walk to its
end, from every frame (`Sound.outward_chain`).
-/
import EggLang.Session
import EggLang.Proofs.Locality
import EggLang.Proofs.Scope

namespace EggLang

open Session (globalFrame)

/-! ## Values -/

namespace Value

/-- The value may be at hand in a store. -/
structure Sound (s : Store) (v : Value) : Prop where
  array_lt : ∀ {i items}, Part (.array i items) v → i < s.fresh
  closure_lt : ∀ {i params body g}, Part (.closure i params body g) v → i < s.fresh
  captured : ∀ {i params body g}, Part (.closure i params body g) v →
    g < s.frames.size ∧ g ≠ globalFrame
  params_nodup : ∀ {i params body g}, Part (.closure i params body g) v → params.Nodup

section
variable {s t : Store} {u v : Value} {i : Nat} {items : List Value}

theorem Sound.mono : v.Sound s → s.Grows t → v.Sound t := by
  intro hv hg
  refine ⟨?_, ?_, ?_, hv.params_nodup⟩
  · intro i items hp
    exact Nat.lt_of_lt_of_le (hv.array_lt hp) hg.fresh
  · intro i params body g hp
    exact Nat.lt_of_lt_of_le (hv.closure_lt hp) hg.fresh
  · intro i params body g hp
    obtain ⟨hlt, hne⟩ := hv.captured hp
    exact ⟨Nat.lt_of_lt_of_le hlt hg.frames, hne⟩

/-- A part of a value that is no array is the value itself. -/
theorem Part.eq_of_not_array (hp : Part u v) (hv : ∀ i items, v ≠ .array i items) : u = v := by
  cases hp with
  | self => rfl
  | item _ _ => exact absurd rfl (hv _ _)

/-- A value that is neither an array nor a closure is sound. -/
theorem sound_of_kind (ha : ∀ i items, v ≠ .array i items)
    (hc : ∀ i params body g, v ≠ .closure i params body g) : v.Sound s := by
  refine ⟨?_, ?_, ?_, ?_⟩
  · intro i items hp
    exact absurd (hp.eq_of_not_array ha).symm (ha i items)
  all_goals
    intro i params body g hp
    exact absurd (hp.eq_of_not_array ha).symm (hc i params body g)

theorem sound_of_plain (hv : v.Plain) : v.Sound s := by
  cases v with
  | number n => exact sound_of_kind nofun nofun
  | bool b => exact sound_of_kind nofun nofun
  | string x => exact sound_of_kind nofun nofun
  | _ => exact hv.elim

theorem sound_builtin (b : Builtin) : (Value.builtin b).Sound s :=
  sound_of_kind nofun nofun

theorem Sound.of_item (h : (Value.array i items).Sound s) (hv : v ∈ items) : v.Sound s where
  array_lt hp := h.array_lt (.item hv hp)
  closure_lt hp := h.closure_lt (.item hv hp)
  captured hp := h.captured (.item hv hp)
  params_nodup hp := h.params_nodup (.item hv hp)

theorem sound_array (hi : i < s.fresh) (h : ∀ v ∈ items, v.Sound s) :
    (Value.array i items).Sound s := by
  refine ⟨?_, ?_, ?_, ?_⟩
  · intro j xs hp
    cases hp with
    | self => exact hi
    | item hv hp => exact (h _ hv).array_lt hp
  · intro j params body g hp
    cases hp with
    | item hv hp => exact (h _ hv).closure_lt hp
  · intro j params body g hp
    cases hp with
    | item hv hp => exact (h _ hv).captured hp
  · intro j params body g hp
    cases hp with
    | item hv hp => exact (h _ hv).params_nodup hp

theorem sound_closure {params : List String} {body : Expr} {g : FrameId} (hi : i < s.fresh)
    (hg : g < s.frames.size) (hne : g ≠ globalFrame) (hnodup : params.Nodup) :
    (Value.closure i params body g).Sound s := by
  refine ⟨?_, ?_, ?_, ?_⟩
  · intro j xs hp
    cases hp
  · intro j ps b f hp
    cases hp
    exact hi
  · intro j ps b f hp
    cases hp
    exact ⟨hg, hne⟩
  · intro j ps b f hp
    cases hp
    exact hnodup

end

end Value

/-! ## Stores -/

namespace Store

/-- The store is one that a session may have made. -/
structure Sound (s : Store) : Prop where
  global_lt : globalFrame < s.frames.size
  outer_global : s.outer? globalFrame = none
  outer_lt : ∀ {f o}, s.outer? f = some o → o < f
  inside : ∀ {f}, f < s.frames.size → f ≠ globalFrame → ∃ o, s.outer? f = some o
  names_nodup : ∀ f, (s.bindings f).names.Nodup
  bound : ∀ {f x v}, (x, v) ∈ s.bindings f → v.Sound s

section
variable {s : Store} {e g : FrameId} {x : String} {v : Value} {bs : Bindings}

/-- A sound store is well-formed. -/
theorem Sound.wellFormed (hs : s.Sound) : s.WellFormed where
  outer_lt := hs.outer_lt
  array_lt hv hp := (hs.bound hv).array_lt hp
  closure_lt hv hp := ⟨(hs.bound hv).closure_lt hp, ((hs.bound hv).captured hp).1⟩

theorem sound_start : Session.start.Sound where
  global_lt := by decide
  outer_global := rfl
  outer_lt := by
    intro f o ho
    rcases f with _ | _ | f
    · cases ho
    · cases ho
      decide
    · cases ho
  inside := by
    intro f hf hne
    rcases f with _ | _ | f
    · exact absurd rfl hne
    · exact ⟨globalFrame, rfl⟩
    · exact absurd hf (by simp [Session.start, push, empty])
  names_nodup := by
    intro f
    rcases f with _ | _ | f
    · exact (by decide +kernel : (globalBindings 0).names.Nodup)
    · exact List.nodup_nil
    · exact List.nodup_nil
  bound := by
    intro f y w hw
    rcases f with _ | _ | f
    · rcases globalBindings_cases hw with ⟨b, rfl⟩ | ⟨b, rfl⟩
      · exact Value.sound_of_plain trivial
      · exact Value.sound_builtin b
    · cases hw
    · cases hw

/-! ## Operations -/

/-- Binding a sound value keeps a store sound. -/
theorem Sound.define (hs : s.Sound) (hv : v.Sound s) : (s.define e x v).Sound := by
  have hgrows := Grows.define s e x v
  refine ⟨?_, ?_, ?_, ?_, ?_, ?_⟩
  · exact Nat.lt_of_lt_of_le hs.global_lt hgrows.frames
  · rw [outer?_define]
    exact hs.outer_global
  · intro f o ho
    rw [outer?_define] at ho
    exact hs.outer_lt ho
  · intro f hf hne
    rw [size_define] at hf
    rw [outer?_define]
    exact hs.inside hf hne
  · intro f
    rw [bindings_define]
    split
    · exact Bindings.nodup_names_put x v (hs.names_nodup f)
    · exact hs.names_nodup f
  · intro f y w hw
    rcases mem_bindings_define hw with hw | hw
    · exact (hs.bound hw).mono hgrows
    · cases hw
      exact hv.mono hgrows

/-- Making a frame inside an old one keeps a store sound. -/
theorem Sound.push (hs : s.Sound) (hg : g < s.frames.size) (hnodup : bs.names.Nodup)
    (hbs : ∀ {y w}, (y, w) ∈ bs → w.Sound s) : (s.push (some g) bs).2.Sound := by
  have hgrows := Grows.push s (some g) bs
  refine ⟨?_, ?_, ?_, ?_, ?_, ?_⟩
  · exact Nat.lt_of_lt_of_le hs.global_lt hgrows.frames
  · rw [outer?_push, if_neg (Nat.ne_of_lt hs.global_lt)]
    exact hs.outer_global
  · intro f o ho
    rw [outer?_push] at ho
    split at ho
    · next hf =>
      cases ho
      exact hf ▸ hg
    · exact hs.outer_lt ho
  · intro f hf hne
    rw [size_push] at hf
    rw [outer?_push]
    split
    · exact ⟨g, rfl⟩
    · next hlast => exact hs.inside (Nat.lt_of_le_of_ne (Nat.le_of_lt_succ hf) hlast) hne
  · intro f
    rw [bindings_push]
    split
    · exact hnodup
    · exact hs.names_nodup f
  · intro f y w hw
    rw [bindings_push] at hw
    split at hw
    · exact (hbs hw).mono hgrows
    · exact (hs.bound hw).mono hgrows

/-- Taking an identity and printing a line leave all frames. -/
theorem Sound.of_frames_eq {t : Store} (hs : s.Sound) (hframes : t.frames = s.frames)
    (hfresh : s.fresh ≤ t.fresh) : t.Sound := by
  have hgrows : s.Grows t := ⟨Nat.le_of_eq (by rw [hframes]), hfresh⟩
  have houter : ∀ f, t.outer? f = s.outer? f := by
    intro f
    simp only [outer?, hframes]
  have hbindings : ∀ f, t.bindings f = s.bindings f := by
    intro f
    simp only [bindings, hframes]
  refine ⟨?_, ?_, ?_, ?_, ?_, ?_⟩
  · rw [hframes]
    exact hs.global_lt
  · rw [houter]
    exact hs.outer_global
  · intro f o ho
    rw [houter] at ho
    exact hs.outer_lt ho
  · intro f hf hne
    rw [hframes] at hf
    rw [houter]
    exact hs.inside hf hne
  · intro f
    rw [hbindings]
    exact hs.names_nodup f
  · intro f y w hw
    rw [hbindings] at hw
    exact (hs.bound hw).mono hgrows

/-! ## Walking outward -/

/-- The walk from a frame along the links, as far as the global frame. -/
inductive Outward (s : Store) : FrameId → List FrameId → Prop
  | global : s.outer? globalFrame = none → Outward s globalFrame [globalFrame]
  | link {e o : FrameId} {path : List FrameId} : s.outer? e = some o → Outward s o path →
      Outward s e (e :: path)

theorem Sound.outward_of_walk (hs : s.Sound) {path : List FrameId} (h : s.Walk e path) :
    s.Outward e path := by
  induction h with
  | @last e he ho =>
    by_cases hglobal : e = globalFrame
    · subst hglobal
      exact .global ho
    · obtain ⟨o, ho'⟩ := hs.inside he hglobal
      cases ho.symm.trans ho'
  | link ho _ ih => exact .link ho ih

/-- From every frame the chain is the whole walk to the global frame. -/
theorem Sound.outward_chain (hs : s.Sound) (he : e < s.frames.size) :
    s.Outward e (s.chain e) := by
  have hacyclic : s.Acyclic := hs.outer_lt
  exact hs.outward_of_walk (hacyclic.walk_chain he)

theorem Sound.outward_le (hs : s.Sound) {path : List FrameId} (h : s.Outward e path) :
    ∀ f ∈ path, f ≤ e := by
  induction h with
  | global _ =>
    intro f hf
    exact Nat.le_of_eq (List.mem_singleton.mp hf)
  | link ho _ ih =>
    intro f hf
    rcases List.mem_cons.mp hf with rfl | hf
    · exact Nat.le_refl f
    · exact Nat.le_trans (ih f hf) (Nat.le_of_lt (hs.outer_lt ho))

/-- A walk comes to frames that were made earlier and earlier. -/
theorem Sound.outward_falls (hs : s.Sound) {path : List FrameId} (h : s.Outward e path) :
    path.Pairwise (· > ·) := by
  induction h with
  | global _ => exact List.pairwise_singleton _ _
  | link ho hpath ih =>
    refine List.pairwise_cons.mpr ⟨?_, ih⟩
    intro f hf
    exact Nat.lt_of_le_of_lt (hs.outward_le hpath f hf) (hs.outer_lt ho)

end

end Store

end EggLang
