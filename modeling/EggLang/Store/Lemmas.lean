/-
# `EggLang.Store.Lemmas` — what the operations on a store leave alone

`push` makes one frame and touches no other; `define` changes the bindings
of one frame and nothing else.  In particular neither changes a chain, so
that what `find?` and `lookup` say after them is settled by the bindings
alone.  Assignment is `define` in a frame that has the name (`set_eq_ok`).
-/
import EggLang.Store.Basic

namespace EggLang

namespace Store

/-! ## Making a frame -/

theorem frames_push_of_lt {s : Store} {e : FrameId} (outer : Option FrameId) (bs : Bindings)
    (h : e < s.frames.size) : (s.push outer bs).2.frames[e]? = s.frames[e]? := by
  simp [push, Array.getElem?_push, Nat.ne_of_lt h]

theorem frames_push_self (s : Store) (outer : Option FrameId) (bs : Bindings) :
    (s.push outer bs).2.frames[(s.push outer bs).1]? = some ⟨outer, bs⟩ := by
  simp [push]

theorem size_push (s : Store) (outer : Option FrameId) (bs : Bindings) :
    (s.push outer bs).2.frames.size = s.frames.size + 1 := by
  simp [push]

theorem bindings_push (s : Store) (outer : Option FrameId) (bs : Bindings) (f : FrameId) :
    (s.push outer bs).2.bindings f = if f = s.frames.size then bs else s.bindings f := by
  by_cases hf : f = s.frames.size
  · simp only [bindings, push, Array.getElem?_push, if_pos hf]
  · simp only [bindings, push, Array.getElem?_push, if_neg hf]

theorem outer?_push (s : Store) (outer : Option FrameId) (bs : Bindings) (f : FrameId) :
    (s.push outer bs).2.outer? f = if f = s.frames.size then outer else s.outer? f := by
  by_cases hf : f = s.frames.size
  · simp only [outer?, push, Array.getElem?_push, if_pos hf]
  · simp only [outer?, push, Array.getElem?_push, if_neg hf]

/-! ## Changing the bindings of a frame -/

theorem size_define (s : Store) (e : FrameId) (x : String) (v : Value) :
    (s.define e x v).frames.size = s.frames.size := by
  simp [define, mapBindings]

theorem frames_define_self {s : Store} {e : FrameId} {a : Frame} (x : String) (v : Value)
    (h : s.frames[e]? = some a) :
    (s.define e x v).frames[e]? = some ⟨a.outer, a.bindings.put x v⟩ := by
  simp only [define, mapBindings, Array.getElem?_modify, if_true, h, Option.map_some]

theorem bindings_define_self {s : Store} {e : FrameId} (x : String) (v : Value)
    (h : e < s.frames.size) : (s.define e x v).bindings e = (s.bindings e).put x v := by
  have hself := Array.getElem?_eq_getElem h
  simp only [bindings, frames_define_self x v hself, hself]

theorem frames_define_of_ne {s : Store} {e f : FrameId} (x : String) (v : Value) (h : e ≠ f) :
    (s.define e x v).frames[f]? = s.frames[f]? := by
  simp [define, mapBindings, Array.getElem?_modify, h]

theorem bindings_define_of_ne {s : Store} {e f : FrameId} (x : String) (v : Value) (h : e ≠ f) :
    (s.define e x v).bindings f = s.bindings f := by
  simp only [bindings, frames_define_of_ne x v h]

theorem outer?_define (s : Store) (e f : FrameId) (x : String) (v : Value) :
    (s.define e x v).outer? f = s.outer? f := by
  by_cases h : e = f
  · subst h
    simp only [outer?, define, mapBindings, Array.getElem?_modify, if_true]
    cases s.frames[e]? <;> rfl
  · simp only [outer?, frames_define_of_ne x v h]

theorem bindings_define (s : Store) (e f : FrameId) (x : String) (v : Value) :
    (s.define e x v).bindings f =
      if e = f ∧ f < s.frames.size then (s.bindings f).put x v else s.bindings f := by
  by_cases hef : e = f
  · subst hef
    by_cases hlt : e < s.frames.size
    · rw [if_pos ⟨rfl, hlt⟩, bindings_define_self x v hlt]
    · have hnone := Array.getElem?_eq_none (Nat.le_of_not_lt hlt)
      have hnone' : (s.define e x v).frames[e]? = none :=
        Array.getElem?_eq_none (by rw [size_define]; exact Nat.le_of_not_lt hlt)
      rw [if_neg fun h => hlt h.2]
      simp only [bindings, hnone, hnone']
  · rw [if_neg fun h => hef h.1, bindings_define_of_ne x v hef]

/-- Nothing is bound but what was bound before and what is bound now. -/
theorem mem_bindings_define {s : Store} {e f : FrameId} {x : String} {v : Value}
    {b : String × Value} :
    b ∈ (s.define e x v).bindings f → b ∈ s.bindings f ∨ b = (x, v) := by
  intro h
  rw [bindings_define] at h
  split at h
  · exact Bindings.mem_put h
  · exact Or.inl h

/-- Binding a name where it is bound already changes no list of names. -/
theorem names_define_of_owns {s : Store} {e : FrameId} {x : String} (f : FrameId) (v : Value) :
    s.owns e x = true → ((s.define e x v).bindings f).names = (s.bindings f).names := by
  intro ho
  rw [bindings_define]
  split
  · next h => rw [Bindings.names_put, if_pos (h.1 ▸ ho)]
  · rfl

/-! ## Chains -/

/-- One step of a chain, told by which frames there are and what is around
them. -/
theorem chainFrom_succ (s : Store) (n : Nat) (e : FrameId) :
    s.chainFrom (n + 1) e =
      if e < s.frames.size then e :: ((s.outer? e).map (s.chainFrom n)).getD [] else [] := by
  by_cases h : e < s.frames.size
  · rw [if_pos h]
    simp only [chainFrom, outer?, Array.getElem?_eq_getElem h]
    cases s.frames[e].outer <;> rfl
  · rw [if_neg h]
    simp only [chainFrom, Array.getElem?_eq_none (Nat.le_of_not_lt h)]

theorem chainFrom_define (s : Store) (e : FrameId) (x : String) (v : Value) (n : Nat)
    (f : FrameId) : (s.define e x v).chainFrom n f = s.chainFrom n f := by
  induction n generalizing f with
  | zero => rfl
  | succ n ih =>
    rw [chainFrom_succ, chainFrom_succ, size_define, outer?_define, funext ih]

/-- Binding a name changes no chain. -/
theorem chain_define (s : Store) (e f : FrameId) (x : String) (v : Value) :
    (s.define e x v).chain f = s.chain f :=
  chainFrom_define s e x v (f + 1) f

/-! ## Finding names -/

/-- A value that is looked up is bound to the name in some frame. -/
theorem lookup_eq_ok {s : Store} {e : FrameId} {x : String} {v : Value} :
    s.lookup e x = .ok v → ∃ f, s.find? e x = some f ∧ (x, v) ∈ s.bindings f := by
  intro h
  unfold lookup at h
  split at h
  · cases h
  · next f hf =>
    split at h
    · next w hw =>
      cases h
      exact ⟨f, hf, Bindings.mem_of_get? hw⟩
    · cases h

theorem owns_of_find? {s : Store} {e f : FrameId} {x : String} :
    s.find? e x = some f → s.owns f x = true := by
  intro h
  have howns := List.find?_some (show (s.chain e).find? (fun g => s.owns g x) = some f from h)
  exact howns

/-- An assignment binds the name in a frame that binds it already. -/
theorem set_eq_ok {s t : Store} {e : FrameId} {x : String} {v : Value} :
    s.set e x v = .ok t →
      ∃ f, s.find? e x = some f ∧ s.owns f x = true ∧ t = s.define f x v := by
  intro h
  unfold set at h
  split at h
  · cases h
  · next f hf =>
    cases h
    exact ⟨f, hf, owns_of_find? hf, rfl⟩

end Store

end EggLang
