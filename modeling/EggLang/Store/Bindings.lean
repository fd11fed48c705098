/-
# `EggLang.Store.Bindings` — the names of one frame

A frame's bindings are a list of names and values in the order in which the
names were first bound.  Binding a name again keeps its place.  What a name
is bound to (`get?`) and the list of names (`names`) are the two views
through which the operations are described.
-/
import EggLang.Value.Basic

namespace EggLang

/-- Names with their values, in the order of first binding. -/
abbrev Bindings := List (String × Value)

namespace Bindings

def owns (bs : Bindings) (x : String) : Bool :=
  bs.any fun b => b.1 == x

def get? (bs : Bindings) (x : String) : Option Value :=
  match bs with
  | [] => none
  | b :: bs => if b.1 == x then some b.2 else get? bs x

/-- Binds a name: in its place if it has one, and at the end otherwise. -/
def put (bs : Bindings) (x : String) (v : Value) : Bindings :=
  match bs with
  | [] => [(x, v)]
  | b :: bs => if b.1 == x then (x, v) :: bs else b :: put bs x v

/-- Binds names one after the other. -/
def putAll (bs : Bindings) (pairs : List (String × Value)) : Bindings :=
  pairs.foldl (fun bs p => bs.put p.1 p.2) bs

def names (bs : Bindings) : List String := bs.map Prod.fst

/-! ## The operations through the two views -/

theorem owns_iff_mem_names {bs : Bindings} {x : String} : bs.owns x = true ↔ x ∈ bs.names := by
  simp [owns, names]

theorem owns_eq_isSome_get? (bs : Bindings) (x : String) : bs.owns x = (bs.get? x).isSome := by
  induction bs with
  | nil => rfl
  | cons b bs ih =>
    rw [get?]
    cases hb : b.1 == x with
    | true => simp [owns, hb]
    | false => simpa [owns, hb] using ih

theorem mem_of_get? {bs : Bindings} {x : String} {v : Value} :
    bs.get? x = some v → (x, v) ∈ bs := by
  intro h
  induction bs with
  | nil => cases h
  | cons b bs ih =>
    rw [get?] at h
    split at h
    · next hb =>
      cases h
      cases beq_iff_eq.mp hb
      exact List.mem_cons_self
    · exact List.mem_cons_of_mem b (ih h)

theorem get?_of_mem {bs : Bindings} {x : String} {v : Value} (hnodup : bs.names.Nodup) :
    (x, v) ∈ bs → bs.get? x = some v := by
  intro h
  induction bs with
  | nil => cases h
  | cons b bs ih =>
    obtain ⟨hb, hrest⟩ := List.nodup_cons.mp hnodup
    rw [get?]
    rcases List.mem_cons.mp h with rfl | h
    · simp
    · have hne : b.1 ≠ x := by
        intro hbx
        exact hb (hbx ▸ List.mem_map_of_mem (f := Prod.fst) h)
      rw [if_neg (by simpa using hne), ih hrest h]

/-- A name is bound to what it was bound to last. -/
theorem get?_put_self (bs : Bindings) (x : String) (v : Value) : (bs.put x v).get? x = some v := by
  induction bs with
  | nil => simp [put, get?]
  | cons b bs ih =>
    rw [put]
    cases hb : b.1 == x with
    | true => simp [get?]
    | false => simpa [get?, hb] using ih

/-- Binding a name leaves the other names as they are. -/
theorem get?_put_of_ne {x y : String} (bs : Bindings) (v : Value) (h : x ≠ y) :
    (bs.put x v).get? y = bs.get? y := by
  induction bs with
  | nil => simp [put, get?, h]
  | cons b bs ih =>
    rw [put]
    cases hb : b.1 == x with
    | true =>
      have hby : ¬ b.1 = y := fun e => h ((beq_iff_eq.mp hb).symm.trans e)
      simp [get?, h, hby]
    | false => simp [get?, ih]

theorem get?_put (bs : Bindings) (x y : String) (v : Value) :
    (bs.put x v).get? y = if y = x then some v else bs.get? y := by
  by_cases h : y = x
  · rw [if_pos h, h, get?_put_self]
  · rw [if_neg h, get?_put_of_ne bs v (Ne.symm h)]

/-- Names that are bound one after the other hide those that were bound
before. -/
theorem get?_putAll (bs : Bindings) (pairs : List (String × Value)) (y : String) :
    (bs.putAll pairs).get? y = ((putAll [] pairs).get? y).or (bs.get? y) := by
  induction pairs generalizing bs with
  | nil => rfl
  | cons p pairs ih =>
    show ((bs.put p.1 p.2).putAll pairs).get? y =
      ((putAll (put [] p.1 p.2) pairs).get? y).or (bs.get? y)
    rw [ih, ih (put [] p.1 p.2), get?_put, get?_put]
    by_cases hy : y = p.1
    · simp only [if_pos hy]
      cases (putAll [] pairs).get? y <;> rfl
    · simp only [if_neg hy]
      cases (putAll [] pairs).get? y <;> rfl

/-- A name that was bound keeps its place, and a new one comes last. -/
theorem names_put (bs : Bindings) (x : String) (v : Value) :
    (bs.put x v).names = if bs.owns x then bs.names else bs.names ++ [x] := by
  induction bs with
  | nil => rfl
  | cons b bs ih =>
    rw [put]
    cases hb : b.1 == x with
    | true => simp [names, owns, beq_iff_eq.mp hb]
    | false =>
      have ho : owns (b :: bs) x = owns bs x := by simp [owns, hb]
      rw [ho]
      simp only [Bool.false_eq_true, if_false]
      show b.1 :: (put bs x v).names = _
      rw [ih]
      split <;> rfl

/-- No name is bound twice if none was before. -/
theorem nodup_names_put {bs : Bindings} (x : String) (v : Value) (h : bs.names.Nodup) :
    (bs.put x v).names.Nodup := by
  rw [names_put]
  split
  · exact h
  · next ho =>
    have hx : x ∉ bs.names := fun hm => ho (owns_iff_mem_names.mpr hm)
    refine List.nodup_append.mpr ⟨h, by simp, ?_⟩
    intro a ha b hb
    cases List.mem_singleton.mp hb
    exact fun e => hx (e ▸ ha)

/-- Nothing is bound but what was bound before and what is bound now. -/
theorem mem_put {bs : Bindings} {x : String} {v : Value} {b : String × Value} :
    b ∈ bs.put x v → b ∈ bs ∨ b = (x, v) := by
  intro h
  induction bs with
  | nil => exact Or.inr (List.mem_singleton.mp h)
  | cons c bs ih =>
    rw [put] at h
    split at h
    · rcases List.mem_cons.mp h with rfl | h
      · exact Or.inr rfl
      · exact Or.inl (List.mem_cons_of_mem c h)
    · rcases List.mem_cons.mp h with rfl | h
      · exact Or.inl List.mem_cons_self
      · exact (ih h).imp_left (List.mem_cons_of_mem c)

/-! ## Binding again

Of two bindings of one name the first only gives the place and the second only
gives the value, so that pairs bind the same as the bindings that they make. -/

theorem put_put_self (bs : Bindings) (x : String) (w v : Value) :
    (bs.put x w).put x v = bs.put x v := by
  induction bs with
  | nil => simp [put]
  | cons b bs ih =>
    cases hb : b.1 == x with
    | true => simp [put, hb]
    | false => simp [put, hb, ih]

/-- Names that have their places can be bound in any order. -/
theorem put_put_comm {bs : Bindings} {x y : String} (v w : Value) (hne : x ≠ y)
    (ho : bs.owns x = true) : (bs.put y w).put x v = (bs.put x v).put y w := by
  induction bs with
  | nil => cases ho
  | cons b bs ih =>
    by_cases hx : b.1 = x
    · simp [put, hx, hne]
    · have hrest : owns bs x = true := by simpa [owns, hx] using ho
      by_cases hy : b.1 = y
      · simp [put, hy, Ne.symm hne]
      · simp [put, hx, hy, ih hrest]

theorem owns_put_of_owns {bs : Bindings} {x : String} (y : String) (w : Value)
    (ho : bs.owns x = true) : (bs.put y w).owns x = true := by
  rw [owns_eq_isSome_get?] at ho ⊢
  rw [get?_put]
  split
  · rfl
  · exact ho

theorem owns_put_self (bs : Bindings) (x : String) (v : Value) : (bs.put x v).owns x = true := by
  rw [owns_eq_isSome_get?, get?_put_self]
  rfl

theorem putAll_put {bs : Bindings} {x : String} (v : Value) {pairs : List (String × Value)}
    (ho : bs.owns x = true) (hx : x ∉ names pairs) :
    (bs.putAll pairs).put x v = (bs.put x v).putAll pairs := by
  induction pairs generalizing bs with
  | nil => rfl
  | cons p pairs ih =>
    have hne : x ≠ p.1 := fun h => hx (h ▸ List.mem_cons_self)
    have hrest : x ∉ names pairs := fun h => hx (List.mem_cons_of_mem _ h)
    show ((bs.put p.1 p.2).putAll pairs).put x v = ((bs.put x v).put p.1 p.2).putAll pairs
    rw [ih (owns_put_of_owns p.1 p.2 ho) hrest, put_put_comm v p.2 hne ho]

/-- One more name in a list of pairs is one more name to bind. -/
theorem putAll_of_put (bs : Bindings) {pairs : Bindings} (x : String) (v : Value)
    (h : pairs.names.Nodup) : bs.putAll (pairs.put x v) = (bs.putAll pairs).put x v := by
  induction pairs generalizing bs with
  | nil => rfl
  | cons p pairs ih =>
    obtain ⟨hp, hrest⟩ := List.nodup_cons.mp h
    rw [put]
    split
    · next hb =>
      cases beq_iff_eq.mp hb
      show (bs.put p.1 v).putAll pairs = ((bs.put p.1 p.2).putAll pairs).put p.1 v
      rw [putAll_put v (owns_put_self bs p.1 p.2) hp, put_put_self]
    · exact ih (bs.put p.1 p.2) hrest

theorem nodup_names_putAll {bs : Bindings} (pairs : List (String × Value)) :
    bs.names.Nodup → (bs.putAll pairs).names.Nodup := by
  intro h
  induction pairs generalizing bs with
  | nil => exact h
  | cons p pairs ih => exact ih (nodup_names_put p.1 p.2 h)

/-- Pairs bind what the bindings that they make bind. -/
theorem putAll_putAll (bs : Bindings) {ms : Bindings} (pairs : List (String × Value))
    (h : ms.names.Nodup) : bs.putAll (ms.putAll pairs) = (bs.putAll ms).putAll pairs := by
  induction pairs generalizing ms with
  | nil => rfl
  | cons p pairs ih =>
    show bs.putAll ((ms.put p.1 p.2).putAll pairs) = ((bs.putAll ms).put p.1 p.2).putAll pairs
    rw [ih (nodup_names_put p.1 p.2 h), putAll_of_put bs p.1 p.2 h]

theorem mem_putAll {bs : Bindings} {pairs : List (String × Value)} {b : String × Value} :
    b ∈ bs.putAll pairs → b ∈ bs ∨ b ∈ pairs := by
  intro h
  induction pairs generalizing bs with
  | nil => exact Or.inl h
  | cons p pairs ih =>
    rcases ih h with h | h
    · rcases mem_put h with h | rfl
      · exact Or.inl h
      · exact Or.inr List.mem_cons_self
    · exact Or.inr (List.mem_cons_of_mem p h)

end Bindings

end EggLang
