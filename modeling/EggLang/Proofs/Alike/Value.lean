/-
# `EggLang.Proofs.Alike.Value` — values that differ in numbers nobody sees

An array and a closure carry the number they were made under, and a closure
the number of its frame.  Two runs that make their arrays, closures and frames
at different times give them different numbers, and yet do the same.  Two
values are *alike* along `Links` if they agree in everything but these
numbers, and the numbers are linked.

A program never sees the numbers themselves:

    display, debug text    equal for alike values
    kind, truth, function  equal for alike values
    `==`                   equal, if links are one to one

A closure's parameters and body are the same on both sides, and a predicate
`code` says what is known of them.
-/
import EggLang.Value.Display
import EggLang.Store.Bindings
import Mathlib.Data.List.Forall2

namespace EggLang

/-- Which identities and which frames of two runs belong together. -/
structure Links where
  identity : Nat → Nat → Prop
  frame : FrameId → FrameId → Prop

/-- All links of the one are links of the other. -/
structure Links.Le (l m : Links) : Prop where
  identity : ∀ {i j}, l.identity i j → m.identity i j
  frame : ∀ {e f}, l.frame e f → m.frame e f

namespace Value

/-- The values agree up to linked numbers. -/
inductive Alike (l : Links) (code : List String → Expr → Prop) : Value → Value → Prop
  | number (n : Number) : Alike l code (.number n) (.number n)
  | bool (b : Bool) : Alike l code (.bool b) (.bool b)
  | string (s : String) : Alike l code (.string s) (.string s)
  | array {i j : Nat} {xs ys : List Value} : l.identity i j → xs.length = ys.length →
      (∀ p ∈ xs.zip ys, Alike l code p.1 p.2) → Alike l code (.array i xs) (.array j ys)
  | closure {i j : Nat} {params : List String} {body : Expr} {e f : FrameId} :
      l.identity i j → l.frame e f → code params body →
      Alike l code (.closure i params body e) (.closure j params body f)
  | builtin (b : Builtin) : Alike l code (.builtin b) (.builtin b)
  | void : Alike l code .void .void

section
variable {l m : Links} {code : List String → Expr → Prop} {u v x y : Value}

theorem alike_array {i j : Nat} {xs ys : List Value} (hi : l.identity i j)
    (h : List.Forall₂ (Alike l code) xs ys) : Alike l code (.array i xs) (.array j ys) := by
  obtain ⟨hlen, hall⟩ := List.forall₂_iff_zip.mp h
  exact .array hi hlen fun p hp => hall hp

theorem Alike.mono (hle : l.Le m) (h : Alike l code u v) : Alike m code u v := by
  induction h with
  | number n => exact .number n
  | bool b => exact .bool b
  | string s => exact .string s
  | array hi hlen _ ih => exact .array (hle.identity hi) hlen ih
  | closure hi hf hc => exact .closure (hle.identity hi) (hle.frame hf) hc
  | builtin b => exact .builtin b
  | void => exact .void

theorem Alike.isFalse_eq (h : Alike l code u v) : u.isFalse = v.isFalse := by
  cases h <;> rfl

theorem Alike.isFunction_eq (h : Alike l code u v) : u.isFunction = v.isFunction := by
  cases h <;> rfl

/-- Equality as programs see it does not tell alike values apart, if no
number is linked with two. -/
theorem Alike.same_eq
    (hone : ∀ {i j i' j'}, l.identity i j → l.identity i' j' → (i = i' ↔ j = j'))
    (hu : Alike l code u v) (hx : Alike l code x y) : u.same x = v.same y := by
  cases hu with
  | array hi _ _ =>
    cases hx with
    | array hj _ _ => exact decide_eq_decide.mpr (hone hi hj)
    | _ => rfl
  | closure hi _ _ =>
    cases hx with
    | closure hj _ _ => exact decide_eq_decide.mpr (hone hi hj)
    | _ => rfl
  | _ => cases hx <;> rfl

theorem mapM_congr_zip {α β γ : Type} {f : α → Except Fault γ} {g : β → Except Fault γ}
    {xs : List α} {ys : List β} (hlen : xs.length = ys.length)
    (h : ∀ p ∈ xs.zip ys, f p.1 = g p.2) : xs.mapM f = ys.mapM g := by
  induction xs generalizing ys with
  | nil =>
    cases ys with
    | nil => rfl
    | cons y ys => cases hlen
  | cons x xs ih =>
    cases ys with
    | nil => cases hlen
    | cons y ys =>
      have hhead : f x = g y := h (x, y) List.mem_cons_self
      have htail := ih (Nat.succ.inj hlen) fun p hp => h p (List.mem_cons_of_mem _ hp)
      rw [List.mapM_cons, List.mapM_cons, hhead, htail]

theorem Alike.display_eq (h : Alike l code u v) (limit : Nat) (nested : Bool) :
    u.display limit nested = v.display limit nested := by
  induction h generalizing limit nested with
  | array _ hlen _ ih =>
    cases limit with
    | zero => rfl
    | succ limit =>
      rw [display, display, mapM_congr_zip hlen fun p hp => ih p hp limit true]
  | _ => cases limit <;> rfl

theorem Alike.debug_eq (h : Alike l code u v) (limit : Nat) : u.debug limit = v.debug limit := by
  induction h generalizing limit with
  | array _ hlen _ ih =>
    cases limit with
    | zero => rfl
    | succ limit => rw [debug, debug, mapM_congr_zip hlen fun p hp => ih p hp limit]
  | _ => cases limit <;> rfl

/-- Values that are alike along links of equal numbers are equal. -/
theorem Alike.eq (hi : ∀ {i j}, l.identity i j → i = j) (hf : ∀ {e f}, l.frame e f → e = f)
    (h : Alike l code u v) : u = v := by
  induction h with
  | @array _ _ xs ys hij hlen _ ih =>
    have hitems : List.Forall₂ Eq xs ys := List.forall₂_iff_zip.mpr ⟨hlen, fun hp => ih _ hp⟩
    rw [List.forall₂_eq_eq_eq] at hitems
    rw [hi hij, hitems]
  | closure hij hef _ => rw [hi hij, hf hef]
  | _ => rfl

end

/-! ## Parts -/

/-- The value is the other one, or an item of it at some depth. -/
inductive Part (u : Value) : Value → Prop
  | self : Part u u
  | item {i : Nat} {items : List Value} {v : Value} : v ∈ items → Part u v →
      Part u (.array i items)

section
variable {l : Links} {code : List String → Expr → Prop} {u v : Value}

theorem exists_mem_zip {α β : Type} {xs : List α} {ys : List β} {x : α}
    (hlen : xs.length = ys.length) (h : x ∈ xs) : ∃ y, (x, y) ∈ xs.zip ys := by
  obtain ⟨n, hn, hx⟩ := List.mem_iff_getElem.mp h
  refine ⟨ys[n], List.mem_iff_getElem.mpr ⟨n, ?_, ?_⟩⟩
  · rw [List.length_zip]
    omega
  · rw [List.getElem_zip, hx]

/-- A closure inside one of two alike values has a linked frame. -/
theorem Alike.part_closure {i : Nat} {params : List String} {body : Expr} {e : FrameId}
    (h : Alike l code u v) (hp : Part (.closure i params body e) u) : ∃ f, l.frame e f := by
  induction h with
  | array _ hlen _ ih =>
    cases hp with
    | item hmem hp =>
      obtain ⟨y, hy⟩ := exists_mem_zip hlen hmem
      exact ih _ hy hp
  | closure _ hf _ =>
    cases hp
    exact ⟨_, hf⟩
  | _ => cases hp

mutual

/-- A value is alike to itself if all numbers inside it are linked with
themselves. -/
theorem alike_self (l : Links) (code : List String → Expr → Prop) : ∀ (v : Value),
    (∀ i items, Part (.array i items) v → l.identity i i) →
    (∀ i params body e, Part (.closure i params body e) v →
      l.identity i i ∧ l.frame e e ∧ code params body) → Alike l code v v
  | .number n, _, _ => .number n
  | .bool b, _, _ => .bool b
  | .string s, _, _ => .string s
  | .array i items, ha, hc =>
      alike_array (ha i items .self) (alike_self_items l code items
        (fun _ hv j xs hp => ha j xs (.item hv hp))
        (fun _ hv j params body e hp => hc j params body e (.item hv hp)))
  | .closure i params body e, _, hc =>
      let ⟨hi, hf, hb⟩ := hc i params body e .self
      .closure hi hf hb
  | .builtin b, _, _ => .builtin b
  | .void, _, _ => .void

theorem alike_self_items (l : Links) (code : List String → Expr → Prop) : ∀ (vs : List Value),
    (∀ v ∈ vs, ∀ i items, Part (.array i items) v → l.identity i i) →
    (∀ v ∈ vs, ∀ i params body e, Part (.closure i params body e) v →
      l.identity i i ∧ l.frame e e ∧ code params body) → List.Forall₂ (Alike l code) vs vs
  | [], _, _ => .nil
  | v :: vs, ha, hc =>
      .cons (alike_self l code v (ha v List.mem_cons_self) (hc v List.mem_cons_self))
        (alike_self_items l code vs (fun w hw => ha w (List.mem_cons_of_mem v hw))
          (fun w hw => hc w (List.mem_cons_of_mem v hw)))

end

end

end Value

/-! ## Bindings -/

namespace Bindings

/-- The same names in the same order, bound to alike values. -/
def Alike (l : Links) (code : List String → Expr → Prop) (bs cs : Bindings) : Prop :=
  List.Forall₂ (fun b c => b.1 = c.1 ∧ Value.Alike l code b.2 c.2) bs cs

section
variable {l m : Links} {code : List String → Expr → Prop} {bs cs : Bindings}

theorem Alike.mono (hle : l.Le m) (h : Alike l code bs cs) : Alike m code bs cs :=
  List.Forall₂.imp (fun _ _ hbc => ⟨hbc.1, hbc.2.mono hle⟩) h

theorem Alike.eq (hi : ∀ {i j}, l.identity i j → i = j) (hf : ∀ {e f}, l.frame e f → e = f)
    (h : Alike l code bs cs) : bs = cs := by
  have heq : List.Forall₂ Eq bs cs :=
    List.Forall₂.imp (fun _ _ hbc => Prod.ext hbc.1 (hbc.2.eq hi hf)) h
  rwa [List.forall₂_eq_eq_eq] at heq

theorem Alike.of_mem {x : String} {u : Value} (h : Alike l code bs cs) (hu : (x, u) ∈ bs) :
    ∃ v, Value.Alike l code u v := by
  obtain ⟨hlen, hall⟩ := List.forall₂_iff_zip.mp h
  obtain ⟨c, hc⟩ := Value.exists_mem_zip hlen hu
  exact ⟨c.2, (hall hc).2⟩

theorem Alike.display_eq (h : Alike l code bs cs) (limit : Nat) (nested : Bool) :
    bs.map (fun b => (b.1, b.2.display limit nested)) =
      cs.map fun c => (c.1, c.2.display limit nested) := by
  induction h with
  | nil => rfl
  | cons hbc _ ih => rw [List.map_cons, List.map_cons, hbc.1, hbc.2.display_eq limit nested, ih]

theorem Alike.owns_eq (h : Alike l code bs cs) (x : String) : bs.owns x = cs.owns x := by
  unfold owns
  induction h with
  | nil => rfl
  | cons hbc _ ih => rw [List.any_cons, List.any_cons, hbc.1, ih]

theorem Alike.get? (h : Alike l code bs cs) (x : String) :
    (bs.get? x = none ∧ cs.get? x = none) ∨
    ∃ u v, bs.get? x = some u ∧ cs.get? x = some v ∧ Value.Alike l code u v := by
  induction h with
  | nil => exact Or.inl ⟨rfl, rfl⟩
  | @cons b c bs cs hbc _ ih =>
    rw [Bindings.get?, Bindings.get?, hbc.1]
    by_cases hx : c.1 == x
    · rw [if_pos hx, if_pos hx]
      exact Or.inr ⟨_, _, rfl, rfl, hbc.2⟩
    · rw [if_neg hx, if_neg hx]
      exact ih

theorem Alike.put {u v : Value} (h : Alike l code bs cs) (x : String)
    (huv : Value.Alike l code u v) : Alike l code (bs.put x u) (cs.put x v) := by
  induction h with
  | nil => exact .cons ⟨rfl, huv⟩ .nil
  | @cons b c bs cs hbc hrest ih =>
    rw [Bindings.put, Bindings.put, hbc.1]
    by_cases hx : c.1 == x
    · rw [if_pos hx, if_pos hx]
      exact .cons ⟨rfl, huv⟩ hrest
    · rw [if_neg hx, if_neg hx]
      exact .cons hbc ih

theorem Alike.putAll {xs ys : List Value} (params : List String)
    (hxs : List.Forall₂ (Value.Alike l code) xs ys) (h : Alike l code bs cs) :
    Alike l code (bs.putAll (params.zip xs)) (cs.putAll (params.zip ys)) := by
  induction hxs generalizing params bs cs with
  | nil => simpa [Bindings.putAll] using h
  | cons hxy _ ih =>
    cases params with
    | nil => exact h
    | cons p params => exact ih params (h.put p hxy)

end

end Bindings

end EggLang
