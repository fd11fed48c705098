/-
# `EggLang.Proofs.Renaming.Basic` — other names for everything

A bijection of names is applied to all that has a name in it:

    word      the name that it is
    closure   its parameters, and the words of its body
    frame     the names that it binds, and the values they are bound to
    table     its keywords

Texts are data and stay as they are, and so do the names that builtins have in
messages.  Frames and identities are numbers and stay too.

Bindings, chains and tables ask of two names only whether they are equal, so
that all operations on them commute with a renaming, as equations.  Where a
message or a printed line shows names, the two sides differ by more than the
renaming can say; such results are only held to be of one kind
(`Counterpart`), and such lines to show the same value (`Reprinted`).
-/
import Mathlib.Data.List.Forall2
import Mathlib.Logic.Equiv.Defs
import EggLang.Form
import EggLang.Store.Lemmas

namespace EggLang

section
variable (r : Equiv.Perm String)

/-! ## What is renamed -/

namespace Expr

mutual

/-- The expression with other words. -/
def rename : Expr → Expr
  | .number n => .number n
  | .text s => .text s
  | .word x => .word (r x)
  | .apply operator args => .apply (rename operator) (renames args)
  | .hole => .hole

def renames : List Expr → List Expr
  | [] => []
  | a :: as => rename a :: renames as

end

theorem renames_eq_map (as : List Expr) : renames r as = as.map (rename r) := by
  induction as with
  | nil => rfl
  | cons a as ih => rw [renames, ih, List.map_cons]

@[simp] theorem rename_apply (operator : Expr) (args : List Expr) :
    (apply operator args).rename r = .apply (operator.rename r) (args.map (rename r)) := by
  rw [rename, renames_eq_map]

/-- What is a word after it is renamed was one before. -/
theorem word_pair_of_rename {args : List Expr} {y : String} {w : Expr}
    (h : args.map (rename r) = [.word y, w]) : ∃ x value, args = [.word x, value] := by
  obtain ⟨a, tail, rfl, ha, htail⟩ := List.map_eq_cons_iff.mp h
  obtain ⟨value, rest, rfl, -, hrest⟩ := List.map_eq_cons_iff.mp htail
  cases List.map_eq_nil_iff.mp hrest
  cases a with
  | word x => exact ⟨x, value, rfl⟩
  | _ => cases ha

end Expr

namespace Value

mutual

/-- The value with other names in its closures. -/
def rename : Value → Value
  | .number n => .number n
  | .bool b => .bool b
  | .string s => .string s
  | .array i items => .array i (renames items)
  | .closure i params body e => .closure i (params.map r) (body.rename r) e
  | .builtin b => .builtin b
  | .void => .void

def renames : List Value → List Value
  | [] => []
  | v :: vs => rename v :: renames vs

end

theorem renames_eq_map (vs : List Value) : renames r vs = vs.map (rename r) := by
  induction vs with
  | nil => rfl
  | cons v vs ih => rw [renames, ih, List.map_cons]

@[simp] theorem rename_array (i : Nat) (items : List Value) :
    (array i items).rename r = .array i (items.map (rename r)) := by
  rw [rename, renames_eq_map]

/-- The second value is the first with other names. -/
abbrev Renamed (v w : Value) : Prop := w = v.rename r

end Value

def Bindings.rename (bs : Bindings) : Bindings := bs.map fun b => (r b.1, b.2.rename r)

def Frame.rename (f : Frame) : Frame := ⟨f.outer, f.bindings.rename r⟩

def Store.rename (s : Store) : Store := { s with frames := s.frames.map (Frame.rename r) }

def Forms.rename (forms : Forms) : Forms := forms.map fun f => (r f.1, f.2)

/-! ## Tables and bindings -/

theorem beq_rename (x y : String) : (r x == r y) = (x == y) := by
  by_cases h : x = y
  · simp [h]
  · have hr : r x ≠ r y := fun e => h (r.injective e)
    simp [h, hr]

theorem Forms.find?_rename (forms : Forms) (x : String) :
    (forms.rename r).find? (r x) = forms.find? x := by
  induction forms with
  | nil => rfl
  | cons f forms ih =>
    show (if r f.1 == r x then some f.2 else Forms.find? (Forms.rename r forms) (r x)) = _
    rw [beq_rename, ih]
    rfl

namespace Bindings

theorem rename_cons (b : String × Value) (bs : Bindings) :
    rename r (b :: bs) = (r b.1, b.2.rename r) :: rename r bs := rfl

theorem get?_rename (bs : Bindings) (x : String) :
    (bs.rename r).get? (r x) = (bs.get? x).map (Value.rename r) := by
  induction bs with
  | nil => rfl
  | cons b bs ih =>
    rw [rename_cons, get?, get?, beq_rename, ih]
    split <;> rfl

theorem owns_rename (bs : Bindings) (x : String) : (bs.rename r).owns (r x) = bs.owns x := by
  rw [owns_eq_isSome_get?, owns_eq_isSome_get?, get?_rename, Option.isSome_map]

theorem put_rename (bs : Bindings) (x : String) (v : Value) :
    (bs.rename r).put (r x) (v.rename r) = (bs.put x v).rename r := by
  induction bs with
  | nil => rfl
  | cons b bs ih =>
    rw [rename_cons, put, put, beq_rename, ih]
    split <;> rfl

theorem putAll_rename (bs : Bindings) (params : List String) (args : List Value) :
    (bs.rename r).putAll ((params.map r).zip (args.map (Value.rename r))) =
      (bs.putAll (params.zip args)).rename r := by
  induction params generalizing bs args with
  | nil => rfl
  | cons x params ih =>
    cases args with
    | nil => rfl
    | cons v args =>
      have hput := ih (bs.put x v) args
      rw [← put_rename] at hput
      exact hput

end Bindings

/-! ## Results -/

/-- Both results are values, and these are related, or both are faults, and
these are of one family. -/
inductive Counterpart {α β : Type} (P : α → β → Prop) : Except Fault α → Except Fault β → Prop
  | ok {a : α} {b : β} : P a b → Counterpart P (.ok a) (.ok b)
  | error {f g : Fault} : g.family = f.family → Counterpart P (.error f) (.error g)

theorem Fault.family_eq_unfinished {f : Fault} : f.family = .unfinished ↔ f = .unfinished := by
  cases f <;> simp [family]

section
variable {α β γ δ : Type} {P : α → β → Prop} {Q : γ → δ → Prop}

theorem Counterpart.bind {x : Except Fault α} {y : Except Fault β} {k : α → Except Fault γ}
    {l : β → Except Fault δ} (hxy : Counterpart P x y)
    (hkl : ∀ {a b}, P a b → Counterpart Q (k a) (l b)) :
    Counterpart Q (x >>= k) (y >>= l) := by
  cases hxy with
  | ok hab => exact hkl hab
  | error hfg => exact .error hfg

theorem Counterpart.imp {R : α → β → Prop} {x : Except Fault α} {y : Except Fault β}
    (hxy : Counterpart P x y) (h : ∀ {a b}, x = .ok a → y = .ok b → P a b → R a b) :
    Counterpart R x y := by
  cases hxy with
  | ok hab => exact .ok (h rfl rfl hab)
  | error hfg => exact .error hfg

theorem Counterpart.mapM {f : α → Except Fault γ} {g : β → Except Fault δ} {m : α → β}
    (h : ∀ a, Counterpart Q (f a) (g (m a))) (xs : List α) :
    Counterpart (List.Forall₂ Q) (xs.mapM f) ((xs.map m).mapM g) := by
  induction xs with
  | nil => exact .ok .nil
  | cons x xs ih =>
    rw [List.map_cons, List.mapM_cons, List.mapM_cons]
    exact (h x).bind fun hy => ih.bind fun hys => .ok (.cons hy hys)

end

/-! ## Values -/

namespace Value

@[simp] theorem isFunction_rename (v : Value) : (v.rename r).isFunction = v.isFunction := by
  cases v <;> rfl

@[simp] theorem isFalse_rename (v : Value) : (v.rename r).isFalse = v.isFalse := by
  cases v with
  | bool b => cases b <;> rfl
  | _ => rfl

@[simp] theorem same_rename (u v : Value) : (u.rename r).same (v.rename r) = u.same v := by
  cases u <;> cases v <;> rfl

/-- Printing a value has a text, whatever names are in it. -/
theorem display_rename (limit : Nat) (nested : Bool) (v : Value) :
    Counterpart (fun _ _ => True) (v.display limit nested)
      ((v.rename r).display limit nested) := by
  induction limit generalizing nested v with
  | zero => exact .error rfl
  | succ limit ih =>
    cases v with
    | number n =>
      cases n with
      | int n =>
        rw [rename, display]
        cases Expr.numberText n with
        | ok digits => exact .ok trivial
        | error f => exact .error rfl
      | float x => exact .ok trivial
    | array i items =>
      rw [rename_array, display, display]
      exact (Counterpart.mapM (ih true) items).bind fun _ => .ok trivial
    | _ => exact .ok trivial

theorem debug_rename (limit : Nat) (v : Value) :
    Counterpart (fun _ _ => True) (v.debug limit) ((v.rename r).debug limit) := by
  induction limit generalizing v with
  | zero => exact .error rfl
  | succ limit ih =>
    cases v with
    | number n =>
      cases n with
      | int n =>
        rw [rename, debug]
        cases integerDebug n with
        | ok digits => exact .ok trivial
        | error f => exact .error rfl
      | float x => exact .ok trivial
    | array i items =>
      rw [rename_array, debug, debug]
      exact (Counterpart.mapM ih items).bind fun _ => .ok trivial
    | _ => exact .ok trivial

end Value

/-! ## Stores -/

/-- Two lines that are the same, or show one value before and after it is
renamed. -/
inductive Reprinted : String → String → Prop
  | kept (line : String) : Reprinted line line
  | shown {limit : Nat} {v : Value} {line line' : String} : v.display limit false = .ok line →
      (v.rename r).display limit false = .ok line' → Reprinted line line'

theorem Value.display_reprinted (limit : Nat) (v : Value) :
    Counterpart (Reprinted r) (v.display limit false) ((v.rename r).display limit false) :=
  (v.display_rename r limit false).imp fun hline hline' _ => .shown hline hline'

namespace Store

/-- The second store has the frames of the first with other names. -/
structure Renamed (s s' : Store) : Prop where
  frames_eq : s'.frames = s.frames.map (Frame.rename r)
  fresh_eq : s'.fresh = s.fresh
  printed : List.Forall₂ (Reprinted r) s.printed.toList s'.printed.toList

theorem renamed_rename (s : Store) : s.Renamed r (s.rename r) :=
  ⟨rfl, rfl, List.forall₂_same.mpr fun line _ => .kept line⟩

variable {r} {s s' : Store}

namespace Renamed

theorem size_eq (h : s.Renamed r s') : s'.frames.size = s.frames.size := by
  rw [h.frames_eq, Array.size_map]

theorem bindings_eq (h : s.Renamed r s') (e : FrameId) :
    s'.bindings e = (s.bindings e).rename r := by
  simp only [bindings, h.frames_eq, Array.getElem?_map]
  cases s.frames[e]? <;> rfl

theorem outer?_eq (h : s.Renamed r s') (e : FrameId) : s'.outer? e = s.outer? e := by
  simp only [outer?, h.frames_eq, Array.getElem?_map]
  cases s.frames[e]? <;> rfl

theorem chain_eq (h : s.Renamed r s') (e : FrameId) : s'.chain e = s.chain e := by
  have hfrom : ∀ n f, s'.chainFrom n f = s.chainFrom n f := by
    intro n
    induction n with
    | zero => exact fun _ => rfl
    | succ n ih =>
      intro f
      rw [chainFrom_succ, chainFrom_succ, h.size_eq, h.outer?_eq, funext ih]
  exact hfrom (e + 1) e

theorem find?_eq (h : s.Renamed r s') (e : FrameId) (x : String) :
    s'.find? e (r x) = s.find? e x := by
  have howns : ∀ f, s'.owns f (r x) = s.owns f x := by
    intro f
    rw [owns, owns, h.bindings_eq, Bindings.owns_rename]
  rw [find?, find?, h.chain_eq, funext howns]

theorem lookup (h : s.Renamed r s') (e : FrameId) (x : String) :
    Counterpart (Value.Renamed r) (s.lookup e x) (s'.lookup e (r x)) := by
  unfold Store.lookup
  rw [h.find?_eq]
  cases s.find? e x with
  | none => exact .error rfl
  | some f =>
    simp only [h.bindings_eq, Bindings.get?_rename]
    cases (s.bindings f).get? x with
    | none => exact .error rfl
    | some v => exact .ok rfl

theorem define (h : s.Renamed r s') (e : FrameId) (x : String) (v : Value) :
    (s.define e x v).Renamed r (s'.define e (r x) (v.rename r)) := by
  refine ⟨Array.ext_getElem? fun f => ?_, h.fresh_eq, h.printed⟩
  simp only [Store.define, mapBindings, h.frames_eq, Array.getElem?_modify, Array.getElem?_map]
  by_cases hef : e = f
  · simp only [if_pos hef, Option.map_map]
    cases s.frames[f]? with
    | none => rfl
    | some a =>
      have hput := Bindings.put_rename r a.bindings x v
      simp [Frame.rename, hput]
  · simp only [if_neg hef]

theorem set (h : s.Renamed r s') (e : FrameId) (x : String) (v : Value) :
    Counterpart (Renamed r) (s.set e x v) (s'.set e (r x) (v.rename r)) := by
  unfold Store.set
  rw [h.find?_eq]
  cases s.find? e x with
  | none => exact .error rfl
  | some f => exact .ok (h.define f x v)

theorem push (h : s.Renamed r s') (outer : Option FrameId) (bs : Bindings) :
    (s.push outer bs).2.Renamed r (s'.push outer (bs.rename r)).2 := by
  refine ⟨?_, h.fresh_eq, h.printed⟩
  simp only [Store.push, h.frames_eq, Array.map_push]
  rfl

theorem freshId (h : s.Renamed r s') : s.freshId.2.Renamed r s'.freshId.2 :=
  ⟨h.frames_eq, congrArg (· + 1) h.fresh_eq, h.printed⟩

theorem printLine (h : s.Renamed r s') {line line' : String} (hline : Reprinted r line line') :
    (s.printLine line).Renamed r (s'.printLine line') := by
  refine ⟨h.frames_eq, h.fresh_eq, ?_⟩
  simp only [Store.printLine, Array.toList_push]
  exact List.rel_append h.printed (.cons hline .nil)

end Renamed

end Store

end

end EggLang
