/-
# `EggLang.Run` — computations on a store

A computation takes a store and gives a value or a fault, and in both cases
the store as it has left it: what a program has bound and printed before a
fault stays.
-/
import EggLang.Store.Basic

namespace EggLang

/-- A computation on a store. -/
def Run (α : Type) : Type := Store → Except Fault α × Store

namespace Run

@[inline] protected def pure {α : Type} (a : α) : Run α := fun s => (.ok a, s)

/-- The first computation and then, unless it faults, the second. -/
@[inline] protected def bind {α β : Type} (x : Run α) (f : α → Run β) : Run β := fun s =>
  match x s with
  | (.ok a, s) => f a s
  | (.error e, s) => (.error e, s)

instance : Monad Run where
  pure := Run.pure
  bind := Run.bind

instance {α : Type} : Inhabited (Run α) := ⟨fun s => (.error .tooDeep, s)⟩

@[inline] def fail {α : Type} (e : Fault) : Run α := fun s => (.error e, s)

/-- The result of a pure computation. -/
@[inline] def ofExcept {α : Type} (x : Except Fault α) : Run α := fun s => (x, s)

/-- A value read from the store, which stays as it is. -/
@[inline] def read {α : Type} (f : Store → Except Fault α) : Run α := fun s => (f s, s)

@[inline] def change (f : Store → Store) : Run Unit := fun s => (.ok (), f s)

/-- A change of the store that returns a value. -/
@[inline] def take {α : Type} (f : Store → α × Store) : Run α := fun s =>
  match f s with
  | (a, s) => (.ok a, s)

/-- A change of the store that may fault, and then changes nothing. -/
@[inline] def attempt (f : Store → Except Fault Store) : Run Unit := fun s =>
  match f s with
  | .ok s => (.ok (), s)
  | .error e => (.error e, s)

@[simp] theorem pure_apply {α : Type} (a : α) (s : Store) : (pure a : Run α) s = (.ok a, s) :=
  rfl

theorem bind_apply {α β : Type} (x : Run α) (f : α → Run β) (s : Store) :
    (x >>= f) s =
      match x s with
      | (.ok a, s) => f a s
      | (.error e, s) => (.error e, s) :=
  rfl

/-- What follows a computation that returns goes on from the store it left. -/
theorem bind_apply_ok {α β : Type} {x : Run α} {f : α → Run β} {s t : Store} {a : α}
    (h : x s = (.ok a, t)) : (x >>= f) s = f a t := by
  rw [bind_apply, h]

/-- What follows a computation that faults is not begun. -/
theorem bind_apply_error {α β : Type} {x : Run α} {f : α → Run β} {s t : Store} {e : Fault}
    (h : x s = (.error e, t)) : (x >>= f) s = (.error e, t) := by
  rw [bind_apply, h]

theorem attempt_ok {f : Store → Except Fault Store} {s t : Store} (h : f s = .ok t) :
    attempt f s = (.ok (), t) := by
  simp only [attempt, h]

theorem attempt_error {f : Store → Except Fault Store} {s : Store} {e : Fault}
    (h : f s = .error e) : attempt f s = (.error e, s) := by
  simp only [attempt, h]

theorem bind_pure_eq {α : Type} (x : Run α) : (x >>= pure) = x := by
  funext s
  rcases hx : x s with ⟨e | a, t⟩
  · exact bind_apply_error hx
  · exact bind_apply_ok hx

theorem bind_bind {α β γ : Type} (x : Run α) (f : α → Run β) (g : β → Run γ) :
    (x >>= f) >>= g = x >>= fun a => f a >>= g := by
  funext s
  rcases hx : x s with ⟨e | a, t⟩
  · rw [bind_apply_error hx, bind_apply_error (bind_apply_error hx)]
  · rw [bind_apply_ok hx, bind_apply, bind_apply_ok hx, bind_apply]

instance : LawfulMonad Run :=
  LawfulMonad.mk' Run bind_pure_eq (fun _ _ => rfl) bind_bind

end Run

end EggLang
