/-
# `EggLang.Proofs.Assignment` — `set` and `define` on a name of the frame

`define(x, a)` binds `x` in the frame that it stands in; `set(x, a)` looks for the
nearest frame that binds `x`, and rebinds it there.  If the frame itself binds `x`
these are the same frame, and then nothing tells the two forms apart.

The frame is looked for behind `a`, not before it, and `a` may do what it likes:
define and set `x`, call closures made in this frame or in others, or fail on the
way.  So there are two facts to be seen:

    at the frame    a frame that binds a name is the first that is looked at
    behind `a`      the frame still binds the name, as no evaluation takes a
                    name out of a frame (`growth`)

No other fact about the store is needed, not even that frames are inside one
another in an order that ends.
-/
import EggLang.Proofs.Growth
import EggLang.Proofs.Scope
import EggLang.Proofs.Unrolling

namespace EggLang

/-! ## The frame that a name is set in -/

namespace Store

variable {s t : Store} {e : FrameId} {x : String}

/-- A frame that binds a name finds it in itself. -/
theorem find?_of_owns : s.owns e x = true → s.find? e x = some e := by
  intro howns
  refine find?_eq_some_iff.mpr ⟨howns, [], ((s.outer? e).map (s.chainFrom e)).getD [], ?_, nofun⟩
  rw [chain, chainFrom_succ, if_pos (lt_size_of_owns howns)]
  rfl

/-- Setting a name of the frame is defining it. -/
theorem set_of_owns (v : Value) : s.owns e x = true → s.set e x v = .ok (s.define e x v) := by
  intro howns
  unfold set
  rw [find?_of_owns howns]

theorem Prolongs.owns (h : s.Prolongs t) : s.owns e x = true → t.owns e x = true := by
  unfold Store.owns
  intro howns
  exact Bindings.owns_iff_mem_names.mpr
    ((h.names_prefix e).subset (Bindings.owns_iff_mem_names.mp howns))

end Store

/-! ## Behind an evaluation -/

theorem evaluate_prolongs (forms : Forms) (turns limit : Nat) (a : Expr) (e : FrameId)
    (s : Store) : s.Prolongs (evaluate forms turns limit a e s).2 := by
  obtain ⟨events, htrace⟩ := Traced.evaluate_eq forms turns limit a e s
  have hgrowth := growth.keeps_evaluate forms turns limit a e s
  rw [htrace] at hgrowth
  exact hgrowth.1

section
variable {forms : Forms} {s t : Store} {e : FrameId} {x : String}

/-- Where the frame still binds the name when the value is there, the two forms do
the same. -/
theorem assign_eq_define {eval : Evaluator} (a : Expr) :
    (eval a e s).2.owns e x = true →
      Evaluate.assign eval [.word x, a] e s = Evaluate.define eval [.word x, a] e s := by
  intro howns
  show (eval a e >>= fun v => Run.attempt (fun s => s.set e x v) >>= fun _ => pure v) s =
    (eval a e >>= fun v => Run.change (fun s => s.define e x v) >>= fun _ => pure v) s
  rcases heval : eval a e s with ⟨f | v, u⟩
  · rw [Run.bind_apply_error heval, Run.bind_apply_error heval]
  · rw [heval] at howns
    have hset := Run.attempt_ok (f := fun s => s.set e x v) (Store.set_of_owns v howns)
    rw [Run.bind_apply_ok heval, Run.bind_apply_ok heval, Run.bind_apply_ok hset]
    rfl

/-- The value is bound in the frame and returned. -/
def binding (e : FrameId) (x : String) (v : Value) : Limited Value where
  within _ := do
    Run.change fun s => s.define e x v
    return v
  mono _ := .refl _

theorem ends_define_iff (hdefine : forms.find? "define" = some .define) {a : Expr}
    {r : Except Fault Value} :
    (evaluation forms (.apply (.word "define") [.word x, a]) e).Ends s r t ↔
      ((evaluation forms a e).andThen (binding e x)).Ends s r t :=
  ends_form_iff hdefine fun _ => rfl

theorem ends_binding_iff {v : Value} {r : Except Fault Value} :
    (binding e x v).Ends s r t ↔ r = .ok v ∧ t = s.define e x v := by
  constructor
  · rintro ⟨l, hl, -⟩
    cases hl
    exact ⟨rfl, rfl⟩
  · rintro ⟨rfl, rfl⟩
    exact ⟨⟨0, 0⟩, rfl, settled_ok v⟩

end

/-- On a name that the frame binds, `set` and `define` are the same within all
limits: the same value or fault, the same output, the same store.  So the one ends
exactly if the other does.  And they end if the evaluation of the new value does:
with its fault, in the store that it left, or with the value, bound in the frame. -/
theorem set_asDefine {forms : Forms} (hset : forms.find? "set" = some .assign)
    (hdefine : forms.find? "define" = some .define) {s : Store} {e : FrameId} {x : String}
    (howns : s.owns e x = true) (a : Expr) :
    let assigns := Expr.apply (.word "set") [.word x, a]
    let defines := Expr.apply (.word "define") [.word x, a]
    (∀ turns limit, evaluate forms turns limit assigns e s =
      evaluate forms turns limit defines e s) ∧
    (∀ r t, (evaluation forms assigns e).Ends s r t ↔ (evaluation forms defines e).Ends s r t) ∧
    ∀ r t, (evaluation forms defines e).Ends s r t ↔
      (∃ f, r = .error f ∧ (evaluation forms a e).Ends s (.error f) t) ∨
        ∃ v u, (evaluation forms a e).Ends s (.ok v) u ∧ r = .ok v ∧ t = u.define e x v := by
  intro assigns defines
  have hsame : ∀ turns limit, evaluate forms turns limit assigns e s =
      evaluate forms turns limit defines e s := by
    intro turns limit
    cases limit with
    | zero => rfl
    | succ limit =>
      have hkept := (evaluate_prolongs forms turns limit a e s).owns howns
      simp only [assigns, defines, evaluate_apply, Evaluate.formOf?, hset, hdefine, Evaluate.form]
      exact assign_eq_define a hkept
  refine ⟨hsame, ?_, ?_⟩
  · intro r t
    constructor
    · rintro ⟨l, hl, hr⟩
      exact ⟨l, (hsame l.turns l.depth).symm.trans hl, hr⟩
    · rintro ⟨l, hl, hr⟩
      exact ⟨l, (hsame l.turns l.depth).trans hl, hr⟩
  · intro r t
    rw [ends_define_iff hdefine, Limited.ends_andThen_iff]
    simp only [ends_binding_iff]

/-- The frame binds `x` inside a frame that binds it too, and the new value calls a
closure of the frame that sets `x` itself: `set(x, +(f(), x))`, where `f` is
`fun(set(x, 5))`. -/
theorem set_asDefine_inner_call :
    let setter := Value.closure 0 [] (.apply (.word "set") [.word "x", .number 5]) 2
    let outside := Session.start.define Session.ownFrame "x" (.number (.int 1))
    let s := (outside.push (some Session.ownFrame) [("x", .number (.int 2)), ("f", setter)]).2
    let a := Expr.apply (.word "+") [.apply (.word "f") [], .word "x"]
    let ten := Value.number (.int 10)
    s.owns 2 "x" = true ∧ ∃ u, (evaluation Forms.core a 2).Ends s (.ok ten) u ∧
      (evaluation Forms.core (.apply (.word "define") [.word "x", a]) 2).Ends s (.ok ten)
        (u.define 2 "x" ten) ∧
      (evaluation Forms.core (.apply (.word "set") [.word "x", a]) 2).Ends s (.ok ten)
        (u.define 2 "x" ten) := by
  intro setter outside s a ten
  have hset : Forms.core.find? "set" = some .assign := rfl
  have howns : s.owns 2 "x" = true := by decide +kernel
  obtain ⟨-, hsame, hdefine⟩ := set_asDefine hset rfl howns a
  let u := ((evaluation Forms.core a 2).within ⟨4, 1⟩ s).2
  have ha : (evaluation Forms.core a 2).Ends s (.ok ten) u :=
    ⟨⟨4, 1⟩, by with_unfolding_all rfl, settled_ok _⟩
  have hdefines := (hdefine _ _).mpr (Or.inr ⟨ten, u, ha, rfl, rfl⟩)
  exact ⟨howns, u, ha, hdefines, (hsame _ _).mpr hdefines⟩

end EggLang
