/-
# `EggLang.Proofs.Program.Returns` — rules for programs that return

What a given program does is shown by going through it with rules, one for each
kind of expression:

    a               returns, if
    word            the frame sees the name
    define, set     the expression returns
    do              the expressions return, one after the other
    while           there are stores, one for each turn, such that the test is
                    true and the body leads to the next, and the test is false
                    in the last
    fun             its parameters are names that differ
    x(…)            `x` is a builtin or a closure, the arguments return, and so
                    does the builtin, or the body in a new frame

Each rule is one level of nesting, so that the depth that a program needs is
counted along with it, and a fixed depth is enough for loops of any length.

Where programs are evaluated, the global names mean what they meant at first
(`Standard`).  This is so in the frame of a session and in that of every program,
until a global name is set, and it stays so when other names are bound.
-/
import EggLang.Proofs.Number.Order
import EggLang.Proofs.Sound

namespace EggLang

abbrev Expr.applyWord (x : String) (args : List Expr) : Expr := .apply (.word x) args

/-! ## Frames that see the global names -/

namespace Store

/-- The frame is there, and sees the global names with their first values. -/
structure Standard (s : Store) (e : FrameId) : Prop where
  acyclic : s.Acyclic
  inside : e < s.frames.size
  sees : ∀ {x v}, (x, v) ∈ globalBindings 0 → s.lookup e x = .ok v

section
variable {s : Store} {e f : FrameId} {x y : String} {v w : Value} {bs : Bindings}

theorem Acyclic.push (hs : s.Acyclic) (he : e < s.frames.size) :
    (s.push (some e) bs).2.Acyclic := by
  intro f o ho
  rw [outer?_push] at ho
  split at ho
  · next hf =>
    cases ho
    exact hf ▸ he
  · exact hs ho

theorem Acyclic.define (hs : s.Acyclic) : (s.define e x v).Acyclic := by
  intro f o ho
  rw [outer?_define] at ho
  exact hs ho

/-- A new frame is on no walk from an old one. -/
theorem Walk.push {path : List FrameId} (hpath : s.Walk f path) (outer : Option FrameId) :
    (s.push outer bs).2.Walk f path := by
  induction hpath with
  | @last f hf ho =>
    refine .last (by rw [size_push]; exact Nat.lt_succ_of_lt hf) ?_
    rw [outer?_push, if_neg (Nat.ne_of_lt hf), ho]
  | @link f o path ho hpath ih =>
    have hf := (Walk.link ho hpath).lt_size
    refine .link ?_ ih
    rw [outer?_push, if_neg (Nat.ne_of_lt hf), ho]

theorem Walk.le (hs : s.Acyclic) {path : List FrameId} (hpath : s.Walk f path) :
    ∀ g ∈ path, g ≤ f := by
  induction hpath with
  | last _ _ =>
    intro g hg
    exact Nat.le_of_eq (List.mem_singleton.mp hg)
  | link ho _ ih =>
    intro g hg
    rcases List.mem_cons.mp hg with rfl | hg
    · exact Nat.le_refl g
    · exact Nat.le_trans (ih g hg) (Nat.le_of_lt (hs ho))

/-! ## The frame around a frame -/

theorem Acyclic.chain_of_outer? (hs : s.Acyclic) (he : e < s.frames.size)
    (ho : s.outer? f = some e) : s.chain f = f :: s.chain e :=
  (hs.eq_chain (.link ho (hs.walk_chain he))).symm

/-- What a frame does not bind it sees as the frame around it does. -/
theorem Acyclic.lookup_outer (hs : s.Acyclic) (he : e < s.frames.size) (ho : s.outer? f = some e)
    (hx : (s.bindings f).get? x = none) : s.lookup f x = s.lookup e x := by
  rw [lookup_eq_findSome?, lookup_eq_findSome?, hs.chain_of_outer? he ho, List.findSome?_cons, hx]

/-- A name that only the frame around a frame binds is set there. -/
theorem Acyclic.set_outer (hs : s.Acyclic) (he : e < s.frames.size) (ho : s.outer? f = some e)
    (hx : (s.bindings f).get? x = none) (hbound : (s.bindings e).get? x = some w) (v : Value) :
    s.set f x v = .ok (s.define e x v) := by
  have hfind : s.find? f x = some e := by
    refine find?_eq_some_iff.mpr ⟨?_, [f], ((s.outer? e).map (s.chainFrom e)).getD [], ?_, ?_⟩
    · rw [owns, Bindings.owns_eq_isSome_get?, hbound]
      rfl
    · rw [hs.chain_of_outer? he ho, chain, chainFrom_succ, if_pos he]
      rfl
    · intro g hg
      rw [List.mem_singleton.mp hg]
      exact owns_eq_false_iff.mpr hx
  rw [set, hfind]

/-! ## A new frame -/

theorem chain_push_of_lt (hs : s.Acyclic) (he : e < s.frames.size) (hf : f < s.frames.size) :
    (s.push (some e) bs).2.chain f = s.chain f := by
  have hpush : (s.push (some e) bs).2.Acyclic := hs.push he
  exact (hpush.eq_chain ((hs.walk_chain hf).push (some e))).symm

theorem bindings_push_self (outer : Option FrameId) :
    (s.push outer bs).2.bindings s.frames.size = bs := by
  rw [bindings_push, if_pos rfl]

theorem bindings_push_of_lt (outer : Option FrameId) (hf : f < s.frames.size) :
    (s.push outer bs).2.bindings f = s.bindings f := by
  rw [bindings_push, if_neg (Nat.ne_of_lt hf)]

/-- If a frame is made and then a name bound in another one, the rest is as before. -/
theorem bindings_define_push (outer : Option FrameId) (x : String) (v : Value)
    (hf : f < s.frames.size) (hne : f ≠ e) :
    ((s.push outer bs).2.define e x v).bindings f = s.bindings f := by
  rw [bindings_define_of_ne x v hne.symm, bindings_push_of_lt outer hf]

theorem outer?_define_push (outer : Option FrameId) (x : String) (v : Value)
    (hf : f < s.frames.size) : ((s.push outer bs).2.define e x v).outer? f = s.outer? f := by
  rw [outer?_define, outer?_push, if_neg (Nat.ne_of_lt hf)]

/-- Along an old chain all is bound as before. -/
theorem findSome?_chain_push (hs : s.Acyclic) (outer : Option FrameId) (hf : f < s.frames.size)
    (x : String) : ((s.chain f).findSome? fun g => ((s.push outer bs).2.bindings g).get? x) =
      (s.chain f).findSome? fun g => (s.bindings g).get? x := by
  refine findSome?_changed (a := s.frames.size) ?_ _ ?_
  · intro g hg
    rw [bindings_push, if_neg hg]
  · -- the new frame is not on the chain
    rintro ⟨nearer, farther, hchain, -⟩
    have hmem : s.frames.size ∈ s.chain f :=
      hchain ▸ List.mem_append_right nearer List.mem_cons_self
    exact absurd ((hs.walk_chain hf).le hs _ hmem) (Nat.not_le_of_lt hf)

/-- What a frame binds it sees. -/
theorem lookup_of_get? (he : e < s.frames.size) (hx : (s.bindings e).get? x = some v) :
    s.lookup e x = .ok v := by
  rw [lookup_eq_findSome?, chain, chainFrom_succ, if_pos he, List.findSome?_cons, hx]

theorem lookup_define_self (he : e < s.frames.size) (x : String) (v : Value) :
    (s.define e x v).lookup e x = .ok v := by
  refine lookup_of_get? (by rw [size_define]; exact he) ?_
  rw [get?_define he, if_pos rfl]

/-- An old frame sees what it saw. -/
theorem lookup_push_of_lt (hs : s.Acyclic) (he : e < s.frames.size) (hf : f < s.frames.size)
    (x : String) : (s.push (some e) bs).2.lookup f x = s.lookup f x := by
  rw [lookup_eq_findSome?, lookup_eq_findSome?, chain_push_of_lt hs he hf,
    findSome?_chain_push hs (some e) hf]

theorem lookup_push_self (hx : bs.get? x = some v) :
    (s.push (some e) bs).2.lookup s.frames.size x = .ok v := by
  refine lookup_of_get? (by rw [size_push]; exact Nat.lt_succ_self _) ?_
  rw [bindings_push_self, hx]

/-- What a new frame does not bind it sees as the frame around it does. -/
theorem lookup_push_outer (hs : s.Acyclic) (he : e < s.frames.size) (hx : bs.get? x = none) :
    (s.push (some e) bs).2.lookup s.frames.size x = s.lookup e x := by
  have hpush : (s.push (some e) bs).2.Acyclic := hs.push he
  rw [hpush.lookup_outer (e := e), lookup_push_of_lt hs he he]
  · rw [size_push]
    exact Nat.lt_succ_of_lt he
  · rw [outer?_push, if_pos rfl]
  · rw [bindings_push_self, hx]

/-- Binding a name in a new frame is making the frame with one more name. -/
theorem define_push (outer : Option FrameId) (x : String) (v : Value) :
    (s.push outer bs).2.define s.frames.size x v = (s.push outer (bs.put x v)).2 := by
  have hlast : ∀ g : Frame → Frame, (s.frames.push ⟨outer, bs⟩).modify s.frames.size g =
      s.frames.push (g ⟨outer, bs⟩) := by
    intro g
    ext i hi hi'
    · simp
    · simp only [Array.getElem_modify, Array.getElem_push]
      split <;> grind
  simp only [define, mapBindings, push, hlast]

/-! ## Seeing the global names -/

theorem mem_global_names (hx : (x, v) ∈ globalBindings 0) : x ∈ (globalBindings 0).names :=
  List.mem_map_of_mem hx

theorem Standard.sees_builtin (hs : s.Standard e) {b : Builtin} (hb : b ∈ Builtin.all 0) :
    s.lookup e b.name = .ok (.builtin b) :=
  hs.sees (List.mem_append_right _ (List.mem_map_of_mem hb))

theorem lookup_freshId (s : Store) (e : FrameId) (x : String) :
    s.freshId.2.lookup e x = s.lookup e x := by
  have hchain : ∀ n f, s.freshId.2.chainFrom n f = s.chainFrom n f := by
    intro n
    induction n with
    | zero =>
      intro f
      rfl
    | succ n ih =>
      intro f
      rw [chainFrom_succ, chainFrom_succ, funext ih]
      rfl
  rw [lookup_eq_findSome?, lookup_eq_findSome?, chain, hchain]
  rfl

theorem Standard.freshId (hs : s.Standard e) : s.freshId.2.Standard e where
  acyclic := hs.acyclic
  inside := hs.inside
  sees := by
    intro x v hx
    rw [lookup_freshId]
    exact hs.sees hx

/-- A name of the program's own hides no global one. -/
theorem Standard.define (hs : s.Standard e) (hf : f < s.frames.size) (v : Value)
    (hx : x ∉ (globalBindings 0).names) : (s.define f x v).Standard e where
  acyclic := Acyclic.define hs.acyclic
  inside := by
    rw [size_define]
    exact hs.inside
  sees := by
    intro y w hy
    have hne : y ≠ x := by
      rintro rfl
      exact hx (mem_global_names hy)
    rw [lookup_define_otherwise hf v fun h => hne h.1]
    exact hs.sees hy

theorem Standard.push (hs : s.Standard e) (hf : f < s.frames.size) :
    (s.push (some f) bs).2.Standard e where
  acyclic := Acyclic.push hs.acyclic hf
  inside := by
    rw [size_push]
    exact Nat.lt_succ_of_lt hs.inside
  sees := by
    intro x v hx
    have hacyclic : s.Acyclic := hs.acyclic
    rw [lookup_push_of_lt hacyclic hf hs.inside]
    exact hs.sees hx

/-- A frame that binds none of the global names sees them, if the frame around it
does. -/
theorem Standard.inner (hs : s.Standard e) (ho : s.outer? f = some e)
    (hfree : ∀ x ∈ (globalBindings 0).names, (s.bindings f).get? x = none) : s.Standard f where
  acyclic := hs.acyclic
  inside := (Walk.link ho (Acyclic.walk_chain hs.acyclic hs.inside)).lt_size
  sees := by
    intro x v hx
    rw [Acyclic.lookup_outer hs.acyclic hs.inside ho (hfree x (mem_global_names hx))]
    exact hs.sees hx

/-- The global frame sees the global names as long as they have their first
values. -/
theorem Sound.standard_global (hs : s.Sound)
    (hglobal : s.bindings Session.globalFrame = globalBindings 0) :
    s.Standard Session.globalFrame where
  acyclic := hs.outer_lt
  inside := hs.global_lt
  sees := by
    intro x v hx
    refine lookup_of_get? hs.global_lt ?_
    rw [hglobal]
    exact Bindings.get?_of_mem (by decide +kernel) hx

/-- The frame that a program begins in. -/
theorem Sound.standard_push (hs : s.Sound)
    (hglobal : s.bindings Session.globalFrame = globalBindings 0) :
    (s.push (some Session.globalFrame) []).2.Standard s.frames.size := by
  refine ((hs.standard_global hglobal).push hs.global_lt).inner ?_ ?_
  · rw [outer?_push, if_pos rfl]
  · intro x hx
    rw [bindings_push_self]
    rfl

/-- The frame of a new session. -/
theorem standard_start : Session.start.Standard Session.ownFrame :=
  (sound_start.standard_global rfl).inner rfl fun _ _ => rfl

end

end Store

/-! ## Rules -/

/-- Evaluating the expression in the frame returns the value and leaves the second
store. -/
def Returns (turns depth : Nat) (a : Expr) (e : FrameId) (s : Store) (v : Value) (t : Store) :
    Prop :=
  evaluate Forms.core turns depth a e s = (.ok v, t)

def ReturnsAll (turns depth : Nat) (as : List Expr) (e : FrameId) (s : Store) (vs : List Value)
    (t : Store) : Prop :=
  Evaluate.all (fun a => evaluate Forms.core turns depth a e) as s = (.ok vs, t)

section
variable {turns depth : Nat} {a : Expr} {as : List Expr} {e g : FrameId} {s t u : Store}
variable {v w : Value} {vs : List Value} {x : String}

theorem ReturnsAll.nil : ReturnsAll turns depth [] e s [] s := rfl

theorem ReturnsAll.cons (ha : Returns turns depth a e s v t)
    (has : ReturnsAll turns depth as e t vs u) :
    ReturnsAll turns depth (a :: as) e s (v :: vs) u := by
  unfold ReturnsAll at has ⊢
  rw [Evaluate.all, Run.bind_apply_ok ha, Run.bind_apply_ok has]
  rfl

theorem returns_number (n : Int) :
    Returns turns (depth + 1) (.number n) e s (.number (.int n)) s :=
  rfl

theorem returns_word (hx : s.lookup e x = .ok v) :
    Returns turns (depth + 1) (.word x) e s v s := by
  show (s.lookup e x, s) = (.ok v, s)
  rw [hx]

theorem evaluate_form {form : Form} (hform : Forms.core.find? x = some form) :
    evaluate Forms.core turns (depth + 1) (.applyWord x as) e =
      Evaluate.form (evaluate Forms.core turns depth) turns form as e := by
  simp only [evaluate_apply, Evaluate.formOf?, hform]

theorem Returns.define (ha : Returns turns depth a e s v t) :
    Returns turns (depth + 1) (.applyWord "define" [.word x, a]) e s v (t.define e x v) := by
  unfold Returns
  rw [evaluate_form rfl]
  exact Run.bind_apply_ok ha

theorem Returns.assign (ha : Returns turns depth a e s v t) (hset : t.set e x v = .ok u) :
    Returns turns (depth + 1) (.applyWord "set" [.word x, a]) e s v u := by
  unfold Returns
  rw [evaluate_form rfl]
  exact (Run.bind_apply_ok ha).trans (Run.bind_apply_ok (Run.attempt_ok hset))

theorem returns_function {params : List Expr} {names : List String} {body : Expr}
    (hparams : Evaluate.parameterNames params = .ok names) :
    Returns turns (depth + 1) (.applyWord "fun" (params ++ [body])) e s
      (.closure s.fresh names body e) s.freshId.2 := by
  unfold Returns
  rw [evaluate_form rfl]
  show Evaluate.function (params ++ [body]) e s = _
  unfold Evaluate.function
  rw [List.getLast?_concat, List.dropLast_concat, hparams]
  rfl

/-- The value of the last of the expressions is the one that is kept. -/
theorem inOrder_of_all {eval : Expr → Run Value} (last : Value)
    (has : Evaluate.all eval as s = (.ok vs, t)) :
    Evaluate.inOrder eval last as s = (.ok (vs.getLast?.getD last), t) := by
  induction as generalizing s vs last with
  | nil =>
    cases has
    rfl
  | cons a as ih =>
    rw [Evaluate.all] at has
    rcases ha : eval a s with ⟨f | v, u⟩
    · rw [Run.bind_apply_error ha] at has
      cases has
    rw [Run.bind_apply_ok ha] at has
    rcases hrest : Evaluate.all eval as u with ⟨f | ws, w⟩
    · rw [Run.bind_apply_error hrest] at has
      cases has
    rw [Run.bind_apply_ok hrest] at has
    cases has
    rw [Evaluate.inOrder, Run.bind_apply_ok ha, ih v hrest, List.getLast?_cons]
    rfl

theorem ReturnsAll.sequence (has : ReturnsAll turns depth as e s vs t) :
    Returns turns (depth + 1) (.applyWord "do" as) e s (vs.getLast?.getD (.bool false)) t := by
  unfold Returns
  rw [evaluate_form rfl]
  exact inOrder_of_all (.bool false) has

/-! ## Calls -/

/-- The operator is a name, which is no keyword. -/
theorem evaluate_call (hx : Forms.core.find? x = none) (hf : s.lookup e x = .ok w)
    (hfun : w.isFunction = true) (has : ReturnsAll turns (depth + 1) as e s vs t) :
    evaluate Forms.core turns (depth + 2) (.applyWord x as) e s =
      Evaluate.application (evaluate Forms.core turns (depth + 1)) (depth + 1) w vs t := by
  have hword : evaluate Forms.core turns (depth + 1) (.word x) e s = (.ok w, s) := returns_word hf
  have hcall : evaluate Forms.core turns (depth + 2) (.applyWord x as) e =
      Evaluate.call (evaluate Forms.core turns (depth + 1)) (depth + 1) (.word x) as e := by
    rw [evaluate_apply]
    simp only [Evaluate.formOf?, hx]
  rw [hcall, Evaluate.call, Run.bind_apply_ok hword, if_pos hfun]
  exact Run.bind_apply_ok has

/-- No builtin has the name of a form. -/
theorem find?_name (b : Builtin) : Forms.core.find? b.name = none := by
  cases b <;> rfl

theorem ReturnsAll.builtin {b : Builtin} (has : ReturnsAll turns (depth + 1) as e s vs t)
    (hx : Forms.core.find? x = none) (hb : s.lookup e x = .ok (.builtin b))
    (happly : b.apply (depth + 1) vs t = (.ok v, u)) :
    Returns turns (depth + 2) (.applyWord x as) e s v u := by
  unfold Returns
  rw [evaluate_call hx hb rfl has]
  exact happly

theorem ReturnsAll.closure {i : Nat} {params : List String} {body : Expr}
    (has : ReturnsAll turns (depth + 1) as e s vs t) (hx : Forms.core.find? x = none)
    (hf : s.lookup e x = .ok (.closure i params body g)) (hcount : vs.length = params.length)
    (hbody : Returns turns (depth + 1) body t.frames.size
      (t.push (some g) (Evaluate.parameters params vs)).2 v u) :
    Returns turns (depth + 2) (.applyWord x as) e s v u := by
  unfold Returns
  rw [evaluate_call hx hf rfl has, Evaluate.application, if_pos hcount]
  exact hbody

/-! ## In the frame of a call

A call begins in a new frame.  As long as it makes no other one, its stores are
the store before the call with one more frame, and only what this frame binds
changes. -/

theorem returns_local {bs : Bindings} (hx : bs.get? x = some v) :
    Returns turns (depth + 1) (.word x) s.frames.size (s.push (some e) bs).2 v
      (s.push (some e) bs).2 :=
  returns_word (Store.lookup_push_self hx)

theorem Returns.defineLocal {bs : Bindings}
    (ha : Returns turns depth a s.frames.size t v (s.push (some e) bs).2) :
    Returns turns (depth + 1) (.applyWord "define" [.word x, a]) s.frames.size t v
      (s.push (some e) (bs.put x v)).2 := by
  rw [← Store.define_push]
  exact ha.define

/-- A builtin is seen behind the names of the call, unless one of them hides it. -/
theorem ReturnsAll.builtinLocal {bs : Bindings} {b : Builtin}
    (has : ReturnsAll turns (depth + 1) as s.frames.size (s.push (some e) bs).2 vs t)
    (hs : s.Standard e) (hb : b ∈ Builtin.all 0) (hlocal : bs.get? b.name = none)
    (happly : b.apply (depth + 1) vs t = (.ok v, u)) :
    Returns turns (depth + 2) (.applyWord b.name as) s.frames.size (s.push (some e) bs).2 v u := by
  have hacyclic : s.Acyclic := hs.acyclic
  refine has.builtin (find?_name b) ?_ happly
  rw [Store.lookup_push_outer hacyclic hs.inside hlocal]
  exact hs.sees_builtin hb

/-! ## Loops -/

/-- A loop makes as many turns as there are stores behind the first one. -/
theorem returns_while {test body : Expr} {state : Nat → Store} {n : Nat} (hn : n < turns)
    (htest : ∀ k < n, Returns turns depth test e (state k) (.bool true) (state k))
    (hbody : ∀ k < n, ∃ v, Returns turns depth body e (state k) v (state (k + 1)))
    (hlast : Returns turns depth test e (state n) (.bool false) (state n)) :
    Returns turns (depth + 1) (.applyWord "while" [test, body]) e (state 0) (.bool false)
      (state n) := by
  -- from the store of each turn, if more turns are left than there are stores
  have hfrom : ∀ m left k, k + m = n → m < left →
      Evaluate.repeated (evaluate Forms.core turns depth test e)
        (evaluate Forms.core turns depth body e) left (state k) = (.ok (.bool false), state n) := by
    intro m
    induction m with
    | zero =>
      intro left k hk hleft
      obtain rfl : k = n := hk
      obtain ⟨left, rfl⟩ : ∃ l, left = l + 1 := ⟨left - 1, by omega⟩
      rw [Evaluate.repeated, Run.bind_apply_ok hlast]
      rfl
    | succ m ih =>
      intro left k hk hleft
      obtain ⟨left, rfl⟩ : ∃ l, left = l + 1 := ⟨left - 1, by omega⟩
      obtain ⟨v, hv⟩ := hbody k (by omega)
      rw [Evaluate.repeated, Run.bind_apply_ok (htest k (by omega))]
      show (evaluate Forms.core turns depth body e >>= fun _ => Evaluate.repeated _ _ left) _ = _
      rw [Run.bind_apply_ok hv]
      exact ih left (k + 1) (by omega) (by omega)
  unfold Returns
  rw [evaluate_form rfl]
  exact hfrom n turns 0 (Nat.zero_add n) hn

end

end EggLang
