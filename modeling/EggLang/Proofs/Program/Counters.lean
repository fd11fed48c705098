/-
# `EggLang.Proofs.Program.Counters` — counters that share no state

A counter is made by a function whose result keeps the frame that it was made
in:

    define(makeCounter, fun(do(define(n, 0), fun(set(n, +(n, 1))))))
    define(a, makeCounter())
    define(b, makeCounter())

Each call of `makeCounter` has a frame of its own, the counter's *home*, which
binds `n` and nothing else.  A call of a counter has a frame inside its home.
It binds nothing there, so that `n` is read and set in the home, one frame out.

    frame        around it    binds
    e                         makeCounter, a, b
    home a       e            n
    home b       e            n
    each call    home a       nothing

All homes bind the same name, and what keeps the counters apart is that no two
have the same home.  `Counting` says this of a store, with the count that each
home holds.  Making a counter and calling one both keep it, and a call adds one
to the count of the counter that is called, and to no other.
-/
import EggLang.Proofs.Program.Returns
import EggLang.Source.Reader
import Mathlib.Logic.Function.Basic

namespace EggLang

namespace Counters

/-- The body of a counter. -/
def increment : Expr :=
  .applyWord "set" [.word "n", .applyWord "+" [.word "n", .number 1]]

def makerBody : Expr :=
  .applyWord "do" [.applyWord "define" [.word "n", .number 0], .applyWord "fun" [increment]]

/-- The definition of the function that makes counters. -/
def maker : Expr :=
  .applyWord "define" [.word "makeCounter", .applyWord "fun" [makerBody]]

def counter (x : String) : Expr :=
  .applyWord "define" [.word x, .applyWord "makeCounter" []]

def call (x : String) : Expr := .applyWord x []

/-- The value of a count. -/
def tally (n : Nat) : Value := .number (.int n)

/-! ## Counters in a store -/

/-- The frame binds the name to a counter, whose home holds the count. -/
structure Counter (s : Store) (e : FrameId) (x : String) (home : FrameId) (count : Nat) :
    Prop where
  bound : ∃ i, (s.bindings e).get? x = some (.closure i [] increment home)
  around : s.outer? home = some e
  holds : s.bindings home = [("n", tally count)]

/-- The frame has the function that makes counters, and its counters have homes of
their own. -/
structure Counting (s : Store) (e : FrameId) (names : List String) (home : String → FrameId)
    (count : String → Nat) : Prop where
  standard : s.Standard e
  made : ∃ i, (s.bindings e).get? "makeCounter" = some (.closure i [] makerBody e)
  each : ∀ x ∈ names, Counter s e x (home x) (count x)
  apart : ∀ x ∈ names, ∀ y ∈ names, home x = home y → x = y

section
variable {s t : Store} {e f g : FrameId} {x : String} {names : List String}
variable {home : String → FrameId} {count : String → Nat} {n turns depth : Nat}

/-- A counter stays one as long as its name is bound as before and its home is left
alone. -/
theorem Counter.frame (h : Counter s e x f n)
    (hbound : (t.bindings e).get? x = (s.bindings e).get? x) (houter : t.outer? f = s.outer? f)
    (hhome : t.bindings f = s.bindings f) : Counter t e x f n where
  bound := hbound ▸ h.bound
  around := houter.trans h.around
  holds := hhome.trans h.holds

/-- A home is a later frame than the one around it. -/
theorem Counter.lt_home (h : Counter s e x f n) (hs : s.Standard e) : e < f :=
  hs.acyclic h.around

/-- In the home of a counter the global names are seen. -/
theorem Counter.standard_home (h : Counter s e x f n) (hs : s.Standard e) : s.Standard f := by
  have hn : "n" ∉ (globalBindings 0).names := by decide +kernel
  refine hs.inner h.around ?_
  intro y hy
  have hne : "n" ≠ y := by
    rintro rfl
    exact hn hy
  rw [h.holds]
  simp [Bindings.get?, hne]

/-! ## A call of a counter -/

/-- The store after a call that has set the count of the home. -/
def afterCall (s : Store) (home : FrameId) (n : Nat) : Store :=
  (s.push (some home) []).2.define home "n" (tally n)

/-- The call adds one to what the home holds, and returns it. -/
theorem Counter.call_returns (h : Counter s e x f n) (hs : s.Standard e)
    (hx : Forms.core.find? x = none) :
    Returns turns (depth + 4) (call x) e s (tally (n + 1)) (afterCall s f (n + 1)) := by
  obtain ⟨i, hi⟩ := h.bound
  let t := (s.push (some f) []).2
  have hf : s.Standard f := h.standard_home hs
  have hft : t.Standard f := hf.push hf.inside
  -- the frame of the call binds nothing, so `n` is seen one frame out and `+` further out
  have houter : t.outer? s.frames.size = some f := by
    rw [Store.outer?_push, if_pos rfl]
  have hlocal : ∀ y, (t.bindings s.frames.size).get? y = none := by
    intro y
    rw [Store.bindings_push_self]
    rfl
  have ht : t.Standard s.frames.size := hft.inner houter fun y _ => hlocal y
  have hn : (t.bindings f).get? "n" = some (tally n) := by
    rw [Store.bindings_push_of_lt (some f) hf.inside, h.holds]
    rfl
  have hread : Returns turns (depth + 1) (.word "n") s.frames.size t (tally n) t := by
    refine returns_word ?_
    rw [Store.Acyclic.lookup_outer hft.acyclic hft.inside houter (hlocal "n")]
    exact Store.lookup_of_get? hft.inside hn
  have hadd : Returns turns (depth + 2) (.applyWord "+" [.word "n", .number 1]) s.frames.size t
      (tally (n + 1)) t :=
    (ReturnsAll.cons hread (.cons (returns_number 1) .nil)).builtin rfl
      (ht.sees_builtin (b := .add) (by decide)) rfl
  have hset : t.set s.frames.size "n" (tally (n + 1)) = .ok (afterCall s f (n + 1)) :=
    Store.Acyclic.set_outer hft.acyclic hft.inside houter (hlocal "n") hn (tally (n + 1))
  exact ReturnsAll.nil.closure hx (Store.lookup_of_get? hs.inside hi) rfl (hadd.assign hset)

theorem standard_afterCall (hs : s.Standard e) (hf : f < s.frames.size) :
    (afterCall s f n).Standard e := by
  refine (hs.push hf).define ?_ (tally n) (by decide +kernel)
  rw [Store.size_push]
  exact Nat.lt_succ_of_lt hf

theorem bindings_afterCall (hg : g < s.frames.size) (hne : g ≠ f) :
    (afterCall s f n).bindings g = s.bindings g :=
  Store.bindings_define_push (some f) "n" (tally n) hg hne

theorem outer?_afterCall (hg : g < s.frames.size) : (afterCall s f n).outer? g = s.outer? g :=
  Store.outer?_define_push (some f) "n" (tally n) hg

theorem Counter.afterCall_self (h : Counter s e x f n) (hs : s.Standard e) (m : Nat) :
    Counter (afterCall s f m) e x f m := by
  have hf : f < s.frames.size := (h.standard_home hs).inside
  refine ⟨?_, ?_, ?_⟩
  · rw [bindings_afterCall hs.inside (Nat.ne_of_lt (h.lt_home hs))]
    exact h.bound
  · rw [outer?_afterCall hf]
    exact h.around
  · rw [afterCall, Store.bindings_define_self, Store.bindings_push_of_lt _ hf, h.holds]
    · rfl
    · rw [Store.size_push]
      exact Nat.lt_succ_of_lt hf

/-- A call leaves the counters alone that have other homes. -/
theorem Counter.afterCall_other (h : Counter s e x f n) (hs : s.Standard e) (hg : e ≠ g)
    (hne : f ≠ g) (m : Nat) : Counter (afterCall s g m) e x f n := by
  have hf : f < s.frames.size := (h.standard_home hs).inside
  refine h.frame ?_ (outer?_afterCall hf) (bindings_afterCall hf hne)
  rw [bindings_afterCall hs.inside hg]

/-- One call: the count of the counter that is called goes up by one. -/
theorem Counting.afterCall (h : Counting s e names home count) (hx : x ∈ names) :
    Counting (afterCall s (home x) (count x + 1)) e names home
        (Function.update count x (count x + 1)) ∧
      (afterCall s (home x) (count x + 1)).bindings e = s.bindings e := by
  have hxc : Counter s e x (home x) (count x) := h.each x hx
  have hne : e ≠ home x := Nat.ne_of_lt (hxc.lt_home h.standard)
  have hown := bindings_afterCall (n := count x + 1) h.standard.inside hne
  refine ⟨⟨?_, ?_, ?_, h.apart⟩, hown⟩
  · exact standard_afterCall h.standard (hxc.standard_home h.standard).inside
  · rw [hown]
    exact h.made
  · intro y hy
    by_cases hyx : y = x
    · rw [hyx, Function.update_self]
      exact hxc.afterCall_self h.standard _
    · rw [Function.update_of_ne hyx]
      exact (h.each y hy).afterCall_other h.standard hne
        (fun heq => hyx (h.apart y hy x hx heq)) _

/-- Calls in any order: each returns how often its counter has been called by
then. -/
theorem Counting.calls_return (h : Counting s e names home count)
    (hwords : ∀ x ∈ names, Forms.core.find? x = none) {calls : List String}
    (hcalls : ∀ x ∈ calls, x ∈ names) :
    ∃ vs t, ReturnsAll turns (depth + 4) (calls.map call) e s vs t ∧
      vs.length = calls.length ∧
      (∀ j x, calls[j]? = some x →
        vs[j]? = some (tally (count x + (calls.take (j + 1)).count x))) ∧
      t.bindings e = s.bindings e := by
  induction calls generalizing s count with
  | nil => exact ⟨[], s, .nil, rfl, nofun, rfl⟩
  | cons y ys ih =>
    obtain ⟨hy, hys⟩ := List.forall_mem_cons.mp hcalls
    obtain ⟨hstep, hown⟩ := h.afterCall hy
    obtain ⟨vs, u, hu, hlength, hvs, hrest⟩ := ih hstep hys
    have hcall : Returns turns (depth + 4) (call y) e s (tally (count y + 1)) _ :=
      (h.each y hy).call_returns h.standard (hwords y hy)
    refine ⟨tally (count y + 1) :: vs, u, .cons hcall hu, ?_, ?_, hrest.trans hown⟩
    · rw [List.length_cons, List.length_cons, hlength]
    · intro j x hj
      cases j with
      | zero =>
        cases hj
        simp
      | succ j =>
        rw [List.getElem?_cons_succ] at hj ⊢
        rw [hvs j x hj, List.take_succ_cons, List.count_cons]
        by_cases hxy : x = y
        · subst hxy
          simp [Nat.add_assoc, Nat.add_comm 1]
        · simp [Function.update_of_ne hxy, Ne.symm hxy]

/-! ## Making counters -/

/-- The store after a counter has been made and given a name. -/
def afterMaking (s : Store) (e : FrameId) (x : String) : Store :=
  (s.freshId.2.push (some e) [("n", tally 0)]).2.define e x
    (.closure s.fresh [] increment s.frames.size)

/-- A new frame is the home of the counter. -/
theorem Counting.counter_returns (h : Counting s e names home count) :
    Returns turns (depth + 5) (counter x) e s (.closure s.fresh [] increment s.frames.size)
      (afterMaking s e x) := by
  obtain ⟨i, hi⟩ := h.made
  have hzero : Returns turns (depth + 2) (.applyWord "define" [.word "n", .number 0])
      s.frames.size (s.push (some e) []).2 (tally 0) (s.push (some e) [("n", tally 0)]).2 :=
    (returns_number 0).defineLocal
  have hfunction : Returns turns (depth + 2) (.applyWord "fun" ([] ++ [increment]))
      s.frames.size (s.push (some e) [("n", tally 0)]).2
      (.closure s.fresh [] increment s.frames.size)
      (s.freshId.2.push (some e) [("n", tally 0)]).2 := returns_function rfl
  have hmake : Returns turns (depth + 4) (.applyWord "makeCounter" []) e s
      (.closure s.fresh [] increment s.frames.size)
      (s.freshId.2.push (some e) [("n", tally 0)]).2 :=
    ReturnsAll.nil.closure rfl (Store.lookup_of_get? h.standard.inside hi) rfl
      (ReturnsAll.cons hzero (.cons hfunction .nil)).sequence
  exact hmake.define

theorem get?_afterMaking (he : e < s.frames.size) (y : String) :
    ((afterMaking s e x).bindings e).get? y =
      if y = x then some (.closure s.fresh [] increment s.frames.size)
      else (s.bindings e).get? y := by
  rw [afterMaking, Store.get?_define, Store.bindings_push_of_lt]
  · rfl
  · exact he
  · rw [Store.size_push]
    exact Nat.lt_succ_of_lt he

theorem counter_afterMaking (he : e < s.frames.size) (x : String) :
    Counter (afterMaking s e x) e x s.frames.size 0 where
  bound := ⟨s.fresh, by rw [get?_afterMaking he, if_pos rfl]⟩
  around := by
    rw [afterMaking, Store.outer?_define, Store.outer?_push]
    exact if_pos rfl
  holds := by
    rw [afterMaking, Store.bindings_define_of_ne _ _ (Nat.ne_of_lt he)]
    exact Store.bindings_push_self (some e)

/-- Making a counter leaves the others alone. -/
theorem Counter.afterMaking_other (h : Counter s e x f n) (hs : s.Standard e) {y : String}
    (hne : x ≠ y) : Counter (afterMaking s e y) e x f n := by
  have hf : f < s.frames.size := (h.standard_home hs).inside
  refine h.frame ?_ ?_ ?_
  · rw [get?_afterMaking hs.inside, if_neg hne]
  · exact Store.outer?_define_push (s := s.freshId.2) (some e) y _ hf
  · exact Store.bindings_define_push (s := s.freshId.2) (some e) y _ hf
      (Nat.ne_of_gt (h.lt_home hs))

/-- One more counter, which has not been called. -/
theorem Counting.afterMaking (h : Counting s e names home count) (hx : x ∉ names)
    (hmaker : x ≠ "makeCounter") (hglobal : x ∉ (globalBindings 0).names) :
    Counting (afterMaking s e x) e (names ++ [x]) (Function.update home x s.frames.size)
      (Function.update count x 0) := by
  have hpush : (s.freshId.2.push (some e) [("n", tally 0)]).2.Standard e :=
    h.standard.freshId.push h.standard.inside
  have hne : ∀ y ∈ names, y ≠ x := by
    rintro y hy rfl
    exact hx hy
  have hlt : ∀ y ∈ names, home y < s.frames.size :=
    fun y hy => ((h.each y hy).standard_home h.standard).inside
  refine ⟨hpush.define hpush.inside _ hglobal, ?_, ?_, ?_⟩
  · rw [get?_afterMaking h.standard.inside, if_neg hmaker.symm]
    exact h.made
  · intro y hy
    rcases List.mem_append.mp hy with hy | hy
    · rw [Function.update_of_ne (hne y hy), Function.update_of_ne (hne y hy)]
      exact (h.each y hy).afterMaking_other h.standard (hne y hy)
    · rw [List.mem_singleton.mp hy, Function.update_self, Function.update_self]
      exact counter_afterMaking h.standard.inside x
  · -- the new home is none of the old ones
    intro y hy z hz
    simp only [Function.update_apply]
    grind [h.apart]

/-- Counters can be made one after the other. -/
theorem Counting.counters_return {made : List String} (h : Counting s e made home fun _ => 0)
    (hnodup : (made ++ names).Nodup)
    (hnames : ∀ x ∈ names, x ≠ "makeCounter" ∧ x ∉ (globalBindings 0).names) :
    ∃ vs t home', ReturnsAll turns (depth + 5) (names.map counter) e s vs t ∧
      Counting t e (made ++ names) home' fun _ => 0 := by
  induction names generalizing s made home with
  | nil =>
    rw [List.append_nil]
    exact ⟨[], s, home, .nil, h⟩
  | cons x names ih =>
    obtain ⟨⟨hmaker, hglobal⟩, hrest⟩ := List.forall_mem_cons.mp hnames
    have hx : x ∉ made := by
      intro hmem
      exact (List.nodup_append.mp hnodup).2.2 x hmem x List.mem_cons_self rfl
    have hzero : Function.update (fun _ : String => 0) x 0 = fun _ => 0 :=
      Function.update_eq_self x _
    have hstep := h.afterMaking hx hmaker hglobal
    rw [hzero] at hstep
    rw [List.append_cons] at hnodup ⊢
    obtain ⟨vs, u, home', hvs, hu⟩ := ih hstep hnodup hrest
    exact ⟨_, u, home', .cons h.counter_returns hvs, hu⟩

end

/-- When the function that makes counters has been defined, there are none yet. -/
theorem maker_returns {s : Store} {e : FrameId} (hs : s.Standard e) (turns depth : Nat)
    (home : String → FrameId) :
    ∃ v t, Returns turns (depth + 2) maker e s v t ∧ Counting t e [] home fun _ => 0 := by
  have hfunction : Returns turns (depth + 1) (.applyWord "fun" ([] ++ [makerBody])) e s
      (.closure s.fresh [] makerBody e) s.freshId.2 := returns_function rfl
  refine ⟨_, _, hfunction.define, ?_, ⟨s.fresh, ?_⟩, nofun, nofun⟩
  · exact hs.freshId.define hs.inside _ (by decide +kernel)
  · rw [Store.get?_define hs.freshId.inside, if_pos rfl]

/-- The text of the first definition. -/
def source : String := "define(makeCounter, fun(do(define(n, 0), fun(set(n, +(n, 1))))))"

theorem read_source : Expr.read 8 source = .ok maker := by
  with_unfolding_all rfl

/-- In a frame that sees the global names, the function that makes counters can be
defined, and then counters of any names.  Whatever calls of these counters follow,
in whatever order, each of them returns how often its counter has been called by
then, and the frame binds what it bound before the calls.  A fixed depth is enough
for all of this. -/
theorem interleaved_calls {s : Store} {e : FrameId} (hs : s.Standard e) {names : List String}
    (hnodup : names.Nodup)
    (hnames : ∀ x ∈ names, x ≠ "makeCounter" ∧ x ∉ (globalBindings 0).names ∧
      x ∉ Form.all.map Form.keyword)
    {turns depth : Nat} (hdepth : 5 ≤ depth) :
    Expr.read 8 source = .ok maker ∧
    ∃ vs t, ReturnsAll turns depth (maker :: names.map counter) e s vs t ∧
      ∀ calls : List String, (∀ x ∈ calls, x ∈ names) →
        ∃ ws u, ReturnsAll turns depth (calls.map call) e t ws u ∧ ws.length = calls.length ∧
          (∀ j x, calls[j]? = some x → ws[j]? = some (tally ((calls.take (j + 1)).count x))) ∧
          u.bindings e = t.bindings e := by
  obtain ⟨depth, rfl⟩ := Nat.exists_eq_add_of_le' hdepth
  refine ⟨read_source, ?_⟩
  obtain ⟨v, t, hv, ht⟩ := maker_returns hs turns (depth + 3) fun _ => 0
  obtain ⟨vs, u, home, hvs, hu⟩ := ht.counters_return hnodup fun x hx =>
    ⟨(hnames x hx).1, (hnames x hx).2.1⟩
  refine ⟨v :: vs, u, .cons hv hvs, ?_⟩
  intro calls hcalls
  have hwords : ∀ x ∈ names, Forms.core.find? x = none :=
    fun x hx => Forms.find?_core_of_not_keyword (hnames x hx).2.2
  obtain ⟨ws, w, hws, hlength, hcounts, hown⟩ := hu.calls_return hwords hcalls
  refine ⟨ws, w, hws, hlength, ?_, hown⟩
  intro j x hj
  rw [hcounts j x hj, Nat.zero_add]

/-- Two counters of a session, called in turn. -/
theorem interleaved_calls_two :
    ∃ vs t ws u, ReturnsAll 0 5 [maker, counter "a", counter "b"] Session.ownFrame Session.start
        vs t ∧
      ReturnsAll 0 5 [call "a", call "b", call "a", call "a", call "b"] Session.ownFrame t ws u ∧
      ws[3]? = some (tally 3) ∧ ws[4]? = some (tally 2) := by
  obtain ⟨-, vs, t, ht, hcalls⟩ :=
    @interleaved_calls _ _ Store.standard_start ["a", "b"] (by decide) (by decide +kernel) 0 5
      (Nat.le_refl 5)
  obtain ⟨ws, u, hu, -, hcounts, -⟩ := hcalls ["a", "b", "a", "a", "b"] (by decide)
  exact ⟨vs, t, ws, u, ht, hu, hcounts 3 "a" rfl, hcounts 4 "b" rfl⟩

end Counters

end EggLang
