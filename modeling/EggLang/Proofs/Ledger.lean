/-
# `EggLang.Proofs.Ledger` — an identity has one content

Arrays and closures are compared by the number they were made under and shown by
what is in them.  That two of them with one number are the same value is due to
the way numbers are handed out: each is used once, and what was made under it is
never changed.  No store shows this, as a store does not keep what was made.
Values with one number may be bound in several frames, lie inside of other
arrays, be on their way to a builtin, or be all that is left of the array.

An evaluation is therefore followed with a ledger, the list of all arrays and
closures made so far, in the order of their numbers:

    Recorded    each array and closure in the value stands at its number
    Covers      the ledger ends at the next number and records what is bound

From a covered store an evaluation only adds to the ledger, and what it binds,
returns, hands to a builtin or refuses to apply is recorded (`keeps_evaluate`).
So there is one ledger for all the values that come up in a session
(`Seen.recorded`), and a ledger has one content for a number
(`eq_of_identity?`).
-/
import EggLang.Proofs.Faults
import EggLang.Proofs.Reached

namespace EggLang

/-- The number that an array or a closure was made under. -/
def Value.identity? : Value → Option Nat
  | .array i _ => some i
  | .closure i .. => some i
  | _ => none

def Event.values : Event → List Value
  | .called _ _ args => args
  | .refused _ v => [v]

/-- The arrays and closures made so far, each at the place of its number. -/
abbrev Ledger := List Value

namespace Ledger

open Value (Part)

/-- Each array and closure in the value stands in the ledger. -/
def Recorded (L : Ledger) (v : Value) : Prop :=
  ∀ u i, Part u v → u.identity? = some i → L[i]? = some u

/-- The ledger is complete for the store, and records what is bound there. -/
structure Covers (L : Ledger) (s : Store) : Prop where
  length_eq : L.length = s.fresh
  bound : ∀ {f x v}, (x, v) ∈ s.bindings f → L.Recorded v

section
variable {L M : Ledger} {s t : Store} {u v : Value} {i : Nat}

/-! ## Recorded values -/

/-- An identity has one content. -/
theorem eq_of_identity? (hu : L.Recorded u) (hv : L.Recorded v) :
    u.identity? = some i → v.identity? = some i → u = v := by
  intro hi hj
  exact Option.some.inj ((hu u i .self hi).symm.trans (hv v i .self hj))

theorem Recorded.mono : L.Recorded v → L <+: M → M.Recorded v := by
  intro hv h u i hu hi
  have hat := hv u i hu hi
  obtain ⟨hlt, -⟩ := List.getElem?_eq_some_iff.mp hat
  obtain ⟨new, rfl⟩ := h
  rw [List.getElem?_append_left hlt]
  exact hat

/-- A value that is neither an array nor a closure needs no entry. -/
theorem recorded_of_none : v.identity? = none → L.Recorded v := by
  intro hv u i hu hi
  have hself : u = v := hu.eq_of_not_array (by rintro _ _ rfl; cases hv)
  cases hself
  cases hv.symm.trans hi

theorem recorded_of_plain : v.Plain → L.Recorded v := by
  intro hv
  refine recorded_of_none ?_
  cases v <;> first | rfl | cases hv

theorem Recorded.item {items : List Value} :
    L.Recorded (.array i items) → v ∈ items → L.Recorded v := by
  intro h hv u j hu hj
  exact h u j (.item hv hu) hj

theorem Recorded.part : L.Recorded v → Part u v → L.Recorded u := by
  intro h hu
  induction hu with
  | self => exact h
  | item hw _ ih => exact ih (h.item hw)

/-- What is made next is recorded at the end, if its items are recorded. -/
theorem recorded_append (hi : v.identity? = some L.length)
    (hitems : ∀ j items, v = .array j items → ∀ w ∈ items, L.Recorded w) :
    Recorded (L ++ [v]) v := by
  intro u j hu hj
  cases hu with
  | self =>
    cases hi.symm.trans hj
    simp
  | item hw hu => exact (hitems _ _ rfl _ hw).mono (List.prefix_append L _) u j hu hj

/-! ## Covered stores -/

namespace Covers

theorem printLine (h : L.Covers s) (line : String) : L.Covers (s.printLine line) :=
  ⟨h.length_eq, h.bound⟩

theorem fresh (h : L.Covers s) (v : Value) : Covers (L ++ [v]) s.freshId.2 := by
  refine ⟨?_, ?_⟩
  · rw [List.length_append, h.length_eq]
    rfl
  · intro f x w hw
    exact (h.bound hw).mono (List.prefix_append L [v])

theorem define (h : L.Covers s) (e : FrameId) (x : String) :
    L.Recorded v → L.Covers (s.define e x v) := by
  intro hv
  refine ⟨h.length_eq, ?_⟩
  intro f y w hw
  rcases Store.mem_bindings_define hw with hw | hw
  · exact h.bound hw
  · cases hw
    exact hv

theorem push (h : L.Covers s) (outer : Option FrameId) {bs : Bindings} :
    (∀ x v, (x, v) ∈ bs → L.Recorded v) → L.Covers (s.push outer bs).2 := by
  intro hbs
  refine ⟨h.length_eq, ?_⟩
  intro f x v hv
  rw [Store.bindings_push] at hv
  split at hv
  · exact hbs x v hv
  · exact h.bound hv

theorem lookup (h : L.Covers s) {e : FrameId} {x : String} :
    s.lookup e x = .ok v → L.Recorded v := by
  intro hv
  obtain ⟨f, -, hmem⟩ := Store.lookup_eq_ok hv
  exact h.bound hmem

end Covers

theorem covers_start : Covers [] Session.start := by
  refine ⟨rfl, ?_⟩
  intro f x v hv
  rcases f with _ | _ | f
  · rcases globalBindings_cases hv with ⟨b, rfl⟩ | ⟨b, rfl⟩
    · exact recorded_of_plain trivial
    · exact recorded_of_none rfl
  · cases hv
  · cases hv

end

/-! ## Computations -/

/-- With the second ledger, which adds to the first, the store that is left is
covered and the values of all events are recorded; what is returned has the
property. -/
structure Records {α : Type} (P : Ledger → α → Prop) (L M : Ledger)
    (r : (Except Fault α × Store) × List Event) : Prop where
  grows : L <+: M
  covers : M.Covers r.1.2
  returns : ∀ a, r.1.1 = .ok a → P M a
  notes : ∀ event ∈ r.2, ∀ v ∈ event.values, M.Recorded v

theorem Records.value {α : Type} {P : Ledger → α → Prop} {L M : Ledger} {t : Store} {a : α}
    {events : List Event} (hgrows : L <+: M) (hcovers : M.Covers t) (ha : P M a)
    (hnotes : ∀ event ∈ events, ∀ v ∈ event.values, M.Recorded v) :
    Records P L M ((.ok a, t), events) := by
  refine ⟨hgrows, hcovers, ?_, hnotes⟩
  rintro _ ⟨⟩
  exact ha

theorem Records.fault {α : Type} {P : Ledger → α → Prop} {L M : Ledger} {t : Store} (f : Fault)
    {events : List Event} (hgrows : L <+: M) (hcovers : M.Covers t)
    (hnotes : ∀ event ∈ events, ∀ v ∈ event.values, M.Recorded v) :
    Records P L M ((.error f, t), events) :=
  ⟨hgrows, hcovers, nofun, hnotes⟩

/-- Some longer ledger records what a computation has done. -/
def Keeps {α : Type} (P : Ledger → α → Prop) (L : Ledger)
    (r : (Except Fault α × Store) × List Event) : Prop :=
  ∃ M, Records P L M r

section
variable {α β : Type} {P : Ledger → α → Prop} {Q : Ledger → β → Prop}
variable {L : Ledger} {s : Store} {e : FrameId} {v : Value}

namespace Keeps

theorem pure {a : α} (hs : L.Covers s) (ha : P L a) : Keeps P L ((Pure.pure a : Traced α) s) :=
  ⟨L, .value List.prefix_rfl hs ha (List.forall_mem_nil _)⟩

theorem fail (f : Fault) (hs : L.Covers s) :
    Keeps P L ((Recorder.silent (Run.fail f) : Traced α) s) :=
  ⟨L, .fault f List.prefix_rfl hs (List.forall_mem_nil _)⟩

/-- A computation in which nothing is made or noted. -/
theorem silent {x : Run α} (hcovers : L.Covers (x s).2) (hx : ∀ a, (x s).1 = .ok a → P L a) :
    Keeps P L ((Recorder.silent x : Traced α) s) :=
  ⟨L, List.prefix_rfl, hcovers, hx, List.forall_mem_nil _⟩

/-- One computation after another, whose ledger goes on from that of the first. -/
theorem bind {x : Traced α} {k : α → Traced β} (hx : Keeps P L (x s))
    (hk : ∀ {M t a}, L <+: M → Covers M t → P M a → Keeps Q M (k a t)) :
    Keeps Q L ((x >>= k) s) := by
  obtain ⟨M, hgrows, hcovers, hret, hnotes⟩ := hx
  show Keeps Q L (Traced.bind x k s)
  rcases hrun : x s with ⟨⟨f | a, t⟩, before⟩
  · rw [hrun] at hcovers hnotes
    simp only [Traced.bind, hrun]
    exact ⟨M, .fault f hgrows hcovers hnotes⟩
  · rw [hrun] at hcovers hret hnotes
    simp only [Traced.bind, hrun]
    obtain ⟨N, hgrows', hcovers', hret', hnotes'⟩ := hk hgrows hcovers (hret a rfl)
    refine ⟨N, hgrows.trans hgrows', hcovers', hret', ?_⟩
    intro event hevent w hw
    rcases List.mem_append.mp hevent with hevent | hevent
    · exact (hnotes event hevent w hw).mono hgrows'
    · exact hnotes' event hevent w hw

end Keeps

/-! ## Builtins -/

theorem keeps_called (limit : Nat) (b : Builtin) {args : List Value} :
    L.Covers s → (∀ v ∈ args, L.Recorded v) →
      Keeps Recorded L
        ((Recorder.noting (.called limit b args) (b.apply limit args) : Traced Value) s) := by
  intro hs hargs
  have hnotes : ∀ event ∈ [Event.called limit b args], ∀ v ∈ event.values, L.Recorded v :=
    List.forall_mem_singleton.mpr hargs
  have heffect := Builtin.apply_effect limit b args s
  simp only [Traced.noting_apply]
  generalize b.apply limit args s = r at heffect
  cases heffect with
  | fault f => exact ⟨L, .fault f List.prefix_rfl hs hnotes⟩
  | plain hv => exact ⟨L, .value List.prefix_rfl hs (recorded_of_plain hv) hnotes⟩
  | item harray hv => exact ⟨L, .value List.prefix_rfl hs ((hargs _ harray).item hv) hnotes⟩
  | array =>
    -- the only effect that uses a number
    have hgrows : L <+: L ++ [.array s.fresh args] := List.prefix_append _ _
    refine ⟨_, .value hgrows (hs.fresh _) ?_ ?_⟩
    · refine recorded_append (congrArg some hs.length_eq.symm) ?_
      rintro _ _ ⟨⟩
      exact hargs
    · intro event hevent w hw
      exact (hnotes event hevent w hw).mono hgrows
  | prints hv _ =>
    exact ⟨L, .value List.prefix_rfl (hs.printLine _) (hargs _ hv) hnotes⟩
  | returns hv => exact ⟨L, .value List.prefix_rfl hs (hargs _ hv) hnotes⟩

theorem keeps_refuse (limit : Nat) :
    L.Covers s → L.Recorded v → Keeps Recorded L ((Evaluate.refuse limit v : Traced Value) s) := by
  intro hs hv
  have hnotes : ∀ event ∈ [Event.refused limit v], ∀ w ∈ event.values, L.Recorded w :=
    List.forall_mem_singleton.mpr (List.forall_mem_singleton.mpr hv)
  simp only [Evaluate.refuse, Traced.noting_apply, Evaluate.notFunction_apply]
  exact ⟨L, .fault _ List.prefix_rfl hs hnotes⟩

/-! ## The pieces of evaluation -/

theorem keeps_function {args : List Expr} :
    L.Covers s →
      Keeps Recorded L ((Recorder.silent (Evaluate.function args e) : Traced Value) s) := by
  intro hs
  unfold Evaluate.function
  cases args.getLast? with
  | none => exact Keeps.fail _ hs
  | some body =>
    rw [Traced.silent_bind]
    have hnames : Keeps (fun _ _ => True) L
        ((Recorder.silent (Run.ofExcept (Evaluate.parameterNames args.dropLast)) :
          Traced (List String)) s) :=
      Keeps.silent hs fun _ _ => trivial
    refine Keeps.bind hnames ?_
    intro M t names _ ht _
    have hnew : Recorded (M ++ [.closure t.fresh names body e]) (.closure t.fresh names body e) :=
      recorded_append (congrArg some ht.length_eq.symm) (by rintro _ _ ⟨⟩)
    exact ⟨_, .value (List.prefix_append M _) (ht.fresh _) hnew (List.forall_mem_nil _)⟩

/-- From every covered store, what the evaluator does is recorded. -/
def Kept (eval : TracedEvaluator) : Prop :=
  ∀ {L s} (a : Expr) (e : FrameId), L.Covers s → Keeps Recorded L (eval a e s)

section
variable {eval : TracedEvaluator} (heval : Kept eval)
include heval

theorem keeps_all (as : List Expr) : L.Covers s →
    Keeps (fun M vs => ∀ v ∈ vs, M.Recorded v) L (Evaluate.all (fun a => eval a e) as s) := by
  intro hs
  induction as generalizing L s with
  | nil => exact Keeps.pure hs nofun
  | cons a as ih =>
    refine Keeps.bind (heval a e hs) ?_
    intro M t v _ ht hv
    refine Keeps.bind (ih ht) ?_
    intro N u vs hgrows hu hvs
    exact Keeps.pure hu (List.forall_mem_cons.mpr ⟨hv.mono hgrows, hvs⟩)

theorem keeps_inOrder (as : List Expr) :
    L.Covers s → L.Recorded v → Keeps Recorded L (Evaluate.inOrder (fun a => eval a e) v as s) := by
  intro hs hv
  induction as generalizing L s v with
  | nil => exact Keeps.pure hs hv
  | cons a as ih =>
    refine Keeps.bind (heval a e hs) ?_
    intro M t w _ ht hw
    exact ih ht hw

theorem keeps_application (limit : Nat) {args : List Value} :
    L.Covers s → L.Recorded v → (∀ w ∈ args, L.Recorded w) →
      Keeps Recorded L (Evaluate.application eval limit v args s) := by
  intro hs hv hargs
  cases v with
  | closure i params body g =>
    simp only [Evaluate.application]
    split
    · have hframe : Keeps (fun _ _ => True) L ((Recorder.silent
          (Run.take fun s => s.push (some g) (Evaluate.parameters params args)) :
            Traced FrameId) s) :=
        Keeps.silent (hs.push _ fun _ w hw => hargs w (Evaluate.mem_parameters hw))
          fun _ _ => trivial
      refine Keeps.bind hframe ?_
      intro M t f _ ht _
      exact heval body f ht
    · exact Keeps.fail _ hs
  | builtin b => exact keeps_called limit b hs hargs
  | _ => exact keeps_refuse limit hs hv

theorem keeps_call (limit : Nat) (operator : Expr) (args : List Expr) :
    L.Covers s → Keeps Recorded L (Evaluate.call eval limit operator args e s) := by
  intro hs
  refine Keeps.bind (heval operator e hs) ?_
  intro M t f _ ht hf
  split
  · refine Keeps.bind (keeps_all heval args ht) ?_
    intro N u vs hgrows hu hvs
    exact keeps_application heval limit hu (hf.mono hgrows) hvs
  · exact keeps_refuse limit ht hf

theorem keeps_conditional (args : List Expr) :
    L.Covers s → Keeps Recorded L (Evaluate.conditional eval args e s) := by
  intro hs
  unfold Evaluate.conditional
  split
  · next test yes no =>
    refine Keeps.bind (heval test e hs) ?_
    intro M t v _ ht _
    exact heval _ e ht
  · exact Keeps.fail _ hs

theorem keeps_repeated (test body : Expr) (turns : Nat) : L.Covers s →
    Keeps Recorded L (Evaluate.repeated (eval test e) (eval body e) turns s) := by
  intro hs
  induction turns generalizing L s with
  | zero => exact Keeps.fail _ hs
  | succ turns ih =>
    refine Keeps.bind (heval test e hs) ?_
    intro M t v _ ht _
    split
    · exact Keeps.pure ht (recorded_of_plain trivial)
    · refine Keeps.bind (heval body e ht) ?_
      intro N u _ _ hu _
      exact ih hu

theorem keeps_define (args : List Expr) :
    L.Covers s → Keeps Recorded L (Evaluate.define eval args e s) := by
  intro hs
  unfold Evaluate.define
  split
  · next x value =>
    refine Keeps.bind (heval value e hs) ?_
    intro M t v _ ht hv
    exact ⟨M, .value List.prefix_rfl (ht.define e x hv) hv (List.forall_mem_nil _)⟩
  · exact Keeps.fail _ hs

theorem keeps_assign (args : List Expr) :
    L.Covers s → Keeps Recorded L (Evaluate.assign eval args e s) := by
  intro hs
  unfold Evaluate.assign
  split
  · next x value =>
    refine Keeps.bind (heval value e hs) ?_
    intro M t v _ ht hv
    have hset : Keeps (fun N _ => N.Recorded v) M
        ((Recorder.silent (Run.attempt fun s => s.set e x v) : Traced Unit) t) := by
      refine Keeps.silent ?_ fun _ _ => hv
      simp only [Run.attempt]
      cases hset : t.set e x v with
      | error f => exact ht
      | ok u =>
        obtain ⟨f, -, -, rfl⟩ := Store.set_eq_ok hset
        exact ht.define f x hv
    refine Keeps.bind hset ?_
    intro N u _ _ hu hv
    exact Keeps.pure hu hv
  · exact Keeps.fail _ hs

theorem keeps_form (turns : Nat) (f : Form) (args : List Expr) :
    L.Covers s → Keeps Recorded L (Evaluate.form eval turns f args e s) := by
  intro hs
  cases f with
  | conditional => exact keeps_conditional heval args hs
  | loop =>
    simp only [Evaluate.form, Evaluate.loop]
    split
    · exact keeps_repeated heval _ _ turns hs
    · exact Keeps.fail _ hs
  | sequence => exact keeps_inOrder heval args hs (recorded_of_plain trivial)
  | define => exact keeps_define heval args hs
  | assign => exact keeps_assign heval args hs
  | function => exact keeps_function hs

end

/-- Evaluation is recorded, whatever the expression does. -/
theorem keeps_evaluate (forms : Forms) (turns limit : Nat) :
    Kept (Traced.evaluate forms turns limit) := by
  induction limit with
  | zero =>
    intro L s a e hs
    exact Keeps.fail _ hs
  | succ limit ih =>
    intro L s a e hs
    cases a with
    | number n => exact Keeps.pure hs (recorded_of_plain trivial)
    | text x => exact Keeps.pure hs (recorded_of_plain trivial)
    | word x => exact Keeps.silent hs fun v hv => hs.lookup hv
    | hole => exact Keeps.fail _ hs
    | apply operator args =>
      simp only [Traced.evaluate_apply]
      cases Evaluate.formOf? forms operator with
      | some f => exact keeps_form ih turns f args hs
      | none => exact keeps_call ih limit operator args hs

end

end Ledger

/-! ## Sessions -/

namespace Session

open Ledger
open Recorder (silent)

section
variable {forms : Forms} {limits : Limits} {L : Ledger} {s : Store}

theorem evaluateIn_recorded (source : String) (e : FrameId) :
    L.Covers s → Keeps Recorded L ((evaluateIn forms limits source e : Traced Value) s) := by
  intro hs
  have hread : Keeps (fun _ _ => True) L
      ((silent (Run.ofExcept (Expr.read limits.depth source)) : Traced Expr) s) :=
    Keeps.silent hs fun _ _ => trivial
  refine Keeps.bind hread ?_
  intro M t tree _ ht _
  exact keeps_evaluate forms limits.turns limits.depth tree e ht

theorem runSource_recorded (source : String) :
    L.Covers s → Keeps Recorded L ((runSource forms limits source : Traced Value) s) := by
  intro hs
  have hframe : Keeps (fun _ _ => True) L
      ((silent (Run.take fun s => s.push (some globalFrame) []) : Traced FrameId) s) :=
    Keeps.silent (hs.push _ (by rintro _ _ ⟨⟩)) fun _ _ => trivial
  refine Keeps.bind hframe ?_
  intro M t e _ ht _
  exact evaluateIn_recorded source e ht

theorem Step.traced_recorded (step : Step) :
    L.Covers s → Keeps Recorded L (step.traced forms limits s) := by
  intro hs
  cases step with
  | eval source => exact evaluateIn_recorded source ownFrame hs
  | run lines => exact runSource_recorded _ hs
  | file bytes =>
    have htext : Keeps (fun _ _ => True) L
        ((silent (Run.ofExcept (fileText bytes)) : Traced String) s) :=
      Keeps.silent hs fun _ _ => trivial
    refine Keeps.bind htext ?_
    intro M t source _ ht _
    exact runSource_recorded source ht

end

/-- The value comes up when the steps are performed one after the other: it is
bound before, between or after them, a step returns it, a builtin is applied to
it, or it is refused as no function. -/
inductive Seen (forms : Forms) : Store → List (Limits × Step) → Value → Prop
  | bound {s history f x v} : (x, v) ∈ s.bindings f → Seen forms s history v
  | returned {s limits step history v} : (step.perform forms limits s).1 = .ok v →
      Seen forms s ((limits, step) :: history) v
  | noted {s limits step history event v} : event ∈ (step.traced forms limits s).2 →
      v ∈ event.values → Seen forms s ((limits, step) :: history) v
  | later {s limits step history v} : Seen forms (step.perform forms limits s).2 history v →
      Seen forms s ((limits, step) :: history) v

/-- The value is one that comes up, or an item in one.  There are no others that
a program or its host could compare or show. -/
def Met (forms : Forms) (s : Store) (history : List (Limits × Step)) (v : Value) : Prop :=
  ∃ w, Seen forms s history w ∧ Value.Part v w

/-- One ledger records all the values of a session. -/
theorem Seen.recorded {forms : Forms} {L : Ledger} {s : Store} (history : List (Limits × Step)) :
    L.Covers s → ∃ M, L <+: M ∧ ∀ v, Seen forms s history v → Recorded M v := by
  intro hs
  induction history generalizing L s with
  | nil =>
    refine ⟨L, List.prefix_rfl, ?_⟩
    intro v hv
    cases hv with
    | bound hv => exact hs.bound hv
  | cons p history ih =>
    obtain ⟨limits, step⟩ := p
    have hstep : Keeps Recorded L (step.traced forms limits s) := step.traced_recorded hs
    obtain ⟨M, hgrows, hcovers, hret, hnotes⟩ := hstep
    have hperform : (step.traced forms limits s).1 = step.perform forms limits s :=
      congrFun (Step.erase_traced forms limits step) s
    rw [hperform] at hcovers hret
    obtain ⟨N, hgrows', hrest⟩ := ih hcovers
    refine ⟨N, hgrows.trans hgrows', ?_⟩
    intro v hv
    cases hv with
    | bound hv => exact (hs.bound hv).mono (hgrows.trans hgrows')
    | returned hv => exact (hret v hv).mono hgrows'
    | noted hevent hv => exact (hnotes _ hevent v hv).mono hgrows'
    | later hv => exact hrest v hv

/-- Two values that are met in a session and have one identity are equal. -/
theorem Met.eq_of_identity? {forms : Forms} {history : List (Limits × Step)} {u v : Value}
    {i : Nat} :
    Met forms start history u → Met forms start history v →
      u.identity? = some i → v.identity? = some i → u = v := by
  rintro ⟨w, hw, hu⟩ ⟨w', hw', hv⟩
  have hledger : ∃ M, [] <+: M ∧ ∀ v, Seen forms start history v → Recorded M v :=
    Seen.recorded history covers_start
  obtain ⟨M, -, hrecorded⟩ := hledger
  exact Ledger.eq_of_identity? ((hrecorded w hw).part hu) ((hrecorded w' hw').part hv)

end Session

end EggLang
