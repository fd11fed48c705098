/-
# `EggLang.Proofs.Reached` — the stores that sessions come to

A session makes any number of steps, with any table of forms; each step may
have limits of its own, and may fault at any point of its evaluation.
`reached` is the store after such a history.  These hold of all of them.

    reached_sound          the store is sound, every chain is a whole walk to
                           the global frame, and a value that the next step
                           returns is sound
    global_names_fixed     the global frame binds the thirteen names that it
                           was made with, in their order; without assignment
                           it also binds them to the same values
    reached_frames_kept    the next step leaves the frames that cannot be
                           reached from where it begins

The first two come from one discipline.  Expressions are evaluated in any frame but the
global one, values are sound, and from one store to the next the names of the
global frame stay.  Binding a name cannot break this, as it is not done in the
global frame.  Assignment can be done there, but it needs a name that is bound
already.  The third needs of the store only that it is sound.
-/
import EggLang.Proofs.Discipline.Evaluate
import EggLang.Proofs.Isolation
import EggLang.Proofs.Sound

namespace EggLang

/-! ## The forms of closures -/

namespace Value

/-- All forms that closures in the value use are allowed. -/
def Within (forms : Forms) (allowed : Form → Prop) (v : Value) : Prop :=
  ∀ i params body g, Part (.closure i params body g) v → body.Within forms allowed

section
variable {forms : Forms} {allowed : Form → Prop} {v : Value} {i : Nat} {items : List Value}

theorem within_of_kind (ha : ∀ i items, v ≠ .array i items)
    (hc : ∀ i params body g, v ≠ .closure i params body g) : v.Within forms allowed := by
  intro i params body g hp
  exact absurd (hp.eq_of_not_array ha).symm (hc i params body g)

theorem within_of_plain (hv : v.Plain) : v.Within forms allowed := by
  cases v with
  | number n => exact within_of_kind nofun nofun
  | bool b => exact within_of_kind nofun nofun
  | string x => exact within_of_kind nofun nofun
  | _ => exact hv.elim

theorem within_builtin (b : Builtin) : (Value.builtin b).Within forms allowed :=
  within_of_kind nofun nofun

theorem within_array (h : ∀ v ∈ items, v.Within forms allowed) :
    (Value.array i items).Within forms allowed := by
  intro j params body g hp
  cases hp with
  | item hv hp => exact h _ hv j params body g hp

theorem within_closure {params : List String} {body : Expr} {g : FrameId}
    (h : body.Within forms allowed) : (Value.closure i params body g).Within forms allowed := by
  intro j ps b f hp
  cases hp
  exact h

end

end Value

theorem Evaluate.mem_parameters {params : List String} {args : List Value} {x : String}
    {v : Value} : (x, v) ∈ parameters params args → v ∈ args := by
  intro h
  rcases Bindings.mem_putAll h with h | h
  · cases h
  · exact (List.of_mem_zip h).2

theorem Evaluate.nodup_names_parameters (params : List String) (args : List Value) :
    (parameters params args).names.Nodup := by
  show (Bindings.putAll [] (params.zip args)).names.Nodup
  exact Bindings.nodup_names_putAll (params.zip args) List.nodup_nil

namespace Session

/-! ## The discipline of sessions -/

/-- The second store may come out of the first: the global frame keeps its
names, and without assignment it stays as it is. -/
structure Onward (allowed : Form → Prop) (s t : Store) : Prop where
  grows : s.Grows t
  names : (t.bindings globalFrame).names = (s.bindings globalFrame).names
  kept : ¬ allowed .assign → t.bindings globalFrame = s.bindings globalFrame

/-- The store is sound, and its closures use allowed forms. -/
structure Orderly (forms : Forms) (allowed : Form → Prop) (s : Store) : Prop where
  sound : s.Sound
  within : ∀ {f x v}, (x, v) ∈ s.bindings f → v.Within forms allowed

section
variable {forms : Forms} {allowed : Form → Prop} {s t u : Store} {e g : FrameId} {x : String}
variable {v : Value} {bs : Bindings}

theorem Onward.refl (s : Store) : Onward allowed s s :=
  ⟨.refl s, rfl, fun _ => rfl⟩

theorem Onward.trans (h : Onward allowed s t) (h' : Onward allowed t u) : Onward allowed s u :=
  ⟨h.grows.trans h'.grows, h'.names.trans h.names, fun hno => (h'.kept hno).trans (h.kept hno)⟩

theorem Onward.of_frames_eq (hframes : t.frames = s.frames) (hfresh : s.fresh ≤ t.fresh) :
    Onward allowed s t := by
  have hbindings : t.bindings globalFrame = s.bindings globalFrame := by
    simp only [Store.bindings, hframes]
  exact ⟨⟨Nat.le_of_eq (by rw [hframes]), hfresh⟩, by rw [hbindings], fun _ => hbindings⟩

theorem Orderly.of_frames_eq (hs : Orderly forms allowed s) (hframes : t.frames = s.frames)
    (hfresh : s.fresh ≤ t.fresh) : Orderly forms allowed t := by
  refine ⟨hs.sound.of_frames_eq hframes hfresh, ?_⟩
  intro f y w hw
  simp only [Store.bindings, hframes] at hw
  exact hs.within hw

theorem onward_define (hne : e ≠ globalFrame) : Onward allowed s (s.define e x v) := by
  have hbindings := Store.bindings_define_of_ne (s := s) x v hne
  exact ⟨.define s e x v, by rw [hbindings], fun _ => hbindings⟩

/-- An assignment may be to a global name, but makes none. -/
theorem onward_set (hassign : allowed .assign) (h : s.set e x v = .ok t) :
    Onward allowed s t := by
  obtain ⟨f, _, ho, rfl⟩ := Store.set_eq_ok h
  refine ⟨.define s f x v, Store.names_define_of_owns globalFrame v ho, ?_⟩
  intro hno
  exact absurd hassign hno

theorem Orderly.define (hs : Orderly forms allowed s) (hv : v.Sound s)
    (hw : v.Within forms allowed) : Orderly forms allowed (s.define e x v) := by
  refine ⟨hs.sound.define hv, ?_⟩
  intro f y w hmem
  rcases Store.mem_bindings_define hmem with hmem | hmem
  · exact hs.within hmem
  · cases hmem
    exact hw

theorem Orderly.onward_push (hs : Orderly forms allowed s) (outer : Option FrameId) :
    Onward allowed s (s.push outer bs).2 := by
  have hbindings : (s.push outer bs).2.bindings globalFrame = s.bindings globalFrame := by
    rw [Store.bindings_push, if_neg (Nat.ne_of_lt hs.sound.global_lt)]
  exact ⟨.push s outer bs, by rw [hbindings], fun _ => hbindings⟩

theorem Orderly.push (hs : Orderly forms allowed s) (hg : g < s.frames.size)
    (hnodup : bs.names.Nodup)
    (hbs : ∀ {y w}, (y, w) ∈ bs → w.Sound s ∧ w.Within forms allowed) :
    Orderly forms allowed (s.push (some g) bs).2 := by
  refine ⟨hs.sound.push hg hnodup fun hw => (hbs hw).1, ?_⟩
  intro f y w hw
  rw [Store.bindings_push] at hw
  split at hw
  · exact (hbs hw).2
  · exact hs.within hw

/-- A new frame is not the global one. -/
theorem Orderly.site_push (hs : Orderly forms allowed s) (outer : Option FrameId) :
    s.frames.size < (s.push outer bs).2.frames.size ∧ s.frames.size ≠ globalFrame := by
  rw [Store.size_push]
  exact ⟨Nat.lt_succ_self _, Nat.ne_of_gt hs.sound.global_lt⟩

end

/-- Expressions are evaluated outside of the global frame. -/
def discipline (forms : Forms) (allowed : Form → Prop) : Discipline where
  forms := forms
  allowed := allowed
  Stands := Orderly forms allowed
  Site s e := e < s.frames.size ∧ e ≠ globalFrame
  Admits s v := v.Sound s ∧ v.Within forms allowed
  Leads := Onward allowed
  leads_refl := Onward.refl
  leads_trans := Onward.trans
  site_mono h he := ⟨Nat.lt_of_lt_of_le he.1 h.grows.frames, he.2⟩
  admits_mono h hv := ⟨hv.1.mono h.grows, hv.2⟩
  admits_plain hv := ⟨Value.sound_of_plain hv, Value.within_of_plain hv⟩
  admits_item h hv := ⟨h.1.of_item hv, fun i ps b g hp => h.2 i ps b g (.item hv hp)⟩
  admits_lookup := by
    intro s e x v hs _ hv
    obtain ⟨f, _, hmem⟩ := Store.lookup_eq_ok hv
    exact ⟨hs.sound.bound hmem, hs.within hmem⟩
  body_within h := h.2 _ _ _ _ .self
  fresh hs := ⟨.of_frames_eq rfl (Nat.le_succ _), hs.of_frames_eq rfl (Nat.le_succ _)⟩
  admits_array := by
    intro s items hs hitems
    have hgrows : s.Grows s.freshId.2 := ⟨Nat.le_refl _, Nat.le_succ _⟩
    refine ⟨Value.sound_array (Nat.lt_succ_self _) ?_,
      Value.within_array fun v hv => (hitems v hv).2⟩
    intro v hv
    exact (hitems v hv).1.mono hgrows
  admits_closure := by
    intro s e params body _ he hnodup hbody
    exact ⟨Value.sound_closure (Nat.lt_succ_self _) he.1 he.2 hnodup, Value.within_closure hbody⟩
  printLine hs _ _ := ⟨.of_frames_eq rfl (Nat.le_refl _), hs.of_frames_eq rfl (Nat.le_refl _)⟩
  define hs he hv := ⟨onward_define he.2, hs.define hv.1 hv.2⟩
  assign := by
    intro s t e x v hassign hs _ hv hset
    refine ⟨onward_set hassign hset, ?_⟩
    obtain ⟨f, _, _, rfl⟩ := Store.set_eq_ok hset
    exact hs.define hv.1 hv.2
  enter := by
    intro s i params body g args hs hclosure hargs
    have hg := (hclosure.1.captured .self).1
    have hnodup := Evaluate.nodup_names_parameters params args
    refine ⟨hs.onward_push _, hs.push hg hnodup ?_, hs.site_push _⟩
    intro y w hw
    exact hargs w (Evaluate.mem_parameters hw)

/-! ## One step -/

/-- All forms that the step's program uses, if it can be read, are allowed. -/
def Step.Within (forms : Forms) (allowed : Form → Prop) (limits : Limits) (step : Step) : Prop :=
  ∀ source tree, step.source = .ok source → Expr.read limits.depth source = .ok tree →
    tree.Within forms allowed

section
variable {forms : Forms} {allowed : Form → Prop} {s : Store} {e : FrameId}

theorem evaluateIn_keeps (limits : Limits) {source : String} :
    (∀ tree, Expr.read limits.depth source = .ok tree → tree.Within forms allowed) →
      Orderly forms allowed s → e < s.frames.size ∧ e ≠ globalFrame →
      (discipline forms allowed).Keeps (discipline forms allowed).Admits s
        ((evaluateIn forms limits source e : Run Value) s) := by
  intro hwithin hs he
  unfold evaluateIn
  cases htree : Expr.read limits.depth source with
  | error f => exact Discipline.Keeps.fail f hs
  | ok tree =>
    exact (discipline forms allowed).evaluate_keeps limits.turns limits.depth
      (hwithin tree htree) hs he

theorem runSource_keeps (limits : Limits) {source : String} :
    (∀ tree, Expr.read limits.depth source = .ok tree → tree.Within forms allowed) →
      Orderly forms allowed s →
      (discipline forms allowed).Keeps (discipline forms allowed).Admits s
        ((runSource forms limits source : Run Value) s) := by
  intro hwithin hs
  -- the program's frame is inside the global one, which no closure may have
  have hpush : Orderly forms allowed (s.push (some globalFrame) []).2 :=
    hs.push hs.sound.global_lt List.nodup_nil nofun
  obtain ⟨hleads, hstands, hret⟩ :=
    evaluateIn_keeps limits hwithin hpush (hs.site_push (some globalFrame))
  exact ⟨(hs.onward_push (some globalFrame)).trans hleads, hstands, hret⟩

/-- A step keeps the discipline, also if it faults. -/
theorem perform_keeps (limits : Limits) {step : Step} :
    step.Within forms allowed limits → Orderly forms allowed s → ownFrame < s.frames.size →
      (discipline forms allowed).Keeps (discipline forms allowed).Admits s
        (step.perform forms limits s) := by
  intro hwithin hs hown
  cases step with
  | eval source =>
    exact evaluateIn_keeps limits (fun tree => hwithin source tree rfl) hs ⟨hown, by decide⟩
  | run lines => exact runSource_keeps limits (fun tree => hwithin _ tree rfl) hs
  | file bytes =>
    rw [Step.perform_file]
    cases htext : fileText bytes with
    | error f => exact Discipline.Keeps.fail f hs
    | ok source => exact runSource_keeps limits (fun tree => hwithin source tree htext) hs

end

/-! ## Histories -/

/-- The store of a session after steps, each with its limits. -/
def reached (forms : Forms) (history : List (Limits × Step)) : Store :=
  history.foldl (fun s p => (p.2.perform forms p.1 s).2) start

theorem orderly_start (forms : Forms) (allowed : Form → Prop) : Orderly forms allowed start := by
  refine ⟨Store.sound_start, ?_⟩
  intro f x v hv
  rcases f with _ | _ | f
  · rcases globalBindings_cases hv with ⟨b, rfl⟩ | ⟨b, rfl⟩
    · exact Value.within_of_plain trivial
    · exact Value.within_builtin b
  · cases hv
  · cases hv

/-- What one step keeps, a history keeps. -/
theorem foldl_keeps {forms : Forms} {allowed : Form → Prop} (history : List (Limits × Step)) :
    ∀ s, (∀ p ∈ history, p.2.Within forms allowed p.1) → Orderly forms allowed s →
      ownFrame < s.frames.size →
      Onward allowed s (history.foldl (fun s p => (p.2.perform forms p.1 s).2) s) ∧
      Orderly forms allowed (history.foldl (fun s p => (p.2.perform forms p.1 s).2) s) := by
  induction history with
  | nil =>
    intro s _ hs _
    exact ⟨.refl s, hs⟩
  | cons p history ih =>
    intro s hwithin hs hown
    obtain ⟨hleads, hstands, _⟩ := perform_keeps p.1 (hwithin p List.mem_cons_self) hs hown
    have hrest : ∀ q ∈ history, q.2.Within forms allowed q.1 :=
      fun q hq => hwithin q (List.mem_cons_of_mem p hq)
    have hown' := Nat.lt_of_lt_of_le hown hleads.grows.frames
    obtain ⟨honward, horderly⟩ := ih _ hrest hstands hown'
    exact ⟨hleads.trans honward, horderly⟩

theorem reached_keeps {forms : Forms} {allowed : Form → Prop} {history : List (Limits × Step)}
    (hwithin : ∀ p ∈ history, p.2.Within forms allowed p.1) :
    Onward allowed start (reached forms history) ∧ Orderly forms allowed (reached forms history) :=
  foldl_keeps history start hwithin (orderly_start forms allowed) (by decide)

/-- With every form allowed, every program is within the forms. -/
theorem step_within_all (forms : Forms) (limits : Limits) (step : Step) :
    step.Within forms (fun _ => True) limits := by
  intro source tree _ _ op args f _ _
  trivial

section
variable (forms : Forms) (history : List (Limits × Step))

theorem reached_onward : Onward (fun _ => True) start (reached forms history) :=
  (reached_keeps fun p _ => step_within_all forms p.1 p.2).1

theorem reached_orderly : Orderly forms (fun _ => True) (reached forms history) :=
  (reached_keeps fun p _ => step_within_all forms p.1 p.2).2

theorem ownFrame_lt_reached : ownFrame < (reached forms history).frames.size :=
  Nat.lt_of_lt_of_le (by decide : ownFrame < start.frames.size)
    (reached_onward forms history).grows.frames

end

/-! ## The two invariants -/

/-- Whatever a session does, its store is sound, walks outward end at the
global frame, and results are sound. -/
theorem reached_sound (forms : Forms) (history : List (Limits × Step)) :
    (reached forms history).Sound ∧
    (∀ e, e < (reached forms history).frames.size →
      (reached forms history).Outward e ((reached forms history).chain e) ∧
      ((reached forms history).chain e).Pairwise (· > ·)) ∧
    ∀ limits (step : Step) v t,
      step.perform forms limits (reached forms history) = (.ok v, t) → v.Sound t := by
  have horderly := reached_orderly forms history
  have hsound := horderly.sound
  refine ⟨hsound, ?_, ?_⟩
  · intro e he
    have hwalk := hsound.outward_chain he
    exact ⟨hwalk, hsound.outward_falls hwalk⟩
  · intro limits step v t hstep
    have hown := ownFrame_lt_reached forms history
    have hkeeps := perform_keeps limits (step_within_all forms limits step) horderly hown
    rw [hstep] at hkeeps
    exact (hkeeps.returns v rfl).1

/-- No session changes the names of the global frame, and one without
assignment does not change their values. -/
theorem global_names_fixed (forms : Forms) (history : List (Limits × Step)) :
    ((reached forms history).bindings globalFrame).names =
      ["true", "false", "+", "-", "*", "/", "==", "<", ">", "array", "length", "element", "print"] ∧
    ((∀ p ∈ history, p.2.Within forms (· ≠ .assign) p.1) →
      (reached forms history).bindings globalFrame = globalBindings 0) := by
  constructor
  · exact (reached_onward forms history).names
  · intro hwithin
    exact (reached_keeps hwithin).1.kept fun h => h rfl

/-- A session may assign to a global name. -/
example : ((reached Forms.core [(⟨9, 9⟩, .eval "set(true, 1)")]).bindings globalFrame).get? "true" =
    some (.number (.int 1)) := by
  with_unfolding_all rfl

/-! ## Frames out of reach -/

/-- The frame that a step begins at: the session's own, or the global one, inside
which its program gets a new frame. -/
def Step.base : Step → FrameId
  | .eval _ => ownFrame
  | _ => globalFrame

section
variable {forms : Forms} {allowed : Form → Prop} {s : Store} {e f : FrameId}

theorem frames_evaluateIn (limits : Limits) (source : String) (hs : s.WellFormed)
    (he : e < s.frames.size) (hf : f < s.frames.size) (hr : ¬ s.Reachable e f) :
    ((evaluateIn forms limits source e : Run Value) s).2.frames[f]? = s.frames[f]? := by
  unfold evaluateIn
  cases Expr.read limits.depth source with
  | error fault => rfl
  | ok tree => exact hs.frames_evaluate he forms limits.turns limits.depth tree hf hr

theorem frames_runSource (limits : Limits) (source : String) (hs : Orderly forms allowed s)
    (hf : f < s.frames.size) (hr : ¬ s.Reachable globalFrame f) :
    ((runSource forms limits source : Run Value) s).2.frames[f]? = s.frames[f]? := by
  have hpush : Orderly forms allowed (s.push (some globalFrame) []).2 :=
    hs.push hs.sound.global_lt List.nodup_nil nofun
  have hnew : s.frames.size < (s.push (some globalFrame) []).2.frames.size :=
    (hs.site_push (some globalFrame)).1
  have hout : ¬ (s.push (some globalFrame) []).2.Reachable s.frames.size f := by
    intro hreach
    rcases Store.reachable_push hreach with rfl | hreach
    · exact Nat.lt_irrefl _ hf
    · exact hr hreach
  calc ((runSource forms limits source : Run Value) s).2.frames[f]?
    _ = (s.push (some globalFrame) []).2.frames[f]? :=
      frames_evaluateIn limits source hpush.sound.wellFormed hnew (Nat.lt_trans hf hnew) hout
    _ = s.frames[f]? := Store.frames_push_of_lt _ _ hf

end

/-- Whatever a session has done, its next step leaves the frames that cannot be
reached from where it begins. -/
theorem reached_frames_kept (forms : Forms) (history : List (Limits × Step)) (limits : Limits)
    (step : Step) {f : FrameId} (hf : f < (reached forms history).frames.size)
    (hr : ¬ (reached forms history).Reachable step.base f) :
    (step.perform forms limits (reached forms history)).2.frames[f]? =
      (reached forms history).frames[f]? := by
  have horderly := reached_orderly forms history
  cases step with
  | eval source =>
    have hown := ownFrame_lt_reached forms history
    exact frames_evaluateIn limits source horderly.sound.wellFormed hown hf hr
  | run lines => exact frames_runSource limits _ horderly hf hr
  | file bytes =>
    rw [Step.perform_file]
    cases fileText bytes with
    | error fault => rfl
    | ok source => exact frames_runSource limits source horderly hf hr

end Session

end EggLang
