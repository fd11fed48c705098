/-
# `EggLang.Proofs.CommandLine.Search` — looking for all files first

A command looks for each of its files, in order, before it runs the first.  For a
name it asks whether there is something at its paths (`candidates`), one after the
other, and stops at the first answer that is yes.  A question may have no answer.
It is then put at one of these:

    Unanswered    a path of a name, with nothing at the paths before it
    Unlocated     a name of a list, with all names before it answered

What comes after such a question is not asked.  So a path that cannot be asked for
is of no matter behind one at which there is something, and a command whose names
are all answered has the jobs that it would have if every question had an answer.
-/
import EggLang.CommandLine.Command

namespace EggLang

variable {ε : Type}

/-! ## One name -/

/-- The paths that a name is looked for at. -/
def candidates (roots : List Path) (name : String) : List Path :=
  if (Path.ofString name).isAbsolute then [Path.ofString name]
  else Path.ofString name :: roots.map fun root => root.join (Path.ofString name)

/-- Asking along paths comes to one that there is no answer for. -/
inductive Unanswered (isThere : Path → Except ε Bool) : List Path → ε → Prop
  | here {p : Path} {ps : List Path} {e : ε} : isThere p = .error e →
      Unanswered isThere (p :: ps) e
  | later {p : Path} {ps : List Path} {e : ε} : isThere p = .ok false →
      Unanswered isThere ps e → Unanswered isThere (p :: ps) e

def affirms (isThere : Path → Except ε Bool) (p : Path) : Bool := (isThere p).toOption.getD false

section
variable {isThere : Path → Except ε Bool} {p : Path} {ps : List Path} {e : ε}

theorem not_unanswered_of_yes (h : isThere p = .ok true) : ¬ Unanswered isThere (p :: ps) e := by
  intro hun
  cases hun with
  | here he => cases h.symm.trans he
  | later hno _ => cases h.symm.trans hno

theorem unanswered_cons_of_no (h : isThere p = .ok false) :
    Unanswered isThere (p :: ps) e ↔ Unanswered isThere ps e := by
  constructor
  · intro hun
    cases hun with
    | here he => cases h.symm.trans he
    | later _ hrest => exact hrest
  · exact .later h

/-- A search ends at a question without an answer, or it is one through a list. -/
theorem findM?_cases (isThere : Path → Except ε Bool) (ps : List Path) :
    (∃ e, Unanswered isThere ps e ∧ ps.findM? isThere = .error e) ∨
      ((∀ e, ¬ Unanswered isThere ps e) ∧
        ps.findM? isThere = .ok (ps.find? (affirms isThere))) := by
  induction ps with
  | nil => exact Or.inr ⟨nofun, rfl⟩
  | cons p ps ih =>
    rw [List.findM?, List.find?]
    cases hp : isThere p with
    | error e => exact Or.inl ⟨e, .here hp, rfl⟩
    | ok yes =>
      have hanswer : affirms isThere p = yes := by rw [affirms, hp]; rfl
      rw [hanswer]
      cases yes with
      | true => exact Or.inr ⟨fun e => not_unanswered_of_yes hp, rfl⟩
      | false =>
        simp only [unanswered_cons_of_no hp]
        exact ih

end

/-- Looking for a name is one search along its paths. -/
theorem locateProgram_eq_findM? {m : Type → Type} [Monad m] [LawfulMonad m]
    (isThere : Path → m Bool) (roots : List Path) (name : String) :
    locateProgram isThere roots name = do
      let found ← (candidates roots name).findM? isThere
      return found.getD (Path.ofString name) := by
  unfold locateProgram candidates
  cases habsolute : (Path.ofString name).isAbsolute with
  | true =>
    simp only [if_true, habsolute, List.findM?, bind_assoc, Bool.or_true]
    refine bind_congr fun yes => ?_
    cases yes <;> simp only [pure_bind, Option.getD]
  | false =>
    simp only [Bool.false_eq_true, if_false, habsolute, List.findM?, bind_assoc, Bool.or_false]
    refine bind_congr fun yes => ?_
    cases yes <;> simp only [pure_bind, Bool.false_eq_true, if_true, if_false, Option.getD]

/-- A name is not answered, or it is located where it is if nothing goes unanswered. -/
theorem locateProgram_cases (isThere : Path → Except ε Bool) (roots : List Path) (name : String) :
    (∃ e, Unanswered isThere (candidates roots name) e ∧
      locateProgram isThere roots name = .error e) ∨
      ((∀ e, ¬ Unanswered isThere (candidates roots name) e) ∧
        locateProgram isThere roots name =
          .ok (resolveProgram (affirms isThere) roots name)) := by
  have hresolve : resolveProgram (affirms isThere) roots name =
      ((candidates roots name).find? (affirms isThere)).getD (Path.ofString name) := by
    unfold resolveProgram
    rw [locateProgram_eq_findM?, List.findM?_pure]
    rfl
  rw [locateProgram_eq_findM?, hresolve]
  obtain ⟨e, hun, hfind⟩ | ⟨hall, hfind⟩ := findM?_cases isThere (candidates roots name)
  · rw [hfind]
    exact Or.inl ⟨e, hun, rfl⟩
  · rw [hfind]
    exact Or.inr ⟨hall, rfl⟩

/-! ## All names -/

/-- Looking for names, in order, comes to one that is not answered. -/
inductive Unlocated (isThere : Path → Except ε Bool) (roots : List Path) : List String → ε → Prop
  | here {name : String} {names : List String} {e : ε} :
      Unanswered isThere (candidates roots name) e → Unlocated isThere roots (name :: names) e
  | later {name : String} {names : List String} {e : ε} :
      (∀ e', ¬ Unanswered isThere (candidates roots name) e') → Unlocated isThere roots names e →
      Unlocated isThere roots (name :: names) e

theorem mapM_locateProgram_cases (isThere : Path → Except ε Bool) (roots : List Path)
    (names : List String) :
    (∃ e, Unlocated isThere roots names e ∧
      names.mapM (locateProgram isThere roots) = .error e) ∨
      ((∀ e, ¬ Unlocated isThere roots names e) ∧ names.mapM (locateProgram isThere roots) =
        .ok (names.map (resolveProgram (affirms isThere) roots))) := by
  induction names with
  | nil => exact Or.inr ⟨nofun, rfl⟩
  | cons name names ih =>
    rw [List.mapM_cons]
    obtain ⟨e, hun, hname⟩ | ⟨hall, hname⟩ := locateProgram_cases isThere roots name
    · rw [hname]
      exact Or.inl ⟨e, .here hun, rfl⟩
    · rw [hname]
      obtain ⟨e, hun, hnames⟩ | ⟨hrest, hnames⟩ := ih
      · rw [hnames]
        exact Or.inl ⟨e, .later hall hun, rfl⟩
      · rw [hnames]
        refine Or.inr ⟨?_, rfl⟩
        intro e hun
        cases hun with
        | here hname => exact hall e hname
        | later _ hnames => exact hrest e hnames

namespace CommandLine

/-! ## Jobs -/

theorem affirms_isThere (look : Path → Found) :
    affirms (isThere look) = fun p => (look p).isSome := by
  funext p
  unfold affirms isThere
  cases look p <;> rfl

/-- The jobs of a command whose files have all been looked for. -/
def locatedJobs (look : Path → Found) (roots : List Path) (o : Options) : List Job :=
  (o.files.map fun f => .file (resolveProgram (fun p => (look p).isSome) roots f)) ++
    o.code.map .code

/-- A command has no jobs if the search for a file is not answered, and it has those
of its files and texts otherwise. -/
theorem jobs_cases (look : Path → Found) (roots : List Path) (o : Options) :
    (∃ e, Unlocated (isThere look) roots o.files e ∧ jobs look roots o = .error e) ∨
      ((∀ e, ¬ Unlocated (isThere look) roots o.files e) ∧
        jobs look roots o = .ok (locatedJobs look roots o)) := by
  unfold jobs locatedJobs
  obtain ⟨e, hun, hfiles⟩ | ⟨hall, hfiles⟩ := mapM_locateProgram_cases (isThere look) roots o.files
  · rw [hfiles]
    exact Or.inl ⟨e, hun, rfl⟩
  · rw [hfiles, affirms_isThere]
    refine Or.inr ⟨hall, ?_⟩
    show Except.ok _ = Except.ok _
    rw [List.map_map]
    rfl

end CommandLine

end EggLang
