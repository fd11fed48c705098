/-
# `EggLang.Proofs.CommandLine.Verbosity` — telling more changes nothing else

There are two ways to make the command tell more or less: the log level, and the
option against printing values.

* **The log level** lets lines of the log through or holds them back.  How the
  command ends, what it writes, the bound on nesting it asks for and the other
  texts on the error output do not depend on it (`Report.SameButLog`).

* **Values.**  Without `-q` a line with the display of its value stands behind
  the output of each completed job.  That is all (`Report.AddsValues`), as long as
  every value has a display.  Displaying is part of the job, so a value without a
  display, such as an integer with too many digits, makes a job fail that
  completes when it is quiet: the command stops there with status 1.

For the second the course of the quiet command is turned into that of the other
one, job by job: `Course.loud` where all values have displays, and `Course.cut`
up to the first that has none.
-/
import EggLang.Proofs.CommandLine.Course

namespace EggLang.CommandLine

/-! ## Levels -/

/-- The piece of error output is not a line of the log. -/
def Notice.isText : Notice → Bool
  | .log _ => false
  | .text _ => true

/-- Two reports differ at most in lines of the log. -/
structure Report.SameButLog (r r' : Report) : Prop where
  ending_eq : r'.ending = r.ending
  out_eq : r'.out = r.out
  texts_eq : r'.err.filter Notice.isText = r.err.filter Notice.isText
  bounds_eq : r'.bounds = r.bounds

theorem filter_isText_passes (level : Level) (notices : List Notice) :
    (notices.filter (Notice.passes level)).filter Notice.isText =
      notices.filter Notice.isText := by
  rw [List.filter_filter]
  congr 1
  funext n
  cases n <;> rfl

theorem Report.ofJobs_sameButLog (level level' : Level) (bounds : List Int)
    (reports : List JobReport) :
    (Report.ofJobs level bounds reports).SameButLog (.ofJobs level' bounds reports) where
  ending_eq := rfl
  out_eq := rfl
  texts_eq := by simp only [Report.ofJobs, filter_isText_passes]
  bounds_eq := rfl

theorem Report.SameButLog.refl (r : Report) : r.SameButLog r := ⟨.refl _, .refl _, .refl _, .refl _⟩

theorem follow_sameButLog (look : Path → Found) (limits : Limits) {settings : Settings}
    {o : Options} {setting name : Option String}
    (hlevel : (Level.ofName? (levelName settings o)).isSome)
    (hlevel' : (Level.ofName?
      (levelName { settings with logLevel := setting } { o with logLevel := name })).isSome) :
    (follow look limits settings o).SameButLog
      (follow look limits { settings with logLevel := setting } { o with logLevel := name }) := by
  obtain ⟨level, hlevel⟩ := Option.isSome_iff_exists.mp hlevel
  obtain ⟨level', hlevel'⟩ := Option.isSome_iff_exists.mp hlevel'
  have hbound : Settings.nestingBound { settings with logLevel := setting } =
      settings.nestingBound := rfl
  have hjobs : jobs look (Settings.roots { settings with logLevel := setting })
      { o with logLevel := name } = jobs look settings.roots o := rfl
  simp only [follow, hlevel, hlevel', hbound, hjobs]
  cases settings.nestingBound with
  | error message => exact .refl _
  | ok bound =>
    by_cases hidle : (o.files.isEmpty && o.code.isEmpty) = true
    · simp only [hidle, if_true]
      exact .refl _
    · simp only [hidle]
      cases jobs look settings.roots o with
      | error e => exact .refl _
      | ok todo => exact Report.ofJobs_sameButLog level level' bound.toList _

/-! ## Values -/

/-- The jobs that a command comes to: none if its level or its bound on nesting
cannot be followed, or if a file of it cannot be looked for. -/
def started (look : Path → Found) (settings : Settings) (o : Options) : List Job :=
  match Level.ofName? (levelName settings o), settings.nestingBound,
      jobs look settings.roots o with
  | some _, .ok _, .ok todo => todo
  | _, _, _ => []

/-- The reports of jobs that are run quietly and of the same jobs with values.
While values have displays, each of them stands on a line behind the output of
its job, and nothing else is different.  At the first that has none the jobs with
values stop with status 1, and have told the same up to there. -/
def Report.AddsValues (look : Path → Found) (limits : Limits) (todo : List Job)
    (quiet loud : Report) : Prop :=
  ∃ done failed t, Course look limits true todo Session.start done failed t ∧
    quiet.out = String.join (done.map Completed.printed) ++ printedBefore failed ∧
    loud.bounds = quiet.bounds ∧
    (∀ text : Completed → String,
      (∀ c ∈ done, c.value.display limits.depth false = .ok (text c)) →
      loud.ending = quiet.ending ∧ loud.err = quiet.err ∧
      loud.out = String.join (done.map fun c => c.printed ++ (text c ++ "\n")) ++
        printedBefore failed) ∧
    ∀ (text : Completed → String) before c after f, done = before ++ c :: after →
      (∀ b ∈ before, b.value.display limits.depth false = .ok (text b)) →
      c.value.display limits.depth false = .error f →
      loud.ending = .status 1 ∧
      loud.out = String.join (before.map fun b => b.printed ++ (text b ++ "\n")) ++ c.printed ∧
      ∃ told later, quiet.err = told ++ later ∧ loud.err = told ++ noticesOf c.job.name f

/-- A completed job with another text behind its output. -/
def Completed.withLine (text : Completed → String) (c : Completed) : Completed :=
  { c with text := text c ++ "\n" }

theorem closing_of_ok {limits : Limits} {v : Value} {text : String}
    (h : v.display limits.depth false = .ok text) :
    closing limits false v = .ok (text ++ "\n") := by
  unfold closing
  rw [h]
  rfl

theorem closing_of_error {limits : Limits} {v : Value} {f : Fault}
    (h : v.display limits.depth false = .error f) : closing limits false v = .error f := by
  unfold closing
  rw [h]
  rfl

section
variable {look : Path → Found} {limits : Limits} {job : Job} {s t : Store}

theorem Job.Completes.loud {c : Completed} {text : Completed → String}
    (h : job.Completes look limits true s c t)
    (htext : c.value.display limits.depth false = .ok (text c)) :
    job.Completes look limits false s (c.withLine text) t :=
  ⟨h.job_eq, h.returns, h.prints, closing_of_ok htext⟩

theorem Job.Completes.cut {c : Completed} {f : Fault} (h : job.Completes look limits true s c t)
    (hf : c.value.display limits.depth false = .error f) :
    job.Fails look limits false s ⟨c.job, c.lines, .fault f⟩ t := by
  obtain ⟨rfl, ⟨step, hstep, hperform⟩, hprints, -⟩ := h
  exact .unshown hstep hperform hprints (closing_of_error hf)

theorem Job.Fails.loud {e : Failed} (h : job.Fails look limits true s e t) :
    job.Fails look limits false s e t := by
  cases h with
  | unopened hstep => exact .unopened hstep
  | fault hstep hperform hprints => exact .fault hstep hperform hprints
  | unshown _ _ _ hcloses =>
    -- a quiet job closes with no text, whatever its value
    cases hcloses

variable {todo : List Job} {done : List Completed} {failed : Option Failed}

theorem Course.text_eq (h : Course look limits true todo s done failed t) :
    ∀ c ∈ done, c.text = "" := by
  induction h with
  | finished s => exact nofun
  | next hjob _ ih =>
    refine List.forall_mem_cons.mpr ⟨?_, ih⟩
    exact (Except.ok.inj hjob.closes).symm
  | stopped hjob => exact nofun

theorem Course.loud {text : Completed → String}
    (h : Course look limits true todo s done failed t)
    (htext : ∀ c ∈ done, c.value.display limits.depth false = .ok (text c)) :
    Course look limits false todo s (done.map (Completed.withLine text)) failed t := by
  induction h with
  | finished s => exact .finished s
  | next hjob _ ih =>
    obtain ⟨hc, hdone⟩ := List.forall_mem_cons.mp htext
    exact .next (hjob.loud hc) (ih hdone)
  | stopped hjob => exact .stopped hjob.loud

theorem Course.cut {text : Completed → String} {before after : List Completed} {c : Completed}
    {f : Fault} (h : Course look limits true todo s done failed t)
    (hdone : done = before ++ c :: after)
    (htext : ∀ b ∈ before, b.value.display limits.depth false = .ok (text b))
    (hf : c.value.display limits.depth false = .error f) :
    ∃ u, Course look limits false todo s (before.map (Completed.withLine text))
      (some ⟨c.job, c.lines, .fault f⟩) u := by
  induction h generalizing before with
  | finished s => simp at hdone
  | next hjob _ ih =>
    cases before with
    | nil =>
      -- the value without a display is this job's, and the rest is not begun
      cases hdone
      exact ⟨_, .stopped (hjob.cut hf)⟩
    | cons b before =>
      cases hdone
      obtain ⟨hb, htext⟩ := List.forall_mem_cons.mp htext
      obtain ⟨u, hrest⟩ := ih rfl htext
      exact ⟨u, .next (hjob.loud hb) hrest⟩
  | stopped hjob => simp at hdone

end

theorem out_withLine (text : Completed → String) (done : List Completed) :
    String.join ((done.map (Completed.withLine text)).map fun c => c.printed ++ c.text) =
      String.join (done.map fun c => c.printed ++ (text c ++ "\n")) := by
  rw [List.map_map]
  rfl

theorem courseNotices_withLine (look : Path → Found) (limits : Limits)
    (text : Completed → String) (done : List Completed) (failed : Option Failed) :
    courseNotices look limits (done.map (Completed.withLine text)) failed =
      courseNotices look limits done failed := by
  simp only [courseNotices, List.flatMap_map]
  rfl

theorem filter_noticesOf (level : Level) (name : String) (f : Fault) :
    (noticesOf name f).filter (Notice.passes level) = noticesOf name f := by
  unfold noticesOf
  split
  · rfl
  · split <;> rfl

theorem ending_of_documented {f : Fault} (h : f.family.Documented) :
    (Cause.fault f).ending = .status 1 := by
  simp only [Cause.ending]
  revert h
  generalize f.family = family
  intro h
  cases family with
  | syntactic | reference | type | range | depth => rfl
  | digits | encoding | unwritable | unfinished => exact h.elim

/-- Jobs that stop at a value without a display have told what they tell without
values, up to there. -/
theorem courseNotices_cut (look : Path → Found) (limits : Limits) (level : Level)
    (before after : List Completed) (c : Completed) (f : Fault) (failed : Option Failed) :
    ∃ told later,
      (courseNotices look limits (before ++ c :: after) failed).filter (Notice.passes level) =
        told ++ later ∧
      (courseNotices look limits before (some ⟨c.job, c.lines, .fault f⟩)).filter
        (Notice.passes level) = told ++ noticesOf c.job.name f := by
  let said : List Completed → List Notice := List.flatMap fun c => c.job.log look limits
  refine ⟨(said (before ++ [c])).filter (Notice.passes level),
    (courseNotices look limits after failed).filter (Notice.passes level), ?_, ?_⟩
  · rw [← List.filter_append]
    simp [courseNotices, said]
  · rw [← filter_noticesOf level, ← List.filter_append]
    simp [courseNotices, said, Failed.notices]

/-- Jobs that are run quietly, and the same jobs with values. -/
theorem ofJobs_addsValues (look : Path → Found) (limits : Limits) (level : Level)
    (bounds : List Int) (todo : List Job) :
    Report.AddsValues look limits todo
      (.ofJobs level bounds (runJobs look limits true todo Session.start))
      (.ofJobs level bounds (runJobs look limits false todo Session.start)) := by
  obtain ⟨done, failed, t, hcourse⟩ := course_exists look limits true todo Session.start
  have hprinted : (done.map fun c => c.printed ++ c.text) = done.map Completed.printed := by
    refine List.map_congr_left fun c hc => ?_
    rw [hcourse.text_eq c hc, String.append_empty]
  refine ⟨done, failed, t, hcourse, ?_, rfl, ?_, ?_⟩
  · rw [hcourse.report_eq, hprinted]
  · intro text htext
    rw [hcourse.report_eq, (hcourse.loud htext).report_eq, out_withLine, courseNotices_withLine]
    exact ⟨rfl, rfl, rfl⟩
  · intro text before c after f hdone htext hf
    obtain ⟨u, hcut⟩ := hcourse.cut hdone htext hf
    rw [hcourse.report_eq, hcut.report_eq, out_withLine, courseNotices_withLine, hdone]
    exact ⟨ending_of_documented (Value.display_fault hf), rfl, courseNotices_cut ..⟩

/-- A command that comes to no job does the same, quiet or not. -/
theorem addsValues_idle (look : Path → Found) (limits : Limits) {r : Report} (h : r.out = "") :
    Report.AddsValues look limits [] r r := by
  refine ⟨[], none, Session.start, .finished _, h, rfl, fun _ _ => ⟨rfl, rfl, h⟩, ?_⟩
  intro _ before c after _ hdone
  simp at hdone

theorem follow_addsValues (look : Path → Found) (limits : Limits) (settings : Settings)
    (o : Options) :
    Report.AddsValues look limits (started look settings o)
      (follow look limits settings { o with quiet := true })
      (follow look limits settings { o with quiet := false }) := by
  have hname : ∀ quiet, levelName settings { o with quiet := quiet } = levelName settings o :=
    fun _ => rfl
  have hjobs : ∀ quiet, jobs look settings.roots { o with quiet := quiet } =
      jobs look settings.roots o := fun _ => rfl
  simp only [follow, started, hname, hjobs]
  cases Level.ofName? (levelName settings o) with
  | none => exact addsValues_idle look limits rfl
  | some level =>
    cases settings.nestingBound with
    | error message => exact addsValues_idle look limits rfl
    | ok bound =>
      by_cases hidle : (o.files.isEmpty && o.code.isEmpty) = true
      · obtain ⟨hfiles, hcode⟩ : o.files = [] ∧ o.code = [] := by simpa using hidle
        have hnone : jobs look settings.roots o = .ok [] := by
          rw [jobs, hfiles, hcode]
          rfl
        simp only [hidle, hnone, if_true]
        exact addsValues_idle look limits rfl
      · simp only [hidle]
        cases jobs look settings.roots o with
        | error e => exact addsValues_idle look limits rfl
        | ok todo => exact ofJobs_addsValues look limits level bound.toList _

/-! ## The command -/

/-- Verbosity does not change what a command does.  Two valid log levels, from
the setting or the option, give reports that differ at most in lines of the log.
Without `-q` the values of completed jobs are written, each behind the output of
its job, and all else is as with `-q`, up to the first value without a display. -/
theorem verbosity_harmless (look : Path → Found) (limits : Limits) (settings : Settings)
    (o : Options) :
    (∀ setting name argv argv', Options.ofArgs argv = .ok o →
      Options.ofArgs argv' = .ok { o with logLevel := name } →
      (Level.ofName? (levelName settings o)).isSome →
      (Level.ofName?
        (levelName { settings with logLevel := setting } { o with logLevel := name })).isSome →
      (run look limits settings argv).SameButLog
        (run look limits { settings with logLevel := setting } argv')) ∧
    ∀ argv argv', Options.ofArgs argv = .ok { o with quiet := true } →
      Options.ofArgs argv' = .ok { o with quiet := false } →
      Report.AddsValues look limits (started look settings o)
        (run look limits settings argv) (run look limits settings argv') := by
  constructor
  · intro setting name argv argv' hargs hargs' hlevel hlevel'
    rw [run_of_options hargs, run_of_options hargs']
    exact follow_sameButLog look limits hlevel hlevel'
  · intro argv argv' hargs hargs'
    rw [run_of_options hargs, run_of_options hargs']
    exact follow_addsValues look limits settings o

/-- Ten squared thirteen times is a value of 8193 digits.  The command that is
not to print it completes. -/
theorem verbosity_harmless_large_value :
    let look : Path → Found := fun _ => .nothing
    let code := "do(define(n, 10), define(i, 0), while(<(i, 13), " ++
      "do(set(n, *(n, n)), set(i, +(i, 1)))), n)"
    let command := run look ⟨20, 20⟩ ⟨none, none, none⟩
    (command ["-e", code]).SameButLog (command ["--log-level", "debug", "-e", code]) ∧
    Report.AddsValues look ⟨20, 20⟩ [.code (some code)]
      (command ["-q", "-e", code]) (command ["-e", code]) ∧
    (command ["-q", "-e", code]).ending = .status 0 ∧
    (command ["-e", code]).ending = .status 1 := by
  intro look code command
  let o : Options := ⟨[], [some code], false, none⟩
  have hargs : Options.ofArgs ["-e", code] = .ok o :=
    @ofArgs_arrange [] [.eval code] [] nofun (by simp [Choice.value?, Unhyphened, code])
  have hdebug : Options.ofArgs ["--log-level", "debug", "-e", code] =
      .ok { o with logLevel := some "debug" } :=
    @ofArgs_arrange [] [.logLevel "debug", .eval code] [] nofun
      (by simp [Choice.value?, Unhyphened, code])
  have hquiet : Options.ofArgs ["-q", "-e", code] = .ok { o with quiet := true } :=
    @ofArgs_arrange [] [.quiet, .eval code] [] nofun (by simp [Choice.value?, Unhyphened, code])
  have hharmless := verbosity_harmless look ⟨20, 20⟩ ⟨none, none, none⟩ o
  have hlevel : Level.ofName? (levelName ⟨none, none, none⟩ o) = some .warning := by
    decide +kernel
  have hlevel' : (Level.ofName?
      (levelName ⟨none, none, none⟩ { o with logLevel := some "debug" })).isSome := by
    decide +kernel
  have hstarted : started look ⟨none, none, none⟩ o = [.code (some code)] := by
    simp only [started, hlevel]
    rfl
  refine ⟨?_, ?_, ?_, ?_⟩
  · exact hharmless.1 none (some "debug") _ _ hargs hdebug (hlevel ▸ rfl) hlevel'
  · rw [← hstarted]
    exact hharmless.2 _ _ hquiet hargs
  · show (run look ⟨20, 20⟩ ⟨none, none, none⟩ _).ending = _
    rw [run_of_options hquiet]
    decide +kernel
  · show (run look ⟨20, 20⟩ ⟨none, none, none⟩ _).ending = _
    rw [run_of_options hargs]
    decide +kernel

end EggLang.CommandLine
