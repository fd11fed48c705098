/-
# `EggLang.Proofs.CommandLine.Course` — jobs one after the other

The command makes a job of each file and of each program text, if all files
can be looked for, and every job that can be had is a step of one session.  A job
completes or fails:

    completes    its step returns a value, which has a display, if one is asked for
    unopened     there is no step: the file cannot be opened
    fault        the step faults
    unshown      the step returns, but there is no display of its value

A `Course` of jobs goes on from the store that a completed job has left, and
stops at the first job that fails; the jobs behind that one have no part in it.
Every list of jobs has a course (`course_exists`), and what the command reports
is read off from it (`Course.report_eq`): its output is that of the jobs, with
the displays of values between, and its status is that of the failure.

A file that cannot be read is a failure of its job.  A file that cannot be looked
for is none, as there is no job yet: the command ends without any, and does not
deal with it.
-/
import EggLang.CommandLine.Command
import EggLang.Proofs.CommandLine.Arguments
import EggLang.Proofs.CommandLine.Search
import EggLang.Proofs.Faults
import EggLang.Proofs.Growth

namespace EggLang

/-! ## Output of steps -/

/-- A step of a session prints lines behind those that are there. -/
theorem Session.perform_prints (forms : Forms) (limits : Limits) (step : Session.Step)
    (s : Store) :
    ∃ lines, (step.perform forms limits s).2.printed.toList = s.printed.toList ++ lines := by
  have hsource : ∀ source, ∃ lines,
      ((runSource forms limits source : Run Value) s).2.printed.toList =
        s.printed.toList ++ lines := by
    intro source
    have hgrowth := keeps_runSource forms limits growth source s
    rw [← erase_runSource]
    exact ⟨_, hgrowth.2⟩
  cases step with
  | eval source =>
    have hgrowth := keeps_evaluateIn forms limits growth source ownFrame s
    rw [Step.perform_eval, ← erase_evaluateIn]
    exact ⟨_, hgrowth.2⟩
  | run lines => exact hsource _
  | file bytes =>
    rw [Step.perform_file, Run.bind_apply]
    cases fileText bytes with
    | error f => exact ⟨[], (List.append_nil _).symm⟩
    | ok source => exact hsource source

namespace CommandLine

/-! ## Jobs -/

/-- The step of the session that a job is. -/
def Job.step (look : Path → Found) : Job → Except OpenFault Session.Step
  | .file path => (bytesOf (look path)).map .file
  | .code (some source) => .ok (.run [source])
  | .code none => .error .noText

/-- What is written behind a job's own output: the display of its value on a
line, unless `quiet`. -/
def closing (limits : Limits) (quiet : Bool) (v : Value) : Except Fault String :=
  if quiet then .ok "" else (v.display limits.depth false).map (· ++ "\n")

/-- What the log says of a job that is begun. -/
def Job.log (look : Path → Found) (limits : Limits) (job : Job) : List Notice :=
  job.openingLog ++
    match job.source look with
    | .ok (.ok source) => sourceLog limits.depth source
    | _ => []

def linesText (lines : List String) : String := String.join (lines.map (· ++ "\n"))

structure Completed where
  job : Job
  lines : List String
  value : Value
  text : String

inductive Cause where
  | unopened (f : OpenFault)
  | fault (f : Fault)

/-- How the command ends on a failure: it deals with those of the file system,
with faults of the language and with too deep nesting. -/
def Cause.ending : Cause → Ending
  | .unopened .badName => .escaped (.unopened .badName)
  | .unopened .noText => .escaped (.unopened .noText)
  | .unopened _ => .status 1
  | .fault f =>
      match f.family with
      | .syntactic => .status 1
      | .reference => .status 1
      | .type => .status 1
      | .range => .status 1
      | .depth => .status 1
      | _ => .escaped (.fault f)

structure Failed where
  job : Job
  lines : List String
  cause : Cause

def Failed.notices (look : Path → Found) (limits : Limits) (e : Failed) : List Notice :=
  match e.cause with
  | .unopened f =>
      if f.escapes then e.job.openingLog else e.job.openingLog ++ [unreadable e.job.name f]
  | .fault f => e.job.log look limits ++ noticesOf e.job.name f

section
variable (look : Path → Found) (limits : Limits) (quiet : Bool)

structure Job.Completes (job : Job) (s : Store) (c : Completed) (t : Store) : Prop where
  job_eq : c.job = job
  returns : ∃ step, job.step look = .ok step ∧ step.perform .core limits s = (.ok c.value, t)
  prints : t.printed.toList = s.printed.toList ++ c.lines
  closes : closing limits quiet c.value = .ok c.text

inductive Job.Fails (job : Job) (s : Store) : Failed → Store → Prop
  | unopened {f : OpenFault} : job.step look = .error f → Fails job s ⟨job, [], .unopened f⟩ s
  | fault {step : Session.Step} {f : Fault} {t : Store} {lines : List String} :
      job.step look = .ok step → step.perform .core limits s = (.error f, t) →
      t.printed.toList = s.printed.toList ++ lines → Fails job s ⟨job, lines, .fault f⟩ t
  | unshown {step : Session.Step} {v : Value} {f : Fault} {t : Store} {lines : List String} :
      job.step look = .ok step → step.perform .core limits s = (.ok v, t) →
      t.printed.toList = s.printed.toList ++ lines → closing limits quiet v = .error f →
      Fails job s ⟨job, lines, .fault f⟩ t

/-- Jobs complete up to the first that fails, if one does. -/
inductive Course : List Job → Store → List Completed → Option Failed → Store → Prop
  | finished (s : Store) : Course [] s [] none s
  | next {job : Job} {rest : List Job} {s t u : Store} {c : Completed} {done : List Completed}
      {failed : Option Failed} :
      job.Completes look limits quiet s c t → Course rest t done failed u →
      Course (job :: rest) s (c :: done) failed u
  | stopped {job : Job} {rest : List Job} {s t : Store} {e : Failed} :
      job.Fails look limits quiet s e t → Course (job :: rest) s [] (some e) t

end

/-! ### Every list of jobs has a course -/

section
variable (look : Path → Found) (limits : Limits) (quiet : Bool)

theorem completes_or_fails (job : Job) (s : Store) :
    (∃ c t, job.Completes look limits quiet s c t) ∨ ∃ e t, job.Fails look limits quiet s e t := by
  cases hstep : job.step look with
  | error f => exact Or.inr ⟨_, s, .unopened hstep⟩
  | ok step =>
    obtain ⟨lines, hlines⟩ := Session.perform_prints .core limits step s
    rcases hperform : step.perform .core limits s with ⟨f | v, t⟩
    · rw [hperform] at hlines
      exact Or.inr ⟨_, t, .fault hstep hperform hlines⟩
    · rw [hperform] at hlines
      cases hclosing : closing limits quiet v with
      | error f => exact Or.inr ⟨_, t, .unshown hstep hperform hlines hclosing⟩
      | ok text =>
        exact Or.inl ⟨⟨job, lines, v, text⟩, t, rfl, ⟨step, hstep, hperform⟩, hlines, hclosing⟩

theorem course_exists (todo : List Job) (s : Store) :
    ∃ done failed t, Course look limits quiet todo s done failed t := by
  induction todo generalizing s with
  | nil => exact ⟨[], none, s, .finished s⟩
  | cons job rest ih =>
    rcases completes_or_fails look limits quiet job s with ⟨c, t, hjob⟩ | ⟨e, t, hjob⟩
    · obtain ⟨done, failed, u, hrest⟩ := ih t
      exact ⟨c :: done, failed, u, .next hjob hrest⟩
    · exact ⟨[], some e, t, .stopped hjob⟩

end

/-! ## Reports -/

def Completed.printed (c : Completed) : String := linesText c.lines

def Failed.printed (e : Failed) : String := linesText e.lines

/-- What a failure has printed, if there is one. -/
def printedBefore : Option Failed → String
  | none => ""
  | some e => e.printed

/-- How the command ends with a failure, or without one. -/
def endingAfter : Option Failed → Ending
  | none => .status 0
  | some e => e.cause.ending

section
variable (look : Path → Found) (limits : Limits)

def Completed.report (c : Completed) : JobReport :=
  ⟨c.printed, c.job.log look limits, .value c.text⟩

def Failed.report (e : Failed) : JobReport :=
  ⟨e.printed, e.notices look limits, .failed e.cause.ending⟩

def courseNotices (done : List Completed) (failed : Option Failed) : List Notice :=
  (done.flatMap fun c => c.job.log look limits) ++
    failed.toList.flatMap (Failed.notices look limits)

end

theorem printedBy_eq {s t : Store} {lines : List String}
    (h : t.printed.toList = s.printed.toList ++ lines) : printedBy s t = linesText lines := by
  have hsize : t.printed.size - s.printed.size = lines.length := by
    rw [← Array.length_toList, h, List.length_append, Array.length_toList, Nat.add_sub_cancel_left]
  have hlines : (t.printed.extract s.printed.size).toList =
      Store.empty.printed.toList ++ lines := by
    simp [h, hsize, Store.empty]
  exact (Store.output_append hlines).trans String.empty_append

theorem endingOf_eq (f : Fault) : endingOf f = (Cause.fault f).ending := by
  cases f <;> rfl

theorem runSource_eq (limits : Limits) (quiet : Bool) (source : String) :
    runSource limits quiet source =
      (Session.runSource .core limits source >>= fun v =>
        Run.ofExcept (closing limits quiet v)) := by
  unfold runSource closing
  congr 1
  funext v s
  cases quiet with
  | true => rfl
  | false => cases hv : v.display limits.depth false <;> rfl

section
variable {look : Path → Found} {limits : Limits} {quiet : Bool}

theorem Job.source_of_step {job : Job} {step : Session.Step} (h : job.step look = .ok step) :
    ∃ text, job.source look = .ok text ∧ ∀ forms limits,
      step.perform forms limits = (Run.ofExcept text >>= Session.runSource forms limits) := by
  cases job with
  | file path =>
    simp only [Job.step, Job.source] at h ⊢
    cases hbytes : bytesOf (look path) with
    | error f =>
      rw [hbytes] at h
      cases h
    | ok bytes =>
      rw [hbytes] at h
      cases h
      exact ⟨_, rfl, fun _ _ => rfl⟩
  | code source =>
    cases source with
    | none => cases h
    | some source =>
      cases h
      refine ⟨.ok source, rfl, fun forms limits => ?_⟩
      rw [Session.Step.perform_run, String.intercalate_singleton]
      rfl

theorem Job.source_of_unopened {job : Job} {f : OpenFault} (h : job.step look = .error f) :
    job.source look = .error f := by
  cases job with
  | file path =>
    simp only [Job.step, Job.source] at h ⊢
    cases hbytes : bytesOf (look path) with
    | error g =>
      rw [hbytes] at h
      cases h
      rfl
    | ok bytes =>
      rw [hbytes] at h
      cases h
  | code source =>
    cases source with
    | none =>
      cases h
      rfl
    | some source => cases h

/-- A job that is a step does that step and then closes. -/
theorem runJob_step {job : Job} {step : Session.Step} (h : job.step look = .ok step) (s : Store) :
    runJob look limits quiet job s =
      let (r, t) := (step.perform .core limits >>= fun v =>
        Run.ofExcept (closing limits quiet v)) s
      (ranReport job (job.log look limits) (printedBy s t) r, t) := by
  obtain ⟨text, hsource, hperform⟩ := Job.source_of_step h
  unfold runJob Job.log
  rw [hsource, hperform]
  cases text with
  | error f =>
    -- a file without a text is opened, but nothing of it is read or run
    have hnothing : printedBy s s = "" := printedBy_eq (List.append_nil _).symm
    show (ranReport job job.openingLog "" (.error f), s) =
      (ranReport job (job.openingLog ++ []) (printedBy s s) (.error f), s)
    rw [hnothing, List.append_nil]
  | ok source =>
    simp only [runSource_eq]
    rfl

theorem Job.Completes.runJob_eq {job : Job} {s t : Store} {c : Completed}
    (h : job.Completes look limits quiet s c t) :
    runJob look limits quiet job s = (c.report look limits, t) := by
  obtain ⟨rfl, ⟨step, hstep, hperform⟩, hprints, hcloses⟩ := h
  rw [runJob_step hstep, Run.bind_apply_ok hperform, Run.ofExcept, hcloses]
  simp only [printedBy_eq hprints]
  rfl

theorem ranReport_error (job : Job) (s : Store) {t : Store} {lines : List String} (f : Fault)
    (h : t.printed.toList = s.printed.toList ++ lines) :
    ranReport job (job.log look limits) (printedBy s t) (.error f) =
      Failed.report look limits ⟨job, lines, .fault f⟩ := by
  rw [printedBy_eq h, ranReport, endingOf_eq]
  rfl

theorem Job.Fails.runJob_eq {job : Job} {s t : Store} {e : Failed}
    (h : job.Fails look limits quiet s e t) :
    runJob look limits quiet job s = (e.report look limits, t) := by
  cases h with
  | @unopened f hstep =>
    rw [runJob, Job.source_of_unopened hstep]
    cases f <;> rfl
  | fault hstep hperform hprints =>
    rw [runJob_step hstep, Run.bind_apply_error hperform]
    simp only [ranReport_error job s _ hprints]
  | unshown hstep hperform hprints hcloses =>
    rw [runJob_step hstep, Run.bind_apply_ok hperform, Run.ofExcept, hcloses]
    simp only [ranReport_error job s _ hprints]

/-- Running jobs follows their course. -/
theorem Course.runJobs_eq {todo : List Job} {s t : Store} {done : List Completed}
    {failed : Option Failed} (h : Course look limits quiet todo s done failed t) :
    runJobs look limits quiet todo s =
      done.map (Completed.report look limits) ++ failed.toList.map (Failed.report look limits) := by
  induction h with
  | finished s => rfl
  | next hjob _ ih =>
    rw [runJobs, hjob.runJob_eq]
    simp only [ih]
    rfl
  | stopped hjob =>
    rw [runJobs, hjob.runJob_eq]
    rfl

theorem lastEnding_reports (done : List Completed) (failed : Option Failed) :
    lastEnding (done.map (Completed.report look limits) ++
      failed.toList.map (Failed.report look limits)) = endingAfter failed := by
  induction done with
  | nil => cases failed <;> rfl
  | cons c done ih => exact ih

theorem out_reports (done : List Completed) (failed : Option Failed) :
    String.join ((done.map (Completed.report look limits) ++
      failed.toList.map (Failed.report look limits)).map JobReport.out) =
      String.join (done.map fun c => c.printed ++ c.text) ++ printedBefore failed := by
  induction done with
  | nil => cases failed <;> simp [printedBefore, JobReport.out, Failed.report]
  | cons c done ih =>
    have hout : (c.report look limits).out = c.printed ++ c.text := rfl
    simp only [List.map_cons, List.cons_append, String.join_cons, ih, hout, String.append_assoc]

/-- What is reported of jobs is read off from their course. -/
theorem Course.report_eq {todo : List Job} {s t : Store} {done : List Completed}
    {failed : Option Failed} (h : Course look limits quiet todo s done failed t) (level : Level)
    (bounds : List Int) :
    Report.ofJobs level bounds (runJobs look limits quiet todo s) =
      { ending := endingAfter failed
        out := String.join (done.map fun c => c.printed ++ c.text) ++ printedBefore failed
        err := (courseNotices look limits done failed).filter (Notice.passes level)
        bounds := bounds } := by
  rw [h.runJobs_eq, Report.ofJobs, lastEnding_reports, out_reports]
  simp only [List.flatMap_append, List.flatMap_map, courseNotices]
  rfl

end

/-! ## The command -/

section
variable {look : Path → Found} {settings : Settings} {o : Options} {level : Level}
variable {bound : Option Int} (limits : Limits)
variable (hlevel : Level.ofName? (levelName settings o) = some level)
variable (hbound : settings.nestingBound = .ok bound)
include hlevel hbound

theorem follow_idle (hfiles : o.files = []) (hcode : o.code = []) :
    follow look limits settings o = .idle bound.toList := by
  simp only [follow, hlevel, hbound, hfiles, hcode]
  rfl

theorem follow_busy (hbusy : o.files ≠ [] ∨ o.code ≠ []) :
    follow look limits settings o =
      match jobs look settings.roots o with
      | .error e => .unbegun bound.toList e
      | .ok todo =>
          .ofJobs level bound.toList (runJobs look limits o.quiet todo Session.start) := by
  have hsome : (o.files.isEmpty && o.code.isEmpty) = false := by
    simpa [or_iff_not_imp_left] using hbusy
  simp only [follow, hlevel, hbound, hsome]
  rfl

/-- A level and a bound on nesting that can be followed, and something to do: the
command reports the course of its jobs, if it can look for its files. -/
theorem follow_cases (hbusy : o.files ≠ [] ∨ o.code ≠ []) :
    (∃ e, Unlocated (isThere look) settings.roots o.files e ∧
      follow look limits settings o = .unbegun bound.toList e) ∨
      ((∀ e, ¬ Unlocated (isThere look) settings.roots o.files e) ∧
        follow look limits settings o = .ofJobs level bound.toList
          (runJobs look limits o.quiet (locatedJobs look settings.roots o) Session.start)) := by
  rw [follow_busy limits hlevel hbound hbusy]
  obtain ⟨e, hun, hjobs⟩ | ⟨hall, hjobs⟩ := jobs_cases look settings.roots o
  · rw [hjobs]
    exact Or.inl ⟨e, hun, rfl⟩
  · rw [hjobs]
    exact Or.inr ⟨hall, rfl⟩

end

theorem run_of_options {argv : List String} {o : Options} (h : Options.ofArgs argv = .ok o)
    (look : Path → Found) (limits : Limits) (settings : Settings) :
    run look limits settings argv = follow look limits settings o := by
  rw [run, h]

/-- The command runs its files in order and then its program texts in order, in
one session, wherever the files stand among its arguments.  It writes what each
job prints and, unless told not to, the display of its value; it stops at the
first job that fails, with the status of that failure, or with 0 if none does.
All files are looked for before that, and one for which this cannot be done ends
the command before the first job, with a fault that is passed on.  With nothing to
do, it does nothing and ends with status 2. -/
theorem run_arranged (look : Path → Found) (limits : Limits) {settings : Settings}
    {before after : List Choice} {files codes : List String} {level : Level} {bound : Option Int}
    (hfiles : ∀ f ∈ files, Unhyphened f)
    (hchoices : ∀ c ∈ before ++ after, ∀ text, c.value? = some text → Unhyphened text)
    (hcodes : (before ++ after).filterMap Choice.code? = codes)
    (hlevel : Level.ofName? (levelName settings (.ofChoices files (before ++ after))) = some level)
    (hbound : settings.nestingBound = .ok bound) :
    let report := run look limits settings (arrange before files after)
    (files = [] → codes = [] → report = .idle bound.toList) ∧
    (files ≠ [] ∨ codes ≠ [] →
      (∃ e, Unlocated (isThere look) settings.roots files e ∧
        report = .unbegun bound.toList e) ∨
      ((∀ e, ¬ Unlocated (isThere look) settings.roots files e) ∧
        ∃ done failed t,
          Course look limits ((before ++ after).any Choice.isQuiet)
            (files.map (fun f =>
                .file (resolveProgram (fun p => (look p).isSome) settings.roots f)) ++
              codes.map (fun c => .code (some c)))
            Session.start done failed t ∧
          report.out = String.join (done.map fun c => c.printed ++ c.text) ++
            printedBefore failed ∧
          report.ending = endingAfter failed ∧ report.bounds = bound.toList)) := by
  intro report
  have hreport : report = follow look limits settings (.ofChoices files (before ++ after)) :=
    run_of_options (ofArgs_arrange hfiles hchoices) look limits settings
  subst hcodes
  constructor
  · intro hnone hcode
    rw [hreport]
    refine follow_idle limits hlevel hbound hnone ?_
    rw [Options.ofChoices, hcode, List.map_nil]
  · intro hjobs
    have hbusy : (Options.ofChoices files (before ++ after)).files ≠ [] ∨
        (Options.ofChoices files (before ++ after)).code ≠ [] := by
      simpa [Options.ofChoices] using hjobs
    rcases follow_cases limits hlevel hbound hbusy with ⟨e, hun, hfollow⟩ | ⟨hall, hfollow⟩
    · exact Or.inl ⟨e, hun, hreport.trans hfollow⟩
    · obtain ⟨done, failed, t, hcourse⟩ := course_exists look limits
        ((before ++ after).any Choice.isQuiet)
        (locatedJobs look settings.roots (.ofChoices files (before ++ after))) Session.start
      have hcommand := (hreport.trans hfollow).trans (hcourse.report_eq level bound.toList)
      rw [locatedJobs, Options.ofChoices, List.map_map] at hcourse
      rw [hcommand]
      exact Or.inr ⟨hall, done, failed, t, hcourse, rfl, rfl, rfl⟩

/-- A file between two texts, which is run before both. -/
theorem run_arranged_file_between :
    let look : Path → Found := fun _ => .file [120]
    let report := run look ⟨9, 9⟩ ⟨none, none, none⟩ ["-e", "print(1)", "-q", "x.egg", "-e", "y"]
    ∃ done failed t,
      Course look ⟨9, 9⟩ true
        [.file (.ofString "x.egg"), .code (some "print(1)"), .code (some "y")]
        Session.start done failed t ∧
      report.out = String.join (done.map fun c => c.printed ++ c.text) ++ printedBefore failed ∧
      report.ending = endingAfter failed ∧ report.bounds = [] := by
  intro look report
  have hfiles : ∀ f ∈ ["x.egg"], Unhyphened f := by decide
  have hchoices : ∀ c ∈ [Choice.eval "print(1)", .quiet] ++ [.eval "y"],
      ∀ text, c.value? = some text → Unhyphened text := by
    simp [Choice.value?, Unhyphened]
  have hlevel : Level.ofName? (levelName ⟨none, none, none⟩
      (.ofChoices ["x.egg"] ([Choice.eval "print(1)", .quiet] ++ [.eval "y"]))) =
        some .warning := by
    decide +kernel
  have hcommand := run_arranged look ⟨9, 9⟩ hfiles hchoices rfl hlevel rfl
  obtain ⟨e, hun, -⟩ | ⟨-, hcourse⟩ := hcommand.2 (Or.inl (List.cons_ne_nil _ _))
  · -- there is something at every path
    cases hun with
    | here hname => exact absurd hname (not_unanswered_of_yes rfl)
    | later _ hnames => cases hnames
  · exact hcourse

/-- A file with the text `print(1)`, and a name of three hundred characters, which no
file can have.  Running the two jobs would write what the file prints and its value,
and end with status 1; but the name cannot be looked for, and so the file is not run. -/
theorem run_arranged_long_name :
    let folder : Folder := ⟨[(["ok.egg".toList], some [112, 114, 105, 110, 116, 40, 49, 41])]⟩
    let name := String.ofList (List.replicate 300 'a')
    run folder.look ⟨9, 9⟩ ⟨none, none, none⟩ ["ok.egg", name] =
      .unbegun [] (.unlocated .longName (.ofString name)) ∧
    ∀ done failed t,
      Course folder.look ⟨9, 9⟩ false [.file (.ofString "ok.egg"), .file (.ofString name)]
        Session.start done failed t →
      endingAfter failed = .status 1 ∧
        String.join (done.map fun c => c.printed ++ c.text) ++ printedBefore failed = "1\n1\n" := by
  intro folder name
  have hname : Unhyphened name := by
    show (String.ofList _).toList.head? ≠ _
    rw [String.toList_ofList]
    decide +kernel
  have hfiles : ∀ f ∈ ["ok.egg", name], Unhyphened f :=
    List.forall_mem_cons.mpr ⟨by decide, List.forall_mem_singleton.mpr hname⟩
  have hargs : Options.ofArgs ["ok.egg", name] = .ok (.ofChoices ["ok.egg", name] []) :=
    @ofArgs_arrange [] [] ["ok.egg", name] hfiles nofun
  have hlevel : Level.ofName? (levelName ⟨none, none, none⟩ (.ofChoices ["ok.egg", name] [])) =
      some .warning := by
    decide +kernel
  -- the name's characters are not read again from the string
  have hpath : Path.ofString name = ⟨0, [List.replicate 300 'a']⟩ := by
    show Path.ofChars (String.ofList _).toList = _
    rw [String.toList_ofList]
    decide +kernel
  clear_value name
  rw [hpath]
  constructor
  · have hok : isThere folder.look (Path.ofString "ok.egg") = .ok true := by decide +kernel
    have hlong : isThere folder.look ⟨0, [List.replicate 300 'a']⟩ =
        .error (.unlocated .longName ⟨0, [List.replicate 300 'a']⟩) := by
      decide +kernel
    have hjobs : jobs folder.look (Settings.roots ⟨none, none, none⟩)
        (.ofChoices ["ok.egg", name] []) =
          .error (.unlocated .longName ⟨0, [List.replicate 300 'a']⟩) := by
      unfold jobs locateProgram
      simp only [Options.ofChoices, List.mapM_cons, hpath, hok, hlong]
      rfl
    rw [run_of_options hargs, follow_busy _ hlevel rfl (Or.inl (List.cons_ne_nil _ _))]
    rw [hjobs]
    rfl
  · intro done failed t hcourse
    have hcommand := hcourse.report_eq .warning []
    exact ⟨(congrArg Report.ending hcommand).symm.trans (by decide +kernel),
      (congrArg Report.out hcommand).symm.trans (by decide +kernel)⟩

end CommandLine

end EggLang
