/-
# `EggLang.Proofs.CommandLine.Arguments` — files among options

A user gives options, each with its value as the next argument, and files.  All
files stand together, before the options, behind them or between any two:

    -e a  -q  x.egg y.egg  -e b       files x.egg, y.egg    code a, b

Arguments are taken in one pass, and the block of files is taken where it
stands.  What the command is asked for does not show where that was
(`ofArgs_arrange`): the files are those of the block, the code and the log level
come from the options in their order, and one `-q` is as good as several.

No file, code or level here begins with a hyphen; an argument that does may be
taken for an option.
-/
import EggLang.CommandLine.Options

namespace EggLang.CommandLine

def Unhyphened (text : String) : Prop := text.toList.head? ≠ some '-'

instance (text : String) : Decidable (Unhyphened text) :=
  inferInstanceAs (Decidable (_ ≠ _))

/-- An option as a user gives it. -/
inductive Choice where
  | eval (code : String)
  | quiet
  | logLevel (name : String)

namespace Choice

def args : Choice → List String
  | .eval code => ["-e", code]
  | .quiet => ["-q"]
  | .logLevel name => ["--log-level", name]

def value? : Choice → Option String
  | .eval code => some code
  | .quiet => none
  | .logLevel name => some name

def code? : Choice → Option String
  | .eval code => some code
  | _ => none

def level? : Choice → Option String
  | .logLevel name => some name
  | _ => none

def isQuiet : Choice → Bool
  | .quiet => true
  | _ => false

end Choice

/-- What files and options ask for. -/
def Options.ofChoices (files : List String) (choices : List Choice) : Options where
  files := files
  code := (choices.filterMap Choice.code?).map some
  quiet := choices.any Choice.isQuiet
  logLevel := (choices.filterMap Choice.level?).getLast?

/-- Options, files, and further options. -/
def arrange (before : List Choice) (files : List String) (after : List Choice) : List String :=
  before.flatMap Choice.args ++ files ++ after.flatMap Choice.args

/-! ## Sorting -/

def Choice.sorted : Choice → List Arg
  | .eval code => [.option .eval true none, .plain code.toList]
  | .quiet => [.option .quiet true none]
  | .logLevel name => [.option .logLevel false none, .plain name.toList]

def plains (texts : List String) : List Arg := texts.map fun text => .plain text.toList

theorem sortArgs_cons {cs : List Char} {rest : List (List Char)} {arg : Arg} {args : List Arg}
    (hcs : cs ≠ ['-', '-']) (harg : sortArg cs = .ok arg) (hrest : sortArgs rest = .ok args) :
    sortArgs (cs :: rest) = .ok (arg :: args) := by
  rw [sortArgs, if_neg hcs, harg, hrest]
  rfl

theorem sortArg_unhyphened {text : String} (h : Unhyphened text) :
    sortArg text.toList = .ok (.plain text.toList) := by
  unfold Unhyphened at h
  unfold sortArg
  split
  · next heq => simp [heq] at h
  · next heq => simp [heq] at h
  · rfl

theorem Unhyphened.ne_dashes {text : String} (h : Unhyphened text) : text.toList ≠ ['-', '-'] := by
  intro heq
  rw [Unhyphened, heq] at h
  exact h rfl

theorem sortArgs_plains {texts : List String} {rest : List (List Char)} {args : List Arg}
    (htexts : ∀ text ∈ texts, Unhyphened text) (hrest : sortArgs rest = .ok args) :
    sortArgs (texts.map String.toList ++ rest) = .ok (plains texts ++ args) := by
  induction texts with
  | nil => exact hrest
  | cons text texts ih =>
    obtain ⟨htext, htexts⟩ := List.forall_mem_cons.mp htexts
    exact sortArgs_cons htext.ne_dashes (sortArg_unhyphened htext) (ih htexts)

theorem sortArgs_choice {c : Choice} {rest : List (List Char)} {args : List Arg}
    (hc : ∀ text, c.value? = some text → Unhyphened text) (hrest : sortArgs rest = .ok args) :
    sortArgs (c.args.map String.toList ++ rest) = .ok (c.sorted ++ args) := by
  cases c with
  | eval code =>
    have hcode := hc code rfl
    refine sortArgs_cons (by decide) rfl ?_
    exact sortArgs_cons hcode.ne_dashes (sortArg_unhyphened hcode) hrest
  | quiet => exact sortArgs_cons (by decide) rfl hrest
  | logLevel name =>
    have hname := hc name rfl
    refine sortArgs_cons (by decide) rfl ?_
    exact sortArgs_cons hname.ne_dashes (sortArg_unhyphened hname) hrest

theorem sortArgs_choices {choices : List Choice} {rest : List (List Char)} {args : List Arg}
    (hchoices : ∀ c ∈ choices, ∀ text, c.value? = some text → Unhyphened text)
    (hrest : sortArgs rest = .ok args) :
    sortArgs ((choices.flatMap Choice.args).map String.toList ++ rest) =
      .ok (choices.flatMap Choice.sorted ++ args) := by
  induction choices with
  | nil => exact hrest
  | cons c choices ih =>
    obtain ⟨hc, hchoices⟩ := List.forall_mem_cons.mp hchoices
    simp only [List.flatMap_cons, List.map_append, List.append_assoc]
    exact sortArgs_choice hc (ih hchoices)

/-! ## Taking -/

/-- What has been taken when the files and options given have been. -/
def Taken.ofChoices (placed : Bool) (files : List String) (choices : List Choice) : Taken :=
  ⟨Options.ofChoices files choices, placed, []⟩

theorem takeArgs_value {flag : Flag} {t u : Taken} {value : List Char} (short : Bool)
    (rest : List Arg) (hflag : flag.takesValue = true)
    (h : takeFlag t (flag, some value) = .ok u) :
    takeArgs t (.option flag short none :: .plain value :: rest) = takeArgs u rest := by
  have hflags : takeFlags t ([] ++ [(flag, some value)]) = .ok u := by
    rw [List.nil_append, takeFlags, h]
    rfl
  rw [takeArgs, group, bareGroup, if_pos hflag]
  show (takeFlags t ([] ++ [(flag, some value)]) >>= fun u => takeArgs u rest) = _
  rw [hflags]
  rfl

theorem takeArgs_bare {flag : Flag} {t u : Taken} (short : Bool) (rest : List Arg)
    (hflag : flag.takesValue = false) (h : takeFlag t (flag, none) = .ok u) :
    takeArgs t (.option flag short none :: rest) = takeArgs u rest := by
  have hflags : takeFlags t [(flag, none)] = .ok u := by
    rw [takeFlags, h]
    rfl
  rw [takeArgs, group, bareGroup, if_neg (Bool.eq_false_iff.mp hflag)]
  show (takeFlags t [(flag, none)] >>= fun u => takeArgs u rest) = _
  rw [hflags]
  rfl

theorem valueText?_unhyphened {text : String} (h : Unhyphened text) :
    valueText? text.toList = some text := by
  rw [valueText?, if_neg h.ne_dashes, String.ofList_toList]

/-- An option takes its own value and leaves what follows, files or not. -/
theorem takeArgs_choice {c : Choice} (hc : ∀ text, c.value? = some text → Unhyphened text)
    (placed : Bool) (files : List String) (done : List Choice) (rest : List Arg) :
    takeArgs (.ofChoices placed files done) (c.sorted ++ rest) =
      takeArgs (.ofChoices placed files (done ++ [c])) rest := by
  cases c with
  | eval code =>
    have hcode := valueText?_unhyphened (hc code rfl)
    refine takeArgs_value true rest rfl ?_
    simp [takeFlag, hcode, Taken.ofChoices, Options.ofChoices, Choice.code?, Choice.isQuiet,
      Choice.level?]
  | quiet =>
    refine takeArgs_bare true rest rfl ?_
    simp [takeFlag, Taken.ofChoices, Options.ofChoices, Choice.code?, Choice.isQuiet,
      Choice.level?]
  | logLevel name =>
    have hname := valueText?_unhyphened (hc name rfl)
    refine takeArgs_value false rest rfl ?_
    simp [takeFlag, hname, Taken.ofChoices, Options.ofChoices, Choice.code?, Choice.isQuiet,
      Choice.level?]

theorem takeArgs_choices {choices : List Choice}
    (hchoices : ∀ c ∈ choices, ∀ text, c.value? = some text → Unhyphened text)
    (placed : Bool) (files : List String) (done : List Choice) (rest : List Arg) :
    takeArgs (.ofChoices placed files done) (choices.flatMap Choice.sorted ++ rest) =
      takeArgs (.ofChoices placed files (done ++ choices)) rest := by
  induction choices generalizing done with
  | nil => rw [List.flatMap_nil, List.nil_append, List.append_nil]
  | cons c choices ih =>
    obtain ⟨hc, hchoices⟩ := List.forall_mem_cons.mp hchoices
    rw [List.flatMap_cons, List.append_assoc, takeArgs_choice hc, ih hchoices, List.append_assoc]
    rfl

theorem takeFiles_plains {files : List String} (hfiles : ∀ f ∈ files, Unhyphened f)
    (done : List Choice) :
    takeFiles (.ofChoices false [] done) (plains files) = .ofChoices true files done := by
  have htexts : (plains files).map Arg.text = files.map String.toList := by
    rw [plains, List.map_map]
    rfl
  have hnone : ['-', '-'] ∉ files.map String.toList := by
    intro h
    obtain ⟨f, hf, heq⟩ := List.mem_map.mp h
    exact (hfiles f hf).ne_dashes heq
  have hback : (files.map String.toList).map String.ofList = files := by
    rw [List.map_map]
    exact List.map_id'' (fun f => String.ofList_toList) files
  rw [takeFiles, htexts, List.erase_of_not_mem hnone, hback]
  rfl

theorem isFile_plains (files : List String) : ∀ arg ∈ plains files, arg.isFile = true := by
  intro arg harg
  obtain ⟨f, _, rfl⟩ := List.mem_map.mp harg
  rfl

/-- No file stands behind the block of files. -/
theorem takeWhile_sorted (choices : List Choice) :
    (choices.flatMap Choice.sorted).takeWhile Arg.isFile = [] ∧
      (choices.flatMap Choice.sorted).dropWhile Arg.isFile = choices.flatMap Choice.sorted := by
  cases choices with
  | nil => exact ⟨rfl, rfl⟩
  | cons c choices => cases c <;> exact ⟨rfl, rfl⟩

/-- The block of files is taken at once. -/
theorem takeArgs_files {files : List String} (hfiles : ∀ f ∈ files, Unhyphened f)
    (done after : List Choice) :
    ∃ placed, takeArgs (.ofChoices false [] done)
        (plains files ++ after.flatMap Choice.sorted) =
      takeArgs (.ofChoices placed files done) (after.flatMap Choice.sorted) := by
  cases files with
  | nil =>
    -- no block, so that no files have been placed at the end
    exact ⟨false, rfl⟩
  | cons f files =>
    refine ⟨true, ?_⟩
    obtain ⟨htake, hdrop⟩ := takeWhile_sorted after
    have hfile := isFile_plains files
    rw [← takeFiles_plains hfiles]
    show takeArgs _ (.plain f.toList :: (plains files ++ _)) = _
    rw [takeArgs]
    · rw [List.takeWhile_append_of_pos hfile, List.dropWhile_append_of_pos hfile, htake, hdrop,
        List.append_nil]
      rfl
    · intro cs h
      cases h
    · intro flag short attached h
      cases h

/-- What the arguments ask for, wherever the files stand among the options. -/
theorem ofArgs_arrange {before after : List Choice} {files : List String}
    (hfiles : ∀ f ∈ files, Unhyphened f)
    (hchoices : ∀ c ∈ before ++ after, ∀ text, c.value? = some text → Unhyphened text) :
    Options.ofArgs (arrange before files after) = .ok (.ofChoices files (before ++ after)) := by
  obtain ⟨hbefore, hafter⟩ := List.forall_mem_append.mp hchoices
  have hsort : sortArgs ((arrange before files after).map String.toList) =
      .ok (before.flatMap Choice.sorted ++ (plains files ++ after.flatMap Choice.sorted)) := by
    have hlast := @sortArgs_choices after [] [] hafter rfl
    rw [List.append_nil, List.append_nil] at hlast
    simpa [arrange] using sortArgs_choices hbefore (sortArgs_plains hfiles hlast)
  obtain ⟨placed, htake⟩ := takeArgs_files hfiles before after
  have hall : takeArgs .none (before.flatMap Choice.sorted ++
      (plains files ++ after.flatMap Choice.sorted)) =
      .ok (.ofChoices placed files (before ++ after)) := by
    have hdone := takeArgs_choices hafter placed files before []
    rw [List.append_nil] at hdone
    calc takeArgs .none _
      _ = takeArgs (.ofChoices false [] before) (plains files ++ after.flatMap Choice.sorted) :=
        takeArgs_choices hbefore false [] [] _
      _ = takeArgs (.ofChoices placed files (before ++ after)) [] := htake.trans hdone
      _ = .ok (.ofChoices placed files (before ++ after)) := by rw [takeArgs]
  unfold Options.ofArgs
  rw [hsort]
  show (takeArgs .none _ >>= _) = _
  rw [hall]
  rfl

end EggLang.CommandLine
