/-
# `EggLang.Proofs.CommandLine.Resolution` — where a program file is found

The name of a program file stands for a path, and the search path for folders in
which to look for it.  What the name comes to is said by three rules (`Resolves`):

    itself     the path is absolute, or there is something at it
    found      an entry of the search path leads to something, and none before it
    nowhere    no entry does; it is the path itself

An entry is what stands between two colons.  It names a folder if it is not blank,
and then the folder is the entry without the blanks around it (`Text.Padded`).

A path has one text and a text one path: no part of a path is empty, a point, or
has a slash in it, and of the slashes in front there are two at most (`Normal`).
Names are brought into this form before they are put into a folder, and this is as
good as putting their texts together first (`ofChars_joined`).  So the text of what
has been found is a name for it, and looking for that name finds it again.
-/
import EggLang.CommandLine.Settings
import EggLang.Proofs.Source.Pieces
import Mathlib.Data.List.Basic

namespace EggLang

/-! ## Cutting and trimming -/

theorem Token.stops_iff_head? {p : Char → Bool} {cs : List Char} :
    stops p cs ↔ ∀ c, cs.head? = some c → p c = false := by
  cases cs <;> simp [stops]

namespace Text

theorem splitAt_eq_splitOn (sep : Char) (cs : List Char) : splitAt sep cs = cs.splitOn sep := by
  induction cs with
  | nil => rfl
  | cons c cs ih =>
    rw [splitAt, List.splitOn_cons_eq_if_modifyHead, ih]
    simp only [beq_iff_eq]
    split
    · rfl
    · cases hparts : cs.splitOn sep with
      | nil => exact absurd hparts (List.splitOn_ne_nil _ _)
      | cons part parts => rfl

/-- No part has the separator in it. -/
theorem not_mem_of_mem_splitAt {sep : Char} {cs part : List Char} :
    part ∈ splitAt sep cs → sep ∉ part := by
  induction cs generalizing part with
  | nil =>
    intro hpart
    rw [List.mem_singleton.mp hpart]
    exact List.not_mem_nil
  | cons c cs ih =>
    rw [splitAt]
    split
    · intro hpart
      rcases List.mem_cons.mp hpart with rfl | hpart
      · exact List.not_mem_nil
      · exact ih hpart
    · next hc =>
      split
      · intro hpart
        rw [List.mem_singleton.mp hpart, List.mem_singleton]
        exact Ne.symm hc
      · next first parts hparts =>
        rw [hparts] at ih
        intro hpart
        rcases List.mem_cons.mp hpart with rfl | hpart
        · rw [List.mem_cons, not_or]
          exact ⟨Ne.symm hc, ih List.mem_cons_self⟩
        · exact ih (List.mem_cons_of_mem _ hpart)

/-- The text is a core with blanks around it; the core neither begins nor ends with
one. -/
structure Padded (cs core : List Char) : Prop where
  around : ∃ l r, cs = l ++ (core ++ r) ∧ (∀ c ∈ l, isBlank c = true) ∧ ∀ c ∈ r, isBlank c = true
  first : ∀ c, core.head? = some c → isBlank c = false
  last : ∀ c, core.getLast? = some c → isBlank c = false

theorem padded_trim (cs : List Char) : Padded cs (trim cs) := by
  have hfront := @List.takeWhile_append_dropWhile _ isBlank cs
  have hcore := Token.stops_dropWhile isBlank cs
  unfold trim
  generalize cs.dropWhile isBlank = rest at hfront hcore
  have hback := @List.takeWhile_append_dropWhile _ isBlank rest.reverse
  have hlast := Token.stops_dropWhile isBlank rest.reverse
  have hrest : rest = (rest.reverse.dropWhile isBlank).reverse ++
      (rest.reverse.takeWhile isBlank).reverse := by
    rw [← List.reverse_append, hback, List.reverse_reverse]
  refine ⟨⟨cs.takeWhile isBlank, (rest.reverse.takeWhile isBlank).reverse, ?_, ?_, ?_⟩, ?_, ?_⟩
  · rw [← hrest, hfront]
  · intro c hc
    exact Token.mem_takeWhile hc
  · intro c hc
    exact Token.mem_takeWhile (List.mem_reverse.mp hc)
  · intro c hc
    refine Token.stops_iff_head?.mp hcore c ?_
    rw [hrest, List.head?_append, hc, Option.some_or]
  · intro c hc
    rw [List.getLast?_reverse] at hc
    exact Token.stops_iff_head?.mp hlast c hc

/-- There is one core. -/
theorem Padded.trim_eq {cs core : List Char} (h : Padded cs core) : trim cs = core := by
  obtain ⟨⟨l, r, rfl, hl, hr⟩, hfirst, hlast⟩ := h
  unfold trim
  cases core with
  | nil =>
    have hblank : ∀ c ∈ l ++ r, isBlank c = true := by
      intro c hc
      exact (List.mem_append.mp hc).elim (hl c) (hr c)
    have hall := @Token.dropWhile_run isBlank (l ++ r) [] hblank trivial
    rw [List.append_nil] at hall
    rw [List.nil_append, hall]
    rfl
  | cons c core =>
    have hfront : Token.stops isBlank (c :: core ++ r) := hfirst c rfl
    have hback : Token.stops isBlank (c :: core).reverse := by
      rw [Token.stops_iff_head?, List.head?_reverse]
      exact hlast
    have hrev : ∀ c ∈ r.reverse, isBlank c = true := fun c hc => hr c (List.mem_reverse.mp hc)
    rw [Token.dropWhile_run hl hfront, List.reverse_append, Token.dropWhile_run hrev hback,
      List.reverse_reverse]

end Text

/-! ## Paths -/

namespace Path

/-- The path is as paths are that texts name. -/
structure Normal (p : Path) : Prop where
  slashes_le : p.slashes ≤ 2
  proper : ∀ part ∈ p.parts, isProper part = true
  no_slash : ∀ part ∈ p.parts, '/' ∉ part

theorem normal_ofChars (cs : List Char) : (ofChars cs).Normal where
  slashes_le := by
    show keptSlashes _ ≤ 2
    unfold keptSlashes
    split
    · next h => exact h
    · decide
  proper _ hpart := (List.mem_filter.mp hpart).2
  no_slash _ hpart := Text.not_mem_of_mem_splitAt (List.mem_filter.mp hpart).1

/-- Slashes in front are counted, and are no parts. -/
theorem ofChars_slashes (n : Nat) {cs : List Char} (h : Token.stops (· = '/') cs) :
    ofChars (List.replicate n '/' ++ cs) =
      ⟨keptSlashes n, (Text.splitAt '/' cs).filter isProper⟩ := by
  have hslashes : ∀ c ∈ List.replicate n '/', (c = '/' : Bool) = true := by
    intro c hc
    rw [List.eq_of_mem_replicate hc]
    rfl
  have hparts : (Text.splitAt '/' (List.replicate n '/' ++ cs)).filter isProper =
      (Text.splitAt '/' cs).filter isProper := by
    clear hslashes
    induction n with
    | zero => rfl
    | succ n ih =>
      rw [List.replicate_succ, List.cons_append, Text.splitAt, if_pos rfl, ← ih]
      rfl
  unfold ofChars
  rw [Token.takeWhile_run hslashes h, List.length_replicate, hparts]

/-- The first part of a path does not begin with a slash. -/
theorem Normal.stops_parts {p : Path} (hp : p.Normal) :
    Token.stops (· = '/') (['/'].intercalate p.parts) := by
  cases hparts : p.parts with
  | nil => trivial
  | cons part parts =>
    have hmem : part ∈ p.parts := hparts ▸ List.mem_cons_self
    have hproper := hp.proper part hmem
    have hslash := hp.no_slash part hmem
    cases part with
    | nil => cases hproper
    | cons c part =>
      have hc : c ≠ '/' := by
        rintro rfl
        exact hslash List.mem_cons_self
      cases parts <;> simp [List.intercalate, Token.stops, hc]

theorem Normal.splitAt_parts {p : Path} (hp : p.Normal) :
    (Text.splitAt '/' (['/'].intercalate p.parts)).filter isProper = p.parts := by
  by_cases hparts : p.parts = []
  · rw [hparts]
    rfl
  · rw [Text.splitAt_eq_splitOn, List.splitOn_intercalate '/' hp.no_slash hparts]
    exact List.filter_eq_self.mpr hp.proper

/-- A path is what its text names. -/
theorem Normal.ofChars_chars {p : Path} (hp : p.Normal) : ofChars p.chars = p := by
  unfold chars
  split
  · next h =>
    obtain ⟨slashes, parts⟩ := p
    obtain ⟨rfl, rfl⟩ := h
    rfl
  · have hkept : keptSlashes p.slashes = p.slashes := if_pos hp.slashes_le
    rw [ofChars_slashes p.slashes hp.stops_parts, hkept, hp.splitAt_parts]

theorem Normal.ofString_text {p : Path} (hp : p.Normal) : ofString p.text = p := by
  unfold ofString text
  rw [String.toList_ofList]
  exact hp.ofChars_chars

/-! ## Names in folders -/

/-- The text of a name in a folder: there is a slash between the two, unless one is
there already, and the folder does not matter to a name that begins with one. -/
def joined (folder name : List Char) : List Char :=
  if name.head? = some '/' then name
  else if folder = [] ∨ folder.getLast? = some '/' then folder ++ name
  else folder ++ '/' :: name

theorem isAbsolute_ofChars (cs : List Char) :
    (ofChars cs).isAbsolute = true ↔ cs.head? = some '/' := by
  cases cs with
  | nil => decide
  | cons c cs =>
    by_cases hc : c = '/'
    · have hpos : keptSlashes ((cs.takeWhile (· = '/')).length + 1) ≠ 0 := by
        unfold keptSlashes
        split
        · exact Nat.succ_ne_zero _
        · decide
      simp [isAbsolute, ofChars, hc, hpos]
    · simp [isAbsolute, ofChars, hc, keptSlashes]

theorem parts_append_slash (front back : List Char) :
    (ofChars (front ++ '/' :: back)).parts = (ofChars front).parts ++ (ofChars back).parts := by
  unfold ofChars
  simp only [Text.splitAt_eq_splitOn]
  rw [List.splitOn_append_cons_self, List.filter_append]

/-- Slashes in front of a folder are those in front of what is in it. -/
theorem slashes_append {front back : List Char}
    (h : Token.stops (· = '/') back ∨ ∃ c ∈ front, c ≠ '/') :
    (ofChars (front ++ back)).slashes = (ofChars front).slashes := by
  have hrun : (front ++ back).takeWhile (· = '/') = front.takeWhile (· = '/') := by
    rw [List.takeWhile_append]
    split
    · next hall =>
      have hfront := (List.takeWhile_prefix (p := (· = '/'))).eq_of_length hall
      rcases h with hstops | ⟨c, hc, hne⟩
      · have hback := @Token.takeWhile_run (· = '/') [] back nofun hstops
        rw [List.nil_append] at hback
        rw [hback, List.append_nil, hfront]
      · rw [← hfront] at hc
        exact absurd (of_decide_eq_true (Token.mem_takeWhile hc)) hne
    · rfl
  unfold ofChars
  rw [hrun]

/-- Names may be brought into normal form before they are put into a folder, or
after it. -/
theorem ofChars_joined (folder name : List Char) :
    ofChars (joined folder name) = (ofChars folder).join (ofChars name) := by
  unfold joined join
  by_cases habsolute : name.head? = some '/'
  · rw [if_pos habsolute, if_pos ((isAbsolute_ofChars name).mpr habsolute)]
  · have hname : Token.stops (· = '/') name := by
      rw [Token.stops_iff_head?]
      intro c hc
      refine decide_eq_false ?_
      rintro rfl
      exact habsolute hc
    rw [if_neg habsolute, if_neg (habsolute ∘ (isAbsolute_ofChars name).mp)]
    by_cases hend : folder = [] ∨ folder.getLast? = some '/'
    · rw [if_pos hend]
      have hparts : (ofChars (folder ++ name)).parts =
          (ofChars folder).parts ++ (ofChars name).parts := by
        rcases hend with rfl | hslash
        · rfl
        · obtain ⟨front, rfl⟩ := List.getLast?_eq_some_iff.mp hslash
          rw [List.append_assoc, List.singleton_append, parts_append_slash, parts_append_slash]
          exact congrArg (· ++ _) (List.append_nil _).symm
      rw [← slashes_append (Or.inl hname), ← hparts]
    · rw [if_neg hend, ← parts_append_slash]
      obtain ⟨hne, hlast⟩ := not_or.mp hend
      have hother : ∃ c ∈ folder, c ≠ '/' := by
        refine ⟨folder.getLast hne, List.getLast_mem hne, ?_⟩
        intro hc
        rw [List.getLast?_eq_getLast_of_ne_nil hne, hc] at hlast
        exact hlast rfl
      rw [← slashes_append (Or.inr hother)]

end Path

/-! ## The search path -/

/-- The entry leads to something: it names a folder in which there is something of
the name. -/
def Leads (isThere : Path → Bool) (name : String) (entry : List Char) (p : Path) : Prop :=
  ∃ folder, folder ≠ [] ∧ Text.Padded entry folder ∧
    p = Path.ofChars (Path.joined folder name.toList) ∧ isThere p = true

/-- What the name of a program comes to, given the entries of the search path. -/
inductive Resolves (isThere : Path → Bool) (entries : List (List Char)) (name : String) :
    Path → Prop
  | itself : (Path.ofString name).isAbsolute = true ∨ isThere (Path.ofString name) = true →
      Resolves isThere entries name (Path.ofString name)
  | found {before after : List (List Char)} {entry : List Char} {p : Path} :
      (Path.ofString name).isAbsolute = false → isThere (Path.ofString name) = false →
      entries = before ++ entry :: after → Leads isThere name entry p →
      (∀ e ∈ before, ∀ q, ¬ Leads isThere name e q) → Resolves isThere entries name p
  | nowhere : (Path.ofString name).isAbsolute = false → isThere (Path.ofString name) = false →
      (∀ e ∈ entries, ∀ q, ¬ Leads isThere name e q) →
      Resolves isThere entries name (Path.ofString name)

/-- What an entry leads to, if it leads to something. -/
def lead? (isThere : Path → Bool) (path : Path) (entry : List Char) : Option Path :=
  if Text.trim entry = [] then none
  else Option.guard isThere ((Path.ofChars (Text.trim entry)).join path)

section
variable {isThere : Path → Bool} {name : String} {path p : Path}

theorem lead?_eq_some_iff {entry : List Char} :
    lead? isThere (Path.ofString name) entry = some p ↔ Leads isThere name entry p := by
  unfold lead? Leads Path.ofString
  simp only [Path.ofChars_joined]
  constructor
  · intro h
    split at h
    · cases h
    · next hne =>
      obtain ⟨rfl, hthere⟩ := Option.guard_eq_some_iff.mp h
      exact ⟨Text.trim entry, hne, Text.padded_trim entry, rfl, hthere⟩
  · rintro ⟨folder, hne, hpadded, rfl, hthere⟩
    rw [hpadded.trim_eq, if_neg hne]
    exact Option.guard_eq_some_iff.mpr ⟨rfl, hthere⟩

theorem lead?_eq_none_iff {entry : List Char} :
    lead? isThere (Path.ofString name) entry = none ↔ ∀ q, ¬ Leads isThere name entry q := by
  simp only [← lead?_eq_some_iff, Option.eq_none_iff_forall_ne_some, ne_eq]

/-- Folders with something in them are looked for entry by entry. -/
theorem find?_folderNames (entries : List (List Char)) :
    ((((entries.map Text.trim).filter fun name => name ≠ []).map Path.ofChars).map
      fun root => root.join path).find? isThere = entries.findSome? (lead? isThere path) := by
  induction entries with
  | nil => rfl
  | cons entry entries ih =>
    rw [List.map_cons, List.findSome?_cons, lead?]
    by_cases hblank : Text.trim entry = []
    · rw [hblank, if_pos rfl]
      exact ih
    · have hkept : decide (Text.trim entry ≠ []) = true := decide_eq_true hblank
      rw [if_neg hblank, List.filter_cons, if_pos hkept, List.map_cons, List.map_cons,
        List.find?_cons, ih]
      cases hthere : isThere ((Path.ofChars (Text.trim entry)).join path) with
      | true => simp [Option.guard, hthere]
      | false => simp [Option.guard, hthere]

end

/-- The entries of the search path; if it is not set, there is a blank one. -/
def Settings.entries (settings : Settings) : List (List Char) :=
  (settings.programPath.getD "").toList.splitOn ':'

theorem resolveProgram_eq (isThere : Path → Bool) (settings : Settings) (name : String) :
    resolveProgram isThere settings.roots name =
      if isThere (Path.ofString name) || (Path.ofString name).isAbsolute then Path.ofString name
      else (settings.entries.findSome? (lead? isThere (Path.ofString name))).getD
        (Path.ofString name) := by
  have hroots : settings.roots =
      ((settings.entries.map Text.trim).filter fun name => name ≠ []).map Path.ofChars := by
    unfold Settings.roots Settings.entries
    cases settings.programPath with
    | none => rfl
    | some raw =>
      simp only [Settings.folderNames, Text.splitAt_eq_splitOn, Option.getD_some]
  rw [← find?_folderNames, ← hroots]
  exact resolveProgram_eq_find? isThere settings.roots name

section
variable (isThere : Path → Bool) (settings : Settings) (name : String)

/-- The three rules say what a name comes to. -/
theorem resolveProgram_eq_iff {p : Path} :
    resolveProgram isThere settings.roots name = p ↔
      Resolves isThere settings.entries name p := by
  rw [resolveProgram_eq]
  constructor
  · rintro rfl
    split
    · next h =>
      rw [Bool.or_eq_true] at h
      exact .itself h.symm
    · next h =>
      rw [Bool.or_eq_true, not_or, Bool.not_eq_true, Bool.not_eq_true] at h
      cases hfind : settings.entries.findSome? (lead? isThere (Path.ofString name)) with
      | none =>
        refine .nowhere h.2 h.1 ?_
        intro e he
        exact lead?_eq_none_iff.mp (List.findSome?_eq_none_iff.mp hfind e he)
      | some p =>
        obtain ⟨before, entry, after, hentries, hlead, hbefore⟩ :=
          List.findSome?_eq_some_iff.mp hfind
        refine .found h.2 h.1 hentries (lead?_eq_some_iff.mp hlead) ?_
        intro e he
        exact lead?_eq_none_iff.mp (hbefore e he)
  · intro h
    cases h with
    | itself h => rw [if_pos (Bool.or_eq_true _ _ ▸ h.symm)]
    | found habsolute hthere hentries hlead hbefore =>
      have hfind : settings.entries.findSome? (lead? isThere (Path.ofString name)) = some p :=
        List.findSome?_eq_some_iff.mpr ⟨_, _, _, hentries, lead?_eq_some_iff.mpr hlead,
          fun e he => lead?_eq_none_iff.mpr (hbefore e he)⟩
      rw [habsolute, hthere, hfind]
      rfl
    | nowhere habsolute hthere hnone =>
      have hfind : settings.entries.findSome? (lead? isThere (Path.ofString name)) = none :=
        List.findSome?_eq_none_iff.mpr fun e he => lead?_eq_none_iff.mpr (hnone e he)
      rw [habsolute, hthere, hfind]
      rfl

end

/-- What a name comes to is a path in normal form, and it is there, absolute, or
what the name says. -/
theorem Resolves.normal {isThere : Path → Bool} {entries : List (List Char)} {name : String}
    {p : Path} (h : Resolves isThere entries name p) :
    p.Normal ∧ ((p.isAbsolute = true ∨ isThere p = true) ∨ p = Path.ofString name) := by
  cases h with
  | itself h => exact ⟨Path.normal_ofChars _, Or.inl h⟩
  | nowhere _ _ _ => exact ⟨Path.normal_ofChars _, Or.inr rfl⟩
  | found _ _ _ hlead _ =>
    obtain ⟨folder, -, -, rfl, hthere⟩ := hlead
    exact ⟨Path.normal_ofChars _, Or.inl (Or.inr hthere)⟩

/-- A name comes to what the three rules say: to itself, if it is absolute or there
is something, or else to what there is of the name in the first folder of the search
path that has something of it, or else to itself.  The text of what it comes to is a
name for it, and this name comes to it again. -/
theorem resolveProgram_first (isThere : Path → Bool) (settings : Settings) (name : String) :
    (∀ p, resolveProgram isThere settings.roots name = p ↔
      Resolves isThere settings.entries name p) ∧
    Path.ofString (resolveProgram isThere settings.roots name).text =
      resolveProgram isThere settings.roots name ∧
    resolveProgram isThere settings.roots (resolveProgram isThere settings.roots name).text =
      resolveProgram isThere settings.roots name := by
  have hresolves := (resolveProgram_eq_iff isThere settings name).mp rfl
  generalize hp : resolveProgram isThere settings.roots name = p at hresolves
  obtain ⟨hnormal, hend⟩ := hresolves.normal
  have htext := hnormal.ofString_text
  refine ⟨fun q => hp ▸ resolveProgram_eq_iff isThere settings name, htext, ?_⟩
  rcases hend with hthere | hname
  · have hitself := @Resolves.itself isThere settings.entries p.text
    rw [htext] at hitself
    exact (resolveProgram_eq_iff isThere settings p.text).mpr (hitself hthere)
  · -- nothing was found, and the text names the path that was looked for
    rw [resolveProgram_eq, htext, hname, ← resolveProgram_eq]
    exact hp.trans hname

example :
    let settings : Settings := ⟨some " : lib :/opt//egg/./", none, none⟩
    let isThere : Path → Bool := fun p => p = Path.ofString "/opt/egg/a.egg"
    (resolveProgram isThere settings.roots "./a.egg").text = "/opt/egg/a.egg" := by
  decide +kernel

end EggLang
