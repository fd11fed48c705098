/-
# `EggLang.Form` — special forms and their keywords

A special form gets its arguments unevaluated.  There are six, and a table
says under which keywords a program finds them; the usual table names each
by its own keyword, but a table may leave forms out, rename them or name
one of them twice.
-/

namespace EggLang

inductive Form where
  | conditional
  | loop
  | sequence
  | define
  | assign
  | function
deriving DecidableEq

/-- The usual keyword of a form. -/
def Form.keyword : Form → String
  | .conditional => "if"
  | .loop => "while"
  | .sequence => "do"
  | .define => "define"
  | .assign => "set"
  | .function => "fun"

def Form.all : List Form :=
  [.conditional, .loop, .sequence, .define, .assign, .function]

def Form.ofKeyword? (keyword : String) : Option Form :=
  Form.all.find? fun f => f.keyword == keyword

/-- A table of keywords; the first entry of a keyword counts. -/
abbrev Forms := List (String × Form)

namespace Forms

def find? (forms : Forms) (keyword : String) : Option Form :=
  match forms with
  | [] => none
  | f :: forms => if f.1 == keyword then some f.2 else find? forms keyword

/-- The table with each form under its usual keyword. -/
def core : Forms := Form.all.map fun f => (f.keyword, f)

/-- A table with further entries, which replace those of the same keyword. -/
def extend (forms extra : Forms) : Forms := extra.reverse ++ forms

theorem mem_of_find? {forms : Forms} {x : String} {f : Form}
    (h : forms.find? x = some f) : (x, f) ∈ forms := by
  induction forms with
  | nil => cases h
  | cons g forms ih =>
    rw [find?] at h
    by_cases hx : g.1 == x
    · rw [if_pos hx] at h
      cases h
      cases beq_iff_eq.mp hx
      exact List.mem_cons_self
    · rw [if_neg hx] at h
      exact List.mem_cons_of_mem g (ih h)

theorem keyword_of_core {x : String} {f : Form} (h : core.find? x = some f) :
    x = f.keyword := by
  obtain ⟨g, _, hg⟩ := List.mem_map.mp (mem_of_find? h)
  cases hg
  rfl

theorem find?_core_of_not_keyword {x : String} (hx : x ∉ Form.all.map Form.keyword) :
    core.find? x = none := by
  cases hf : core.find? x with
  | none => rfl
  | some f =>
    obtain ⟨g, hg, heq⟩ := List.mem_map.mp (mem_of_find? hf)
    cases heq
    exact absurd (List.mem_map_of_mem hg) hx

end Forms

end EggLang
