/-
# `EggLang.Proofs.Growth` — what evaluation leaves behind

Nothing that an evaluation has done is taken back, neither by a later part of
it nor by a fault:

    frames    a frame stays, and stays inside the frame it is inside
    names     the names of a frame keep their places; new ones come after them
    output    what has been printed stays; lines come after it

The lines are those of the values that were handed to `print`, in their order.
The trace of the evaluation says which these are (`Event.handed?`), and a value
that has no text, such as an integer with too many digits, adds no line
(`Event.line?`).

All of this is one law of traces (`growth`), and so holds of every evaluation.
-/
import EggLang.Proofs.Discipline.Effect
import EggLang.Proofs.Trace.Law

namespace EggLang

/-! ## Stores -/

theorem Bindings.names_prefix_put (bs : Bindings) (x : String) (v : Value) :
    bs.names <+: (bs.put x v).names := by
  rw [names_put]
  split
  · exact List.prefix_rfl
  · exact List.prefix_append _ _

namespace Store

theorem bindings_of_size_le {s : Store} {f : FrameId} (h : s.frames.size ≤ f) :
    s.bindings f = [] := by
  simp only [bindings, Array.getElem?_eq_none h]

/-- The frames of the first store are in the second, with their links and with
their names in front. -/
structure Prolongs (s t : Store) : Prop where
  size_le : s.frames.size ≤ t.frames.size
  outer_eq : ∀ {f}, f < s.frames.size → t.outer? f = s.outer? f
  names_prefix : ∀ f, (s.bindings f).names <+: (t.bindings f).names

section
variable {s t u : Store}

theorem Prolongs.of_frames_eq (h : t.frames = s.frames) : s.Prolongs t where
  size_le := Nat.le_of_eq (by rw [h])
  outer_eq _ := by simp only [outer?, h]
  names_prefix f := by simp only [bindings, h, List.prefix_rfl]

theorem Prolongs.trans (h : s.Prolongs t) (h' : t.Prolongs u) : s.Prolongs u where
  size_le := Nat.le_trans h.size_le h'.size_le
  outer_eq hf := (h'.outer_eq (Nat.lt_of_lt_of_le hf h.size_le)).trans (h.outer_eq hf)
  names_prefix f := (h.names_prefix f).trans (h'.names_prefix f)

theorem prolongs_define (s : Store) (e : FrameId) (x : String) (v : Value) :
    s.Prolongs (s.define e x v) where
  size_le := Nat.le_of_eq (size_define s e x v).symm
  outer_eq _ := outer?_define s e _ x v
  names_prefix f := by
    rw [bindings_define]
    split
    · exact Bindings.names_prefix_put _ x v
    · exact List.prefix_rfl

theorem prolongs_push (s : Store) (outer : Option FrameId) (bs : Bindings) :
    s.Prolongs (s.push outer bs).2 where
  size_le := by
    rw [size_push]
    exact Nat.le_succ _
  outer_eq hf := by rw [outer?_push, if_neg (Nat.ne_of_lt hf)]
  names_prefix f := by
    rw [bindings_push]
    split
    · next hf =>
      rw [bindings_of_size_le (Nat.le_of_eq hf.symm)]
      exact List.nil_prefix
    · exact List.prefix_rfl

/-! ## Output -/

theorem foldl_lines (lines : List String) (text : String) :
    lines.foldl (fun text line => text ++ line ++ "\n") text =
      text ++ String.join (lines.map (· ++ "\n")) := by
  induction lines generalizing text with
  | nil => simp
  | cons line lines ih =>
    rw [List.foldl_cons, ih, List.map_cons, String.join_cons]
    simp only [String.append_assoc]

/-- Lines that are printed come behind what has been printed. -/
theorem output_append {lines : List String}
    (h : t.printed.toList = s.printed.toList ++ lines) :
    t.output = s.output ++ String.join (lines.map (· ++ "\n")) := by
  unfold output
  rw [← Array.foldl_toList, ← Array.foldl_toList, h, List.foldl_append, foldl_lines]

end

end Store

/-! ## Printed values -/

namespace Event

/-- The value that is handed to `print`, with the limit of its text. -/
def handed? : Event → Option (Nat × Value)
  | .called limit (.print 0) [v] => some (limit, v)
  | _ => none

/-- The line that is printed, if the value that is handed to `print` has a
text. -/
def line? (event : Event) : Option String :=
  event.handed?.bind fun p => (p.2.display p.1 false).toOption

end Event

namespace Builtin

/-- No builtin changes a frame. -/
theorem frames_apply (limit : Nat) (b : Builtin) (args : List Value) (s : Store) :
    (b.apply limit args s).2.frames = s.frames := by
  have heffect := apply_effect limit b args s
  generalize b.apply limit args s = r at heffect
  cases heffect <;> rfl

theorem printed_printValue (limit output : Nat) (v : Value) (s : Store) :
    (printValue limit output v s).2.printed.toList =
      s.printed.toList ++ [Event.called limit (.print output) [v]].filterMap Event.line? := by
  cases hv : v.display limit false with
  | error f =>
    rw [printValue_of_error hv]
    cases output <;> simp [Event.line?, Event.handed?, hv, Except.toOption]
  | ok line =>
    rw [printValue_of_ok hv]
    cases output <;> simp [Event.line?, Event.handed?, hv, Except.toOption, Store.printLine]

theorem printed_apply_of_ne (limit : Nat) {b : Builtin} (args : List Value) (s : Store)
    (hb : ∀ output, b ≠ .print output) : (b.apply limit args s).2.printed = s.printed := by
  unfold apply
  split
  case h_11 output _ => exact absurd rfl (hb output)
  all_goals rfl

/-- A builtin prints the line of its event. -/
theorem printed_apply (limit : Nat) (b : Builtin) (args : List Value) (s : Store) :
    (b.apply limit args s).2.printed.toList =
      s.printed.toList ++ [Event.called limit b args].filterMap Event.line? := by
  cases b with
  | print output =>
    match args with
    | [v] => exact printed_printValue limit output v s
    | [] => cases output <;> exact (List.append_nil _).symm
    | _ :: _ :: _ => cases output <;> exact (List.append_nil _).symm
  | _ =>
    refine (congrArg Array.toList (printed_apply_of_ne limit args s ?_)).trans
      (List.append_nil _).symm
    exact nofun

end Builtin

/-- Evaluation leaves what is there, and prints what is handed to `print`. -/
def growth : Law where
  Holds s _ t events := s.Prolongs t ∧
    t.printed.toList = s.printed.toList ++ events.filterMap Event.line?
  idle s := ⟨.of_frames_eq rfl, (List.append_nil _).symm⟩
  follow := by
    rintro s t u f before after ⟨hst, hbefore⟩ ⟨htu, hafter⟩
    refine ⟨hst.trans htu, ?_⟩
    rw [hafter, hbefore, List.filterMap_append, List.append_assoc]
  own s _ := ⟨.of_frames_eq rfl, (List.append_nil _).symm⟩
  fresh s := ⟨.of_frames_eq rfl, (List.append_nil _).symm⟩
  define s e x v := ⟨Store.prolongs_define s e x v, (List.append_nil _).symm⟩
  enter s g bs := ⟨Store.prolongs_push s (some g) bs, (List.append_nil _).symm⟩
  called limit b args s :=
    ⟨.of_frames_eq (Builtin.frames_apply limit b args s), Builtin.printed_apply limit b args s⟩
  refused limit v s := ⟨.of_frames_eq rfl, (List.append_nil _).symm⟩

/-- Whatever an evaluation does and however it ends, frames stay where they
are, names keep their places, and the output goes on by the lines of the values
that were handed to `print`. -/
theorem evaluate_grows (forms : Forms) (turns limit : Nat) (expr : Expr) (e : FrameId)
    (s : Store) :
    ∃ r t events, evaluate forms turns limit expr e s = (r, t) ∧
      Traced.evaluate forms turns limit expr e s = ((r, t), events) ∧
      s.frames.size ≤ t.frames.size ∧
      (∀ f, f < s.frames.size → t.outer? f = s.outer? f ∧
        (s.bindings f).names <+: (t.bindings f).names) ∧
      t.output = s.output ++ String.join ((events.filterMap Event.line?).map (· ++ "\n")) := by
  rcases hrun : evaluate forms turns limit expr e s with ⟨r, t⟩
  obtain ⟨events, htrace⟩ := Traced.evaluate_eq forms turns limit expr e s
  rw [hrun] at htrace
  have hgrowth := growth.keeps_evaluate forms turns limit expr e s
  rw [htrace] at hgrowth
  obtain ⟨hprolongs, hprinted⟩ := hgrowth
  refine ⟨r, t, events, rfl, htrace, hprolongs.size_le, ?_, Store.output_append hprinted⟩
  intro f hf
  exact ⟨hprolongs.outer_eq hf, hprolongs.names_prefix f⟩

end EggLang
