/-
# `EggLang.Proofs.Faults` — which faults reach a caller

A caller of a session is told of five families of faults: the four of the
language itself, and too deep nesting.  A step of a session ends in one of
these, with one exception.  Two messages show an integer that a program may
have made as large as it likes, and do so without looking at its digits:

    a value that is applied and is no function, if it holds such an integer
    an index that is outside of its array, if it is such an integer

Where printing an integer with too many digits is a range fault of the
language, these two are faults of the machine underneath.  The trace of a step
says whether it has come to one of the two (`Event.Unshowable`); nothing else
leads out of the five families, and a step that comes to one of them goes no
further (`Accounted`).
-/
import EggLang.Proofs.Discipline.Effect
import EggLang.Proofs.Source.Acceptance
import EggLang.Proofs.Trace.Law

namespace EggLang

/-- The families of faults that a caller is told of. -/
def Family.Documented : Family → Prop
  | .syntactic => True
  | .reference => True
  | .type => True
  | .range => True
  | .depth => True
  | _ => False

/-- All integers in the value can be written. -/
def Value.Showable (v : Value) : Prop :=
  ∀ n, Part (.number (.int n)) v → Writable n

/-- The event shows an integer that has too many digits. -/
def Event.Unshowable : Event → Prop
  | .called _ .element [.array _ items, .number (.int n)] =>
      ¬ Writable n ∧ (n < 0 ∨ (items.length : Int) ≤ n)
  | .called .. => False
  | .refused _ v => ¬ v.Showable

/-! ## Integers -/

theorem twoTo_le_tenTo {j k : Nat} (h : j ≤ k) : twoTo j ≤ tenTo k :=
  calc twoTo j
    _ ≤ tenTo j := Nat.pow_le_pow_left (by decide) j
    _ ≤ tenTo k := Nat.pow_le_pow_right (by decide) h

/-- A double that is an integer is one that can be written. -/
theorem Double.writable_of_integer? {x : Double} {n : Int} (h : x.integer? = some n) :
    Writable n := by
  cases x with
  | nan => cases h
  | infinite negative => cases h
  | finite negative m e hme =>
    have habs : n.natAbs = m / twoTo (-e).toNat * twoTo e.toNat := by
      simp only [integer?] at h
      split at h
      · cases h
        split <;> simp only [Int.natAbs_neg, Int.natAbs_natCast]
      · cases h
    have hexp : 53 + e.toNat ≤ Text.digitLimit := by
      have he := hme.2.2.1
      simp only [Text.digitLimit]
      omega
    calc n.natAbs
      _ = m / twoTo (-e).toNat * twoTo e.toNat := habs
      _ ≤ m * twoTo e.toNat := Nat.mul_le_mul_right _ (Nat.div_le_self m _)
      _ < twoTo 53 * twoTo e.toNat := Nat.mul_lt_mul_of_pos_right hme.1 (Nat.two_pow_pos _)
      _ = twoTo (53 + e.toNat) := (Nat.pow_add 2 53 _).symm
      _ ≤ tenTo Text.digitLimit := twoTo_le_tenTo hexp

/-- The text of an integer in a source faults within the families. -/
theorem Expr.numberText_fault {n : Int} {f : Fault} (h : numberText n = .error f) :
    f.family.Documented := by
  unfold numberText at h
  cases htext : decimalText? n with
  | some digits =>
    rw [htext] at h
    cases h
  | none =>
    rw [htext] at h
    cases h
    trivial

namespace Value

theorem integerDebug_of_writable {n : Int} (h : Writable n) :
    integerDebug n = .ok (decimalText n) := by
  have htext : decimalText? n = some (decimalText n) := if_pos h
  unfold integerDebug
  rw [htext]

theorem integerDebug_of_not_writable {n : Int} (h : ¬ Writable n) :
    integerDebug n = .error .tooManyDigits := by
  have htext : decimalText? n = none := if_neg h
  unfold integerDebug
  rw [htext]

/-! ## Texts of values -/

/-- Of computations in a row, all return, or one faults with the fault of the
row. -/
theorem mapM_cases {α β : Type} (f : α → Except Fault β) (xs : List α) :
    (∃ ys, xs.mapM f = .ok ys ∧ ∀ x ∈ xs, ∃ y, f x = .ok y) ∨
      ∃ e, xs.mapM f = .error e ∧ ∃ x ∈ xs, f x = .error e := by
  induction xs with
  | nil => exact Or.inl ⟨[], rfl, nofun⟩
  | cons x xs ih =>
    rw [List.mapM_cons]
    cases hx : f x with
    | error e => exact Or.inr ⟨e, rfl, x, List.mem_cons_self, hx⟩
    | ok y =>
      obtain ⟨ys, hys, hall⟩ | ⟨e, he, z, hz, hfz⟩ := ih
      · refine Or.inl ⟨y :: ys, by rw [hys]; rfl, ?_⟩
        exact List.forall_mem_cons.mpr ⟨⟨y, hx⟩, hall⟩
      · exact Or.inr ⟨e, by rw [he]; rfl, z, List.mem_cons_of_mem x hz, hfz⟩

/-- What printing a value faults with is within the families. -/
theorem display_fault {limit : Nat} {nested : Bool} {v : Value} {f : Fault}
    (h : v.display limit nested = .error f) : f.family.Documented := by
  induction limit generalizing nested v with
  | zero =>
    cases h
    trivial
  | succ limit ih =>
    cases v with
    | number n =>
      cases n with
      | int n => exact Expr.numberText_fault h
      | float x => cases h
    | array i items =>
      rw [display] at h
      obtain ⟨texts, htexts, -⟩ | ⟨e, he, w, -, hw⟩ := mapM_cases (display limit true) items
      · rw [htexts] at h
        cases h
      · rw [he] at h
        cases h
        exact ih hw
    | _ => cases h

theorem showable_int {n : Int} : (number (.int n)).Showable ↔ Writable n := by
  refine ⟨fun h => h n .self, fun hn m hpart => ?_⟩
  cases hpart
  exact hn

theorem showable_array {i : Nat} {items : List Value} :
    (array i items).Showable ↔ ∀ v ∈ items, v.Showable := by
  refine ⟨fun h v hv n hpart => h n (.item hv hpart), fun h n hpart => ?_⟩
  cases hpart with
  | item hv hpart => exact h _ hv n hpart

/-- A value has a debug text if it is showable and nests within the limit, and
otherwise a fault that says which of the two it is not. -/
theorem debug_cases (limit : Nat) (v : Value) :
    (∃ shown, v.debug limit = .ok shown ∧ v.Showable) ∨
      v.debug limit = .error .tooDeep ∨ (v.debug limit = .error .tooManyDigits ∧ ¬ v.Showable) := by
  induction limit generalizing v with
  | zero => exact Or.inr (Or.inl rfl)
  | succ limit ih =>
    cases v with
    | number n =>
      cases n with
      | int n =>
        by_cases hn : Writable n
        · exact Or.inl ⟨_, integerDebug_of_writable hn, showable_int.mpr hn⟩
        · exact Or.inr (Or.inr ⟨integerDebug_of_not_writable hn, hn ∘ showable_int.mp⟩)
      | float x =>
        refine Or.inl ⟨_, rfl, fun n hpart => ?_⟩
        cases hpart
    | array i items =>
      rw [debug, showable_array]
      obtain ⟨texts, htexts, hall⟩ | ⟨e, he, w, hw, hwe⟩ := mapM_cases (debug limit) items
      · rw [htexts]
        refine Or.inl ⟨_, rfl, fun w hw => ?_⟩
        obtain ⟨shown, hshown⟩ := hall w hw
        rcases ih w with ⟨_, _, h⟩ | h | ⟨h, _⟩
        · exact h
        · cases hshown.symm.trans h
        · cases hshown.symm.trans h
      · rw [he]
        rcases ih w with ⟨_, h, _⟩ | h | ⟨h, hnot⟩ <;> cases hwe.symm.trans h
        · exact Or.inr (Or.inl rfl)
        · exact Or.inr (Or.inr ⟨rfl, fun hall => hnot (hall w hw)⟩)
    | _ =>
      refine Or.inl ⟨_, rfl, fun n hpart => ?_⟩
      cases hpart

end Value

/-! ## Builtins -/

namespace Builtin

section
variable {f : Fault}

theorem arithmetic_fault {op : Builtin} {g : Number → Number → Option Number} {a b : Value}
    (h : arithmetic op g a b = .error f) : f.family.Documented := by
  unfold arithmetic at h
  split at h
  · split at h <;> cases h
    trivial
  · cases h
    trivial

theorem sum_fault {a b : Value} (h : sum a b = .error f) : f.family.Documented := by
  unfold sum at h
  split at h
  · cases h
  · exact arithmetic_fault h

theorem quotient_fault {a b : Value} (h : quotient a b = .error f) : f.family.Documented := by
  unfold quotient at h
  split at h
  · split at h
    · cases h
      trivial
    · exact arithmetic_fault h
  · cases h
    trivial

theorem ordering_fault {op : Builtin} {onNumbers : Number → Number → Bool}
    {onStrings : String → String → Bool} {a b : Value}
    (h : ordering op onNumbers onStrings a b = .error f) : f.family.Documented := by
  unfold ordering at h
  split at h <;> cases h
  trivial

theorem lengthOf_fault {v : Value} (h : lengthOf v = .error f) : f.family.Documented := by
  cases v <;> cases h <;> trivial

theorem printValue_fault {limit output : Nat} {v : Value} {s : Store}
    (h : (printValue limit output v s).1 = .error f) : f.family.Documented := by
  cases hv : v.display limit false with
  | error e =>
    rw [printValue_of_error hv] at h
    cases h
    exact Value.display_fault hv
  | ok line =>
    rw [printValue_of_ok hv] at h
    cases h

/-! ### Indices -/

theorem outside_of_writable {n : Int} (length : Nat) (h : Writable n) :
    outside length n = .error (.indexOutside (decimalText n) length) := by
  unfold outside
  rw [Value.integerDebug_of_writable h]
  rfl

theorem outside_of_not_writable {n : Int} (length : Nat) (h : ¬ Writable n) :
    outside length n = .error .tooManyDigits := by
  unfold outside
  rw [Value.integerDebug_of_not_writable h]
  rfl

theorem elementAt_outside {items : List Value} {n : Int}
    (h : n < 0 ∨ (items.length : Int) ≤ n) : elementAt items n = outside items.length n := by
  unfold elementAt
  split
  · have hlen : items.length ≤ n.toNat := by omega
    rw [List.getElem?_eq_none hlen]
  · rfl

/-- An index faults only outside of its array, and outside of the families only
if it has too many digits. -/
theorem elementAt_fault {items : List Value} {n : Int} (h : elementAt items n = .error f) :
    f.family.Documented ∨
      (f = .tooManyDigits ∧ ¬ Writable n ∧ (n < 0 ∨ (items.length : Int) ≤ n)) := by
  by_cases hout : n < 0 ∨ (items.length : Int) ≤ n
  · rw [elementAt_outside hout] at h
    by_cases hn : Writable n
    · rw [outside_of_writable _ hn] at h
      cases h
      exact Or.inl trivial
    · rw [outside_of_not_writable _ hn] at h
      cases h
      exact Or.inr ⟨rfl, hn, hout⟩
  · have hpos : 0 ≤ n := by omega
    have hlen : n.toNat < items.length := by omega
    rw [elementAt, if_pos hpos, List.getElem?_eq_getElem hlen] at h
    cases h

theorem elementOf_fault {limit : Nat} {a i : Value} (h : elementOf a i = .error f) :
    f.family.Documented ∨
      (f = .tooManyDigits ∧ (Event.called limit .element [a, i]).Unshowable) := by
  unfold elementOf at h
  split at h
  · exact elementAt_fault h
  · split at h
    · next n hn =>
      refine (elementAt_fault h).imp_right ?_
      rintro ⟨-, hnot, -⟩
      exact absurd (Double.writable_of_integer? hn) hnot
    · cases h
      exact Or.inl trivial
  · cases h
    exact Or.inl trivial
  · cases h
    exact Or.inl trivial

end

/-- A builtin faults within the families, unless it shows an index that cannot
be shown. -/
theorem apply_fault {limit : Nat} {b : Builtin} {args : List Value} {s : Store} {f : Fault}
    (h : (b.apply limit args s).1 = .error f) :
    f.family.Documented ∨ (f = .tooManyDigits ∧ (Event.called limit b args).Unshowable) := by
  unfold apply at h
  split at h
  · exact Or.inl (sum_fault h)
  · exact Or.inl (arithmetic_fault h)
  · exact Or.inl (arithmetic_fault h)
  · exact Or.inl (quotient_fault h)
  · cases h
  · exact Or.inl (ordering_fault h)
  · exact Or.inl (ordering_fault h)
  · cases h
  · exact Or.inl (lengthOf_fault h)
  · exact elementOf_fault h
  · exact Or.inl (printValue_fault h)
  · cases h
    exact Or.inl trivial

theorem apply_of_unshowable {limit : Nat} {b : Builtin} {args : List Value}
    (h : (Event.called limit b args).Unshowable) (s : Store) :
    (b.apply limit args s).1 = .error .tooManyDigits := by
  unfold Event.Unshowable at h
  split at h
  · next items n hevent =>
    cases hevent
    exact (elementAt_outside h.2).trans (outside_of_not_writable _ h.1)
  · exact h.elim
  · next hevent => cases hevent

end Builtin

/-! ## Evaluation -/

theorem Fault.Own.documented {f : Fault} (h : f.Own) :
    f.family.Documented ∨ f = .unfinished := by
  cases f <;> simp_all [Fault.Own, Fault.family, Family.Documented]

/-- A fault, or none, and a trace that explains it. -/
structure Accounted (fault? : Option Fault) (events : List Event) : Prop where
  told : ∀ {f}, fault? = some f →
    f.family.Documented ∨ f = .unfinished ∨ f = .tooManyDigits
  cause : fault? = some .tooManyDigits → ∃ event ∈ events, event.Unshowable
  stops : (∃ event ∈ events, event.Unshowable) →
    fault? = some .tooManyDigits ∨ fault? = some .tooDeep

namespace Accounted

theorem idle : Accounted none [] := ⟨nofun, nofun, nofun⟩

theorem own {f : Fault} (hf : f.Own) : Accounted (some f) [] where
  told h := by
    cases h
    exact hf.documented.imp_right Or.inl
  cause h := by
    cases h
    exact hf.elim
  stops := nofun

theorem follow {fault? : Option Fault} {before after : List Event}
    (hbefore : Accounted none before) (hafter : Accounted fault? after) :
    Accounted fault? (before ++ after) where
  told := hafter.told
  cause h := by
    obtain ⟨event, hevent, hun⟩ := hafter.cause h
    exact ⟨event, List.mem_append_right before hevent, hun⟩
  stops := by
    rintro ⟨event, hevent, hun⟩
    rcases List.mem_append.mp hevent with hevent | hevent
    · -- an event that cannot be shown would have been the last one
      rcases hbefore.stops ⟨event, hevent, hun⟩ with h | h <;> cases h
    · exact hafter.stops ⟨event, hevent, hun⟩

theorem called (limit : Nat) (b : Builtin) (args : List Value) (s : Store) :
    Accounted (faultOf? (b.apply limit args s).1) [.called limit b args] := by
  have hfault : ∀ {f}, faultOf? (b.apply limit args s).1 = some f →
      f.family.Documented ∨ (f = .tooManyDigits ∧ (Event.called limit b args).Unshowable) := by
    intro f h
    exact Builtin.apply_fault (faultOf?_eq_some.mp h)
  refine ⟨fun h => (hfault h).imp_right fun hf => Or.inr hf.1, fun h => ?_, ?_⟩
  · rcases hfault h with hdoc | ⟨-, hun⟩
    · exact hdoc.elim
    · exact ⟨_, List.mem_singleton_self _, hun⟩
  · rintro ⟨event, hevent, hun⟩
    cases List.mem_singleton.mp hevent
    rw [Builtin.apply_of_unshowable hun s]
    exact Or.inl rfl

theorem refused (limit : Nat) (v : Value) :
    Accounted (some (v.refusal limit)) [.refused limit v] := by
  have hevent : (∃ event ∈ [Event.refused limit v], event.Unshowable) ↔ ¬ v.Showable := by
    simp only [List.mem_singleton, exists_eq_left, Event.Unshowable]
  unfold Value.refusal
  rcases v.debug_cases limit with ⟨shown, hdebug, hshow⟩ | hdebug | ⟨hdebug, hnot⟩ <;> rw [hdebug]
  · refine ⟨?_, nofun, fun h => absurd hshow (hevent.mp h)⟩
    rintro _ ⟨⟩
    exact Or.inl trivial
  · refine ⟨?_, nofun, fun _ => Or.inr rfl⟩
    rintro _ ⟨⟩
    exact Or.inl trivial
  · refine ⟨?_, fun _ => hevent.mpr hnot, fun _ => Or.inl rfl⟩
    rintro _ ⟨⟩
    exact Or.inr (Or.inr rfl)

end Accounted

/-- Every evaluation accounts for its fault. -/
def accounts : Law where
  Holds _ fault? _ events := Accounted fault? events
  idle _ := .idle
  follow := .follow
  own _ hf := .own hf
  fresh _ := .idle
  define _ _ _ _ := .idle
  enter _ _ _ := .idle
  called := .called
  refused limit v _ := .refused limit v

/-! ## Steps of a session -/

theorem Expr.read_own {limit : Nat} {source : String} {f : Fault}
    (h : read limit source = .error f) : f.Own := by
  obtain ⟨stop, left, -, rfl⟩ := read_eq_error h
  cases stop <;> trivial

namespace Session

open Recorder (silent)

/-- What a step does, with a trace. -/
def Step.traced (forms : Forms) (limits : Limits) (step : Step) : Traced Value :=
  step.action forms limits

section
variable (forms : Forms) (limits : Limits)

theorem erase_evaluateIn (source : String) (e : FrameId) :
    Traced.erase (evaluateIn forms limits source e) = evaluateIn forms limits source e := by
  have herase := Traced.erase_evaluate forms limits.turns limits.depth
  simp only [evaluateIn, Traced.erase_bind, Traced.erase_silent, Recorder.silent_run]
  exact congrArg _ (funext fun tree => herase tree e)

theorem erase_runSource (source : String) :
    Traced.erase (runSource forms limits source) = runSource forms limits source := by
  simp only [runSource, Traced.erase_bind, Traced.erase_silent, Recorder.silent_run,
    erase_evaluateIn]

theorem Step.erase_traced (step : Step) :
    (step.traced forms limits).erase = step.perform forms limits := by
  cases step with
  | eval source => exact erase_evaluateIn forms limits source ownFrame
  | run lines => exact erase_runSource forms limits _
  | file bytes =>
    simp only [traced, perform, action, Traced.erase_bind, Traced.erase_silent,
      Recorder.silent_run, erase_runSource]

theorem keeps_evaluateIn (L : Law) (source : String) (e : FrameId) :
    L.Keeps (evaluateIn forms limits source e) := by
  have hread : L.Keeps (silent (Run.ofExcept (Expr.read limits.depth source))) := by
    intro s
    simp only [Traced.silent_apply, Run.ofExcept]
    cases hread : Expr.read limits.depth source with
    | ok tree => exact L.idle s
    | error f => exact L.own s (Expr.read_own hread)
  exact Law.keeps_bind hread fun tree => L.keeps_evaluate forms limits.turns limits.depth tree e

theorem keeps_runSource (L : Law) (source : String) :
    L.Keeps (runSource forms limits source) :=
  Law.keeps_bind (Law.keeps_enter globalFrame []) fun e => keeps_evaluateIn forms limits L source e

/-- A step accounts for its fault, unless it is a file that holds no text. -/
theorem Step.traced_accounted (step : Step) (s : Store) :
    Accounted (faultOf? (step.traced forms limits s).1.1) (step.traced forms limits s).2 ∨
      ∃ bytes problem, step = .file bytes ∧
        step.traced forms limits s = ((.error (.badEncoding problem), s), []) := by
  cases step with
  | eval source => exact Or.inl (keeps_evaluateIn forms limits accounts source ownFrame s)
  | run lines => exact Or.inl (keeps_runSource forms limits accounts _ s)
  | file bytes =>
    cases hdecode : Text.decodeUtf8 bytes with
    | ok cs =>
      have hfile : (Step.file bytes).traced forms limits s =
          (runSource forms limits (String.ofList (Text.foldNewlines cs)) : Traced Value) s := by
        simp only [traced, action, fileText, hdecode]
        rfl
      rw [hfile]
      exact Or.inl (keeps_runSource forms limits accounts _ s)
    | error problem =>
      refine Or.inr ⟨bytes, problem, rfl, ?_⟩
      simp only [traced, action, fileText, hdecode]
      rfl

/-- A step that faults does so within the families that a caller is told of,
or with a loop that has not ended, or with a file that holds no text, or with an
integer that has too many digits.  The last of these happens exactly if the step
comes to show such an integer, in a message about an index or a value that is
applied, except that a value may also nest too deeply to be shown. -/
theorem perform_accounted (step : Step) (s : Store) :
    ∃ r t events, step.perform forms limits s = (r, t) ∧
      step.traced forms limits s = ((r, t), events) ∧
      (∀ f, r = .error f → f.family.Documented ∨ f = .unfinished ∨ f = .tooManyDigits ∨
        ∃ bytes problem, step = .file bytes ∧ f = .badEncoding problem) ∧
      (r = .error .tooManyDigits → ∃ event ∈ events, event.Unshowable) ∧
      ((∃ event ∈ events, event.Unshowable) →
        r = .error .tooManyDigits ∨ r = .error .tooDeep) := by
  have hperform : (step.traced forms limits s).1 = step.perform forms limits s :=
    congrFun (Step.erase_traced forms limits step) s
  have haccount := Step.traced_accounted forms limits step s
  rcases htrace : step.traced forms limits s with ⟨⟨r, t⟩, events⟩
  rw [htrace] at hperform haccount
  refine ⟨r, t, events, hperform.symm, rfl, ?_⟩
  rcases haccount with haccount | ⟨bytes, problem, rfl, hfile⟩
  · refine ⟨fun f hf => ?_, fun hf => haccount.cause (faultOf?_eq_some.mpr hf), fun hun => ?_⟩
    · rcases haccount.told (faultOf?_eq_some.mpr hf) with hdoc | hloop | hdigits
      · exact Or.inl hdoc
      · exact Or.inr (Or.inl hloop)
      · exact Or.inr (Or.inr (Or.inl hdigits))
    · exact (haccount.stops hun).imp faultOf?_eq_some.mp faultOf?_eq_some.mp
  · cases hfile
    refine ⟨fun f hf => ?_, nofun, nofun⟩
    cases hf
    exact Or.inr (Or.inr (Or.inr ⟨bytes, problem, rfl, rfl⟩))

end

set_option maxRecDepth 4000 in
/-- Ten squared thirteen times has 8193 digits, and applying it is a fault that
no caller is told of. -/
theorem large_operator_undocumented :
    ∃ f, faultOf? ((Step.run ["do(define(n, 10), define(i, 0), while(<(i, 13),",
        "  do(set(n, *(n, n)), set(i, +(i, 1)))), n(1))"]).perform Forms.core ⟨20, 20⟩ start).1 =
          some f ∧ ¬ f.family.Documented :=
  ⟨.tooManyDigits, by decide +kernel, id⟩

end Session

end EggLang
