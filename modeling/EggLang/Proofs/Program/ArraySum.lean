/-
# `EggLang.Proofs.Program.ArraySum` — a program that adds up an array

The program defines a function that adds up the integers of an array with a
loop, and prints what it gives for three of them:

    do(define(sum, fun(array,
           do(define(i, 0),
              define(sum, 0),
              while(<(i, length(array)),
                  do(define(sum, +(sum, element(array, i))),
                     define(i, +(i, 1)))),
              sum))),
       print(sum(array(1, 2, 3))))

Three names have two meanings.  The parameter `array` hides the builtin, the
local `sum` hides the function, and `define` is used to bind as well as to bind
again.  All three are settled by what the frame of the call binds, so the proof
follows this one frame: before turn `k` of the loop it binds

    array    the array
    i        k
    sum      the sum of the first k integers

and nothing else has changed since the call (`turn_returns`).
-/
import EggLang.Proofs.Program.Returns
import EggLang.Source.Reader
import Mathlib.Algebra.BigOperators.Group.List.Basic

namespace EggLang

namespace ArraySum

/-- There is another integer to add. -/
def test : Expr := .applyWord "<" [.word "i", .applyWord "length" [.word "array"]]

/-- Adds an integer and goes on to the next. -/
def turn : Expr :=
  .applyWord "do"
    [.applyWord "define"
      [.word "sum", .applyWord "+" [.word "sum", .applyWord "element" [.word "array", .word "i"]]],
    .applyWord "define" [.word "i", .applyWord "+" [.word "i", .number 1]]]

def body : Expr :=
  .applyWord "do"
    [.applyWord "define" [.word "i", .number 0],
    .applyWord "define" [.word "sum", .number 0],
    .applyWord "while" [test, turn],
    .word "sum"]

def definition : Expr :=
  .applyWord "define" [.word "sum", .applyWord "fun" [.word "array", body]]

/-- The function applied to an array of integers. -/
def total (xs : List Int) : Expr :=
  .applyWord "sum" [.applyWord "array" (xs.map .number)]

def lines : List String :=
  ["# Prints the sum of the array passed to sum(array)",
    "do(define(sum, fun(array,",
    "       do(define(i, 0),",
    "          define(sum, 0),",
    "          while(<(i, length(array)),",
    "              do(define(sum, +(sum, element(array, i))),",
    "                 define(i, +(i, 1)))),",
    "          sum))),",
    "   print(sum(array(1, 2, 3))))",
    "# Output: 6",
    ""]

def source : String := "\n".intercalate lines

theorem read_source : Expr.read 10 source =
    .ok (.applyWord "do" [definition, .applyWord "print" [total [1, 2, 3]]]) := by
  have hread : (Expr.readChars 10 (['\n'].intercalate (lines.map String.toList))).toOption =
      some (.applyWord "do" [definition, .applyWord "print" [total [1, 2, 3]]]) := by
    decide +kernel
  rw [Expr.read, source, String.toList_intercalate]
  show Expr.readChars 10 (['\n'].intercalate (lines.map String.toList)) = _
  revert hread
  cases Expr.readChars 10 (['\n'].intercalate (lines.map String.toList)) with
  | error f => exact nofun
  | ok t =>
    intro h
    rw [Option.some.inj h]

/-! ## The frame of a call -/

def values (xs : List Int) : List Value := xs.map fun x => .number (.int x)

/-- What the frame of a call binds, at an index and with a sum. -/
def locals (array : Value) (i : Nat) (sum : Int) : Bindings :=
  [("array", array), ("i", .number (.int i)), ("sum", .number (.int sum))]

section
variable {turns depth : Nat} {s : Store} {e : FrameId} {identity k : Nat} {xs : List Int}
variable {m : Int}

/-- The test asks whether the index is one of the array, and leaves the store. -/
theorem test_returns (hs : s.Standard e) :
    let t := (s.push (some e) (locals (.array identity (values xs)) k m)).2
    Returns turns (depth + 3) test s.frames.size t (.bool (decide (k < xs.length))) t := by
  intro t
  have hlength : Returns turns (depth + 2) (.applyWord "length" [.word "array"]) s.frames.size t
      (.number (.int xs.length)) t := by
    refine (ReturnsAll.cons (returns_local rfl) .nil).builtinLocal (b := .length) hs (by decide)
      rfl ?_
    show (Except.ok (Value.number (.int (values xs).length)), t) = _
    rw [values, List.length_map]
  refine (ReturnsAll.cons (returns_local rfl) (.cons hlength .nil)).builtinLocal (b := .less) hs
    (by decide) rfl ?_
  show (Except.ok (Value.bool ((Number.int k).less (.int xs.length))), t) = _
  rw [Number.int_less_int]
  simp only [Int.ofNat_lt]

/-- One turn adds the integer at the index to the sum, and one to the index. -/
theorem turn_returns (hs : s.Standard e) (hk : k < xs.length) :
    let array := Value.array identity (values xs)
    ∃ v, Returns turns (depth + 5) turn s.frames.size
      (s.push (some e) (locals array k (xs.take k).sum)).2 v
      (s.push (some e) (locals array (k + 1) (xs.take (k + 1)).sum)).2 := by
  intro array
  let t := (s.push (some e) (locals array k (xs.take k).sum)).2
  let u := (s.push (some e) (locals array k (xs.take (k + 1)).sum)).2
  have helement : Returns turns (depth + 2) (.applyWord "element" [.word "array", .word "i"])
      s.frames.size t (.number (.int xs[k])) t := by
    refine (ReturnsAll.cons (returns_local rfl) (.cons (returns_local rfl) .nil)).builtinLocal
      (b := .element) hs (by decide) rfl ?_
    show (Builtin.elementAt (values xs) k, t) = _
    simp [Builtin.elementAt, values, hk]
  have hadd : Returns turns (depth + 3)
      (.applyWord "+" [.word "sum", .applyWord "element" [.word "array", .word "i"]])
      s.frames.size t (.number (.int (xs.take (k + 1)).sum)) t := by
    rw [List.sum_take_succ xs k hk]
    exact (ReturnsAll.cons (returns_local rfl) (.cons helement .nil)).builtinLocal (b := .add) hs
      (by decide) rfl rfl
  have hnext : Returns turns (depth + 3) (.applyWord "+" [.word "i", .number 1]) s.frames.size u
      (.number (.int (k + 1 : Nat))) u :=
    (ReturnsAll.cons (returns_local rfl) (.cons (returns_number 1) .nil)).builtinLocal (b := .add)
      hs (by decide) rfl rfl
  exact ⟨_, (ReturnsAll.cons hadd.defineLocal (.cons hnext.defineLocal .nil)).sequence⟩

/-- The call adds up the whole array. -/
theorem body_returns (hs : s.Standard e) (hturns : xs.length < turns) :
    let array := Value.array identity (values xs)
    Returns turns (depth + 7) body s.frames.size (s.push (some e) [("array", array)]).2
      (.number (.int xs.sum)) (s.push (some e) (locals array xs.length xs.sum)).2 := by
  intro array
  let state := fun k => (s.push (some e) (locals array k (xs.take k).sum)).2
  have hloop : Returns turns (depth + 6) (.applyWord "while" [test, turn]) s.frames.size (state 0)
      (.bool false) (state xs.length) := by
    refine returns_while hturns ?_ ?_ ?_
    · intro k hk
      have htest := @test_returns turns (depth + 2) s e identity k xs (xs.take k).sum hs
      rwa [decide_eq_true hk] at htest
    · intro k hk
      exact turn_returns hs hk
    · have htest := @test_returns turns (depth + 2) s e identity xs.length xs
        (xs.take xs.length).sum hs
      rwa [decide_eq_false (Nat.lt_irrefl _)] at htest
  have hlast : state xs.length = (s.push (some e) (locals array xs.length xs.sum)).2 := by
    show (s.push (some e) (locals array xs.length (xs.take xs.length).sum)).2 = _
    rw [List.take_length]
  rw [hlast] at hloop
  exact (ReturnsAll.cons (returns_number 0).defineLocal (.cons (returns_number 0).defineLocal
    (.cons hloop (.cons (returns_local rfl) .nil)))).sequence

end

theorem returnsAll_numbers {turns depth : Nat} {e : FrameId} {s : Store} (xs : List Int) :
    ReturnsAll turns (depth + 1) (xs.map .number) e s (values xs) s := by
  induction xs with
  | nil => exact .nil
  | cons x xs ih => exact .cons (returns_number x) ih

/-- In a frame that sees the global names, the function of the program can be
defined, and applied to an array of any integers it returns their sum.  It needs
a fixed depth, and as many turns as there are integers and one more.  It prints
nothing, and what the frames bound before the call they bind after it. -/
theorem total_returns {s : Store} {e : FrameId} (hs : s.Standard e) (xs : List Int)
    {turns depth : Nat} (hdepth : 8 ≤ depth) (hturns : xs.length < turns) :
    Expr.read 10 source =
      .ok (.applyWord "do" [definition, .applyWord "print" [total [1, 2, 3]]]) ∧
    ∃ f t u, Returns turns depth definition e s f t ∧
      Returns turns depth (total xs) e t (.number (.int xs.sum)) u ∧
      u.printed = s.printed ∧ ∀ g < t.frames.size, u.bindings g = t.bindings g := by
  obtain ⟨depth, rfl⟩ := Nat.exists_eq_add_of_le' hdepth
  refine ⟨read_source, ?_⟩
  let f := Value.closure s.fresh ["array"] body e
  let t := s.freshId.2.define e "sum" f
  let array := Value.array t.fresh (values xs)
  have ht : t.Standard e := hs.freshId.define hs.inside f (by decide +kernel)
  have htaken : t.freshId.2.Standard e := ht.freshId
  have hfunction : Returns turns (depth + 7) (.applyWord "fun" ([.word "array"] ++ [body])) e s f
      s.freshId.2 := returns_function rfl
  have harray : Returns turns (depth + 7) (.applyWord "array" (xs.map .number)) e t array
      t.freshId.2 :=
    (returnsAll_numbers xs).builtin rfl (ht.sees_builtin (b := .array) (by decide)) rfl
  have hsum : t.lookup e "sum" = .ok f := Store.lookup_define_self hs.freshId.inside "sum" f
  have hcall : Returns turns (depth + 8) (total xs) e t (.number (.int xs.sum))
      (t.freshId.2.push (some e) (locals array xs.length xs.sum)).2 :=
    (ReturnsAll.cons harray .nil).closure rfl hsum rfl (body_returns htaken hturns)
  refine ⟨f, t, _, hfunction.define, hcall, rfl, ?_⟩
  intro g hg
  exact Store.bindings_push_of_lt (some e) hg

/-- Negative integers, and one beyond any machine word. -/
theorem total_returns_signs :
    let s := (Session.start.push (some Session.globalFrame) []).2
    ∃ f t u, Returns 4 8 definition 2 s f t ∧
      Returns 4 8 (total [3, -5, 10 ^ 30]) 2 t (.number (.int (10 ^ 30 - 2))) u := by
  intro s
  have hs : s.Standard 2 := Store.sound_start.standard_push rfl
  obtain ⟨-, f, t, u, hf, hu, -, -⟩ :=
    total_returns hs [3, -5, 10 ^ 30] (Nat.le_refl 8) (Nat.lt_succ_self 3)
  exact ⟨f, t, u, hf, hu⟩

end ArraySum

end EggLang
