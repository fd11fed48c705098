/-
# `EggLang.Source.Expr` — the syntax tree

An Egg program is one expression: a number, a text, a word, or an operator
applied to arguments.  A tree that was put together by hand may also have a
hole, a place where no expression was filled in; reading a source never
makes one, and neither writing nor evaluating a tree gets past one.
-/

namespace EggLang

inductive Expr where
  | number (n : Int)
  | text (s : String)
  | word (name : String)
  | apply (operator : Expr) (args : List Expr)
  | hole
deriving Inhabited

namespace Expr

mutual

/-- Equality of trees, decided along their structure. -/
def decEq : (a b : Expr) → Decidable (a = b)
  | .number m, .number n =>
      if h : m = n then .isTrue (h ▸ rfl) else .isFalse fun e => h (Expr.number.inj e)
  | .text s, .text t =>
      if h : s = t then .isTrue (h ▸ rfl) else .isFalse fun e => h (Expr.text.inj e)
  | .word x, .word y =>
      if h : x = y then .isTrue (h ▸ rfl) else .isFalse fun e => h (Expr.word.inj e)
  | .apply f as, .apply g bs =>
      match decEq f g, decEqs as bs with
      | .isTrue hf, .isTrue ha => .isTrue (hf ▸ ha ▸ rfl)
      | .isFalse hf, _ => .isFalse fun e => hf (Expr.apply.inj e).1
      | _, .isFalse ha => .isFalse fun e => ha (Expr.apply.inj e).2
  | .hole, .hole => .isTrue rfl
  | .number _, .text _ | .number _, .word _ | .number _, .apply .. | .number _, .hole
  | .text _, .number _ | .text _, .word _ | .text _, .apply .. | .text _, .hole
  | .word _, .number _ | .word _, .text _ | .word _, .apply .. | .word _, .hole
  | .apply .., .number _ | .apply .., .text _ | .apply .., .word _ | .apply .., .hole
  | .hole, .number _ | .hole, .text _ | .hole, .word _ | .hole, .apply .. =>
      .isFalse nofun

def decEqs : (as bs : List Expr) → Decidable (as = bs)
  | [], [] => .isTrue rfl
  | a :: as, b :: bs =>
      match decEq a b, decEqs as bs with
      | .isTrue ha, .isTrue hs => .isTrue (ha ▸ hs ▸ rfl)
      | .isFalse ha, _ => .isFalse fun e => ha (List.cons.inj e).1
      | _, .isFalse hs => .isFalse fun e => hs (List.cons.inj e).2
  | [], _ :: _ | _ :: _, [] => .isFalse nofun

end

instance : DecidableEq Expr := decEq

end Expr

end EggLang
