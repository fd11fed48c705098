/-
# `EggLang.Store.Basic` — frames, identities and printed lines

Evaluation works on one store.  It holds

    frames    every frame ever made, by number; a frame has bindings in the
              order in which their names were first bound, and the number
              of the frame around it, unless it is a global one
    fresh     the number of the next array or closure
    printed   the lines that programs have printed

A frame is made around an earlier one, so numbers fall along a chain and the
walk from frame `e` outward has at most `e + 1` steps.  The walk is bounded
by that count, which later frames do not change.

    define    binds a name in one frame, in its old place if it has one
    find      the nearest frame around `e` that binds a name
    lookup    the value there
    set       rebinds the name there
-/
import EggLang.Fault
import EggLang.Store.Bindings
import EggLang.Value.Display

namespace EggLang

structure Frame where
  outer : Option FrameId
  bindings : Bindings

/-- The state of all programs that share a global frame. -/
structure Store where
  frames : Array Frame
  fresh : Nat
  printed : Array String

namespace Store

def empty : Store := ⟨#[], 0, #[]⟩

/-! ## Frames -/

/-- Makes a frame with the given bindings and returns its number. -/
def push (s : Store) (outer : Option FrameId) (bindings : Bindings) : FrameId × Store :=
  (s.frames.size, { s with frames := s.frames.push ⟨outer, bindings⟩ })

def bindings (s : Store) (e : FrameId) : Bindings :=
  match s.frames[e]? with
  | some f => f.bindings
  | none => []

def outer? (s : Store) (e : FrameId) : Option FrameId :=
  match s.frames[e]? with
  | some f => f.outer
  | none => none

def owns (s : Store) (e : FrameId) (x : String) : Bool :=
  (s.bindings e).owns x

/-- Changes the bindings of one frame. -/
def mapBindings (s : Store) (e : FrameId) (g : Bindings → Bindings) : Store :=
  { s with frames := s.frames.modify e fun f => { f with bindings := g f.bindings } }

def define (s : Store) (e : FrameId) (x : String) (v : Value) : Store :=
  s.mapBindings e fun bs => bs.put x v

/-- Binds names in a frame, one after the other. -/
def update (s : Store) (e : FrameId) (pairs : List (String × Value)) : Store :=
  pairs.foldl (fun s p => s.define e p.1 p.2) s

/-! ## Chains -/

/-- The frames from `e` outward, at most `n` of them. -/
def chainFrom (s : Store) : (n : Nat) → FrameId → List FrameId
  | 0, _ => []
  | n + 1, e =>
      match s.frames[e]? with
      | none => []
      | some f =>
          match f.outer with
          | none => [e]
          | some o => e :: chainFrom s n o

/-- The frames from `e` outward to its global frame. -/
def chain (s : Store) (e : FrameId) : List FrameId := s.chainFrom (e + 1) e

def depth (s : Store) (e : FrameId) : Nat := (s.chain e).length - 1

/-- The nearest frame from `e` outward that binds the name. -/
def find? (s : Store) (e : FrameId) (x : String) : Option FrameId :=
  (s.chain e).find? fun f => s.owns f x

/-- The value of a name, seen from a frame. -/
def lookup (s : Store) (e : FrameId) (x : String) : Except Fault Value :=
  match s.find? e x with
  | none => .error (.unboundRead x)
  | some f =>
      match (s.bindings f).get? x with
      | some v => .ok v
      | none => .error (.unboundRead x)

/-- Rebinds a name in the nearest frame that binds it. -/
def set (s : Store) (e : FrameId) (x : String) (v : Value) : Except Fault Store :=
  match s.find? e x with
  | none => .error (.unboundWrite x)
  | some f => .ok (s.define f x v)

/-! ## Identities and lines -/

/-- A number that no array or closure has yet. -/
def freshId (s : Store) : Nat × Store := (s.fresh, { s with fresh := s.fresh + 1 })

def printLine (s : Store) (line : String) : Store :=
  { s with printed := s.printed.push line }

def output (s : Store) : String :=
  s.printed.foldl (fun text line => text ++ line ++ "\n") ""

/-! ## Listings -/

/-- One binding of a listing. -/
def listed (limit : Nat) (b : String × Value) : Except Fault String := do
  let text ← b.2.debug limit
  .ok (b.1 ++ ": " ++ text)

/-- The bindings of one frame between braces. -/
def listing (limit : Nat) (bs : Bindings) : Except Fault String := do
  let items ← bs.mapM (listed limit)
  .ok ("\x7b" ++ ", ".intercalate items ++ "\x7d")

/-- A frame by itself, with a sign that there are frames around it. -/
def frameText (s : Store) (limit : Nat) (e : FrameId) : Except Fault String := do
  let text ← listing limit (s.bindings e)
  .ok (if (s.outer? e).isSome then text ++ " -> ..." else text)

/-- A frame with all frames around it, the innermost first. -/
def chainText (s : Store) (limit : Nat) (e : FrameId) : Except Fault String := do
  let texts ← (s.chain e).mapM fun f => listing limit (s.bindings f)
  .ok ("<Environment chain: " ++ " -> ".intercalate texts ++ ">")

end Store

end EggLang
