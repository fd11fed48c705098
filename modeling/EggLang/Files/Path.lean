/-
# `EggLang.Files.Path` — names of files

A path is a number of slashes at its beginning and the parts after them.
Empty parts and parts that are a single point mean nothing and are dropped,
so that one path has one text; two points stay, because what they mean
depends on the folders there are.  Two slashes at the beginning are told
apart from one, three or more are not.
-/
import EggLang.Text.Split

namespace EggLang

/-- A path without empty parts. -/
structure Path where
  slashes : Nat
  parts : List (List Char)
deriving DecidableEq

namespace Path

/-- A part that says where to go. -/
def isProper (part : List Char) : Bool := part ≠ [] && part ≠ ['.']

/-- The slashes that a path of so many leading slashes keeps. -/
def keptSlashes (n : Nat) : Nat := if n ≤ 2 then n else 1

def ofChars (cs : List Char) : Path where
  slashes := keptSlashes (cs.takeWhile (· = '/')).length
  parts := (Text.splitAt '/' cs).filter isProper

/-- The text of a path; the path of no parts is a point. -/
def chars (p : Path) : List Char :=
  if p.slashes = 0 ∧ p.parts = [] then ['.']
  else List.replicate p.slashes '/' ++ ['/'].intercalate p.parts

def ofString (s : String) : Path := ofChars s.toList

def text (p : Path) : String := String.ofList p.chars

/-- The path does not depend on where one stands. -/
def isAbsolute (p : Path) : Bool := p.slashes ≠ 0

/-- The second path, seen from the first. -/
def join (p q : Path) : Path :=
  if q.isAbsolute then q else ⟨p.slashes, p.parts ++ q.parts⟩

example : (ofString "./a//b/").text = "a/b" ∧ (ofString "").text = "." := by decide +kernel

example : (ofString "//a").text = "//a" ∧ (ofString "///a").text = "/a" := by decide +kernel

end Path

end EggLang
