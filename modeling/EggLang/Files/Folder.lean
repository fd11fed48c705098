/-
# `EggLang.Files.Folder` — a working folder in memory

What a program can learn of the files around it is, for each path, what it
finds there.  A `Folder` answers that for a folder that holds the given
entries and nothing else.  A path is walked part by part: a file has nothing
below it, two points lead to the folder above, and what lies outside of the
working folder is folders only, of which nothing but themselves is known.

Names have a length, counted in bytes.  A path of `pathBytes` or more is
refused before it is walked, and a part of more than `partBytes` where the walk
comes to it, so that a path is not refused for a part behind a missing folder.
All that is in a `Folder` may be opened and entered, and there are no links in
it: these are cases of `Found` that other file systems have.
-/
import EggLang.Files.Path

namespace EggLang

/-- What a path leads to. -/
inductive Found where
  | file (bytes : List UInt8)
  | folder
  /-- There is nothing. -/
  | nothing
  /-- A part before the last one is a file. -/
  | throughFile
  /-- Links lead round in a circle. -/
  | circle
  /-- No file can have this name. -/
  | badName
  /-- There is something, but it may not be opened. -/
  | locked
  /-- A folder on the way may not be entered. -/
  | denied
  /-- The path, or a part of it, is longer than names are. -/
  | longName

/-- There is a file or a folder. -/
def Found.isSome : Found → Bool
  | .file _ => true
  | .folder => true
  | .locked => true
  | _ => false

def byteCount (cs : List Char) : Nat := cs.foldl (fun n c => n + c.utf8Size) 0

/-- The most bytes that a part of a path may have. -/
def partBytes : Nat := 255

/-- The fewest bytes that are too many for a path. -/
def pathBytes : Nat := 4096

/-- Files and folders by the parts of their paths from the working folder;
a folder has no bytes. -/
structure Folder where
  entries : List (List (List Char) × Option (List UInt8))

namespace Folder

/-- What stands at the given parts, which have no two points. -/
def entry (d : Folder) (parts : List (List Char)) : Found :=
  if parts = [] then .folder
  else
    match d.entries.find? fun e => e.1 == parts with
    | some (_, some bytes) => .file bytes
    | some (_, none) => .folder
    | none =>
        if d.entries.any fun e => parts.isPrefixOf e.1 then .folder else .nothing

/-- Where a walk stands: below the working folder, or outside of it. -/
inductive Spot where
  | inside (parts : List (List Char))
  | outside

def walk (d : Folder) : Spot → List (List Char) → Found
  | .inside here, [] => d.entry here
  | .outside, [] => .folder
  | .outside, part :: parts =>
      if part = ['.', '.'] then walk d .outside parts
      else if partBytes < byteCount part then .longName
      else .nothing
  | .inside here, part :: parts =>
      match d.entry here with
      | .file _ => .throughFile
      | .folder =>
          if part = ['.', '.'] then
            if here = [] then walk d .outside parts else walk d (.inside here.dropLast) parts
          else if partBytes < byteCount part then .longName
          else walk d (.inside (here ++ [part])) parts
      | found => found

def look (d : Folder) (p : Path) : Found :=
  if p.parts.any fun part => part.contains '\x00' then .badName
  else if pathBytes ≤ byteCount p.chars then .longName
  else if p.isAbsolute then d.walk .outside p.parts
  else d.walk (.inside []) p.parts

end Folder

end EggLang
