/-
# `EggLang.Text.Utf8` — strict decoding of UTF-8

A file's bytes are a text only if they are the encoding of one.  The
decoder takes the shortest encodings of scalar values and nothing else:

    00..7F
    C2..DF  80..BF
    E0      A0..BF  80..BF
    E1..EC  80..BF  80..BF
    ED      80..9F  80..BF
    EE..EF  80..BF  80..BF
    F0      90..BF  80..BF  80..BF
    F1..F3  80..BF  80..BF  80..BF
    F4      80..8F  80..BF  80..BF

so overlong forms, surrogates and values above `10FFFF` are refused.  A
refusal names the bytes at fault: the longest beginning of a row above that
the input does have, or the one byte that begins no row.
-/
import EggLang.Text.Quoted

namespace EggLang.Text

/-- Why bytes are not the encoding of a text. -/
inductive Utf8Reason where
  | start
  | continuation
  | truncated
deriving DecidableEq

/-- A refusal: the bytes at fault, where they stand, and the reason. -/
structure Utf8Fault where
  position : Nat
  first : UInt8
  width : Nat
  reason : Utf8Reason
deriving DecidableEq

/-- A byte that may follow another one in every row of the table. -/
def isTail (b : UInt8) : Bool := 0x80 ≤ b && b ≤ 0xbf

/-- How many bytes must follow the first one; `none` if it begins no row. -/
def tailCount (b : UInt8) : Option Nat :=
  if b ≤ 0x7f then some 0
  else if b < 0xc2 then none
  else if b ≤ 0xdf then some 1
  else if b ≤ 0xef then some 2
  else if b ≤ 0xf4 then some 3
  else none

/-- The bytes that may stand second, after the given first one. -/
def isSecond (first b : UInt8) : Bool :=
  if first = 0xe0 then 0xa0 ≤ b && b ≤ 0xbf
  else if first = 0xed then 0x80 ≤ b && b ≤ 0x9f
  else if first = 0xf0 then 0x90 ≤ b && b ≤ 0xbf
  else if first = 0xf4 then 0x80 ≤ b && b ≤ 0x8f
  else isTail b

/-- The bits that the first byte of a row with `missing` further bytes
contributes. -/
def leadBits (first : UInt8) : (missing : Nat) → Nat
  | 1 => first.toNat - 0xc0
  | 2 => first.toNat - 0xe0
  | 3 => first.toNat - 0xf0
  | _ => first.toNat

/-- How far a row's bytes go along the input. -/
inductive Unit8 where
  /-- A whole row: its scalar value, and the bytes after it. -/
  | scalar (n : Nat) (rest : List UInt8)
  /-- The byte after the first `width` ones does not continue the row. -/
  | broken (width : Nat)
  /-- The input ends after `width` bytes of the row. -/
  | short (width : Nat)

/-- Takes `missing` further bytes of a row of which `width` are read and
`n` is the value so far. -/
def takeTail : (missing width n : Nat) → List UInt8 → Unit8
  | 0, _, n, bytes => .scalar n bytes
  | _ + 1, width, _, [] => .short width
  | missing + 1, width, n, b :: bytes =>
      if isTail b then takeTail missing (width + 1) (n * 64 + (b.toNat - 0x80)) bytes
      else .broken width

/-- Reads the row that begins with `first` and needs `missing` more bytes. -/
def takeUnit (first : UInt8) (missing : Nat) (bytes : List UInt8) : Unit8 :=
  match missing, bytes with
  | 0, bytes => .scalar first.toNat bytes
  | _ + 1, [] => .short 1
  | missing + 1, b :: bytes =>
      if isSecond first b then
        takeTail missing 2 (leadBits first (missing + 1) * 64 + (b.toNat - 0x80)) bytes
      else .broken 1

theorem takeTail_length {missing width n m : Nat} {bytes rest : List UInt8}
    (h : takeTail missing width n bytes = .scalar m rest) : rest.length ≤ bytes.length := by
  induction missing generalizing width n bytes with
  | zero => simp only [takeTail, Unit8.scalar.injEq] at h; simp [h.2]
  | succ k ih =>
    cases bytes with
    | nil => simp [takeTail] at h
    | cons b bytes =>
      simp only [takeTail] at h
      split at h
      · exact Nat.le_succ_of_le (ih h)
      · cases h

theorem takeUnit_length {first : UInt8} {missing m : Nat} {bytes rest : List UInt8}
    (h : takeUnit first missing bytes = .scalar m rest) : rest.length ≤ bytes.length := by
  unfold takeUnit at h
  split at h
  · simp only [Unit8.scalar.injEq] at h; simp [h.2]
  · cases h
  · split at h
    · exact Nat.le_succ_of_le (takeTail_length h)
    · cases h

/-- Decodes the bytes that stand from `position` on; the characters before
them are in `done`, the last one first. -/
def decodeFrom (position : Nat) (done : List Char) (bytes : List UInt8) :
    Except Utf8Fault (List Char) :=
  match bytes with
  | [] => .ok done.reverse
  | b :: bytes =>
      match tailCount b with
      | none => .error ⟨position, b, 1, .start⟩
      | some missing =>
          match h : takeUnit b missing bytes with
          | .broken width => .error ⟨position, b, width, .continuation⟩
          | .short width => .error ⟨position, b, width, .truncated⟩
          | .scalar n rest => decodeFrom (position + missing + 1) (Char.ofNat n :: done) rest
termination_by bytes.length
decreasing_by exact Nat.lt_succ_of_le (takeUnit_length h)

/-- The text that the bytes encode, or the first fault. -/
def decodeUtf8 (bytes : List UInt8) : Except Utf8Fault (List Char) :=
  decodeFrom 0 [] bytes

def Utf8Reason.text : Utf8Reason → String
  | .start => "invalid start byte"
  | .continuation => "invalid continuation byte"
  | .truncated => "unexpected end of data"

/-- The bytes at fault as a message names them: one by its value, several
by the positions of the first and the last. -/
def Utf8Fault.subject (f : Utf8Fault) : String :=
  if f.width = 1 then
    "byte 0x" ++ String.ofList (hexDigits 2 f.first.toNat) ++ " in position " ++ f.position.repr
  else
    "bytes in position " ++ f.position.repr ++ "-" ++ (f.position + f.width - 1).repr

def Utf8Fault.message (f : Utf8Fault) : String :=
  "'utf-8' codec can't decode " ++ f.subject ++ ": " ++ f.reason.text

end EggLang.Text
