/-
# `EggLang.Kind` — the kinds of values

Operators accept operands by kind, equality holds only within one kind, and
messages name the kinds they were given.
-/

namespace EggLang

inductive Kind where
  | boolean
  | number
  | string
  | array
  | function
  /-- The kind of the host's empty value, which no program makes. -/
  | void
deriving DecidableEq

def Kind.name : Kind → String
  | .boolean => "boolean"
  | .number => "number"
  | .string => "string"
  | .array => "array"
  | .function => "function"
  | .void => "NoneType"

end EggLang
