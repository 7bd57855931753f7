import Mathlib.Algebra.Group.Nat.Defs
import Mathlib.Data.List.Basic
/-!
# Bytes, and what the code throws

A `std::string` is a list of bytes. A function that throws returns `Except
Thrown`; where the state it changed before the throw survives, it returns the
state beside an `Option Thrown`.
-/

namespace Zar

abbrev Bytes := List UInt8

/-- A string literal of the source. -/
def text (s : String) : Bytes := s.toByteArray.data.toList

/-- `texception::ttype`. -/
inductive ExceptionType where
  | invalid_value | busy | no_access | protocol_error | socket_error | not_implemented_yet | internal_failure
  deriving DecidableEq, Repr

/-- Everything that is thrown: a `texception`, the `0` of `throw 0`, or the
`system_error` of a boost call. The function, file and line that the macros
put into a message are the compiler's and are left out. -/
inductive Thrown where
  | texception (type : ExceptionType) (message : Bytes)
  | int (value : Int)
  | system_error
  deriving DecidableEq, Repr

def NOT_IMPLEMENTED_YET : Thrown := .texception .not_implemented_yet (text "'Code not implemented")

/-- `substr(pos, len)` for `pos` within the string; too large a `len` takes the rest. -/
def substr (s : Bytes) (pos len : Nat) : Bytes := (s.drop pos).take len

/-- Subtraction of `size_t`, which wraps below zero. -/
def sizeSub (a b : Nat) : Nat := if b ≤ a then a - b else a + 2 ^ 64 - b

end Zar
