import GuestBridge.Scalar.Body

/-!
# Faults of a guest interpreter

The ways an operation of a guest interpreter can fail, and the text of each.
-/

namespace GuestBridge

/-- Why a guest operation failed. -/
inductive Fault where
  /-- No package on the search path defines the method. -/
  | methodNotFound (method package : String)
  /-- No sub has this name. -/
  | subNotFound (name : String)
  /-- The value called is not code. -/
  | notCallable
  /-- The first argument of a method call names no package. -/
  | invalidInvocant (method reason : String)
  /-- The handle outlived its scalar. -/
  | staleHandle (index : Nat) (generation : UInt32)
  /-- Nothing to take above the innermost mark, or no mark at all. -/
  | stackUnderflow
  /-- Guest code gave up with a message of its own. -/
  | died (text : String)
  deriving DecidableEq, Repr, Inhabited

/-- The fault reported for a handle that no longer fits its slot. -/
def Handle.stale (h : Handle) : Fault := .staleHandle h.index h.generation

namespace Fault

/-- The text of a fault. -/
def message : Fault → String
  | methodNotFound method package =>
    "can't locate method \"" ++ method ++ "\" in package \"" ++ package ++ "\""
  | subNotFound name => "undefined subroutine &" ++ name ++ " called"
  | notCallable => "not a code reference"
  | invalidInvocant method reason => "can't call method \"" ++ method ++ "\" on " ++ reason
  | staleHandle index generation =>
    "attempt to use freed scalar (slot " ++ toString index ++ ", generation "
      ++ toString generation.toNat ++ ")"
  | stackUnderflow => "guest stack underflow"
  | died text => text

end Fault

end GuestBridge
