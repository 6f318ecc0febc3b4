import GuestBridge.Guest.Fault

/-!
# Errors of a bridge

Why a value or a call did not get across. A fault of the guest passes through with its own text.
-/

namespace GuestBridge

/-- Why a bridge operation failed. -/
inductive CrossingError where
  /-- No guest scalar corresponds to a host value of this type. -/
  | unsupportedConversion (typeName : String)
  /-- The guest itself failed. -/
  | guest (fault : Fault)
  /-- A boundary object was used with an interpreter that does not own its scalar. -/
  | crossInterpreter (owner target : InterpreterId)
  /-- The value nests deeper than the limit. -/
  | nestingTooDeep (limit : Nat)
  /-- A method call came without the slot of its receiver. -/
  | missingInvocantSlot
  /-- A tail call returns, and there is no caller left to return through. -/
  | missingCallerContinuation
  deriving DecidableEq, Repr, Inhabited

namespace CrossingError

/-- The text of an error. -/
def message : CrossingError → String
  | unsupportedConversion typeName =>
    "cannot marshal VM value of type '" ++ typeName ++ "' to the guest runtime"
  | guest fault => fault.message
  | crossInterpreter owner target =>
    "guest scalar owned by interpreter #" ++ toString owner.number
      ++ " cannot be passed to interpreter #" ++ toString target.number
  | nestingTooDeep limit =>
    "VM value nesting exceeds the marshaling limit of " ++ toString limit
  | missingInvocantSlot => "method call is missing the positional invocant slot"
  | missingCallerContinuation => "tail-called invoke has no caller continuation to return through"

/-- Did the guest itself fail? -/
def isGuestFault : CrossingError → Bool
  | guest _ => true
  | _ => false

end CrossingError

end GuestBridge
