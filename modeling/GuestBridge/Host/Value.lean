import GuestBridge.Decimal.Binary64

/-!
# Host values

The host is dynamically typed. Plain scalars are held in the value itself; arrays, hashes, opaque
objects and boundary objects live in the host's store and a value names one of them, so that a
change through one holder is seen through all of them.

Guest interpreters, stored objects and telemetry collectors go by identifiers. These are handed out
in order and never used again, so two different things never carry the same one.
-/

namespace GuestBridge

/-! ## Identifiers -/

/-- Number of a guest interpreter; the first one created is number 1. -/
structure InterpreterId where
  number : Nat
  deriving DecidableEq, Repr, Inhabited

/-- Position of a shared host object in its store. -/
structure ObjectId where
  number : Nat
  deriving DecidableEq, Repr, Inhabited

/-- Number of a telemetry collector. -/
structure CollectorId where
  number : Nat
  deriving DecidableEq, Repr, Inhabited

/-! ## Values -/

/-- A host value. A boundary object stands for a guest scalar. -/
inductive Value where
  | undef
  | integer (value : Int64)
  | float (value : Binary64)
  | text (value : String)
  | array (id : ObjectId)
  | hash (id : ObjectId)
  | boundary (id : ObjectId)
  | object (id : ObjectId)
  deriving DecidableEq, Repr, Inhabited

namespace Value

/-- The stored object a value names. -/
def shared? : Value → Option ObjectId
  | array id | hash id | boundary id | object id => some id
  | _ => none

/-- Plain scalars are equal by value, everything else by identity. -/
def same : Value → Value → Bool
  | undef, undef => true
  | integer a, integer b => a == b
  | float a, float b => a.sameNumber b
  | text a, text b => a == b
  | array a, array b | hash a, hash b | boundary a, boundary b | object a, object b => a == b
  | _, _ => false

/-- The number of an integer. -/
def integer? : Value → Option Int64
  | integer n => some n
  | _ => none

/-- The number of a float. -/
def float? : Value → Option Binary64
  | float x => some x
  | _ => none

/-- The text of a text value. -/
def text? : Value → Option String
  | text s => some s
  | _ => none

end Value

/-! ## Capabilities -/

/-- What a value can be used as. -/
inductive Capability where
  | scalar
  | array
  | hash
  deriving DecidableEq, Repr, Inhabited

/-- The capability of a name. -/
def Capability.ofName? : String → Option Capability
  | "scalar" => some scalar
  | "array" => some array
  | "hash" => some hash
  | _ => none

/-- Does a value have a capability? A boundary object counts as a scalar. -/
def Value.does : Value → Capability → Bool
  | integer _, .scalar | float _, .scalar | text _, .scalar | boundary _, .scalar => true
  | array _, .array => true
  | hash _, .hash => true
  | _, _ => false

end GuestBridge
