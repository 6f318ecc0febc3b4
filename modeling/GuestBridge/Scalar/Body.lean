import GuestBridge.Host.Value

/-!
# Guest scalars

A handle names a slot of a heap together with the generation the slot had when the scalar was
allocated. Freeing a slot moves its generation on, so a handle that outlived its scalar no longer
fits and is refused.

What a scalar holds is its body. A reference, an array and a hash own one share of each scalar they
name; these are the children of the body.
-/

namespace GuestBridge

/-- Slot index and generation. The generation counts modulo `2 ^ 32`. -/
structure Handle where
  index : Nat
  generation : UInt32
  deriving DecidableEq, Repr, Inhabited

/-- A byte string. -/
abbrev Bytes := List UInt8

/-- A named guest sub. `closure` is the host object that carries its code and what it captured. -/
structure Sub where
  name : String
  closure : ObjectId
  deriving DecidableEq, Repr, Inhabited

/-- What a guest scalar holds. A hash lists its entries in the order in which it enumerates them;
every key occurs once. -/
inductive Body where
  | undef
  | int (value : Int64)
  | num (value : Binary64)
  | str (bytes : Bytes)
  | ref (target : Handle)
  | array (items : List Handle)
  | hash (entries : List (Bytes × Handle))
  | code (sub : Sub)
  deriving DecidableEq, Inhabited

namespace Body

/-- The name of the kind of a body. -/
def kind : Body → String
  | undef => "undef"
  | int _ => "integer"
  | num _ => "number"
  | str _ => "string"
  | ref _ => "reference"
  | array _ => "array"
  | hash _ => "hash"
  | code _ => "code"

/-- The scalars the body owns one share of, once per occurrence. -/
def children : Body → List Handle
  | ref target => [target]
  | array items => items
  | hash entries => entries.map (·.2)
  | _ => []

/-- The closure a code body keeps alive. -/
def closure? : Body → Option ObjectId
  | code sub => some sub.closure
  | _ => none

end Body

end GuestBridge
