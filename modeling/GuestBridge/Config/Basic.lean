import GuestBridge.Scalar.Body

/-!
# Settings of a bridge

How deep host values may nest, how host text becomes guest bytes, whether each event leaves a
record, and whether a method call must bring the slot of its receiver.
-/

namespace GuestBridge

/-- How host text becomes a guest byte string: all of it, or up to the first NUL. -/
inductive StringPolicy where
  | preserve
  | truncateAtNul
  deriving DecidableEq, Repr, Inhabited

/-- The bytes a policy lets through. -/
def StringPolicy.apply : StringPolicy → Bytes → Bytes
  | preserve, bytes => bytes
  | truncateAtNul, bytes => bytes.takeWhile (· ≠ 0)

/-- Settings of a bridge. -/
structure Config where
  /-- Deepest nesting of arrays and hashes that is converted. -/
  maxDepth : Nat := 512
  stringPolicy : StringPolicy := .preserve
  /-- Keep a record of each event, besides counting it. -/
  traceCalls : Bool := false
  /-- Refuse a method call whose positional arguments lack the receiver's slot. -/
  strictInvocantSlot : Bool := true
  deriving DecidableEq, Repr, Inhabited

end GuestBridge
