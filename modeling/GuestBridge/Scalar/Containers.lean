import GuestBridge.Entries
import GuestBridge.Scalar.Heap

/-!
# References, arrays and hashes

Heap operations that put one scalar into another, and so move shares between the caller and a
body. Each takes over the caller's share of what it stores, and only when it succeeds.
-/

namespace GuestBridge.Heap

/-! ## References -/

/-- A reference that takes over the caller's share of its target. -/
def referTaking (hp : Heap) (target : Handle) : Except Fault Handle × Heap :=
  if hp.contains target then
    let (h, hp) := hp.allocate (.ref target)
    (.ok h, hp)
  else (.error target.stale, hp)

/-- A reference with a share of its own of its target. -/
def referSharing (hp : Heap) (target : Handle) : Except Fault Handle × Heap :=
  match hp.share target with
  | (.ok _, hp) =>
    let (h, hp) := hp.allocate (.ref target)
    (.ok h, hp)
  | (.error fault, hp) => (.error fault, hp)

/-- The target of a reference. -/
def deref (hp : Heap) (reference : Handle) : Except Fault Handle :=
  match hp.body reference with
  | .ok (.ref target) => .ok target
  | .ok other => .error (.died ("not a reference: " ++ other.kind))
  | .error fault => .error fault

/-- Blesses the target of a reference. -/
def blessTarget (hp : Heap) (reference : Handle) (package : String) : Except Fault Unit × Heap :=
  match hp.body reference with
  | .ok (.ref target) => hp.bless target package
  | .ok other => (.error (.died ("can't bless non-reference value (" ++ other.kind ++ ")")), hp)
  | .error fault => (.error fault, hp)

/-! ## Arrays and hashes -/

/-- Appends an item to an array. -/
def arrayPush (hp : Heap) (array item : Handle) : Except Fault Unit × Heap :=
  match hp.body array with
  | .ok (.array items) => hp.setBody array (.array (items ++ [item]))
  | .ok other => (.error (.died ("not an array: " ++ other.kind)), hp)
  | .error fault => (.error fault, hp)

/-- Stores a scalar in a hash and then drops the share of the scalar it displaces. -/
def hashStore (hp : Heap) (hash : Handle) (key : Bytes) (value : Handle) :
    Except Fault Unit × Heap :=
  match hp.body hash with
  | .ok (.hash entries) =>
    match hp.setBody hash (.hash (Entries.insert key value entries)), Entries.find? key entries with
    | (_, hp), some old =>
      match hp.unshare old with
      | (.ok _, hp) => (.ok (), hp)
      | (.error fault, hp) => (.error fault, hp)
    | (_, hp), none => (.ok (), hp)
  | .ok other => (.error (.died ("not a hash: " ++ other.kind)), hp)
  | .error fault => (.error fault, hp)

/-! ## Many drops -/

/-- Drops one share of each handle, first to last, and answers the faults of the drops that
failed. -/
def unshareEach (hp : Heap) : List Handle → List Fault × Heap
  | [] => ([], hp)
  | h :: rest =>
    match hp.unshare h with
    | (.ok _, hp) => unshareEach hp rest
    | (.error fault, hp) =>
      let (faults, hp) := unshareEach hp rest
      (fault :: faults, hp)

end GuestBridge.Heap
