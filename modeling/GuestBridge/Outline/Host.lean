import GuestBridge.Outline.Guest
import GuestBridge.Text.Quoted
import GuestBridge.Decimal.Shortest
import GuestBridge.World.Basic

/-!
# Outlines of host values

What can be seen from a host value, opened up as far as an outline of a guest scalar is: an array or
a hash on the path is shown by how far up it was met, and they are cut off below a given depth. A
boundary object shows the outline of its scalar. Beside that stands the one-line description of a
value, which does not open it.
-/

namespace GuestBridge

/-- A host value and what can be seen from it. -/
inductive ValueOutline where
  | undef
  | integer (value : Int64)
  | float (value : Binary64)
  | text (value : String)
  | object (className : String)
  | boundary (owner : InterpreterId) (scalar : ScalarOutline)
  | array (items : List ValueOutline)
  | hash (entries : List (String × ValueOutline))
  /-- Met already, so many levels up. -/
  | up (levels : Nat)
  /-- An array or a hash too deep down to be opened. -/
  | deep

namespace World

/-- Entries in the order of their keys. -/
def sortEntries (entries : List (String × α)) : List (String × α) :=
  entries.mergeSort fun a b => decide (a.1 ≤ b.1)

/-- The outline of the scalar a boundary object stands for. -/
def outlineBoundary (w : World) (id : ObjectId) : ValueOutline :=
  match w.store.boundary? id with
  | some (owner, handle) => .boundary owner ((w.interpreter owner).heap.outline handle)
  | none => .deep

/-- The outline of a value below the arrays and hashes of a path, nearest first, with so many
levels of them left. -/
def outlineBelow (w : World) : Nat → List ObjectId → Value → ValueOutline
  | room, path, v =>
    match v with
    | .undef => .undef
    | .integer n => .integer n
    | .float x => .float x
    | .text s => .text s
    | .object id => .object (w.store.className id)
    | .boundary id => w.outlineBoundary id
    | .array id =>
      match path.idxOf? id, room with
      | some i, _ => .up (i + 1)
      | none, 0 => .deep
      | none, room + 1 => .array ((w.store.items id).map (outlineBelow w room (id :: path)))
    | .hash id =>
      match path.idxOf? id, room with
      | some i, _ => .up (i + 1)
      | none, 0 => .deep
      | none, room + 1 =>
        .hash ((sortEntries (w.store.entries id)).map fun entry =>
          (entry.1, outlineBelow w room (id :: path) entry.2))

/-- The outline of a value. -/
def outline (w : World) (v : Value) : ValueOutline := w.outlineBelow Heap.outlineRoom [] v

/-! ## Descriptions -/

/-- A value in one line. -/
def describe (w : World) : Value → String
  | .undef => "Undef"
  | .integer n => "Integer(" ++ toString n.toInt ++ ")"
  | .float x => "Float(" ++ x.text ++ ")"
  | .text s => "String(" ++ Text.Quoted.quote s ++ ")"
  | .array id => "Array(len=" ++ toString (w.store.items id).length ++ ")"
  | .hash id => "Hash(len=" ++ toString (w.store.entries id).length ++ ")"
  | .object id => "Object(" ++ w.store.className id ++ ")"
  | .boundary id =>
    match w.store.boundary? id with
    | some (owner, h) =>
      "GuestScalar(#" ++ toString owner.number ++ ":" ++ toString h.index ++ "."
        ++ toString h.generation.toNat ++ ")"
    | none => "GuestScalar"

/-- An interpreter in one line. -/
def describeInterpreter (w : World) (i : InterpreterId) : String :=
  "GuestInterpreter \x7b id: " ++ toString i.number ++ ", live: "
    ++ toString (w.interpreter i).heap.live ++ " \x7d"

end World

end GuestBridge
