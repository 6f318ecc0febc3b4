import GuestBridge.Scalar.Heap

/-!
# Outlines of guest scalars

What can be seen from a guest scalar: the scalar with its share count, and inside a reference, an
array or a hash the outlines of its children. Guest graphs may be cyclic and deep, so a scalar that
lies on the path already is shown by how far up it was met, and containers are cut off below a
given depth. The entries of a hash are ordered by their keys.
-/

namespace GuestBridge

/-- A guest scalar and what can be seen from it. -/
inductive ScalarOutline where
  /-- Met already, so many levels up. -/
  | up (levels : Nat)
  /-- The handle outlived its scalar. -/
  | stale (h : Handle)
  /-- A scalar that holds no other. -/
  | leaf (h : Handle) (shares : Nat) (body : Body)
  /-- A container too deep down to be opened. -/
  | deep (h : Handle) (shares : Nat) (body : Body)
  | ref (h : Handle) (shares : Nat) (target : ScalarOutline)
  | array (h : Handle) (shares : Nat) (items : List ScalarOutline)
  | hash (h : Handle) (shares : Nat) (entries : List (Bytes × ScalarOutline))

namespace Heap

/-- Entries in the order of their keys. -/
def sortEntries (entries : List (Bytes × α)) : List (Bytes × α) :=
  entries.mergeSort fun a b => decide (a.1 ≤ b.1)

/-- The outline of a scalar below the scalars of a path, nearest first, with so many levels of
containers left. -/
def outlineBelow (hp : Heap) : Nat → List Handle → Handle → ScalarOutline
  | room, path, h =>
    match path.idxOf? h with
    | some i => .up (i + 1)
    | none =>
      match hp.cell? h with
      | none => .stale h
      | some c =>
        match c.body, room with
        | .ref target, room + 1 => .ref h c.shares (outlineBelow hp room (h :: path) target)
        | .array items, room + 1 =>
          .array h c.shares (items.map (outlineBelow hp room (h :: path)))
        | .hash entries, room + 1 =>
          .hash h c.shares ((sortEntries entries).map fun entry =>
            (entry.1, outlineBelow hp room (h :: path) entry.2))
        | .ref _, 0 | .array _, 0 | .hash _, 0 => .deep h c.shares c.body
        | body, _ => .leaf h c.shares body

/-- Containers lie in at most twelve others. -/
def outlineRoom : Nat := 12

/-- The outline of a scalar. -/
def outline (hp : Heap) (h : Handle) : ScalarOutline := hp.outlineBelow outlineRoom [] h

end Heap

end GuestBridge
