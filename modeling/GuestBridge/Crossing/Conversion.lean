import GuestBridge.Config.Basic
import GuestBridge.Crossing.Error
import GuestBridge.Host.Store
import GuestBridge.Scalar.Containers
import GuestBridge.Text.Utf8

/-!
# Conversion of host values

A host value becomes a guest scalar with one share, owned by the caller. Integers, floats and text
are copied; an array or a hash becomes a reference to a new guest array or hash with its elements
converted in order; a boundary object yields the scalar it stands for, with one more share. An
undefined value and an opaque object have no counterpart.

When an element fails, the container built so far is released and the element's error is the error
of the whole value. The conversion reads the host's store and writes the guest's heap, nothing
else.

* `Passage.convert` recurses on the room that is left below the nesting limit, so it ends for a
  value that contains itself as well.
-/

namespace GuestBridge

/-- What a conversion depends on: the settings, the host's objects and the guest interpreter that
receives the scalar. -/
structure Passage where
  config : Config
  store : Store
  target : InterpreterId

namespace Passage

/-- The guest bytes of a host text. -/
def bytesOf (p : Passage) (s : String) : Bytes := p.config.stringPolicy.apply (Utf8.encode s)

/-- One more share of the scalar a boundary object stands for, if the target owns it. -/
def shareBoundary (p : Passage) (id : ObjectId) (hp : Heap) : Except CrossingError Handle × Heap :=
  match p.store.boundary? id with
  | none => (.error (.unsupportedConversion "GuestScalar"), hp)
  | some (owner, handle) =>
    if owner = p.target then
      match hp.share handle with
      | (.ok _, hp) => (.ok handle, hp)
      | (.error fault, hp) => (.error (.guest fault), hp)
    else (.error (.crossInterpreter owner p.target), hp)

/-- Converts values, first to last, up to the first that fails. Answers the scalars made and how it
ended. -/
def convertItems (convert : Value → Heap → Except CrossingError Handle × Heap) :
    List Value → Heap → List Handle × Except CrossingError Unit × Heap
  | [], hp => ([], .ok (), hp)
  | v :: rest, hp =>
    match convert v hp with
    | (.error e, hp) => ([], .error e, hp)
    | (.ok h, hp) =>
      let (items, ended, hp) := convertItems convert rest hp
      (h :: items, ended, hp)

/-- Converts the values of an entry list, first to last, up to the first that fails, and adds each
scalar to `entries` under its key. A scalar it displaces there loses its share. Answers all entries
and how it ended. -/
def convertEntries (p : Passage) (convert : Value → Heap → Except CrossingError Handle × Heap) :
    List (String × Value) → List (Bytes × Handle) → Heap →
      List (Bytes × Handle) × Except CrossingError Unit × Heap
  | [], entries, hp => (entries, .ok (), hp)
  | (key, v) :: rest, entries, hp =>
    match convert v hp with
    | (.error e, hp) => (entries, .error e, hp)
    | (.ok h, hp) =>
      let bytes := p.bytesOf key
      match Entries.find? bytes entries with
      | none => p.convertEntries convert rest (Entries.insert bytes h entries) hp
      | some old =>
        let entries := Entries.insert bytes h entries
        match hp.unshare old with
        | (.ok _, hp) => p.convertEntries convert rest entries hp
        | (.error fault, hp) => (entries, .error (.guest fault), hp)

/-- Fills a container with what was converted, and hands it out behind a reference, or releases it
again if the conversion did not come to its end. -/
def complete (container : Handle) (body : Body) (ended : Except CrossingError Unit) (hp : Heap) :
    Except CrossingError Handle × Heap :=
  match ended, (hp.setBody container body).2 with
  | .ok (), hp =>
    match hp.referTaking container with
    | (.ok h, hp) => (.ok h, hp)
    | (.error fault, hp) => (.error (.guest fault), hp)
  | .error e, hp =>
    match hp.unshare container with
    | (.ok _, hp) => (.error e, hp)
    | (.error fault, hp) => (.error (.guest fault), hp)

/-- Converts a value with so many levels of nesting left. -/
def convert (p : Passage) : Nat → Value → Heap → Except CrossingError Handle × Heap
  | 0, _, hp => (.error (.nestingTooDeep p.config.maxDepth), hp)
  | room + 1, v, hp =>
    match v with
    | .boundary id => p.shareBoundary id hp
    | .integer n =>
      let (h, hp) := hp.allocate (.int n)
      (.ok h, hp)
    | .float x =>
      let (h, hp) := hp.allocate (.num x)
      (.ok h, hp)
    | .text s =>
      let (h, hp) := hp.allocate (.str (p.bytesOf s))
      (.ok h, hp)
    | .array id =>
      let (array, hp) := hp.allocate (.array [])
      let (items, ended, hp) := convertItems (p.convert room) (p.store.items id) hp
      complete array (.array items) ended hp
    | .hash id =>
      let (hash, hp) := hp.allocate (.hash [])
      let (entries, ended, hp) := p.convertEntries (p.convert room) (p.store.entries id) [] hp
      complete hash (.hash entries) ended hp
    | .undef | .object _ => (.error (.unsupportedConversion (p.store.typeName v)), hp)

/-- Converts a value. A value of nesting depth `maxDepth` is still accepted. -/
def marshal (p : Passage) (v : Value) (hp : Heap) : Except CrossingError Handle × Heap :=
  p.convert (p.config.maxDepth + 1) v hp

end Passage

end GuestBridge
