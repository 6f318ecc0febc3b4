import GuestBridge.World.Release

/-!
# Arrays, hashes and objects of the host

Making host objects and working on them. A value passed in to be stored brings its holder along,
and a value answered comes with a holder of its own for the caller, so that holders are neither
lost nor made up. Values that an operation throws out are let go of after it.
-/

namespace GuestBridge.World

/-! ## Making objects -/

/-- Stores an object; the caller is its only holder. -/
def addObject (w : World) (o : HostObject) : ObjectId × World :=
  let (id, store) := w.store.add o
  (id, { w with store })

/-- A new array of the values given. -/
def newArray (w : World) (items : List Value) : ObjectId × World := w.addObject (.array items)

/-- A new opaque object. -/
def newObject (w : World) (className : String) : ObjectId × World :=
  w.addObject (.object className)

/-- A new boundary object, which takes over one share of a guest scalar and holds on to its
interpreter. -/
def newBoundary (w : World) (owner : InterpreterId) (handle : Handle) : ObjectId × World :=
  w.addObject (.boundary owner handle)

/-- A new closure, which becomes one more holder of each captured value. -/
def newClosure (w : World) (code : Nat) (captured : List Value) : ObjectId × World :=
  (w.onStore (·.retainValues captured)).addObject (.closure code captured)

/-- One more holder of a closure. -/
def retainObject (w : World) (id : ObjectId) : World := w.onStore (·.retain id)

/-! ## Arrays -/

/-- Replaces the items of an array. -/
def setItems (w : World) (id : ObjectId) (items : List Value) : World :=
  w.onStore (·.modify id (·.withItems items))

/-- Appends a value. -/
def arrayPush (w : World) (id : ObjectId) (v : Value) : World :=
  w.setItems id (w.store.items id ++ [v])

/-- Puts a value in front. -/
def arrayUnshift (w : World) (id : ObjectId) (v : Value) : World :=
  w.setItems id (v :: w.store.items id)

/-- Takes the first value out. -/
def arrayShift (w : World) (id : ObjectId) : Option Value × World :=
  match w.store.items id with
  | [] => (none, w)
  | v :: rest => (some v, w.setItems id rest)

/-- The value at a position. -/
def arrayGet (w : World) (id : ObjectId) (index : Nat) : Option Value × World :=
  match (w.store.items id)[index]? with
  | some v => (some v, w.retain v)
  | none => (none, w)

/-- Takes all values out. -/
def arrayDrain (w : World) (id : ObjectId) : List Value × World :=
  (w.store.items id, w.setItems id [])

/-- Empties an array. -/
def arrayClear (w : World) (id : ObjectId) : World :=
  let (items, w) := w.arrayDrain id
  w.dropEach items

/-- All values, as they stand. -/
def arrayList (w : World) (id : ObjectId) : List Value × World :=
  let items := w.store.items id
  (items, w.onStore (·.retainValues items))

/-! ## Hashes -/

/-- Replaces the entries of a hash. -/
def setEntries (w : World) (id : ObjectId) (entries : List (String × Value)) : World :=
  w.onStore (·.modify id (·.withEntries entries))

/-- Stores a value under a key and lets go of the one it displaces. -/
def hashInsert (w : World) (id : ObjectId) (key : String) (v : Value) : World :=
  let entries := w.store.entries id
  let w := w.setEntries id (Entries.insert key v entries)
  match Entries.find? key entries with
  | some old => w.drop old
  | none => w

/-- A new hash of the pairs given; of two pairs with one key the later one counts. -/
def newHash (w : World) (pairs : List (String × Value)) : ObjectId × World :=
  let (id, w) := w.addObject (.hash [])
  (id, pairs.foldl (fun w pair => w.hashInsert id pair.1 pair.2) w)

/-- The value under a key. -/
def hashGet (w : World) (id : ObjectId) (key : String) : Option Value × World :=
  match Entries.find? key (w.store.entries id) with
  | some v => (some v, w.retain v)
  | none => (none, w)

/-- Takes all entries out. -/
def hashDrain (w : World) (id : ObjectId) : List (String × Value) × World :=
  (w.store.entries id, w.setEntries id [])

end GuestBridge.World
