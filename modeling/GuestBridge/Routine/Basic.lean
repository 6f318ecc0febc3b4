import GuestBridge.Crossing.Call

/-!
# Routines

Guest code, and host code that drives guests, is a routine: a tree whose nodes are operations on
the world and calls, with one branch for each answer. Nothing is assumed of a routine but that it
touches the world through these nodes, so a statement about all routines is one about all guest
code.

* `Op` lists the operations, `Op.Reply` the type of each answer, and `Op.perform` what it does.
* `Call` lists the calls; they run other routines.
* `Routine` is the tree, and `Script` the part of one that goes on with a value, for writing
  routines in `do` notation.
-/

namespace GuestBridge

/-! ## Operations -/

/-- An operation on the world. `i` is the interpreter it acts on, `b` the bridge it goes across. -/
inductive Op where
  /-- A new guest interpreter, on which the caller has the only hold. -/
  | newInterpreter
  /-- One more hold on an interpreter. -/
  | holdInterpreter (i : InterpreterId)
  /-- One hold on an interpreter less. -/
  | dropInterpreter (i : InterpreterId)
  /-- A new telemetry collector. -/
  | newCollector
  /-- Writes a remark into the journal. -/
  | remark (text : String)
  /-- Counts an event. -/
  | count (c : CollectorId) (kind : EventKind)
  /-- Counts an event and keeps a record of it. -/
  | record (c : CollectorId) (kind : EventKind) (detail : Option String)
  /-- A new scalar. -/
  | create (i : InterpreterId) (seed : Seed)
  /-- A new code scalar, which becomes a holder of the closure. -/
  | newCode (i : InterpreterId) (name : String) (closure : ObjectId)
  /-- Defines a sub, which becomes a holder of the closure. -/
  | define (i : InterpreterId) (package name : String) (closure : ObjectId)
  /-- Declares the parents of a package. -/
  | declareParents (i : InterpreterId) (package : String) (parents : List String)
  /-- A reference that takes over a share. -/
  | referTaking (i : InterpreterId) (target : Handle)
  /-- A reference with a new share. -/
  | referSharing (i : InterpreterId) (target : Handle)
  /-- Appends to a guest array. -/
  | guestArrayPush (i : InterpreterId) (array item : Handle)
  /-- Stores in a guest hash. -/
  | guestHashStore (i : InterpreterId) (hash : Handle) (key : Bytes) (value : Handle)
  /-- Blesses the target of a reference. -/
  | bless (i : InterpreterId) (reference : Handle) (package : String)
  /-- Adds a share. -/
  | share (i : InterpreterId) (h : Handle)
  /-- Drops a share. -/
  | unshare (i : InterpreterId) (h : Handle)
  /-- Pushes a value. -/
  | push (i : InterpreterId) (h : Handle)
  /-- Pushes a value as a temporary. -/
  | pushTemporary (i : InterpreterId) (h : Handle)
  /-- Makes a value a temporary. -/
  | addTemporary (i : InterpreterId) (h : Handle)
  /-- Pops a value. -/
  | pop (i : InterpreterId)
  /-- Marks the stack. -/
  | mark (i : InterpreterId)
  /-- Opens a scope. -/
  | openScope (i : InterpreterId)
  /-- Closes a scope. -/
  | closeScope (i : InterpreterId) (depth : Nat)
  /-- Converts a host value. -/
  | marshal (b : Bridge) (v : Value)
  /-- Wraps a guest scalar. -/
  | wrap (b : Bridge) (h : Handle)
  /-- Reads a boundary object back. -/
  | unwrap (b : Bridge) (v : Value)
  /-- Pushes arguments, whose collections the caller gives up. -/
  | passArguments (b : Bridge) (positional named : ObjectId)
  /-- Returns from a guest call. -/
  | resume (b : Bridge) (ctx : CallContext) (next : Address)
  /-- A new host array of values the caller gives up. -/
  | newArray (items : List Value)
  /-- A new host hash of values the caller gives up. -/
  | newHash (pairs : List (String × Value))
  /-- A new opaque host object. -/
  | newObject (className : String)
  /-- One more holder of a value. -/
  | retain (v : Value)
  /-- One holder of a value less. -/
  | drop (v : Value)
  /-- One holder less of each value, first to last. -/
  | dropEach (vs : List Value)
  /-- One holder of an object less. -/
  | dropObject (id : ObjectId)
  /-- Appends to a host array. -/
  | arrayPush (id : ObjectId) (v : Value)
  /-- Puts a value in front of a host array. -/
  | arrayUnshift (id : ObjectId) (v : Value)
  /-- Takes the first value out of a host array. -/
  | arrayShift (id : ObjectId)
  /-- The value at a position of a host array. -/
  | arrayGet (id : ObjectId) (index : Nat)
  /-- Takes all values out of a host array. -/
  | arrayDrain (id : ObjectId)
  /-- Empties a host array. -/
  | arrayClear (id : ObjectId)
  /-- The values of a host array as they stand. -/
  | arrayList (id : ObjectId)
  /-- Stores in a host hash. -/
  | hashInsert (id : ObjectId) (key : String) (v : Value)
  /-- The value under a key of a host hash. -/
  | hashGet (id : ObjectId) (key : String)
  /-- Takes all entries out of a host hash. -/
  | hashDrain (id : ObjectId)

namespace Op

/-- The type of an operation's answer. -/
def Reply : Op → Type
  | newInterpreter => InterpreterId
  | newCollector => CollectorId
  | create .. | newCode .. => Handle
  | referTaking .. | referSharing .. | pop .. => Except Fault Handle
  | guestArrayPush .. | guestHashStore .. | bless .. | push .. | pushTemporary ..
  | addTemporary .. => Except Fault Unit
  | share .. | unshare .. => Except Fault Nat
  | openScope .. => Nat
  | marshal .. => Except CrossingError Handle
  | wrap .. | unwrap .. => Except CrossingError Value
  | passArguments .. => Except CrossingError Nat
  | resume .. => Except CrossingError Address × CallContext
  | newArray .. | newHash .. | newObject .. => ObjectId
  | arrayShift .. | arrayGet .. | hashGet .. => Option Value
  | arrayDrain .. | arrayList .. => List Value
  | hashDrain .. => List (String × Value)
  | remark .. | count .. | record .. | define .. | declareParents .. | mark .. | closeScope ..
  | retain .. | drop .. | dropEach .. | dropObject .. | arrayPush .. | arrayUnshift ..
  | arrayClear .. | hashInsert .. | holdInterpreter .. | dropInterpreter .. => Unit

/-- Defines a sub; the sub it displaces lets go of its closure. -/
def defineIn (i : InterpreterId) (package name : String) (closure : ObjectId) (w : World) :
    World :=
  let sub : Sub := { name := package ++ "::" ++ name, closure }
  let old := (w.interpreter i).packages.own? package name
  let w := (w.retainObject closure).guest i fun it =>
    ((), { it with packages := it.packages.define package name sub })
  w.2.dropObjects (old.toList.map (·.closure))

/-- What an operation answers, and the world after it. -/
def perform : (o : Op) → World → o.Reply × World
  | newInterpreter, w => w.newInterpreter
  | holdInterpreter i, w => ((), w.holdInterpreter i)
  | dropInterpreter i, w => ((), w.dropInterpreter i)
  | newCollector, w => w.newCollector
  | remark text, w => ((), w.report (.remark text))
  | count c kind, w => ((), w.onTelemetry c (·.count kind))
  | record c kind detail, w => ((), w.onTelemetry c (·.record kind detail))
  | create i seed, w => w.guest i (·.create seed.body)
  | newCode i name closure, w =>
    (w.retainObject closure).guest i (·.create (.code { name, closure }))
  | define i package name closure, w => ((), defineIn i package name closure w)
  | declareParents i package parents, w =>
    w.guest i fun it => ((), { it with packages := it.packages.declareParents package parents })
  | referTaking i target, w => w.guest i (·.referTaking target)
  | referSharing i target, w => w.guest i (·.referSharing target)
  | guestArrayPush i array item, w => w.guest i (·.arrayPush array item)
  | guestHashStore i hash key value, w => w.guest i (·.hashStore hash key value)
  | bless i reference package, w => w.guest i (·.bless reference package)
  | share i h, w => w.guest i (·.share h)
  | unshare i h, w => w.guest i (·.unshare h)
  | push i h, w => w.guest i (·.push h)
  | pushTemporary i h, w => w.guest i (·.pushTemporary h)
  | addTemporary i h, w => w.guest i (·.addTemporary h)
  | pop i, w => w.guest i (·.pop)
  | mark i, w => w.guest i fun it => ((), it.mark)
  | openScope i, w => w.guest i (·.openScope)
  | closeScope i depth, w => ((), w.closeScope i depth)
  | marshal b v, w => w.marshal b v
  | wrap b h, w => w.wrap b h
  | unwrap b v, w => w.unwrap b v
  | passArguments b positional named, w => w.passArguments b positional named
  | resume b ctx next, w => w.resume b ctx next
  | newArray items, w => w.newArray items
  | newHash pairs, w => w.newHash pairs
  | newObject className, w => w.newObject className
  | retain v, w => ((), w.retain v)
  | drop v, w => ((), w.drop v)
  | dropEach vs, w => ((), w.dropEach vs)
  | dropObject id, w => ((), w.dropObjects [id])
  | arrayPush id v, w => ((), w.arrayPush id v)
  | arrayUnshift id v, w => ((), w.arrayUnshift id v)
  | arrayShift id, w => w.arrayShift id
  | arrayGet id index, w => w.arrayGet id index
  | arrayDrain id, w => w.arrayDrain id
  | arrayClear id, w => ((), w.arrayClear id)
  | arrayList id, w => w.arrayList id
  | hashInsert id key v, w => ((), w.hashInsert id key v)
  | hashGet id key, w => w.hashGet id key
  | hashDrain id, w => w.hashDrain id

end Op

/-! ## Calls -/

/-- A call. The collections of arguments passed to a call across a bridge are given up to it. -/
inductive Call where
  /-- A guest method call on the arguments above the innermost mark. -/
  | guestMethod (i : InterpreterId) (method : String) (mode : Mode)
  /-- A guest sub call on the arguments above the innermost mark. -/
  | guestSub (i : InterpreterId) (target : Target) (mode : Mode)
  /-- A method call across a bridge. -/
  | method (b : Bridge) (name : String) (invocant : Invocant) (positional named : ObjectId)
  /-- A sub call across a bridge. -/
  | sub (b : Bridge) (target : Target) (mode : Mode) (positional named : ObjectId)

namespace Call

/-- The type of a call's answer: the number of results left on the guest stack, or the array of
boundary objects over them. -/
def Reply : Call → Type
  | guestMethod .. | guestSub .. => Except Fault Nat
  | method .. | sub .. => Except CrossingError ObjectId

end Call

/-! ## Routines -/

/-- A tree of operations and calls that ends with the handles returned or with a fault. `look`
reads the world; `closure` makes a closure of a routine that is started with the interpreter it
runs on and its arguments, and becomes one more holder of the values it captures. -/
inductive Routine where
  | finish (outcome : Except Fault (List Handle))
  | act (o : Op) (next : o.Reply → Routine)
  | look (next : World → Routine)
  | call (c : Call) (next : c.Reply → Routine)
  | closure (captured : List Value) (code : InterpreterId → List Handle → Routine)
    (next : ObjectId → Routine)

instance : Inhabited Routine := ⟨.finish (.ok [])⟩

/-- The code of a closure. -/
abbrev Code := InterpreterId → List Handle → Routine

/-- A part of a routine that goes on with a value. -/
def Script (α : Type) := (α → Routine) → Routine

namespace Script

instance : Monad Script where
  pure a := fun next => next a
  bind s f := fun next => s fun a => f a next

/-- Performs an operation. -/
def act (o : Op) : Script o.Reply := fun next => Routine.act o next

/-- Reads the world. -/
def look (f : World → α) : Script α := fun next => .look fun w => next (f w)

/-- Makes a call. -/
def call (c : Call) : Script c.Reply := fun next => Routine.call c next

/-- Makes a closure. -/
def closure (captured : List Value) (code : Code) : Script ObjectId := fun next =>
  Routine.closure captured code next

/-- Ends the routine, whatever was to come. -/
def finish (outcome : Except Fault (List Handle)) : Script α := fun _ => .finish outcome

/-- A script that answers an outcome, as a routine. -/
def routine (s : Script (Except Fault (List Handle))) : Routine := s .finish

end Script

end GuestBridge
