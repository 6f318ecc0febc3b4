import GuestBridge.Crossing.Arguments

/-!
# Calls into the guest

A call across a bridge opens a scope on the guest stack, marks the stack, pushes the arguments,
runs the sub, wraps each result in a boundary object, and closes the scope again, however it ended.
The sub itself is run by whoever passes `invoke`; nothing here depends on what guest code is.

* `Machine.runAndSettle` runs a sub and settles its results by the call's mode.
* `Machine.call` is a guest call by itself, `Machine.callAcross` a call across a bridge.
-/

namespace GuestBridge

/-- The receiver of a method call: a guest scalar, or a package by name. -/
inductive Invocant where
  | scalar (handle : Handle)
  | namespace (name : String)
  deriving DecidableEq, Repr, Inhabited

/-! ## Before the call -/

namespace World

/-- Pushes the receiver of a method call: the scalar with a new share of it, or the name of the
package as a string. -/
def pushInvocant (w : World) (i : InterpreterId) (config : Config) :
    Invocant → Except CrossingError Unit × World
  | .scalar h =>
    match w.guest i (·.share h) with
    | (.ok _, w) => w.pushTemporary i h
    | (.error fault, w) => (.error (.guest fault), w)
  | .namespace name => w.pushConverted i config (.text name)

/-- Takes the slot of the receiver out of the positional arguments; a call without one is refused
if the settings say so. -/
def takeInvocantSlot (w : World) (config : Config) (positional : ObjectId) :
    Except CrossingError Unit × World :=
  match w.arrayShift positional with
  | (some v, w) => (.ok (), w.drop v)
  | (none, w) => (if config.strictInvocantSlot then .error .missingInvocantSlot else .ok (), w)

/-- The arguments of a sub call. Also answers the collections the caller still holds. -/
def prepareSub (b : Bridge) (positional named : ObjectId) (w : World) :
    (Except CrossingError Unit × List ObjectId) × World :=
  let (result, w) := w.pushAll b.interpreter b.config positional named
  ((result.map fun _ => (), []), w)

/-- The receiver and the arguments of a method call. Also answers the collections the caller still
holds: both, unless it came to pushing them. -/
def prepareMethod (b : Bridge) (invocant : Invocant) (positional named : ObjectId) (w : World) :
    (Except CrossingError Unit × List ObjectId) × World :=
  match w.pushInvocant b.interpreter b.config invocant with
  | (.error e, w) => ((.error e, [named, positional]), w)
  | (.ok (), w) =>
    match w.takeInvocantSlot b.config positional with
    | (.error e, w) => ((.error e, [named, positional]), w)
    | (.ok (), w) => prepareSub b positional named w

/-! ## After the call -/

/-- Pops so many results and wraps them, in front of those wrapped already: the last result is on
top, so the list ends up in the order of the results. If one fails, the wrappers made are let go
of in the order in which they were made. -/
def popResults (i : InterpreterId) :
    Nat → List Value → World → Except CrossingError (List Value) × World
  | 0, wrapped, w => (.ok wrapped, w)
  | n + 1, wrapped, w =>
    match w.guest i (·.pop) with
    | (.error fault, w) => (.error (.guest fault), w.dropEach wrapped.reverse)
    | (.ok h, w) =>
      match w.wrapScalar i h with
      | (.error e, w) => (.error e, w.dropEach wrapped.reverse)
      | (.ok v, w) => popResults i n (v :: wrapped) w

/-- The results of a call as a new array of boundary objects. -/
def boxResults (w : World) (i : InterpreterId) (count : Nat) :
    Except CrossingError ObjectId × World :=
  match popResults i count [] w with
  | (.ok results, w) =>
    let (id, w) := w.newArray results
    (.ok id, w)
  | (.error e, w) => (.error e, w)

end World

/-! ## The call -/

/-- The world together with the code of all closures, by number. -/
structure Machine (κ : Type) where
  world : World := {}
  code : Array κ := #[]

/-- How guest code is run: the interpreter it runs on, its closure, its arguments and a machine,
with the handles it returns or the fault it ends with, and the machine after it. No answer means
that calls nested too deeply. -/
abbrev Invoke (κ : Type) :=
  InterpreterId → ObjectId → List Handle → Machine κ →
    Option (Except Fault (List Handle) × Machine κ)

namespace Machine

variable {κ : Type}

/-- Acts on the world. -/
@[inline] def onWorld (m : Machine κ) (f : World → α × World) : α × Machine κ :=
  let (a, world) := f m.world
  (a, { m with world })

/-- Changes the world. -/
@[inline] def update (m : Machine κ) (f : World → World) : Machine κ :=
  { m with world := f m.world }

/-- Runs a sub on its arguments and settles its results; answers how many were left on the
stack. -/
def runAndSettle (invoke : Invoke κ) (i : InterpreterId) (sub : Sub) (args : List Handle)
    (mode : Mode) (m : Machine κ) : Option (Except Fault Nat × Machine κ) :=
  match invoke i sub.closure args m with
  | none => none
  | some (.error fault, m) => some (.error fault, m)
  | some (.ok results, m) => some (m.onWorld (·.guest i (·.settle mode results)))

/-- A guest call: takes the arguments off the stack, runs the sub found, and keeps its closure for
as long as the call lasts. -/
def call (invoke : Invoke κ) (i : InterpreterId)
    (take : Interpreter → Except Fault (Sub × List Handle) × Interpreter) (mode : Mode)
    (m : Machine κ) : Option (Except Fault Nat × Machine κ) :=
  match m.onWorld (·.guest i take) with
  | (.error fault, m) => some (.error fault, m)
  | (.ok (sub, args), m) =>
    match runAndSettle invoke i sub args mode (m.update (·.retainObject sub.closure)) with
    | none => none
    | some (result, m) => some (result, m.update (·.dropObjects [sub.closure]))

/-- Runs the sub of a prepared call and wraps its results. -/
def callPrepared (invoke : Invoke κ) (i : InterpreterId)
    (take : Interpreter → Except Fault (Sub × List Handle) × Interpreter) (mode : Mode) :
    Except CrossingError Unit → Machine κ → Option (Except CrossingError ObjectId × Machine κ)
  | .error e, m => some (.error e, m)
  | .ok (), m =>
    match call invoke i take mode m with
    | none => none
    | some (.error fault, m) => some (.error (.guest fault), m)
    | some (.ok count, m) => some (m.onWorld (·.boxResults i count))

/-- A call across a bridge, in a scope of its own. Collections that were not pushed are let go of
after the scope has been closed. -/
def callAcross (invoke : Invoke κ) (b : Bridge)
    (prepare : World → (Except CrossingError Unit × List ObjectId) × World)
    (take : Interpreter → Except Fault (Sub × List Handle) × Interpreter) (mode : Mode)
    (detail : String) (m : Machine κ) : Option (Except CrossingError ObjectId × Machine κ) :=
  let i := b.interpreter
  let (depth, m) := m.onWorld (·.guest i (·.openScope))
  let m := m.update fun w => (w.guest i fun it => ((), it.mark)).2
  let ((ready, held), m) := m.onWorld prepare
  match callPrepared invoke i take mode ready m with
  | none => none
  | some (result, m) =>
    -- the scope ends first: collections still held may own the last shares of what it released
    let m := m.update fun w => (w.closeScope i depth).dropObjects held
    some (result, m.update (·.tally b .call detail result))

end Machine

end GuestBridge
