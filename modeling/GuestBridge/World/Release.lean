import GuestBridge.World.Basic

/-!
# Letting go of host objects

When the last holder of a host object lets go, the object goes, and with it its hold on its parts:
an array lets go of its items, a hash of its values, a closure of what it captured, first to last.
A boundary object drops its share of a guest scalar. That may free guest scalars, and code among
them gives up its closure, which may let go of further boundary objects, in this interpreter or
another. The heap of the guest has come to rest before its freed closures are let go of, and a share
that could not be dropped is reported after that. Last of all the boundary object lets go of its
interpreter.

An interpreter that nothing holds any more ends: all its scalars are freed, slot by slot, and the
closures of its code and of its subs are let go of.

* `World.release` works on a list of steps still to be done. It ends because each step lowers
  `World.weight`, which counts the objects of the store with their parts and the scalars and subs
  of all interpreters, together with the number of steps.
-/

namespace GuestBridge

/-- A step of a release: a holder lets go of an object, something that held on to an interpreter
lets go of it, or an entry goes to the journal. -/
inductive ReleaseStep where
  | holder (id : ObjectId)
  | interpreter (id : InterpreterId)
  | report (e : Event)
  deriving DecidableEq, Repr, Inhabited

/-- The journal entry for a boundary object whose share could not be dropped. -/
def Fault.releaseFailed (fault : Fault) : Event :=
  .warning ("guest scalar release failed: " ++ fault.message)

/-- The journal entry for a temporary whose share could not be dropped. -/
def Fault.alreadyReleased (fault : Fault) : Event :=
  .warning ("temporary already released: " ++ fault.message)

/-- The steps by which a value lets go of what it names. -/
def Value.releaseSteps (v : Value) : List ReleaseStep := v.shared?.toList.map .holder

/-- The objects the parts of a host object name. -/
def HostObject.releaseSteps (o : HostObject) : List ReleaseStep :=
  o.parts.flatMap Value.releaseSteps

namespace World

/-- Takes the bodies an interpreter has freed and answers the steps by which they let go of their
closures, in the order freed. -/
def takeFreed (w : World) (i : InterpreterId) : List ReleaseStep × World :=
  w.onInterpreter i fun it =>
    let (bodies, it) := it.onHeap (·.takeFreed)
    ((bodies.filterMap Body.closure?).map .holder, it)

/-- Drops the share of a boundary object. The steps that follow are those of the freed bodies, then
the report of a share that could not be dropped, and then that of the interpreter. -/
def dropBoundary (w : World) (owner : InterpreterId) (handle : Handle) :
    List ReleaseStep × World :=
  let (result, w) := w.onInterpreter owner (·.unshare handle)
  let (steps, w) := w.takeFreed owner
  match result with
  | .ok _ => (steps ++ [.interpreter owner], w)
  | .error fault => (steps ++ [.report fault.releaseFailed, .interpreter owner], w)

/-- What follows when an object has lost its last holder. -/
def dismantle (w : World) : HostObject → List ReleaseStep × World
  | .boundary owner handle => w.dropBoundary owner handle
  | o => (o.releaseSteps, w)

/-- Ends an interpreter. The closures of its code are let go of first, slot by slot, and then those
of its subs. -/
def endInterpreter (w : World) (i : InterpreterId) : List ReleaseStep × World :=
  let subs := (w.interpreter i).packages.closures
  let (steps, w) := (w.setInterpreter i (w.interpreter i).clear).takeFreed i
  (steps ++ subs.map .holder, w)

/-! ## Weight -/

/-- Number of stored objects with what they hold, and of scalars, parked bodies and subs of all
interpreters. -/
def weight (w : World) : Nat := w.store.weight + w.interpreters.total Interpreter.mass

theorem mass_default : (default : Interpreter).mass = 0 := rfl

theorem weight_setInterpreter (w : World) (i : InterpreterId) (it : Interpreter) :
    (w.setInterpreter i it).weight + (w.interpreter i).mass = w.weight + it.mass := by
  have := Table.total_set mass_default w.interpreters i.number it
  simp only [weight, setInterpreter, interpreter]
  omega

/-- Freed bodies leave the weight when they are taken, and each yields at most one step. -/
theorem weight_takeFreed (w : World) (i : InterpreterId) :
    (w.takeFreed i).2.weight + (w.takeFreed i).1.length ≤ w.weight := by
  have hset := weight_setInterpreter w i ((w.interpreter i).onHeap (·.takeFreed)).2
  have hlen := List.length_filterMap_le Body.closure? (w.interpreter i).heap.freed.toList
  have hsize : (w.interpreter i).heap.freed.toList.length = (w.interpreter i).heap.freed.size := rfl
  simp only [Interpreter.mass, Interpreter.onHeap, Heap.takeFreed, Heap.mass, Heap.occupied,
    List.size_toArray, List.length_nil] at hset
  simp only [takeFreed, onInterpreter_eq, Interpreter.onHeap, Heap.takeFreed, List.length_map]
  omega

/-- Dropping the share of a boundary object adds at most the report of a failure and the step of
the interpreter to what the weight counted before. -/
theorem weight_dropBoundary (w : World) (owner : InterpreterId) (handle : Handle) :
    (w.dropBoundary owner handle).2.weight + (w.dropBoundary owner handle).1.length
      ≤ w.weight + 2 := by
  have hset := weight_setInterpreter w owner ((w.interpreter owner).unshare handle).2
  have hmass : ((w.interpreter owner).unshare handle).2.mass = (w.interpreter owner).mass :=
    congrArg (· + _) (Heap.mass_unshare _ _)
  have htake := weight_takeFreed
    (w.setInterpreter owner ((w.interpreter owner).unshare handle).2) owner
  unfold dropBoundary
  rw [onInterpreter_eq]
  dsimp only
  split <;> (simp only [List.length_append, List.length_cons, List.length_nil]; omega)

/-- What an interpreter held is in the weight before it ends. -/
theorem weight_endInterpreter (w : World) (i : InterpreterId) :
    (w.endInterpreter i).2.weight + (w.endInterpreter i).1.length ≤ w.weight := by
  have hset := weight_setInterpreter w i (w.interpreter i).clear
  have hmass : (w.interpreter i).clear.mass + (w.interpreter i).packages.closures.length
      = (w.interpreter i).mass := by
    simp only [Interpreter.mass, Interpreter.clear, Heap.mass_clear]
    rfl
  have htake := weight_takeFreed (w.setInterpreter i (w.interpreter i).clear) i
  simp only [endInterpreter, List.length_append, List.length_map]
  omega

theorem length_releaseSteps_le (o : HostObject) : o.releaseSteps.length ≤ o.parts.length := by
  unfold HostObject.releaseSteps
  induction o.parts with
  | nil => simp
  | cons v vs ih =>
    have hv : v.releaseSteps.length ≤ 1 := by
      unfold Value.releaseSteps
      cases v.shared? <;> simp
    simp only [List.flatMap_cons, List.length_append, List.length_cons]
    omega

theorem weight_dismantle (w : World) (o : HostObject) :
    (w.dismantle o).2.weight + (w.dismantle o).1.length ≤ w.weight + (o.parts.length + 2) := by
  have hsteps := length_releaseSteps_le o
  cases o with
  | boundary owner handle =>
    have := weight_dropBoundary w owner handle
    simp only [dismantle]
    omega
  | array | hash | object | closure =>
    simp only [dismantle]
    omega

/-! ## Release -/

/-- Carries out the steps of a release, first to last; what a step brings about is done before the
steps after it. -/
def release (steps : List ReleaseStep) (w : World) : World :=
  match steps with
  | [] => w
  | .report e :: rest => release rest (w.report e)
  | .interpreter i :: rest =>
    -- a boundary object that is being let go of holds on until its own step comes
    if w.isHeld i || rest.contains (.interpreter i) then release rest w
    else
      match _he : w.endInterpreter i with
      | (more, after) => release (more ++ rest) after
  | .holder id :: rest =>
    match _hh : w.store.holding? id with
    | none => release rest w
    | some h =>
      if h.holders - 1 = 0 then
        -- the object is gone before its parts are let go of
        match _hd : dismantle { w with store := w.store.put id none } h.object with
        | (more, after) => release (more ++ rest) after
      else
        release rest { w with store := w.store.put id (some { h with holders := h.holders - 1 }) }
termination_by w.weight + steps.length
decreasing_by
  · simp [weight, report]
  · simp
  · have hend := weight_endInterpreter w i
    rw [_he] at hend
    simp only [List.length_append, List.length_cons] at hend ⊢
    omega
  · simp
  · have hput := Store.weight_put_none _hh
    have hparts := weight_dismantle { w with store := w.store.put id none } h.object
    rw [_hd] at hparts
    simp only [weight, List.length_append, List.length_cons] at hparts ⊢
    omega
  · have hput := Store.weight_put_holders _hh (h.holders - 1)
    simp only [weight, List.length_cons]
    omega

/-- A holder of a value lets go of it. -/
def drop (w : World) (v : Value) : World := w.release v.releaseSteps

/-- The holders of several values let go of them, first to last. -/
def dropEach (w : World) (vs : List Value) : World := w.release (vs.flatMap Value.releaseSteps)

/-- Holders of objects let go of them, first to last. -/
def dropObjects (w : World) (ids : List ObjectId) : World := w.release (ids.map .holder)

/-- Host code has one hold on an interpreter less. -/
def dropInterpreter (w : World) (i : InterpreterId) : World :=
  (w.setHolds i (w.holds.get i.number - 1)).release [.interpreter i]

/-- Lets go of the closures of the bodies an interpreter has freed. -/
def settleFreed (w : World) (i : InterpreterId) : World :=
  let (steps, w) := w.takeFreed i
  w.release steps

/-- Acts on one interpreter and then lets go of whatever that freed. -/
@[inline] def guest (w : World) (i : InterpreterId) (f : Interpreter → α × Interpreter) :
    α × World :=
  let (a, w) := w.onInterpreter i f
  (a, w.settleFreed i)

/-- Closes a scope of an interpreter. Temporaries that were gone already are reported before what
was freed lets go of its closures. -/
def closeScope (w : World) (i : InterpreterId) (depth : Nat) : World :=
  let (faults, w) := w.onInterpreter i (·.closeScope depth)
  (w.reportEach (faults.map Fault.alreadyReleased)).settleFreed i

end World

end GuestBridge
