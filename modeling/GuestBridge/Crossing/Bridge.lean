import GuestBridge.Crossing.Conversion
import GuestBridge.Host.Continuation
import GuestBridge.World.Objects

/-!
# Bridges

A bridge joins a guest interpreter to the host under one set of settings and reports to one
collector. This module holds what crosses it without running guest code: converting a value,
wrapping a scalar in a boundary object, reading one back, and the return from a call.

Each of these is reported once, as an event of its kind if it succeeds and as a failure otherwise.
Reading a boundary object back is not reported.
-/

namespace GuestBridge

/-- A guest interpreter, settings, and the collector that is reported to. -/
structure Bridge where
  interpreter : InterpreterId
  config : Config := {}
  collector : CollectorId
  deriving DecidableEq, Repr, Inhabited

namespace World

/-! ## Reports -/

/-- Reports one event of a bridge. -/
def note (w : World) (b : Bridge) (kind : EventKind) (detail : String) : World :=
  w.onTelemetry b.collector (·.note b.config.traceCalls kind detail)

/-- Reports how an operation of a bridge ended. -/
def tally (w : World) (b : Bridge) (kind : EventKind) (detail : String) :
    Except CrossingError α → World
  | .ok _ => w.note b kind detail
  | .error e => w.note b .failure (detail ++ ": " ++ e.message)

/-! ## Conversion -/

/-- Converts a host value to a scalar of an interpreter. The caller owns one share of it. -/
def convert (w : World) (i : InterpreterId) (config : Config) (v : Value) :
    Except CrossingError Handle × World :=
  let passage : Passage := { config, store := w.store, target := i }
  w.guest i fun it => it.onHeap (passage.marshal v)

/-- Converts a host value across a bridge. -/
def marshal (w : World) (b : Bridge) (v : Value) : Except CrossingError Handle × World :=
  let detail := "convert " ++ w.store.typeName v
  let (result, w) := w.convert b.interpreter b.config v
  (result, w.tally b .convert detail result)

/-! ## Boundary objects -/

/-- Wraps a scalar in a boundary object that owns a new share of it. -/
def wrapScalar (w : World) (i : InterpreterId) (h : Handle) : Except CrossingError Value × World :=
  match w.guest i (·.share h) with
  | (.ok _, w) =>
    let (id, w) := w.newBoundary i h
    (.ok (.boundary id), w)
  | (.error fault, w) => (.error (.guest fault), w)

/-- Wraps a scalar across a bridge. -/
def wrap (w : World) (b : Bridge) (h : Handle) : Except CrossingError Value × World :=
  let (result, w) := w.wrapScalar b.interpreter h
  (result, w.tally b .wrap ("wrap slot " ++ toString h.index) result)

/-- Reads a boundary object back: an undefined value, a number or a string as a host scalar,
anything else as the boundary object itself. Other values are answered as they are. -/
def readBack (w : World) (b : Bridge) (v : Value) : Except CrossingError Value :=
  match v with
  | .boundary id =>
    match w.store.boundary? id with
    | none => .ok v
    | some (owner, handle) =>
      if owner = b.interpreter then
        match (w.interpreter owner).heap.body handle with
        | .error fault => .error (.guest fault)
        | .ok .undef => .ok .undef
        | .ok (.int n) => .ok (.integer n)
        | .ok (.num x) => .ok (.float x)
        | .ok (.str bytes) => .ok (.text (Utf8.decodeLossy bytes))
        | .ok _ => .ok v
      else .error (.crossInterpreter owner b.interpreter)
  | _ => .ok v

/-- Reads a boundary object back; the caller becomes a holder of the answer. -/
def unwrap (w : World) (b : Bridge) (v : Value) : Except CrossingError Value × World :=
  match w.readBack b v with
  | .ok answer => (.ok answer, w.retain answer)
  | .error e => (.error e, w)

/-! ## Returning -/

/-- Returns from a guest call and reports it: a collapsed tail call as such, an error as a failure,
an ordinary return not at all. -/
def resume (w : World) (b : Bridge) (ctx : CallContext) (next : Address) :
    (Except CrossingError Address × CallContext) × World :=
  let tail := ctx.pending.isTail
  let (result, ctx) := ctx.resume next
  ((result, ctx),
    match result with
    | .ok resume =>
      if tail then w.note b .tailCollapse (next.text ++ " -> " ++ resume.text) else w
    | .error e => w.note b .failure e.message)

end World

end GuestBridge
