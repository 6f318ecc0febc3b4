/-!
# Telemetry

A collector counts the events of the bridges that report to it and keeps records of those events
that are traced, in the order in which they completed.
-/

namespace GuestBridge

/-- The kinds of events. -/
inductive EventKind where
  | convert
  | wrap
  | push
  | call
  | tailCollapse
  | failure
  deriving DecidableEq, Repr, Inhabited

/-- The name of a kind. -/
def EventKind.name : EventKind → String
  | convert => "Convert"
  | wrap => "Wrap"
  | push => "Push"
  | call => "Call"
  | tailCollapse => "TailCollapse"
  | failure => "Failure"

/-- Number of events of each kind. -/
structure Counters where
  conversions : Nat := 0
  wraps : Nat := 0
  pushes : Nat := 0
  calls : Nat := 0
  tailCollapses : Nat := 0
  failures : Nat := 0
  deriving DecidableEq, Repr, Inhabited

namespace Counters

/-- The counter of a kind. -/
def get (c : Counters) : EventKind → Nat
  | .convert => c.conversions
  | .wrap => c.wraps
  | .push => c.pushes
  | .call => c.calls
  | .tailCollapse => c.tailCollapses
  | .failure => c.failures

/-- One more event of a kind. -/
def bump (c : Counters) : EventKind → Counters
  | .convert => { c with conversions := c.conversions + 1 }
  | .wrap => { c with wraps := c.wraps + 1 }
  | .push => { c with pushes := c.pushes + 1 }
  | .call => { c with calls := c.calls + 1 }
  | .tailCollapse => { c with tailCollapses := c.tailCollapses + 1 }
  | .failure => { c with failures := c.failures + 1 }

theorem get_bump (c : Counters) (kind other : EventKind) :
    (c.bump kind).get other = c.get other + (if other = kind then 1 else 0) := by
  cases kind <;> cases other <;> rfl

end Counters

/-- What is kept of a traced event. -/
structure EventRecord where
  kind : EventKind
  detail : Option String := none
  deriving DecidableEq, Repr, Inhabited

/-- Counters and records of one collector. -/
structure Telemetry where
  counters : Counters := {}
  records : List EventRecord := []
  deriving DecidableEq, Repr, Inhabited

namespace Telemetry

/-- Counts an event. -/
def count (t : Telemetry) (kind : EventKind) : Telemetry :=
  { t with counters := t.counters.bump kind }

/-- Counts an event and keeps a record of it. -/
def record (t : Telemetry) (kind : EventKind) (detail : Option String) : Telemetry :=
  { counters := t.counters.bump kind, records := t.records ++ [{ kind, detail }] }

/-- Counts an event, and keeps a record of it if events are traced. -/
def note (t : Telemetry) (traced : Bool) (kind : EventKind) (detail : String) : Telemetry :=
  if traced then t.record kind (some detail) else t.count kind

@[simp] theorem counters_note (t : Telemetry) (traced : Bool) (kind : EventKind)
    (detail : String) : (t.note traced kind detail).counters = t.counters.bump kind := by
  cases traced <;> rfl

end Telemetry

end GuestBridge
