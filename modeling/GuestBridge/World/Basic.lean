import GuestBridge.Guest.Interpreter
import GuestBridge.Host.Store
import GuestBridge.Table
import GuestBridge.Telemetry.Basic

/-!
# The world

Everything a run can change: the guest interpreters, the shared objects of the host, the telemetry
collectors, and the journal of what was reported on the way. Interpreters and collectors are
tables, so an identifier always names one; it is as it was created until the first operation on it.

An interpreter lasts for as long as something holds on to it: host code, through its bridges and
open scopes, or a boundary object. The world counts the former; the latter are in the store.
-/

namespace GuestBridge

/-- An entry of the journal. -/
inductive Event where
  /-- Something went wrong that no caller can be told. -/
  | warning (text : String)
  /-- A component announces itself. -/
  | info (text component : String)
  /-- A remark of the code that runs. -/
  | remark (text : String)
  deriving DecidableEq, Repr, Inhabited

/-- The event with which a component announces that it is ready to report. -/
def Event.announcement (component : String) : Event := .info "tracing initialised" component

/-- Interpreters with the number of holds that host code has on each, host objects, collectors and
the journal, oldest entry first. -/
structure World where
  interpreters : Table Interpreter := {}
  interpreterCount : Nat := 0
  holds : Table Nat := {}
  store : Store := {}
  collectors : Table Telemetry := {}
  collectorCount : Nat := 0
  journal : Array Event := #[]
  deriving DecidableEq, Inhabited

namespace World

/-! ## Interpreters -/

/-- The interpreter of an identifier. -/
def interpreter (w : World) (i : InterpreterId) : Interpreter := w.interpreters.get i.number

/-- Replaces an interpreter. -/
def setInterpreter (w : World) (i : InterpreterId) (it : Interpreter) : World :=
  { w with interpreters := w.interpreters.set i.number it }

/-- Sets how many holds host code has on an interpreter. -/
def setHolds (w : World) (i : InterpreterId) (n : Nat) : World :=
  { w with holds := w.holds.set i.number n }

/-- A new interpreter, on which the caller has the only hold. The first one is number 1. -/
def newInterpreter (w : World) : InterpreterId × World :=
  let i : InterpreterId := ⟨w.interpreterCount + 1⟩
  (i, { w with interpreterCount := w.interpreterCount + 1 }.setHolds i 1)

/-- One more hold of host code on an interpreter. -/
def holdInterpreter (w : World) (i : InterpreterId) : World :=
  w.setHolds i (w.holds.get i.number + 1)

/-- Does host code or a boundary object hold on to an interpreter? -/
def isHeld (w : World) (i : InterpreterId) : Bool :=
  w.holds.get i.number != 0 || w.store.holds i

/-- Acts on one interpreter. -/
@[inline] def onInterpreter (w : World) (i : InterpreterId)
    (f : Interpreter → α × Interpreter) : α × World :=
  let (a, interpreters) := w.interpreters.update i.number f
  (a, { w with interpreters })

theorem onInterpreter_eq (w : World) (i : InterpreterId) (f : Interpreter → α × Interpreter) :
    w.onInterpreter i f =
      ((f (w.interpreter i)).1, w.setInterpreter i (f (w.interpreter i)).2) := by
  rw [onInterpreter, Table.update_eq]
  rfl

theorem interpreter_setInterpreter (w : World) (i j : InterpreterId) (it : Interpreter) :
    (w.setInterpreter i it).interpreter j = if i = j then it else w.interpreter j := by
  simp only [interpreter, setInterpreter, Table.get_set]
  by_cases h : i = j
  · simp [h]
  · have : i.number ≠ j.number := fun hn => h (by cases i; cases j; simp_all)
    simp [h, this]

/-! ## Collectors and the journal -/

/-- A new collector. -/
def newCollector (w : World) : CollectorId × World :=
  (⟨w.collectorCount⟩, { w with collectorCount := w.collectorCount + 1 })

/-- What a collector holds. -/
def telemetry (w : World) (c : CollectorId) : Telemetry := w.collectors.get c.number

/-- Changes what a collector holds. -/
def onTelemetry (w : World) (c : CollectorId) (f : Telemetry → Telemetry) : World :=
  { w with collectors := (w.collectors.update c.number fun t => ((), f t)).2 }

/-- Adds an entry to the journal. -/
def report (w : World) (e : Event) : World := { w with journal := w.journal.push e }

/-- Adds entries to the journal, first to last. -/
def reportEach (w : World) (es : List Event) : World := es.foldl report w

/-! ## Holders of host objects -/

/-- Acts on the store alone. -/
def onStore (w : World) (f : Store → Store) : World := { w with store := f w.store }

/-- One more holder of whatever a value names. -/
def retain (w : World) (v : Value) : World := w.onStore (·.retainValue v)

end World

end GuestBridge
