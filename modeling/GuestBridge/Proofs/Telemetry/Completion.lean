import GuestBridge.Proofs.Steps

/-!
# Operations across bridges that have ended

What a bridge reports to its collector is said here in terms of what was asked of it and what it
answered, not of the code that reports. A `Completion` is one operation across a bridge with its
answer, and `Completion.events` are the events that make it up:

* converting, wrapping, pushing and calling are one event each: of their own kind if they succeed,
  and a failure otherwise
* a return is one event for each frame that it has removed, and a failure if it fails
* reading a boundary object back is none

`State.completed?` is what the next step of a run completes. A call is completed when it is left, or
when it is entered and ends at once.
-/

namespace GuestBridge

/-! ## Completions -/

/-- An operation across a bridge that has come to its end, and its answer. -/
inductive Completion where
  | marshal (b : Bridge) (typeName : String) (result : Except CrossingError Handle)
  | wrap (b : Bridge) (h : Handle) (result : Except CrossingError Value)
  | unwrap (b : Bridge) (result : Except CrossingError Value)
  | passArguments (b : Bridge) (result : Except CrossingError Nat)
  | method (b : Bridge) (name : String) (result : Except CrossingError ObjectId)
  | sub (b : Bridge) (target : Target) (result : Except CrossingError ObjectId)
  | resume (b : Bridge) (before : CallContext) (next : Address)
      (result : Except CrossingError Address) (after : CallContext)

namespace Completion

/-- The bridge that the operation went across. -/
def bridge : Completion → Bridge
  | marshal b .. | wrap b .. | unwrap b .. | passArguments b .. | method b .. | sub b ..
  | resume b .. => b

/-- The kind of event that the operation is reported as, if it is reported. -/
def kind? : Completion → Option EventKind
  | marshal .. => some .convert
  | wrap .. => some .wrap
  | unwrap .. => none
  | passArguments .. => some .push
  | method .. | sub .. => some .call
  | resume .. => some .tailCollapse

/-- Why something failed. -/
def failure? : Except CrossingError α → Option CrossingError
  | .ok _ => none
  | .error e => some e

/-- Why the operation failed. -/
def error? : Completion → Option CrossingError
  | marshal _ _ result => failure? result
  | wrap _ _ result => failure? result
  | unwrap _ result => failure? result
  | passArguments _ result => failure? result
  | method _ _ result => failure? result
  | sub _ _ result => failure? result
  | resume _ _ _ result _ => failure? result

/-- How many frames the operation has removed from a call context. -/
def removed : Completion → Nat
  | resume _ before _ _ after => before.depth - after.depth
  | _ => 0

/-- How an operation that is one event has ended. -/
def ending (kind : EventKind) (detail : String) : Except CrossingError α → EventKind × String
  | .ok _ => (kind, detail)
  | .error e => (.failure, detail ++ ": " ++ e.message)

/-- The events that make up the operation, with their texts. -/
def events : Completion → List (EventKind × String)
  | marshal _ typeName result => [ending .convert ("convert " ++ typeName) result]
  | wrap _ h result => [ending .wrap ("wrap slot " ++ toString h.index) result]
  | unwrap .. => []
  | passArguments _ result => [ending .push "push arguments" result]
  | method _ name result => [ending .call ("method " ++ name) result]
  | sub _ target result => [ending .call ("sub " ++ target.text) result]
  | resume _ before next (.ok address) after =>
    List.replicate (before.depth - after.depth)
      (.tailCollapse, next.text ++ " -> " ++ address.text)
  | resume _ _ _ (.error e) _ => [(.failure, e.message)]

end Completion

/-! ## What is completed in a run -/

/-- What an operation completes, given its answer. The name of a value's type is that before the
operation. -/
def Op.completion? (w : World) : (o : Op) → o.Reply → Option Completion
  | marshal b v, result => some (.marshal b (w.store.typeName v) result)
  | wrap b h, result => some (.wrap b h result)
  | unwrap b _, result => some (.unwrap b result)
  | passArguments b _ _, result => some (.passArguments b result)
  | resume b ctx next, (result, after) => some (.resume b ctx next result after)
  | _, _ => none

/-- The collector that an operation writes to by itself, past all bridges. -/
def Op.writes? : Op → Option CollectorId
  | count c _ | record c .. => some c
  | _ => none

/-- What a call completes, given its answer. -/
def Call.completion? : (c : Call) → c.Reply → Option Completion
  | guestMethod .., _ | guestSub .., _ => none
  | method b name .., result => some (.method b name result)
  | sub b target .., result => some (.sub b target result)

/-- What entering a call completes: the call itself, if it ends at once. -/
def Call.entry? (c : Call) : c.Reply ⊕ Landing × List Handle → Option Completion
  | .inl reply => c.completion? reply
  | .inr _ => none

namespace State

/-- What the next step completes. -/
def completed? : State → Option Completion
  | { routine := .finish _, frames := [], .. } => none
  | { routine := .finish outcome, frames := f :: _, machine } =>
    f.call.completion? (f.call.finish f.landing outcome machine).1
  | { routine := .act o _, machine, .. } =>
    o.completion? machine.world (o.perform machine.world).1
  | { routine := .look _, .. } => none
  | { routine := .call c _, machine, .. } => c.entry? (c.start machine).1
  | { routine := .closure .., .. } => none

/-- The collector that the next step writes to past all bridges. -/
def writes? : State → Option CollectorId
  | { routine := .act o _, .. } => o.writes?
  | _ => none

/-- What the next so many steps complete, in their order. -/
def completedAlong : Nat → State → List Completion
  | 0, _ => []
  | n + 1, s => s.completed?.toList ++ s.step.elim [] (completedAlong n)

/-- The collectors that the next so many steps write to past all bridges. -/
def writesAlong : Nat → State → List CollectorId
  | 0, _ => []
  | n + 1, s => s.writes?.toList ++ s.step.elim [] (writesAlong n)

theorem completedAlong_succ {s t : State} (hstep : s.step = some t) (n : Nat) :
    s.completedAlong (n + 1) = s.completed?.toList ++ t.completedAlong n := by
  rw [completedAlong, hstep, Option.elim_some]

theorem writesAlong_succ {s t : State} (hstep : s.step = some t) (n : Nat) :
    s.writesAlong (n + 1) = s.writes?.toList ++ t.writesAlong n := by
  rw [writesAlong, hstep, Option.elim_some]

theorem completedAlong_add {s t : State} {n : Nat} (hreach : Reaches n s t) (k : Nat) :
    s.completedAlong (n + k) = s.completedAlong n ++ t.completedAlong k := by
  induction n generalizing s with
  | zero =>
    obtain rfl : s = t := hreach
    rw [Nat.zero_add]
    rfl
  | succ n ih =>
    obtain ⟨u, hstep, hrest⟩ := hreach
    rw [Nat.succ_add, completedAlong_succ hstep, completedAlong_succ hstep, ih hrest,
      List.append_assoc]

end State

/-! ## Entering a completion into its collector -/

/-- Reports the events of an operation to the collector of its bridge. -/
def World.entered (w : World) : Option Completion → World
  | none => w
  | some d => d.events.foldl (fun w event => w.note d.bridge event.1 event.2) w

namespace World

/-- A report of how an operation ended is that of its one event. -/
theorem tally_eq (w : World) (b : Bridge) (kind : EventKind) (detail : String)
    (result : Except CrossingError α) :
    w.tally b kind detail result
      = w.note b (Completion.ending kind detail result).1
          (Completion.ending kind detail result).2 := by
  cases result <;> rfl

/-- A tail call that returns has removed one frame, and no other return has removed any. -/
theorem resume_eq (w : World) (b : Bridge) (ctx : CallContext) (next : Address) :
    (w.resume b ctx next).2 = w.entered (some (.resume b ctx next (w.resume b ctx next).1.1
      (w.resume b ctx next).1.2)) := by
  obtain ⟨frames, pending⟩ := ctx
  cases htail : pending.isTail with
  | false => simp [resume, CallContext.resume, htail, entered, Completion.events]
  | true =>
    cases frames with
    | nil =>
      simp [resume, CallContext.resume, CallContext.caller?, htail, entered, Completion.events,
        Completion.bridge]
    | cons f rest =>
      simp [resume, CallContext.resume, CallContext.caller?, CallContext.returnThrough,
        CallContext.leave, CallContext.depth, htail, entered, Completion.events,
        Completion.bridge]

end World

end GuestBridge
