import GuestBridge.Routine.Basic

/-!
# Running routines

A routine runs by recursion on its tree. A call starts another routine, with one level of nesting
less; when none is left there is no answer, which stands for a program that recurses without end.
-/

namespace GuestBridge

namespace Call

/-- What a call answers, and the machine after it. A call across a bridge is reported under the
method's name or the target's text. -/
def perform {κ : Type} (invoke : Invoke κ) : (c : Call) → Machine κ → Option (c.Reply × Machine κ)
  | .guestMethod i name mode, m => m.call invoke i (·.takeMethodCall name) mode
  | .guestSub i target mode, m => m.call invoke i (·.takeSubCall target) mode
  | .method b name invocant positional named, m =>
    m.callAcross invoke b (World.prepareMethod b invocant positional named)
      (·.takeMethodCall name) .list ("method " ++ name)
  | .sub b target mode positional named, m =>
    m.callAcross invoke b (World.prepareSub b positional named)
      (·.takeSubCall target) mode ("sub " ++ target.text)

end Call

namespace Routine

/-- Runs a routine; `invoke` runs the closures it calls. -/
def run (invoke : Invoke Code) :
    Routine → Machine Code → Option (Except Fault (List Handle) × Machine Code)
  | finish outcome, m => some (outcome, m)
  | act o next, m =>
    let (reply, m) := m.onWorld o.perform
    (next reply).run invoke m
  | look next, m => (next m.world).run invoke m
  | call c next, m =>
    match c.perform invoke m with
    | none => none
    | some (reply, m) => (next reply).run invoke m
  | closure captured code next, m =>
    let (id, world) := m.world.newClosure m.code.size captured
    (next id).run invoke { world, code := m.code.push code }

end Routine

namespace Machine

/-- The code of a closure. -/
def code? {κ : Type} (m : Machine κ) (closure : ObjectId) : Option κ :=
  match m.world.store.get? closure with
  | some (.closure code _) => m.code[code]?
  | _ => none

/-- Runs closures, with calls nested so many levels deep at most. -/
def invoke : Nat → Invoke Code
  | 0, _, _, _, _ => none
  | depth + 1, i, closure, args, m =>
    match m.code? closure with
    | some code => (code i args).run (invoke depth) m
    | none => some (.error .notCallable, m)

/-- Runs a routine, with calls nested so many levels deep at most. -/
def run (depth : Nat) (r : Routine) (m : Machine Code) :
    Option (Except Fault (List Handle) × Machine Code) :=
  r.run (invoke depth) m

end Machine

end GuestBridge
