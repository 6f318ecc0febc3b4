import GuestBridge.Crossing.Error

/-!
# Call contexts and continuations

The host returns from a call through a continuation, which names the address to resume at or leaves
that to the run loop. Each active call has a frame with the continuation of its caller. A tail call
has already handed its result on, so returning from it goes through the caller of the present
frame instead of falling through to the next instruction.
-/

namespace GuestBridge

/-! ## Addresses -/

/-- An address of the run loop. -/
structure Address where
  number : Nat
  deriving DecidableEq, Repr, Inhabited

namespace Address

/-- Lower-case hexadecimal digits, at least four. -/
def digits (a : Address) : List Char :=
  let ds := Nat.toDigits 16 a.number
  List.replicate (4 - ds.length) '0' ++ ds

/-- The text of an address. -/
def text (a : Address) : String := "@0x" ++ String.ofList a.digits

/-- Does one address come before another? -/
def before (a b : Address) : Bool := a.number < b.number

end Address

/-! ## Continuations -/

/-- Where a call returns to. Without an address the run loop goes on with its next instruction. -/
structure Continuation where
  label : String
  resume : Option Address := none
  tailCall : Bool := false
  deriving DecidableEq, Repr, Inhabited

/-- The continuation waiting in the register: none, one to be made when it is needed, or one that
is ready. -/
inductive Pending where
  | none
  | needed
  | ready (continuation : Continuation)
  deriving DecidableEq, Repr, Inhabited

/-- Is a tail call waiting to return? -/
def Pending.isTail : Pending → Bool
  | ready c => c.tailCall
  | none | needed => false

/-- An active call and the continuation of its caller. -/
structure CallFrame where
  sub : String
  caller : Continuation
  deriving DecidableEq, Repr, Inhabited

/-- Active calls, innermost first, and the pending continuation. -/
structure CallContext where
  frames : List CallFrame := []
  pending : Pending := .none
  deriving DecidableEq, Repr, Inhabited

namespace CallContext

/-- Number of active calls. -/
def depth (ctx : CallContext) : Nat := ctx.frames.length

/-- The sub of the innermost call. -/
def activeSub? (ctx : CallContext) : Option String := ctx.frames.head?.map (·.sub)

/-- The continuation of the innermost call's caller. -/
def caller? (ctx : CallContext) : Option Continuation := ctx.frames.head?.map (·.caller)

/-- Enters a call that returns through `caller`. -/
def enter (ctx : CallContext) (sub : String) (caller : Continuation) : CallContext :=
  { ctx with frames := ⟨sub, caller⟩ :: ctx.frames }

/-- Leaves the innermost call and answers its sub. -/
def leave (ctx : CallContext) : Option String × CallContext :=
  (ctx.activeSub?, { ctx with frames := ctx.frames.tail })

/-- Sets the pending continuation. -/
def withPending (ctx : CallContext) (pending : Pending) : CallContext :=
  { ctx with pending }

/-- Returns through a continuation: pops a frame and answers where the run loop resumes. -/
def returnThrough (ctx : CallContext) (c : Continuation) (next : Address) :
    Address × CallContext :=
  (c.resume.getD next, ctx.leave.2)

/-- Where the run loop goes on after a guest call. A pending tail call returns through the caller
of the innermost frame; anything else falls through to `next`. The register is left as it is. -/
def resume (ctx : CallContext) (next : Address) :
    Except CrossingError Address × CallContext :=
  if ctx.pending.isTail then
    match ctx.caller? with
    | some caller =>
      let (resume, ctx) := ctx.returnThrough caller next
      (.ok resume, ctx)
    | none => (.error .missingCallerContinuation, ctx)
  else (.ok next, ctx)

@[simp] theorem frames_enter (ctx : CallContext) (sub : String) (caller : Continuation) :
    (ctx.enter sub caller).frames = ⟨sub, caller⟩ :: ctx.frames := rfl

@[simp] theorem frames_leave (ctx : CallContext) : ctx.leave.2.frames = ctx.frames.tail := rfl

@[simp] theorem frames_returnThrough (ctx : CallContext) (c : Continuation) (next : Address) :
    (ctx.returnThrough c next).2.frames = ctx.frames.tail := rfl

end CallContext

end GuestBridge
