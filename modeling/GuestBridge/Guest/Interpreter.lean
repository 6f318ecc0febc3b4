import GuestBridge.Guest.ArgumentStack
import GuestBridge.Guest.Packages
import GuestBridge.Scalar.Containers
import GuestBridge.Text.Quoted
import GuestBridge.Text.Utf8

/-!
# Guest interpreters

One interpreter owns a scalar heap, an argument stack and a package table. The operations here act
on one interpreter alone. Those that free scalars leave the freed bodies parked in the heap; what
happens to the host values that freed code owned is decided by `GuestBridge.World`.

Every operation answers its result together with the interpreter that follows, whether it succeeds
or fails. An operation that takes over a share does so only when it succeeds. A call says by its mode
how many results it hands back, and a sub call by its target what it runs.
-/

namespace GuestBridge

/-! ## Modes and targets of calls -/

/-- How many results a guest call hands back: none, exactly one, or all of them. -/
inductive Mode where
  | void
  | scalar
  | list
  deriving DecidableEq, Repr, Inhabited

/-- The results a mode gives up and the ones it keeps: in scalar mode the last one. -/
def Mode.split : Mode → List Handle → List Handle × List Handle
  | void, results => (results, [])
  | scalar, results => (results.dropLast, results.getLast?.toList)
  | list, results => ([], results)

/-- What a sub call runs: a code value or a reference to one, or a sub of this name. -/
inductive Target where
  | code (handle : Handle)
  | name (qualified : String)
  deriving DecidableEq, Repr, Inhabited

/-- The text of a target in telemetry. -/
def Target.text : Target → String
  | .name qualified => "Name(" ++ Text.Quoted.quote qualified ++ ")"
  | .code handle =>
    "Code(SvHandle \x7b index: " ++ toString handle.index ++ ", generation: "
      ++ toString handle.generation.toNat ++ " \x7d)"

/-! ## Interpreters -/

/-- What a new scalar starts with. -/
inductive Seed where
  | undef
  | int (value : Int64)
  | num (value : Binary64)
  | str (bytes : Bytes)
  | array (items : List Handle)
  | hash
  deriving DecidableEq, Inhabited

/-- The body a new scalar starts with. -/
def Seed.body : Seed → Body
  | undef => .undef
  | int value => .int value
  | num value => .num value
  | str bytes => .str bytes
  | array items => .array items
  | hash => .hash []

/-- Heap, argument stack and packages of one guest interpreter. -/
structure Interpreter where
  heap : Heap := {}
  stack : ArgumentStack := {}
  packages : Packages := []
  deriving DecidableEq, Inhabited

namespace Interpreter

/-- Acts on the heap alone. -/
@[inline] def onHeap (it : Interpreter) (f : Heap → α × Heap) : α × Interpreter :=
  let (a, heap) := f it.heap
  (a, { it with heap })

/-- Acts on the argument stack alone. -/
@[inline] def onStack (it : Interpreter) (f : ArgumentStack → α × ArgumentStack) :
    α × Interpreter :=
  let (a, stack) := f it.stack
  (a, { it with stack })

/-! ## The whole interpreter -/

/-- Number of scalars, parked bodies and subs. -/
def mass (it : Interpreter) : Nat := it.heap.mass + it.packages.closures.length

/-- Frees every scalar, whatever its share count, and forgets the packages. What the stack names is
stale from then on. -/
def clear (it : Interpreter) : Interpreter :=
  { it with heap := it.heap.clear, packages := [] }

/-! ## Scalars -/

/-- A new scalar with one share, owned by the caller. An array takes over the shares of its
items. -/
def create (it : Interpreter) (body : Body) : Handle × Interpreter :=
  it.onHeap (·.allocate body)

/-- A reference that takes over the caller's share of its target. -/
def referTaking (it : Interpreter) (target : Handle) : Except Fault Handle × Interpreter :=
  it.onHeap (·.referTaking target)

/-- A reference with a share of its own of its target. -/
def referSharing (it : Interpreter) (target : Handle) : Except Fault Handle × Interpreter :=
  it.onHeap (·.referSharing target)

/-- Appends an item to an array, which takes over the caller's share of it. -/
def arrayPush (it : Interpreter) (array item : Handle) : Except Fault Unit × Interpreter :=
  it.onHeap (·.arrayPush array item)

/-- Stores a scalar in a hash, which takes over the caller's share of it and drops its share of
the scalar it held under the key before. -/
def hashStore (it : Interpreter) (hash : Handle) (key : Bytes) (value : Handle) :
    Except Fault Unit × Interpreter :=
  it.onHeap (·.hashStore hash key value)

/-- Blesses the target of a reference. -/
def bless (it : Interpreter) (reference : Handle) (package : String) :
    Except Fault Unit × Interpreter :=
  it.onHeap (·.blessTarget reference package)

/-- Adds a share and answers the new count. -/
def share (it : Interpreter) (h : Handle) : Except Fault Nat × Interpreter :=
  it.onHeap (·.share h)

/-- Drops a share and answers how many are left. -/
def unshare (it : Interpreter) (h : Handle) : Except Fault Nat × Interpreter :=
  it.onHeap (·.unshare h)

/-! ## Stack and scopes -/

/-- Passes a handle to a stack operation if its scalar is still there. -/
def ifLive (it : Interpreter) (h : Handle) (f : ArgumentStack → ArgumentStack) :
    Except Fault Unit × Interpreter :=
  if it.heap.contains h then (.ok (), { it with stack := f it.stack })
  else (.error h.stale, it)

/-- Pushes a value whose share stays with the caller. -/
def push (it : Interpreter) (h : Handle) : Except Fault Unit × Interpreter :=
  it.ifLive h (·.push h)

/-- Hands a share over to the innermost scope. -/
def addTemporary (it : Interpreter) (h : Handle) : Except Fault Unit × Interpreter :=
  it.ifLive h (·.addTemporary h)

/-- Pushes a value and hands its share over to the innermost scope. -/
def pushTemporary (it : Interpreter) (h : Handle) : Except Fault Unit × Interpreter :=
  it.ifLive h fun stack => (stack.addTemporary h).push h

/-- Pops the top value. -/
def pop (it : Interpreter) : Except Fault Handle × Interpreter := it.onStack (·.pop)

/-- Starts an argument list. -/
def mark (it : Interpreter) : Interpreter := { it with stack := it.stack.mark }

/-- Opens a scope and answers its depth. -/
def openScope (it : Interpreter) : Nat × Interpreter :=
  let it := { it with stack := it.stack.openScope }
  (it.stack.depth, it)

/-- Closes the scope at a depth with all scopes inside it and drops the shares of the temporaries
they held, newest first. Answers the faults of the drops that failed. -/
def closeScope (it : Interpreter) (depth : Nat) : List Fault × Interpreter :=
  let (temps, stack) := it.stack.closeScope depth
  let (faults, heap) := it.heap.unshareEach temps
  (faults, { it with heap, stack })

/-! ## Calls -/

/-- The package whose method a call on this scalar runs: the one a string names, or the one the
target of a reference is blessed into. -/
def packageOf (it : Interpreter) (invocant : Handle) (method : String) :
    Except Fault String :=
  match it.heap.body invocant with
  | .error fault => .error fault
  | .ok (.ref target) =>
    match it.heap.blessed target with
    | .ok (some package) => .ok package
    | .ok none => .error (.invalidInvocant method "an unblessed reference")
    | .error fault => .error fault
  | .ok .undef => .error (.invalidInvocant method "an undefined value")
  | .ok (.str (b :: bytes)) => .ok (Utf8.decodeLossy (b :: bytes))
  | .ok other => .error (.invalidInvocant method ("a " ++ other.kind ++ " without a package"))

/-- Takes the arguments of a method call off the stack and finds the sub it runs. -/
def takeMethodCall (it : Interpreter) (method : String) :
    Except Fault (Sub × List Handle) × Interpreter :=
  match it.onStack (·.takeArguments) with
  | (.error fault, it) => (.error fault, it)
  | (.ok [], it) => (.error (.invalidInvocant method "an empty argument list"), it)
  | (.ok (invocant :: args), it) =>
    match it.packageOf invocant method with
    | .error fault => (.error fault, it)
    | .ok package =>
      match it.packages.method? package method with
      | some sub => (.ok (sub, invocant :: args), it)
      | none => (.error (.methodNotFound method package), it)

/-- The sub a target names. A code value is reached through at most one reference. -/
def targetSub (it : Interpreter) : Target → Except Fault Sub
  | .name name =>
    match it.packages.sub? name with
    | some sub => .ok sub
    | none => .error (.subNotFound name)
  | .code handle =>
    let callable : Body → Except Fault Sub
      | .code sub => .ok sub
      | _ => .error .notCallable
    match it.heap.body handle with
    | .ok (.ref target) => it.heap.body target >>= callable
    | .ok body => callable body
    | .error fault => .error fault

/-- Takes the arguments of a sub call off the stack and finds the sub it runs. -/
def takeSubCall (it : Interpreter) (target : Target) :
    Except Fault (Sub × List Handle) × Interpreter :=
  match it.onStack (·.takeArguments) with
  | (.error fault, it) => (.error fault, it)
  | (.ok args, it) =>
    match it.targetSub target with
    | .ok sub => (.ok (sub, args), it)
    | .error fault => (.error fault, it)

/-- Pushes results and hands their shares over to the innermost scope; answers the faults of those
that are stale. -/
def keepEach : List Handle → Interpreter → List Fault × Interpreter
  | [], it => ([], it)
  | h :: rest, it =>
    let (result, it) := it.pushTemporary h
    let (faults, it) := keepEach rest it
    match result with
    | .ok _ => (faults, it)
    | .error fault => (fault :: faults, it)

/-- Settles the results of a sub: drops those the mode gives up, leaves the others on the stack as
temporaries, and answers their number. In scalar mode an empty result list becomes one new undef.
The first fault is reported after every result has been settled. -/
def settle (it : Interpreter) (mode : Mode) (results : List Handle) :
    Except Fault Nat × Interpreter :=
  let (results, it) := match mode, results with
    | .scalar, [] =>
      let (h, it) := it.create .undef
      ([h], it)
    | _, results => (results, it)
  -- the results given up are dropped before the others are pushed, whatever fails on the way
  let (given, kept) := mode.split results
  let (dropFaults, it) := it.onHeap (·.unshareEach given)
  let (keepFaults, it) := keepEach kept it
  match dropFaults ++ keepFaults with
  | fault :: _ => (.error fault, it)
  | [] => (.ok kept.length, it)

end Interpreter

end GuestBridge
