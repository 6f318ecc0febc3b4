import GuestBridge.Guest.Fault

/-!
# The argument stack

Guest calls take their arguments from a stack of handles and leave their results there. A mark
says where an argument list starts; nothing below the innermost mark can be popped. Values on the
stack own no shares. A share handed to the stack for safe keeping is a temporary, and it belongs to
the innermost open scope. A scope remembers the three heights at which it was opened, and closing
it cuts values, marks and temporaries back to them.

Values, marks and temporaries are listed from the oldest to the newest, open scopes from the
innermost to the outermost.
-/

namespace GuestBridge

/-- The heights at which a scope was opened. -/
structure Floor where
  values : Nat
  temps : Nat
  marks : Nat
  deriving DecidableEq, Repr, Inhabited

/-- Argument values, marks, temporaries and open scopes. -/
structure ArgumentStack where
  values : Array Handle := #[]
  marks : Array Nat := #[]
  temps : Array Handle := #[]
  scopes : List Floor := []
  deriving DecidableEq, Repr, Inhabited

namespace ArgumentStack

/-- Number of values. -/
def height (s : ArgumentStack) : Nat := s.values.size

/-- Number of open scopes. -/
def depth (s : ArgumentStack) : Nat := s.scopes.length

/-! ## Values and marks -/

/-- Puts a value on top. -/
def push (s : ArgumentStack) (h : Handle) : ArgumentStack :=
  { s with values := s.values.push h }

/-- Takes the top value, unless it lies at or below the innermost mark. -/
def pop (s : ArgumentStack) : Except Fault Handle × ArgumentStack :=
  match s.values.back? with
  | some h =>
    if s.height ≤ s.marks.back?.getD 0 then (.error .stackUnderflow, s)
    else (.ok h, { s with values := s.values.pop })
  | none => (.error .stackUnderflow, s)

/-- Starts an argument list at the present height. -/
def mark (s : ArgumentStack) : ArgumentStack :=
  { s with marks := s.marks.push s.height }

/-- Removes the innermost mark and everything above it. A mark above the stack is removed as well,
but yields no list. -/
def takeArguments (s : ArgumentStack) : Except Fault (List Handle) × ArgumentStack :=
  match s.marks.back? with
  | none => (.error .stackUnderflow, s)
  | some mark =>
    if s.height < mark then (.error .stackUnderflow, { s with marks := s.marks.pop })
    else
      (.ok (s.values.extract mark).toList,
        { s with marks := s.marks.pop, values := s.values.shrink mark })

/-! ## Temporaries and scopes -/

/-- Hands one share over to the innermost open scope. -/
def addTemporary (s : ArgumentStack) (h : Handle) : ArgumentStack :=
  { s with temps := s.temps.push h }

/-- Opens a scope. -/
def openScope (s : ArgumentStack) : ArgumentStack :=
  { s with scopes := ⟨s.height, s.temps.size, s.marks.size⟩ :: s.scopes }

/-- Cuts values, marks and temporaries back to the floor of a scope. -/
def cutTo (s : ArgumentStack) (floor : Floor) : ArgumentStack :=
  { s with
    values := s.values.shrink floor.values
    marks := s.marks.shrink floor.marks
    temps := s.temps.shrink floor.temps }

/-- Closes the scopes of a list, innermost first, down to the one at `depth`, and answers the
temporaries to be released, newest first. -/
def closeDownTo (depth : Nat) : List Floor → ArgumentStack → List Handle × ArgumentStack
  | [], s => ([], { s with scopes := [] })
  | floor :: outer, s =>
    if depth ≤ outer.length + 1 then
      let here := (s.temps.extract floor.temps).toList.reverse
      let (below, s) := closeDownTo depth outer (s.cutTo floor)
      (here ++ below, s)
    else ([], { s with scopes := floor :: outer })

/-- Closes the scope at `depth` (1 for the outermost) with all scopes inside it, and answers the
temporaries to be released, newest first. With fewer scopes open nothing happens; depth 0 closes
every scope. -/
def closeScope (s : ArgumentStack) (depth : Nat) : List Handle × ArgumentStack :=
  closeDownTo depth s.scopes s

end ArgumentStack

end GuestBridge
