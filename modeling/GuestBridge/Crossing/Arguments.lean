import GuestBridge.Crossing.Bridge

/-!
# Arguments of guest calls

The arguments of a call are a positional array and a named hash. Both are emptied, and their
elements go onto the guest stack as temporaries of the innermost scope: the positional ones in
order, then for each named one its key as a string and its value. An element is let go of as soon
as its scalar is on the stack.

When a conversion fails, the elements not yet on the stack are let go of, first to last, and what
has been pushed stays until the scope is closed.
-/

namespace GuestBridge.World

/-- Pushes a scalar as a temporary of the innermost scope. -/
def pushTemporary (w : World) (i : InterpreterId) (h : Handle) :
    Except CrossingError Unit × World :=
  match w.guest i (·.pushTemporary h) with
  | (.ok (), w) => (.ok (), w)
  | (.error fault, w) => (.error (.guest fault), w)

/-- Converts a value and pushes its scalar. -/
def pushConverted (w : World) (i : InterpreterId) (config : Config) (v : Value) :
    Except CrossingError Unit × World :=
  match w.convert i config v with
  | (.ok h, w) => w.pushTemporary i h
  | (.error e, w) => (.error e, w)

/-- Pushes the key of a named argument. -/
def pushKey (w : World) (i : InterpreterId) (config : Config) (key : String) :
    Except CrossingError Unit × World :=
  let bytes := config.stringPolicy.apply (Utf8.encode key)
  let (h, w) := w.guest i (·.create (.str bytes))
  w.pushTemporary i h

/-- Pushes positional arguments, first to last, and answers the number of slots. -/
def pushPositional (i : InterpreterId) (config : Config) :
    List Value → World → Except CrossingError Nat × World
  | [], w => (.ok 0, w)
  | v :: rest, w =>
    match w.pushConverted i config v with
    | (.error e, w) => (.error e, w.dropEach (v :: rest))
    | (.ok (), w) =>
      match pushPositional i config rest (w.drop v) with
      | (.ok n, w) => (.ok (n + 1), w)
      | (.error e, w) => (.error e, w)

/-- Pushes named arguments, first to last, and answers the number of slots. -/
def pushNamed (i : InterpreterId) (config : Config) :
    List (String × Value) → World → Except CrossingError Nat × World
  | [], w => (.ok 0, w)
  | (key, v) :: rest, w =>
    match w.pushKey i config key with
    | (.error e, w) => (.error e, w.dropEach (v :: rest.map (·.2)))
    | (.ok (), w) =>
      match w.pushConverted i config v with
      | (.error e, w) => (.error e, w.dropEach (v :: rest.map (·.2)))
      | (.ok (), w) =>
        match pushNamed i config rest (w.drop v) with
        | (.ok n, w) => (.ok (n + 2), w)
        | (.error e, w) => (.error e, w)

/-- Empties a positional array and a named hash onto the guest stack and answers the number of
slots. The caller's hold on the two collections ends, the named one first. -/
def pushAll (w : World) (i : InterpreterId) (config : Config) (positional named : ObjectId) :
    Except CrossingError Nat × World :=
  let (items, w) := w.arrayDrain positional
  match pushPositional i config items w with
  | (.error e, w) => (.error e, w.dropObjects [named, positional])
  | (.ok n, w) =>
    let (entries, w) := w.hashDrain named
    match pushNamed i config entries w with
    | (.error e, w) => (.error e, w.dropObjects [named, positional])
    | (.ok m, w) => (.ok (n + m), w.dropObjects [named, positional])

/-- Pushes arguments across a bridge. -/
def passArguments (w : World) (b : Bridge) (positional named : ObjectId) :
    Except CrossingError Nat × World :=
  let (result, w) := w.pushAll b.interpreter b.config positional named
  (result, w.tally b .push "push arguments" result)

end GuestBridge.World
