import GuestBridge.Toml.Number

/-!
# Reading TOML documents

A document is a sequence of lines: blank ones, comments, headers of tables, and keys with their
values. The syntax is that of TOML 1.0; a byte order mark in front is passed over.

* `value` recurses on the number of levels that arrays and inline tables may still nest.
* Loops over the elements of a container and over the lines of a document are bounded by the number
  of characters left, since each round takes at least one.
-/

namespace GuestBridge.Toml

open Reader

/-- A reader of so many rounds, with one round for each character left and one more. -/
def bounded (r : Nat → Reader α) : Reader α := fun cs => r (cs.length + 1) cs

/-! ## Values -/

/-- Blanks, line ends and comments between the elements of an array, for so many lines at most. -/
def gap : Nat → Reader Unit
  | 0 => failure
  | n + 1 => do
    blanks
    match ← peek with
    | some '#' => do
      comment
      newline
      gap n
    | some '\n' | some '\r' => do
      newline
      gap n
    | _ => pure ()

/-- The space between elements. -/
def space : Reader Unit := bounded gap

/-- The elements of an array behind its bracket or a comma, so many at most, with the closing
bracket. -/
def elements (element : Reader Node) : Nat → Reader (List Node)
  | 0 => failure
  | n + 1 => do
    space
    match ← peek with
    | some ']' => do
      exact [']']
      pure []
    | _ => do
      let first ← element
      space
      match ← peek with
      | some ',' => do
        exact [',']
        let more ← elements element n
        pure (first :: more)
      | _ => do
        exact [']']
        pure [first]

/-- A key with its value in an inline table. -/
def pair (element : Reader Node) : Reader ((List String × String) × Node) := do
  let k ← key
  exact ['=']
  blanks
  let v ← element
  blanks
  pure (k, v)

/-- The pairs of an inline table, so many at most, with the closing brace. -/
def pairs (element : Reader Node) : Nat → Reader (List ((List String × String) × Node))
  | 0 => failure
  | n + 1 => do
    let first ← pair element
    match ← peek with
    | some ',' => do
      exact [',']
      let more ← pairs element n
      pure (first :: more)
    | _ => do
      exact ['\x7d']
      pure [first]

/-- An inline table behind its opening brace. -/
def braces (element : Reader Node) : Reader Node := do
  blanks
  let found ← (exact ['\x7d'] *> pure [])
    <|> bounded (pairs element)
  match Node.inlineTable found with
  | some node => pure node
  | none => failure

/-- A value that is no container. -/
def scalar : Reader Node := do
  match ← peek with
  | some 't' => exact ['t', 'r', 'u', 'e'] *> pure (.boolean true)
  | some 'f' => exact ['f', 'a', 'l', 's', 'e'] *> pure (.boolean false)
  | some '"' | some '\x27' => Node.text <$> string
  | _ => number

/-- A value, in which arrays and inline tables nest so many levels at most. -/
def value : Nat → Reader Node
  | 0 => scalar
  | room + 1 => do
    match ← peek with
    | some '[' => do
      exact ['[']
      Node.array <$> bounded (elements (value room))
    | some '\x7b' => do
      exact ['\x7b']
      braces (value room)
    | _ => scalar

/-! ## Lines -/

/-- The document so far: where the present header points, and all entries. -/
structure Draft where
  header : List String := []
  entries : Entries := []

/-- Makes a change of the whole document. -/
def Draft.change (d : Draft) (header : List String) (change : Node.Change) : Reader Draft :=
  match change .defined d.entries with
  | some (_, entries) => pure { header, entries }
  | none => failure

/-- A header in single or double brackets. -/
def header (d : Draft) : Reader Draft := do
  exact ['[']
  match ← peek with
  | some '[' => do
    exact ['[']
    let (path, last) ← key
    exact [']', ']']
    lineTrailing
    d.change (path ++ [last]) (Node.openElement path last)
  | _ => do
    let (path, last) ← key
    exact [']']
    lineTrailing
    d.change (path ++ [last]) (Node.openTable path last)

/-- A key with its value on a line. -/
def keyValue (d : Draft) : Reader Draft := do
  let (path, last) ← key
  exact ['=']
  blanks
  let v ← value (depthLimit - 1)
  lineTrailing
  d.change d.header (Node.modifyAt false (Node.assign path last v) d.header)

/-- The rest of a document, so many lines at most. -/
def statements : Nat → Draft → Reader Entries
  | 0, _ => failure
  | n + 1, d => do
    blanks
    match ← peek with
    | none => pure d.entries
    | some '\n' | some '\r' => do
      newline
      statements n d
    | some '#' => do
      lineTrailing
      statements n d
    | some '[' => do
      let d ← header d
      statements n d
    | _ => do
      let d ← keyValue d
      statements n d

/-- The entries of a document, if it is one. -/
def parse? (source : String) : Option Entries :=
  let cs := match source.toList with
    | '\uFEFF' :: rest => rest
    | cs => cs
  (bounded (statements · {}) cs).map (·.1)

end GuestBridge.Toml
