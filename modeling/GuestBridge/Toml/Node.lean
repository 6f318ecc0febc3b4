import GuestBridge.Entries

/-!
# TOML documents

The tree a TOML document describes, and how its statements build it. A table can be added to only
in the way in which it came about: one defined by a header not again by a header or by a dotted key,
one made by a dotted key not by a header, one written inline not at all.

* `Node.modifyAt` walks down a path of keys, making the tables that are missing.
-/

namespace GuestBridge.Toml

/-- How a table came about. -/
inductive Form where
  /-- The document itself, or a table with a header of its own. -/
  | defined
  /-- On the way to a table with a header. -/
  | implied
  /-- On the way to the value of a dotted key. -/
  | dotted
  /-- Written in braces. -/
  | inline
  deriving DecidableEq, Repr, Inhabited

/-- A value of a document. Floats and dates are recognised, but not kept. -/
inductive Node where
  | text (value : String)
  | integer (value : Int)
  | float
  | boolean (value : Bool)
  | dateTime
  | array (items : List Node)
  | table (form : Form) (entries : List (String × Node))
  /-- The tables with headers in double brackets, each with its entries. -/
  | tables (elements : List (List (String × Node)))
  deriving Inhabited

/-- The entries of a table. -/
abbrev Entries := List (String × Node)

namespace Node

/-- A change of a table, which may be refused. -/
abbrev Change := Form → Entries → Option (Form × Entries)

/-- Changes the table at the end of a path. Missing tables on the way are made, as dotted or as
implied ones; of an array of tables the last one is meant; any other value ends the walk. A dotted
walk does not enter a table with a header of its own. -/
def modifyAt (dotted : Bool) (change : Change) : List String → Change
  | [], form, entries => change form entries
  | key :: path, form, entries =>
    match Entries.find? key entries with
    | none => do
      let (newForm, new) ← modifyAt dotted change path (if dotted then .dotted else .implied) []
      pure (form, Entries.insert key (.table newForm new) entries)
    | some (.table oldForm old) =>
      if oldForm = .inline ∨ (dotted ∧ oldForm = .defined) then none
      else do
        let (newForm, new) ← modifyAt dotted change path oldForm old
        pure (form, Entries.insert key (.table newForm new) entries)
    | some (.tables elements) => do
      let (_, new) ← modifyAt dotted change path .defined (elements.getLast?.getD [])
      pure (form, Entries.insert key (.tables (elements.dropLast ++ [new])) entries)
    | some _ => none

/-- Stores the value of a key behind `path`, which must not have one yet. With a path before it,
the key goes into a dotted table only. -/
def assign (path : List String) (key : String) (value : Node) : Change :=
  modifyAt true (fun form entries =>
    if ¬path.isEmpty ∧ form ≠ .dotted then none
    else if (Entries.find? key entries).isSome then none
    else some (form, Entries.insert key value entries)) path

/-- Defines a table by its header. It may have been implied before. -/
def openTable (path : List String) (key : String) : Change :=
  modifyAt false (fun form entries =>
    match Entries.find? key entries with
    | none => some (form, Entries.insert key (.table .defined []) entries)
    | some (.table .implied old) => some (form, Entries.insert key (.table .defined old) entries)
    | some _ => none) path

/-- Adds a table to an array of tables by its header. -/
def openElement (path : List String) (key : String) : Change :=
  modifyAt false (fun form entries =>
    match Entries.find? key entries with
    | none => some (form, Entries.insert key (.tables [[]]) entries)
    | some (.tables elements) =>
      some (form, Entries.insert key (.tables (elements ++ [[]])) entries)
    | some _ => none) path

/-- An inline table of keys, each behind a path, and their values. -/
def inlineTable (pairs : List ((List String × String) × Node)) : Option Node := do
  let (_, entries) ← pairs.foldlM (fun (table : Form × Entries) pair =>
    assign pair.1.1 pair.1.2 pair.2 table.1 table.2) (.defined, [])
  pure (.table .inline entries)

end Node

end GuestBridge.Toml
