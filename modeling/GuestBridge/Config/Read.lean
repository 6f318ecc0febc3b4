import GuestBridge.Config.Basic
import GuestBridge.Text.Utf8
import GuestBridge.Toml.Document

/-!
# Reading settings

Settings come from a TOML document. Keys that are missing leave their setting at its default, and
keys that name no setting are passed over, but a value of the wrong kind refuses the document.
-/

namespace GuestBridge

namespace StringPolicy

/-- The policy of a name. -/
def ofName? : String → Option StringPolicy
  | "preserve" => some preserve
  | "truncate_at_nul" => some truncateAtNul
  | _ => none

/-- Is the node a container without elements? -/
def isEmptyContainer : Toml.Node → Bool
  | .array items => items.isEmpty
  | .table _ entries => entries.isEmpty
  | .tables elements => elements.isEmpty
  | _ => false

/-- The policy of a node: its name, or a table with the name as its only key and nothing in it. -/
def ofNode? : Toml.Node → Option StringPolicy
  | .text name => ofName? name
  | .table _ [(name, inner)] => if isEmptyContainer inner then ofName? name else none
  | _ => none

end StringPolicy

namespace Config

/-- An integer that is not negative. -/
def count? : Toml.Node → Option Nat
  | .integer n => if 0 ≤ n then some n.toNat else none
  | _ => none

/-- A truth value. -/
def flag? : Toml.Node → Option Bool
  | .boolean b => some b
  | _ => none

/-- A setting of a document, or its default. -/
def setting (entries : Toml.Entries) (key : String) (read : Toml.Node → Option α) (default : α) :
    Option α :=
  match Entries.find? key entries with
  | some node => read node
  | none => some default

/-- The settings of a document. -/
def ofEntries? (entries : Toml.Entries) : Option Config := do
  let defaults : Config := {}
  let maxDepth ← setting entries "max_depth" count? defaults.maxDepth
  let stringPolicy ← setting entries "string_policy" StringPolicy.ofNode? defaults.stringPolicy
  let traceCalls ← setting entries "trace_calls" flag? defaults.traceCalls
  let strictInvocantSlot ←
    setting entries "strict_invocant_slot" flag? defaults.strictInvocantSlot
  pure { maxDepth, stringPolicy, traceCalls, strictInvocantSlot }

/-- Why settings could not be read. -/
inductive Error where
  /-- The text is no document, or a setting has the wrong kind. -/
  | invalid
  /-- There is no file, or it is not text. -/
  | unreadable (path : String)
  /-- The text of the file is invalid. -/
  | unparsable (path : String)
  deriving DecidableEq, Repr, Inhabited

/-- The text of a refused document. -/
def invalidText : String := "invalid bridge configuration"

/-- The text of an error, outermost context first. -/
def Error.message : Error → String
  | invalid => invalidText
  | unreadable path => "failed to read bridge config " ++ path
  | unparsable path => "failed to parse bridge config " ++ path ++ ": " ++ invalidText

/-- Settings from the text of a document. -/
def ofText (source : String) : Except Error Config :=
  match (Toml.parse? source).bind ofEntries? with
  | some config => .ok config
  | none => .error .invalid

/-- Settings from the bytes of a file, if there is one. -/
def ofFile (path : String) (content : Option Bytes) : Except Error Config :=
  match content with
  | none => .error (.unreadable path)
  | some bytes =>
    if Utf8.isValid bytes then
      match ofText (Utf8.decodeLossy bytes) with
      | .ok config => .ok config
      | .error _ => .error (.unparsable path)
    else .error (.unreadable path)

end Config

end GuestBridge
