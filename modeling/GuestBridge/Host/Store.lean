import GuestBridge.Entries
import GuestBridge.Scalar.Body
import GuestBridge.Total

/-!
# The host store

Shared host objects with the number of their holders. An object stays in the store until its last
holder lets go of it; its identifier is not used again. Holders are values in containers, in
captured lists and in the hands of host code.
-/

namespace GuestBridge

/-- A shared host object. A boundary object owns one share of the guest scalar it stands for and
holds on to the interpreter of that scalar. A closure carries the code of a guest sub, by number,
and the host values the code captured. -/
inductive HostObject where
  | array (items : List Value)
  | hash (entries : List (String × Value))
  | boundary (owner : InterpreterId) (handle : Handle)
  | object (className : String)
  | closure (code : Nat) (captured : List Value)
  deriving DecidableEq, Inhabited

namespace HostObject

/-- The values an object holds, in the order in which it lets go of them. -/
def parts : HostObject → List Value
  | array items => items
  | hash entries => entries.map (·.2)
  | closure _ captured => captured
  | boundary _ _ | object _ => []

/-- Replaces the items of an array; an object of another kind stays as it is. -/
def withItems (items : List Value) : HostObject → HostObject
  | array _ => array items
  | o => o

/-- Replaces the entries of a hash; an object of another kind stays as it is. -/
def withEntries (entries : List (String × Value)) : HostObject → HostObject
  | hash _ => hash entries
  | o => o

end HostObject

/-- An object and the number of its holders. -/
structure Holding where
  holders : Nat
  object : HostObject
  deriving DecidableEq, Inhabited

/-- All objects ever stored, by number; those let go of by their last holder are gone. -/
structure Store where
  holdings : Array (Option Holding) := #[]
  deriving DecidableEq, Inhabited

namespace Store

/-! ## Reading -/

/-- An object that still has a holder, with their number. -/
def holding? (st : Store) (id : ObjectId) : Option Holding := (st.holdings[id.number]?).join

/-- An object that still has a holder. -/
def get? (st : Store) (id : ObjectId) : Option HostObject := (·.object) <$> st.holding? id

/-- The items of an array. -/
def items (st : Store) (id : ObjectId) : List Value :=
  match st.get? id with
  | some (.array items) => items
  | _ => []

/-- The entries of a hash, in the order in which it enumerates them. -/
def entries (st : Store) (id : ObjectId) : List (String × Value) :=
  match st.get? id with
  | some (.hash entries) => entries
  | _ => []

/-- Owner and handle of the scalar a boundary object stands for. -/
def boundary? (st : Store) (id : ObjectId) : Option (InterpreterId × Handle) :=
  match st.get? id with
  | some (.boundary owner handle) => some (owner, handle)
  | _ => none

/-- Does a boundary object hold on to the interpreter? -/
def holds (st : Store) (i : InterpreterId) : Bool :=
  st.holdings.any fun
    | some { object := .boundary owner _, .. } => owner == i
    | _ => false

/-- The class of an opaque object. -/
def className (st : Store) (id : ObjectId) : String :=
  match st.get? id with
  | some (.object className) => className
  | _ => ""

/-- The name of a value's type: for an opaque object, its class. -/
def typeName (st : Store) : Value → String
  | .undef => "Undef"
  | .integer _ => "Integer"
  | .float _ => "Float"
  | .text _ => "String"
  | .array _ => "Array"
  | .hash _ => "Hash"
  | .boundary _ => "GuestScalar"
  | .object id => st.className id

/-- Number of elements of an array or a hash, zero for all else. -/
def elements (st : Store) : Value → Nat
  | .array id => (st.items id).length
  | .hash id => (st.entries id).length
  | _ => 0

/-- Number of objects that still have a holder, together with their parts and with one more for
each, which stands for the interpreter it may hold on to. -/
def weight (st : Store) : Nat :=
  total (fun o => o.elim 0 fun h => h.object.parts.length + 2) st.holdings

/-! ## Writing -/

/-- A new object with one holder, the caller. -/
def add (st : Store) (object : HostObject) : ObjectId × Store :=
  (⟨st.holdings.size⟩, { holdings := st.holdings.push (some { holders := 1, object }) })

/-- Writes the entry of an object. -/
def put (st : Store) (id : ObjectId) (holding : Option Holding) : Store :=
  { holdings := st.holdings.setIfInBounds id.number holding }

/-- Changes an object in place. -/
def modify (st : Store) (id : ObjectId) (f : HostObject → HostObject) : Store :=
  match st.holding? id with
  | some h => st.put id (some { h with object := f h.object })
  | none => st

/-- One more holder of an object. -/
def retain (st : Store) (id : ObjectId) : Store :=
  match st.holding? id with
  | some h => st.put id (some { h with holders := h.holders + 1 })
  | none => st

/-- One more holder of whatever a value names. -/
def retainValue (st : Store) (v : Value) : Store :=
  match v.shared? with
  | some id => st.retain id
  | none => st

/-- One more holder for each value of a list. -/
def retainValues (st : Store) (vs : List Value) : Store := vs.foldl retainValue st

/-! ## Weight -/

theorem getElem?_of_holding? {st : Store} {id : ObjectId} {h : Holding}
    (hh : st.holding? id = some h) : st.holdings[id.number]? = some (some h) := by
  unfold holding? at hh
  cases hs : st.holdings[id.number]? with
  | none => simp [hs] at hh
  | some o => simpa [hs] using hh

/-- Taking an object out takes what it counts out of the weight. -/
theorem weight_put_none {st : Store} {id : ObjectId} {h : Holding} (hh : st.holding? id = some h) :
    (st.put id none).weight + (h.object.parts.length + 2) = st.weight := by
  have := total_setIfInBounds (fun o => o.elim 0 fun h => h.object.parts.length + 2)
    (getElem?_of_holding? hh) none
  simpa [weight, put] using this

/-- The weight does not depend on the number of holders. -/
theorem weight_put_holders {st : Store} {id : ObjectId} {h : Holding}
    (hh : st.holding? id = some h) (holders : Nat) :
    (st.put id (some { h with holders })).weight = st.weight := by
  have := total_setIfInBounds (fun o => o.elim 0 fun h => h.object.parts.length + 2)
    (getElem?_of_holding? hh) (some { h with holders })
  simp only [Option.elim_some] at this
  simp only [weight, put]
  omega

end Store

end GuestBridge
