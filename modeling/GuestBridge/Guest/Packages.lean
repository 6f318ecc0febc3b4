import GuestBridge.Entries
import GuestBridge.Scalar.Body

/-!
# Packages

A package has subs of its own and a list of parents. A method is looked up in the package and then
in its parents, depth first and in declared order, and no package is entered twice. A sub is also
reached by a qualified name, `Package::name`; a name without `::` belongs to the package `main`.

* `Packages.search` ends because each step lowers the number of packages not yet entered and of
  their parents, together with the number of names still to try.
-/

namespace GuestBridge

/-- The subs and the parents of one package. -/
structure Package where
  subs : List (String × Sub) := []
  parents : List String := []
  deriving DecidableEq, Inhabited

/-- The packages of an interpreter by name. -/
abbrev Packages := List (String × Package)

namespace Packages

/-! ## Definitions -/

/-- The package of a name; one that was never mentioned is empty. -/
def get (table : Packages) (name : String) : Package := (Entries.find? name table).getD {}

/-- Defines a sub, in place of any sub of the same name in the package. -/
def define (table : Packages) (package name : String) (sub : Sub) : Packages :=
  let entry := table.get package
  Entries.insert package { entry with subs := Entries.insert name sub entry.subs } table

/-- Declares the parents of a package, in place of those it had. -/
def declareParents (table : Packages) (package : String) (parents : List String) : Packages :=
  Entries.insert package { table.get package with parents } table

/-- The sub a package defines itself. -/
def own? (table : Packages) (package name : String) : Option Sub :=
  Entries.find? name (table.get package).subs

/-- The closures of all subs. -/
def closures (table : Packages) : List ObjectId :=
  table.flatMap fun entry => entry.2.subs.map (·.2.closure)

/-! ## Methods -/

/-- Number of the packages that are not in a list of names, together with their parents. -/
def weightBesides (seen : List String) : Packages → Nat
  | [] => 0
  | (name, package) :: rest =>
    (if name ∈ seen then 0 else package.parents.length + 1) + weightBesides seen rest

theorem weightBesides_cons_le (name : String) (seen : List String) (table : Packages) :
    weightBesides (name :: seen) table ≤ weightBesides seen table := by
  induction table with
  | nil => exact Nat.le_refl _
  | cons e rest ih =>
    by_cases hs : e.1 ∈ seen
    · simpa [weightBesides, hs] using ih
    · by_cases hn : e.1 = name
      · simp only [weightBesides, hn, List.mem_cons_self, if_true]
        omega
      · simpa [weightBesides, hs, hn] using ih

/-- A package that is entered goes out of the weight with its parents. -/
theorem weightBesides_cons_lt {table : Packages} {name : String} {package : Package}
    (hfind : Entries.find? name table = some package) {seen : List String} (hseen : name ∉ seen) :
    weightBesides (name :: seen) table + package.parents.length < weightBesides seen table := by
  induction table with
  | nil => simp at hfind
  | cons e rest ih =>
    obtain ⟨k, p⟩ := e
    by_cases hn : k = name
    · subst hn
      rw [Entries.find?, if_pos rfl, Option.some.injEq] at hfind
      subst hfind
      have hle := weightBesides_cons_le k seen rest
      simp only [weightBesides, List.mem_cons_self, if_true, if_neg hseen]
      omega
    · rw [Entries.find?, if_neg hn] at hfind
      have hlt := ih hfind
      by_cases hs : k ∈ seen
      · simpa [weightBesides, hs] using hlt
      · simp only [weightBesides, List.mem_cons, hn, hs, or_self, if_false]
        omega

/-- Looks a method up in the packages of a list, first to last. The parents of a package without
the method come next, before the rest of the list; names already seen are passed over. -/
def search (table : Packages) (method : String) (seen : List String) :
    List String → Option Sub
  | [] => none
  | name :: rest =>
    if _hseen : name ∈ seen then search table method seen rest
    else
      match _hfind : Entries.find? name table with
      | none => search table method (name :: seen) rest
      | some package =>
        match Entries.find? method package.subs with
        | some sub => some sub
        | none => search table method (name :: seen) (package.parents ++ rest)
termination_by pending => weightBesides seen table + pending.length
decreasing_by
  · simp
  · have := weightBesides_cons_le name seen table
    rw [List.length_cons]
    omega
  · have := weightBesides_cons_lt _hfind _hseen
    rw [List.length_append, List.length_cons]
    omega

/-- The sub a method call on a package runs. -/
def method? (table : Packages) (package method : String) : Option Sub :=
  table.search method [] [package]

/-! ## Qualified names -/

/-- Splits off what follows the last `::`, if there is one. -/
def splitLast : List Char → Option (List Char × List Char)
  | [] => none
  | c :: rest =>
    match splitLast rest with
    | some (package, name) => some (c :: package, name)
    | none =>
      match c, rest with
      | ':', ':' :: name => some ([], name)
      | _, _ => none

/-- Package and own name of a qualified sub name. -/
def qualified (name : String) : String × String :=
  match splitLast name.toList with
  | some (package, own) => (String.ofList package, String.ofList own)
  | none => ("main", name)

/-- The sub of a qualified name. -/
def sub? (table : Packages) (name : String) : Option Sub :=
  table.own? (qualified name).1 (qualified name).2

end Packages

end GuestBridge
