import GuestBridge.Proofs.Release
import GuestBridge.Routine.Basic
import Mathlib.Data.List.Infix

/-!
# Qualified names

The name of a sub is joined to that of its package by `::`, and a qualified name is split at the
last `::` in it. Package and sub come back unless the own name of the sub brings a later `::`
along, within itself or where it meets the one in front of it (`Packages.qualified_join_iff`). What
stands in the name of the package does not matter.

An interpreter finds under such a name the sub that has been defined last for this package and this
name, whatever has been declared for others (`World.sub?_declareEach`). Each declaration changes the
answer for one pair of names (`Packages.own?_define`, `Packages.own?_declareParents`), and nothing
that a displaced sub lets go of changes an answer while the interpreter is held
(`World.keepsNames_release`).
-/

namespace GuestBridge

namespace Packages

variable {table : Packages} {p n : String} {cs package name rest : List Char} {c : Char}

/-! ## The last separator -/

/-- What joins the names of package and sub. -/
def separator : List Char := [':', ':']

theorem splitLast_cons_of_some (hrest : splitLast rest = some (package, name)) (c : Char) :
    splitLast (c :: rest) = some (c :: package, name) := by
  rw [splitLast.eq_def]
  simp only [hrest]

theorem splitLast_separator (hname : splitLast (':' :: name) = none) :
    splitLast (':' :: ':' :: name) = some ([], name) := by
  rw [splitLast.eq_def]
  simp only [hname]

theorem splitLast_cons_of_none (hrest : splitLast rest = none)
    (hfirst : ¬ separator <+: c :: rest) : splitLast (c :: rest) = none := by
  rw [splitLast.eq_def]
  simp only [hrest]
  split
  · simp [separator] at hfirst
  · rfl

/-- A text is split at its last separator: none begins after that, not even with its second half. -/
theorem splitLast_spec (cs : List Char) :
    match splitLast cs with
    | some (package, name) => cs = package ++ ':' :: ':' :: name ∧ ¬ separator <:+: ':' :: name
    | none => ¬ separator <:+: cs := by
  induction cs with
  | nil => simp [splitLast, separator]
  | cons c rest ih =>
    cases hrest : splitLast rest with
    | some parts =>
      obtain ⟨package, name⟩ := parts
      rw [hrest] at ih
      rw [splitLast_cons_of_some hrest]
      exact ⟨congrArg (c :: ·) ih.1, ih.2⟩
    | none =>
      rw [hrest] at ih
      by_cases hfirst : separator <+: c :: rest
      · obtain ⟨name, hname⟩ := hfirst
        obtain ⟨rfl, rfl⟩ : ':' = c ∧ ':' :: name = rest := by simpa [separator] using hname
        rw [splitLast_separator hrest]
        exact ⟨rfl, ih⟩
      · rw [splitLast_cons_of_none hrest hfirst]
        exact fun hin => (List.infix_cons_iff.1 hin).elim hfirst ih

theorem splitLast_eq_none (hnone : ¬ separator <:+: cs) : splitLast cs = none := by
  have hspec := splitLast_spec cs
  cases hsplit : splitLast cs with
  | none => rfl
  | some parts =>
    rw [hsplit] at hspec
    exact absurd ⟨parts.1, parts.2, by simp [separator, hspec.1]⟩ hnone

/-- A text is split at any separator after which no other begins. -/
theorem splitLast_join (hlast : ¬ separator <:+: ':' :: name) (package : List Char) :
    splitLast (package ++ ':' :: ':' :: name) = some (package, name) := by
  induction package with
  | nil => exact splitLast_separator (splitLast_eq_none hlast)
  | cons c package ih => exact splitLast_cons_of_some ih c

/-! ## Joining and splitting -/

/-- May be joined to the name of a package so that both come back: there is no separator within the
name, and none where it meets the one in front of it. -/
def Separable (name : String) : Prop :=
  ¬ separator <:+: name.toList ∧ ¬ [':'] <+: name.toList

instance (name : String) : Decidable (Separable name) :=
  inferInstanceAs (Decidable (¬ separator <:+: name.toList ∧ ¬ [':'] <+: name.toList))

theorem separable_iff : Separable n ↔ ¬ separator <:+: ':' :: n.toList := by
  rw [List.infix_cons_iff, separator, List.cons_prefix_cons, not_or, and_comm]
  simp [Separable, separator]

theorem toList_join (p n : String) :
    (p ++ "::" ++ n).toList = p.toList ++ ':' :: ':' :: n.toList := by
  simp

/-- The names of package and sub come back from a qualified name exactly if the name of the sub has
no `::` in it and does not begin with `:`. -/
theorem qualified_join_iff : qualified (p ++ "::" ++ n) = (p, n) ↔ Separable n := by
  rw [separable_iff]
  constructor
  · intro hback
    have hspec := splitLast_spec (p ++ "::" ++ n).toList
    cases hsplit : splitLast (p ++ "::" ++ n).toList with
    | none =>
      rw [hsplit, toList_join] at hspec
      exact absurd ⟨p.toList, n.toList, by simp [separator]⟩ hspec
    | some parts =>
      rw [hsplit] at hspec
      rw [qualified, hsplit, Prod.mk.injEq] at hback
      rw [← hback.2, String.toList_ofList]
      exact hspec.2
  · intro hlast
    rw [qualified, toList_join, splitLast_join hlast]
    simp

/-- A name without `::` belongs to `main`. -/
theorem qualified_of_not_infix (hnone : ¬ separator <:+: n.toList) : qualified n = ("main", n) := by
  rw [qualified, splitLast_eq_none hnone]

/-! ## Declarations -/

theorem own?_insert (table : Packages) (package p n : String) (entry : Package) :
    own? (Entries.insert package entry table) p n =
      if p = package then Entries.find? n entry.subs else table.own? p n := by
  rw [own?, get, Entries.find?_insert]
  split <;> rfl

/-- Defining a sub changes what one package defines under one name. -/
theorem own?_define (table : Packages) (package name p n : String) (sub : Sub) :
    (table.define package name sub).own? p n =
      if p = package ∧ n = name then some sub else table.own? p n := by
  rw [define, own?_insert]
  by_cases hp : p = package
  · subst hp
    rw [if_pos rfl, Entries.find?_insert, own?]
    simp
  · rw [if_neg hp, if_neg fun h => hp h.1]

/-- Declaring parents changes no sub. -/
theorem own?_declareParents (table : Packages) (package p n : String) (parents : List String) :
    (table.declareParents package parents).own? p n = table.own? p n := by
  rw [declareParents, own?_insert]
  split
  · rename_i hp
    rw [hp, own?]
  · rfl

end Packages

/-- A declaration in an interpreter: a sub of a package, or the parents of a package. -/
inductive Declaration where
  | sub (package name : String) (closure : ObjectId)
  | parents (package : String) (names : List String)

namespace Declaration

/-- The operation that makes a declaration. -/
def op (i : InterpreterId) : Declaration → Op
  | sub package name closure => .define i package name closure
  | parents package names => .declareParents i package names

/-- The sub that a declaration defines in a package under a name. -/
def sub? (p n : String) : Declaration → Option Sub
  | sub package name closure =>
    if p = package ∧ n = name then some { name := package ++ "::" ++ name, closure } else none
  | parents _ _ => none

/-- The sub that has been defined last in a package under a name. -/
def latest? (p n : String) (declarations : List Declaration) : Option Sub :=
  declarations.reverse.findSome? (sub? p n)

end Declaration

namespace World

variable {w w₁ w₂ : World} {i : InterpreterId}

/-- From one world to another the packages of an interpreter are the same, and host code holds the
same interpreters. -/
structure KeepsNames (i : InterpreterId) (w w₁ : World) : Prop where
  packages : (w₁.interpreter i).packages = (w.interpreter i).packages
  holds : w₁.holds = w.holds

theorem KeepsNames.refl (i : InterpreterId) (w : World) : KeepsNames i w w := ⟨rfl, rfl⟩

theorem KeepsNames.trans (hfirst : KeepsNames i w w₁) (hnext : KeepsNames i w₁ w₂) :
    KeepsNames i w w₂ :=
  ⟨hnext.packages.trans hfirst.packages, hnext.holds.trans hfirst.holds⟩

theorem keepsNames_setInterpreter {j : InterpreterId} {it : Interpreter}
    (hsame : i = j → it.packages = (w.interpreter i).packages) :
    KeepsNames i w (w.setInterpreter j it) := by
  refine ⟨?_, rfl⟩
  rw [interpreter_setInterpreter]
  split
  · rename_i hj
    exact hsame hj.symm
  · rfl

theorem keepsNames_takeFreed (i j : InterpreterId) (w : World) :
    KeepsNames i w (w.takeFreed j).2 := by
  rw [takeFreed, onInterpreter_eq]
  exact keepsNames_setInterpreter fun hj => hj ▸ rfl

theorem keepsNames_dismantle (i : InterpreterId) (w : World) (o : HostObject) :
    KeepsNames i w (w.dismantle o).2 := by
  cases o with
  | boundary owner handle =>
    rw [dismantle, dropBoundary_snd, onInterpreter_eq]
    exact (keepsNames_setInterpreter fun hj => hj ▸ rfl).trans (keepsNames_takeFreed i owner _)
  | array | hash | object | closure => exact .refl i w

/-- Ending an interpreter leaves the packages of all others. -/
theorem keepsNames_endInterpreter {j : InterpreterId} (hj : i ≠ j) :
    KeepsNames i w (w.endInterpreter j).2 := by
  have hclear : KeepsNames i w (w.setInterpreter j (w.interpreter j).clear) :=
    keepsNames_setInterpreter fun h => absurd h hj
  exact hclear.trans (keepsNames_takeFreed i j _)

/-- A step of a release does not end an interpreter that host code holds. -/
theorem keepsNames_step {u u' : Unwinding} (hheld : u.world.holds.get i.number ≠ 0)
    (hstep : Unwinding.Step u u') : KeepsNames i u.world u'.world := by
  cases hstep with
  | report | held | absent | fewer => exact ⟨rfl, rfl⟩
  | @ends j rest w hj =>
    refine keepsNames_endInterpreter ?_
    rintro rfl
    simp [isHeld, hheld] at hj
  | @last id h rest w =>
    have hgone := keepsNames_dismantle i { w with store := w.store.put id none } h.object
    exact ⟨hgone.packages, hgone.holds⟩

/-- An interpreter that host code holds keeps its packages, whatever is let go of. -/
theorem keepsNames_release (hheld : w.holds.get i.number ≠ 0) (steps : List ReleaseStep) :
    KeepsNames i w (w.release steps) :=
  release_induct (P := fun u => KeepsNames i w u.world) (.refl i w) fun _ _ hbefore hstep =>
    hbefore.trans (keepsNames_step (hbefore.holds ▸ hheld) hstep)

/-- An operation on the interpreter itself changes the packages as it says. -/
theorem keepsNames_guest (hheld : w.holds.get i.number ≠ 0) (f : Interpreter → α × Interpreter) :
    KeepsNames i (w.setInterpreter i (f (w.interpreter i)).2) (w.guest i f).2 := by
  rw [guest, onInterpreter_eq]
  have htaken := keepsNames_takeFreed i i (w.setInterpreter i (f (w.interpreter i)).2)
  exact htaken.trans (keepsNames_release (htaken.holds ▸ hheld) _)

/-- An operation on the packages of a held interpreter, as it is seen from outside. -/
theorem guest_packages (hheld : w.holds.get i.number ≠ 0) (f : Packages → Packages) :
    ((w.guest i fun it => ((), { it with packages := f it.packages })).2.interpreter i).packages
        = f (w.interpreter i).packages ∧
      (w.guest i fun it => ((), { it with packages := f it.packages })).2.holds = w.holds := by
  have hkeeps := keepsNames_guest hheld fun it => ((), { it with packages := f it.packages })
  refine ⟨?_, hkeeps.holds⟩
  rw [hkeeps.packages, interpreter_setInterpreter, if_pos rfl]

/-! ## Runs of declarations -/

/-- A declaration adds what it defines, and host code still holds the interpreter. -/
theorem own?_perform (hheld : w.holds.get i.number ≠ 0) (d : Declaration) :
    ((d.op i).perform w).2.holds = w.holds ∧
      ∀ p n, (((d.op i).perform w).2.interpreter i).packages.own? p n =
        (d.sub? p n).or ((w.interpreter i).packages.own? p n) := by
  cases d with
  | sub package name closure =>
    obtain ⟨hpackages, hholds⟩ := guest_packages (w := w.retainObject closure) hheld
      fun table => table.define package name { name := package ++ "::" ++ name, closure }
    -- the sub that is displaced lets go of its closure after that
    have hdropped := keepsNames_release (hholds ▸ hheld)
      ((((w.interpreter i).packages.own? package name).toList.map (·.closure)).map .holder)
    refine ⟨hdropped.holds.trans hholds, fun p n => ?_⟩
    have hown := Packages.own?_define (w.interpreter i).packages package name p n
      { name := package ++ "::" ++ name, closure }
    rw [Declaration.sub?]
    refine (congrArg (·.own? p n) (hdropped.packages.trans hpackages)).trans (hown.trans ?_)
    split <;> rfl
  | parents package names =>
    obtain ⟨hpackages, hholds⟩ := guest_packages hheld (·.declareParents package names)
    exact ⟨hholds, fun p n => (congrArg (·.own? p n) hpackages).trans
      (Packages.own?_declareParents _ package p n names)⟩

/-- The declarations made in an interpreter, first to last. -/
def declareEach (w : World) (i : InterpreterId) (declarations : List Declaration) : World :=
  declarations.foldl (fun w d => ((d.op i).perform w).2) w

/-- After some declarations a package defines under a name what has been defined last. -/
theorem own?_declareEach (hheld : w.holds.get i.number ≠ 0) (declarations : List Declaration)
    (p n : String) :
    ((w.declareEach i declarations).interpreter i).packages.own? p n =
      (Declaration.latest? p n declarations).or ((w.interpreter i).packages.own? p n) := by
  induction declarations generalizing w with
  | nil => rfl
  | cons d rest ih =>
    obtain ⟨hholds, hown⟩ := own?_perform hheld d
    rw [declareEach, List.foldl_cons, ← declareEach, ih (hholds ▸ hheld), hown, Declaration.latest?,
      Declaration.latest?, List.reverse_cons, List.findSome?_append, Option.or_assoc]
    simp

/-- A qualified name is split into the names that it was joined from exactly if the name of the sub
has no `::` in it and does not begin with `:`. For such a name it finds, after any declarations, the
sub that has been defined last for this package and this name, and the one from before if there is
none among them. A name without `::` finds what has been defined last in `main`. -/
theorem sub?_declareEach (hheld : w.holds.get i.number ≠ 0) (declarations : List Declaration)
    (p n : String) :
    (Packages.qualified (p ++ "::" ++ n) = (p, n) ↔ Packages.Separable n) ∧
      (Packages.Separable n →
        ((w.declareEach i declarations).interpreter i).packages.sub? (p ++ "::" ++ n) =
          (Declaration.latest? p n declarations).or ((w.interpreter i).packages.own? p n)) ∧
      (¬ Packages.separator <:+: n.toList →
        ((w.declareEach i declarations).interpreter i).packages.sub? n =
          (Declaration.latest? "main" n declarations).or
            ((w.interpreter i).packages.own? "main" n)) := by
  refine ⟨Packages.qualified_join_iff, fun hname => ?_, fun hnone => ?_⟩
  · rw [Packages.sub?, Packages.qualified_join_iff.2 hname]
    exact own?_declareEach hheld declarations p n
  · rw [Packages.sub?, Packages.qualified_of_not_infix hnone]
    exact own?_declareEach hheld declarations "main" n

/-- A new interpreter that host code holds, and two closures. -/
def twoClosures : World :=
  ((({} : World).newInterpreter.2.newClosure 0 []).2.newClosure 1 []).2

/-- Two pairs of names are joined to the same name. The one whose package ends in `:` is found under
it, with what has been defined last. -/
theorem sub?_declareEach_colons :
    let declarations : List Declaration := [.sub "a:" "b" ⟨0⟩, .parents "a:" ["a"],
      .sub "a:" "b" ⟨1⟩, .sub "a" ":b" ⟨0⟩, .sub "main" "b" ⟨0⟩]
    let packages := ((twoClosures.declareEach ⟨1⟩ declarations).interpreter ⟨1⟩).packages
    Packages.Separable "b" ∧ ¬ Packages.Separable ":b" ∧
      packages.sub? "a:::b" = some { name := "a:::b", closure := ⟨1⟩ } ∧
      packages.sub? "b" = some { name := "main::b", closure := ⟨0⟩ } := by
  intro declarations packages
  have hheld : twoClosures.holds.get 1 ≠ 0 := by decide
  have hname : Packages.Separable "b" := by decide
  obtain ⟨-, hjoined, hmain⟩ := sub?_declareEach (i := ⟨1⟩) hheld declarations "a:" "b"
  exact ⟨hname, by decide, (hjoined hname).trans rfl, (hmain hname.1).trans rfl⟩

end World

end GuestBridge
