import GuestBridge.Guest.Packages
import Mathlib.Data.List.Basic
import Mathlib.Logic.Relation
import Mathlib.Order.WellFounded

/-!
# Methods and ancestors

A method is looked up by working off a list of packages. Here the lookup is compared with searches
that follow the parents by recursion.

* `Packages.order` enters packages depth first and parents in declared order, each package once. It
  enters the package it starts from and its ancestors, and nothing else (`mem_order_iff`).
* `Packages.descend` is the search that recurses in this order and ends at the first package with
  the method (`descend_eq`). Working off the list comes to the same (`search_append`).
* `Packages.inherited` recurses without keeping account of where it has been, which ends only if no
  package is its own ancestor. Then it finds the same sub (`findSome?_order`): a package that is
  passed over because it has been entered has been searched to its end, for it is not one of those
  whose parents are being searched.
-/

namespace GuestBridge.Packages

variable {table : Packages} {method package p q : String} {seen names rest : List String}

/-! ## Ancestors -/

/-- The parents of a package in declared order. -/
def parents (table : Packages) (package : String) : List String := (table.get package).parents

/-- The first package has the second for a parent. -/
def Inherits (table : Packages) (package parent : String) : Prop :=
  parent ∈ table.parents package

/-- The second package is the first, or a parent of it, or a parent of a parent, and so on. -/
def Reaches (table : Packages) : String → String → Prop := Relation.ReflTransGen table.Inherits

/-- No package is its own ancestor. -/
def Acyclic (table : Packages) : Prop := ∀ p, ¬ Relation.TransGen table.Inherits p p

/-- A package with parents is in the table. -/
theorem find?_of_inherits (hpq : table.Inherits p q) :
    Entries.find? p table = some (table.get p) := by
  unfold Inherits parents get at hpq
  unfold get
  cases hfind : Entries.find? p table with
  | none => simp [hfind] at hpq
  | some entry => rfl

theorem weightBesides_append_le (above seen : List String) (table : Packages) :
    weightBesides (above ++ seen) table ≤ weightBesides seen table := by
  induction above with
  | nil => exact Nat.le_refl _
  | cons name above ih => exact (weightBesides_cons_le name _ table).trans ih

/-- A package that is entered goes out of the weight with its parents, if it has any. -/
theorem weightBesides_enter_lt (hseen : p ∉ seen) (rest : List String) :
    weightBesides (p :: seen) table + (table.parents p).length
      < weightBesides seen table + (p :: rest).length := by
  suffices hle : weightBesides (p :: seen) table + (table.parents p).length
      ≤ weightBesides seen table from Nat.lt_of_le_of_lt hle (by simp)
  cases hparents : table.parents p with
  | nil => exact weightBesides_cons_le p seen table
  | cons q others =>
    have hpq : table.Inherits p q := by simp [Inherits, hparents]
    have hlt := weightBesides_cons_lt (find?_of_inherits hpq) hseen
    rw [← hparents]
    exact Nat.le_of_lt hlt

theorem weightBesides_rest_lt (above : List String) :
    weightBesides (above ++ p :: seen) table + rest.length
      < weightBesides seen table + (p :: rest).length := by
  have habove := weightBesides_append_le above (p :: seen) table
  have hcons := weightBesides_cons_le p seen table
  rw [List.length_cons]
  omega

/-! ## The order of a search -/

/-- The packages that a depth-first search enters: each package of a list, then its parents in
declared order and what lies beyond them, before the rest of the list. A package that has been
entered is passed over. -/
def order (table : Packages) (seen : List String) : List String → List String
  | [] => []
  | name :: rest =>
    if name ∈ seen then order table seen rest
    else
      let above := order table (name :: seen) (table.parents name)
      name :: (above ++ order table (above ++ name :: seen) rest)
termination_by names => weightBesides seen table + names.length
decreasing_by
  · simp
  · exact weightBesides_enter_lt ‹_› rest
  · exact weightBesides_rest_lt above

/-- No package is entered twice. -/
theorem nodup_order (table : Packages) (seen names : List String) :
    (table.order seen names).Nodup ∧ ∀ p ∈ table.order seen names, p ∉ seen := by
  fun_induction order table seen names with
  | case1 => simp
  | case2 seen name rest hseen ih => exact ih
  | case3 seen name rest hseen above ihabove ihrest =>
    obtain ⟨habove, hnew⟩ := ihabove
    obtain ⟨hrest, hothers⟩ := ihrest
    have hname : ∀ p ∈ above ++ table.order (above ++ name :: seen) rest, p ∉ name :: seen := by
      intro p hp
      rcases List.mem_append.1 hp with hp | hp
      · exact hnew p hp
      · exact fun hin => hothers p hp (List.mem_append_right _ hin)
    constructor
    · refine List.nodup_cons.2 ⟨fun hin => hname name hin List.mem_cons_self, ?_⟩
      refine List.nodup_append.2 ⟨habove, hrest, fun p hp q hq hpq => ?_⟩
      exact hothers q hq (hpq ▸ List.mem_append_left _ hp)
    · intro p hp
      rcases List.mem_cons.1 hp with rfl | hp
      · exact hseen
      · exact fun hin => hname p hp (List.mem_cons_of_mem _ hin)

/-- Only packages of the list and their ancestors are entered. -/
theorem reaches_of_mem_order (hp : p ∈ table.order seen names) :
    ∃ name ∈ names, table.Reaches name p := by
  fun_induction order table seen names with
  | case1 => simp at hp
  | case2 seen name rest hseen ih =>
    obtain ⟨q, hq, hreaches⟩ := ih hp
    exact ⟨q, List.mem_cons_of_mem _ hq, hreaches⟩
  | case3 seen name rest hseen above ihabove ihrest =>
    rcases List.mem_cons.1 hp with rfl | hp
    · exact ⟨p, List.mem_cons_self, .refl⟩
    · rcases List.mem_append.1 hp with hp | hp
      · obtain ⟨q, hq, hreaches⟩ := ihabove hp
        exact ⟨name, List.mem_cons_self, .head hq hreaches⟩
      · obtain ⟨q, hq, hreaches⟩ := ihrest hp
        exact ⟨q, List.mem_cons_of_mem _ hq, hreaches⟩

/-- Every package of the list has been entered in the end, and with each package its parents. -/
theorem order_closed (table : Packages) (seen names : List String) :
    (∀ name ∈ names, name ∈ table.order seen names ∨ name ∈ seen) ∧
      ∀ p ∈ table.order seen names, ∀ q, table.Inherits p q →
        q ∈ table.order seen names ∨ q ∈ seen := by
  fun_induction order table seen names with
  | case1 => simp
  | case2 seen name rest hseen ih =>
    refine ⟨fun q hq => ?_, ih.2⟩
    rcases List.mem_cons.1 hq with rfl | hq
    · exact .inr hseen
    · exact ih.1 q hq
  | case3 seen name rest hseen above ihabove ihrest =>
    -- what the search of the parents or of the rest has entered is entered here
    have hentered : ∀ q, q ∈ above ∨ q ∈ name :: seen →
        q ∈ name :: (above ++ table.order (above ++ name :: seen) rest) ∨ q ∈ seen := by
      simp only [List.mem_cons, List.mem_append]
      tauto
    have hlater : ∀ q, q ∈ table.order (above ++ name :: seen) rest ∨ q ∈ above ++ name :: seen →
        q ∈ name :: (above ++ table.order (above ++ name :: seen) rest) ∨ q ∈ seen := by
      simp only [List.mem_cons, List.mem_append]
      tauto
    constructor
    · intro q hq
      rcases List.mem_cons.1 hq with rfl | hq
      · exact .inl List.mem_cons_self
      · exact hlater q (ihrest.1 q hq)
    · intro p hp q hpq
      rcases List.mem_cons.1 hp with rfl | hp
      · exact hentered q (ihabove.1 q hpq)
      · rcases List.mem_append.1 hp with hp | hp
        · exact hentered q (ihabove.2 p hp q hpq)
        · exact hlater q (ihrest.2 p hp q hpq)

/-- A search enters the package it starts from and its ancestors, and nothing else. -/
theorem mem_order_iff (table : Packages) (package p : String) :
    p ∈ table.order [] [package] ↔ table.Reaches package p := by
  obtain ⟨hnames, hclosed⟩ := table.order_closed [] [package]
  constructor
  · intro hp
    obtain ⟨name, hname, hreaches⟩ := reaches_of_mem_order hp
    rwa [List.mem_singleton.1 hname] at hreaches
  · intro hreaches
    induction hreaches with
    | refl => simpa using hnames package List.mem_cons_self
    | tail _ hpq ih => simpa using hclosed _ ih _ hpq

/-! ## The search by recursion -/

/-- Looks a method up in each package of a list, and, before the rest of the list, in its parents by
recursion. A package that has been entered is passed over. Answers the first sub found, or else the
packages entered. -/
def descend (table : Packages) (method : String) (seen : List String) :
    List String → Sub ⊕ List String
  | [] => .inr []
  | name :: rest =>
    if name ∈ seen then descend table method seen rest
    else
      match table.own? name method with
      | some sub => .inl sub
      | none =>
        match descend table method (name :: seen) (table.parents name) with
        | .inl sub => .inl sub
        | .inr above =>
          match descend table method (above ++ name :: seen) rest with
          | .inl sub => .inl sub
          | .inr others => .inr (name :: (above ++ others))
termination_by names => weightBesides seen table + names.length
decreasing_by
  · simp
  · exact weightBesides_enter_lt ‹_› rest
  · exact weightBesides_rest_lt above

/-- The search by recursion finds what the first package with the method defines. -/
theorem descend_eq (table : Packages) (method : String) (seen names : List String) :
    table.descend method seen names =
      match (table.order seen names).findSome? (table.own? · method) with
      | some sub => .inl sub
      | none => .inr (table.order seen names) := by
  fun_induction order table seen names with
  | case1 => rw [descend, List.findSome?_nil]
  | case2 seen name rest hseen ih => rw [descend, if_pos hseen, ih]
  | case3 seen name rest hseen above ihabove ihrest =>
    rw [descend, if_neg hseen, List.findSome?_cons]
    cases table.own? name method with
    | some sub => rfl
    | none =>
      rw [ihabove, List.findSome?_append]
      cases above.findSome? (table.own? · method) with
      | some sub => rfl
      | none =>
        rw [Option.none_or]
        dsimp only
        rw [ihrest]
        cases (table.order (above ++ name :: seen) rest).findSome? (table.own? · method) <;> rfl

/-! ## The search by a list -/

theorem search_of_mem (hseen : p ∈ seen) :
    table.search method seen (p :: rest) = table.search method seen rest := by
  rw [search, dif_pos hseen]

/-- A package that is entered is looked at itself, and its parents come next. -/
theorem search_of_not_mem (hseen : p ∉ seen) :
    table.search method seen (p :: rest) =
      (table.own? p method).or (table.search method (p :: seen) (table.parents p ++ rest)) := by
  rw [search, dif_neg hseen, own?, parents, get]
  split
  · rename_i hfind
    simp [hfind]
  · rename_i entry hfind
    rw [hfind, Option.getD_some]
    cases Entries.find? method entry.subs <;> rfl

/-- It does not matter in which order packages have been entered, or how often one is listed. -/
theorem search_congr {seen' : List String} (hsame : ∀ p, p ∈ seen ↔ p ∈ seen') :
    table.search method seen names = table.search method seen' names := by
  have hcons : ∀ {seen seen' : List String} (name : String), (∀ p, p ∈ seen ↔ p ∈ seen') →
      ∀ p, p ∈ name :: seen ↔ p ∈ name :: seen' := fun name hsame p => by simp [hsame p]
  induction seen, names using search.induct table method generalizing seen' with
  | case1 seen => rw [search, search]
  | case2 seen name rest hseen ih =>
    rw [search_of_mem hseen, search_of_mem ((hsame name).1 hseen), ih hsame]
  | case3 seen name rest hseen hfind ih =>
    have hparents : table.parents name = [] := by simp [parents, get, hfind]
    rw [search_of_not_mem hseen, search_of_not_mem (mt (hsame name).2 hseen), hparents,
      List.nil_append, ih (hcons name hsame)]
  | case4 seen name rest hseen entry hfind sub hsub =>
    have hown : table.own? name method = some sub := by simp [own?, get, hfind, hsub]
    rw [search_of_not_mem hseen, search_of_not_mem (mt (hsame name).2 hseen), hown,
      Option.some_or, Option.some_or]
  | case5 seen name rest hseen entry hfind hsub ih =>
    have hparents : table.parents name = entry.parents := by simp [parents, get, hfind]
    rw [search_of_not_mem hseen, search_of_not_mem (mt (hsame name).2 hseen), hparents,
      ih (hcons name hsame)]

/-- Working off a list does what entering the packages of the list in order does. -/
theorem search_append (table : Packages) (method : String) (seen names rest : List String) :
    table.search method seen (names ++ rest) =
      ((table.order seen names).findSome? (table.own? · method)).or
        (table.search method (table.order seen names ++ seen) rest) := by
  fun_induction order table seen names generalizing rest with
  | case1 => simp
  | case2 seen name names hseen ih => rw [List.cons_append, search_of_mem hseen, ih]
  | case3 seen name names hseen above ihabove ihrest =>
    rw [List.cons_append, search_of_not_mem hseen, List.findSome?_cons]
    cases table.own? name method with
    | some sub => rfl
    | none =>
      rw [Option.none_or, ihabove, ihrest, List.findSome?_append, Option.or_assoc]
      congr 2
      exact search_congr fun p => by simp [or_left_comm]

/-- The sub of a method is the one of the first package with the method. -/
theorem method?_eq_findSome? (table : Packages) (package method : String) :
    table.method? package method =
      (table.order [] [package]).findSome? (table.own? · method) := by
  have hsearch := table.search_append method [] [package] []
  rw [List.append_nil, search, Option.or_none] at hsearch
  exact hsearch

/-! ## Without account of where the search has been -/

/-- Where no package is its own ancestor, going from a package to its parents comes to an end. -/
theorem Acyclic.wellFounded (hacyclic : table.Acyclic) :
    WellFounded fun parent package => table.Inherits package parent := by
  -- the way to a package leads through packages of the table that are all different
  suffices h : ∀ (way : List String) (p : String),
      (∀ a ∈ way, Relation.TransGen table.Inherits a p) →
      Acc (fun parent package => table.Inherits package parent) p from
    ⟨fun p => h [] p (by simp)⟩
  intro way
  induction hweight : weightBesides way table using Nat.strongRecOn generalizing way with
  | _ n ih =>
    refine fun p hway => ⟨p, fun q hpq => ih _ ?_ (p :: way) rfl q ?_⟩
    · have hnew : p ∉ way := fun hin => hacyclic p (hway p hin)
      have hlt := weightBesides_cons_lt (find?_of_inherits hpq) hnew
      omega
    · intro a ha
      rcases List.mem_cons.1 ha with rfl | ha
      · exact .single hpq
      · exact (hway a ha).tail hpq

/-- Looks a method up in a package and then in each parent by recursion, whether it has been there
or not. -/
def inherited (table : Packages) (hacyclic : table.Acyclic) (method package : String) :
    Option Sub :=
  (table.own? package method).or
    ((table.parents package).attach.findSome? fun parent =>
      table.inherited hacyclic method parent.1)
termination_by hacyclic.wellFounded.wrap package
decreasing_by exact parent.2

theorem inherited_eq (hacyclic : table.Acyclic) (method package : String) :
    table.inherited hacyclic method package = (table.own? package method).or
      ((table.parents package).findSome? (table.inherited hacyclic method)) := by
  rw [inherited, List.findSome?_subtype (g := table.inherited hacyclic method) (fun _ _ => rfl),
    List.unattach_attach]

/-- A package in which a method is not found has no ancestor in which it is. -/
theorem inherited_of_reaches {hacyclic : table.Acyclic}
    (hnone : table.inherited hacyclic method p = none) (hreaches : table.Reaches p q) :
    table.inherited hacyclic method q = none := by
  induction hreaches with
  | refl => exact hnone
  | tail _ hpq ih =>
    rw [inherited_eq, Option.or_eq_none_iff, List.findSome?_eq_none_iff] at ih
    exact ih.2 _ hpq

/-- Passing over packages that have been searched in vain changes nothing. Those entered and not yet
searched to their end are not met again. -/
theorem findSome?_order (hacyclic : table.Acyclic) (method : String)
    (hseen : ∀ name ∈ names, ∀ p ∈ seen, table.Reaches name p →
      table.inherited hacyclic method p = none) :
    (table.order seen names).findSome? (table.own? · method) =
      names.findSome? (table.inherited hacyclic method) := by
  fun_induction order table seen names with
  | case1 => rfl
  | case2 seen name rest hin ih =>
    have hname := hseen name List.mem_cons_self name hin .refl
    rw [List.findSome?_cons, hname]
    exact ih fun q hq => hseen q (List.mem_cons_of_mem _ hq)
  | case3 seen name rest hnew above ihabove ihrest =>
    rw [List.findSome?_cons, List.findSome?_cons, inherited_eq]
    cases hown : table.own? name method with
    | some sub => rfl
    | none =>
      have habove : above.findSome? (table.own? · method) =
          (table.parents name).findSome? (table.inherited hacyclic method) := by
        refine ihabove fun q hq p hp hreaches => ?_
        rcases List.mem_cons.1 hp with rfl | hp
        · exact absurd (Relation.TransGen.head' hq hreaches) (hacyclic p)
        · exact hseen name List.mem_cons_self p hp (.head hq hreaches)
      rw [Option.none_or, List.findSome?_append, habove]
      cases hparents : (table.parents name).findSome? (table.inherited hacyclic method) with
      | some sub => rfl
      | none =>
        have hname : table.inherited hacyclic method name = none := by
          rw [inherited_eq, hown, hparents, Option.or_none]
        rw [Option.none_or]
        refine ihrest fun q hq p hp hreaches => ?_
        rcases List.mem_append.1 hp with hp | hp
        · obtain ⟨parent, hparent, hbeyond⟩ := reaches_of_mem_order hp
          exact inherited_of_reaches hname (.head hparent hbeyond)
        · rcases List.mem_cons.1 hp with rfl | hp
          · exact hname
          · exact hseen q (List.mem_cons_of_mem _ hq) p hp hreaches

/-- A method is looked up depth first and in declared order: in the package itself, then in each
parent, no package being entered twice. The sub found is that of the first package with the method
in this order, which takes in the package and its ancestors. So none is found only if none of them
has the method. Where no package is its own ancestor, it is the sub found by recursion alone. -/
theorem method?_depthFirst (table : Packages) (package method : String) :
    table.method? package method = (table.descend method [] [package]).getLeft? ∧
      table.method? package method =
        (table.order [] [package]).findSome? (table.own? · method) ∧
      (table.order [] [package]).Nodup ∧
      (∀ p, p ∈ table.order [] [package] ↔ table.Reaches package p) ∧
      (table.method? package method = none ↔
        ∀ p, table.Reaches package p → table.own? p method = none) ∧
      ∀ hacyclic : table.Acyclic,
        table.method? package method = table.inherited hacyclic method package := by
  have hfirst := table.method?_eq_findSome? package method
  refine ⟨?_, hfirst, (table.nodup_order [] [package]).1, table.mem_order_iff package, ?_,
    fun hacyclic => ?_⟩
  · rw [hfirst, descend_eq]
    cases (table.order [] [package]).findSome? (table.own? · method) <;> rfl
  · rw [hfirst, List.findSome?_eq_none_iff]
    simp only [mem_order_iff]
  · rw [hfirst, findSome?_order hacyclic method (by simp), List.findSome?_cons, List.findSome?_nil]
    cases table.inherited hacyclic method package <;> rfl

/-- Parents that lead back to a package are passed over. -/
example :
    method? [("A", { parents := ["B"] }), ("B", { parents := ["A", "C"] }),
      ("C", { subs := [("m", ⟨"C::m", ⟨0⟩⟩)] })] "A" "m" = some ⟨"C::m", ⟨0⟩⟩ := by
  cbv

/-- A package with two parents, the second of which has a method of its own, and the parent of both,
which has the method too. -/
def diamond : Packages :=
  [("Leaf", { parents := ["Left", "Right"] }),
    ("Left", { parents := ["Root"] }),
    ("Right", { subs := [("m", ⟨"Right::m", ⟨0⟩⟩)], parents := ["Root"] }),
    ("Root", { subs := [("m", ⟨"Root::m", ⟨1⟩⟩)] })]

theorem acyclic_diamond : diamond.Acyclic := by
  let height : String → Nat := fun p => if p = "Leaf" then 2 else if p = "Root" then 0 else 1
  have hstep : ∀ p q, diamond.Inherits p q → height q < height p := by
    intro p q hpq
    simp only [Inherits, parents, get, diamond, Entries.find?] at hpq
    grind
  have hway : ∀ p q, Relation.TransGen diamond.Inherits p q → height q < height p := by
    intro p q hpq
    induction hpq with
    | single hpq => exact hstep _ _ hpq
    | tail _ hqr ih => exact (hstep _ _ hqr).trans ih
  exact fun p hp => Nat.lt_irrefl _ (hway p p hp)

/-- The method of the root is found by way of the first parent, before that of the second. -/
theorem method?_depthFirst_diamond :
    diamond.method? "Leaf" "m" = some ⟨"Root::m", ⟨1⟩⟩ ∧
      diamond.inherited acyclic_diamond "m" "Leaf" = some ⟨"Root::m", ⟨1⟩⟩ := by
  have hroot : diamond.method? "Leaf" "m" = some ⟨"Root::m", ⟨1⟩⟩ := by cbv
  obtain ⟨-, -, -, -, -, hinherited⟩ := method?_depthFirst diamond "Leaf" "m"
  exact ⟨hroot, (hinherited acyclic_diamond).symm.trans hroot⟩

end GuestBridge.Packages
