import Mathlib
import GuestBridge.Crossing.Bridge
import GuestBridge.Proofs.Conversion.Build
import GuestBridge.Proofs.Conversion.Unfolding

/-!
# Conversion is faithful and transactional

The two ways in which a conversion ends, as the world sees them. When it succeeds, the heap reads as
the unfolded value from the handle that it answers, and nothing else has changed but that each
scalar found among the leaves has gained a share (`World.Converted`, `convert_reads`). When it
fails, nothing has changed, and the error is that of the first element that cannot be converted
(`World.Unconverted`, `convert_failed`).

Both hold for every heap at rest, whatever the guest has done to its share counts.
-/

namespace GuestBridge

/-! ## Heaps at rest -/

/-- Between two operations no freed body is parked. -/
structure Heap.AtRest (hp : Heap) : Prop extends hp.WellFormed where
  freed_eq : hp.freed = #[]

/-- There is nothing to take from a heap at rest. -/
theorem Heap.AtRest.setFreed_eq {hp : Heap} (hrest : hp.AtRest) : { hp with freed := #[] } = hp := by
  rw [← hrest.freed_eq]

/-- A heap comes to rest when its parked bodies are taken. -/
theorem Heap.WellFormed.atRest {hp : Heap} (hwf : hp.WellFormed) :
    Heap.AtRest { hp with freed := #[] } := ⟨hwf.setFreed #[], rfl⟩

namespace World

variable {w w' : World} {i : InterpreterId} {config : Config} {v : Value} {h : Handle}
variable {hp : Heap}

/-- What a conversion to an interpreter depends on. -/
def passage (w : World) (i : InterpreterId) (config : Config) : Passage :=
  { config, store := w.store, target := i }

/-- The number of scalars that a conversion frees on its way. -/
def frees (w : World) (i : InterpreterId) (config : Config) (v : Value) : Nat :=
  ((w.passage i config).marshal v (w.interpreter i).heap).2.freed.size

/-- From one world to another only the heap of one interpreter may change. -/
structure SameOutside (i : InterpreterId) (w w' : World) : Prop where
  others : ∀ j, j ≠ i → w'.interpreter j = w.interpreter j
  stack : (w'.interpreter i).stack = (w.interpreter i).stack
  packages : (w'.interpreter i).packages = (w.interpreter i).packages
  holds : w'.holds = w.holds
  store : w'.store = w.store
  interpreterCount : w'.interpreterCount = w.interpreterCount
  collectors : w'.collectors = w.collectors
  collectorCount : w'.collectorCount = w.collectorCount
  journal : w'.journal = w.journal

theorem SameOutside.setHeap (hsame : SameOutside i w w') (hp : Heap) :
    SameOutside i w (w'.setInterpreter i { w'.interpreter i with heap := hp }) where
  others := fun j hj => by
    rw [interpreter_setInterpreter, if_neg (Ne.symm hj)]
    exact hsame.others j hj
  stack := by
    rw [interpreter_setInterpreter, if_pos rfl]
    exact hsame.stack
  packages := by
    rw [interpreter_setInterpreter, if_pos rfl]
    exact hsame.packages
  holds := hsame.holds
  store := hsame.store
  interpreterCount := hsame.interpreterCount
  collectors := hsame.collectors
  collectorCount := hsame.collectorCount
  journal := hsame.journal

theorem SameOutside.refl (i : InterpreterId) (w : World) : SameOutside i w w :=
  ⟨fun _ _ => rfl, rfl, rfl, rfl, rfl, rfl, rfl, rfl, rfl⟩

/-- Bodies without closures are let go of without a trace. -/
theorem settleFreed_eq
    (hclosure : ∀ body ∈ (w.interpreter i).heap.freed.toList, body.closure? = none) :
    w.settleFreed i = w.setInterpreter i
      { w.interpreter i with heap := { (w.interpreter i).heap with freed := #[] } } := by
  have hnone : (w.interpreter i).heap.freed.toList.filterMap Body.closure? = [] :=
    List.filterMap_eq_nil_iff.2 hclosure
  unfold settleFreed takeFreed
  simp only [onInterpreter_eq, Interpreter.onHeap, Heap.takeFreed, hnone, List.map_nil]
  rw [release]

/-- A conversion ends as `Passage.Outcome` says, and changes the heap alone. -/
theorem convert_outcome (config : Config) (v : Value) (hrest : (w.interpreter i).heap.AtRest)
    (hspared : (w.passage i config).Spared (w.interpreter i).heap.contains (w.frees i config v)
      (w.interpreter i).heap) :
    ∃ hp, (w.passage i config).Outcome (w.interpreter i).heap.contains (config.maxDepth + 1) v
        (w.interpreter i).heap ((w.convert i config v).1, hp) ∧
      ((w.convert i config v).2.interpreter i).heap = { hp with freed := #[] } ∧
      SameOutside i w (w.convert i config v).2 := by
  rcases hrun : (w.passage i config).marshal v (w.interpreter i).heap with ⟨result, hp⟩
  rw [frees, hrun] at hspared
  have houtcome := Passage.convert_faithful _ _ _ hrun hrest.toWellFormed
    (fun k hk => Heap.contains_iff.1 hk)
    (by rwa [hrest.freed_eq, Array.size_empty, Nat.sub_zero])
  have hparks : Heap.Parks (w.interpreter i).heap hp := by
    cases houtcome with
    | made _ _ hbuilt => exact hbuilt.grown.parks
    | failed _ hgrown => exact hgrown.parks
  -- no code is among what was freed, so no host object is let go of afterwards
  have hclosure : ∀ body ∈ hp.freed.toList, body.closure? = none := by
    obtain ⟨gone, hfreed, hgone, -⟩ := hparks
    rw [hrest.freed_eq] at hfreed
    rw [hfreed]
    exact hgone
  have hconvert : w.convert i config v = (result,
      (w.setInterpreter i { w.interpreter i with heap := hp }).settleFreed i) := by
    have hrun' : Passage.marshal { config, store := w.store, target := i } v
        (w.interpreter i).heap = (result, hp) := hrun
    simp only [convert, guest, onInterpreter_eq, Interpreter.onHeap, hrun']
  have hheap : ((w.setInterpreter i { w.interpreter i with heap := hp }).interpreter i).heap
      = hp := by
    rw [interpreter_setInterpreter, if_pos rfl]
  rw [settleFreed_eq (by rwa [hheap])] at hconvert
  rw [hconvert]
  refine ⟨hp, houtcome, ?_, ((SameOutside.refl i w).setHeap hp).setHeap _⟩
  dsimp only
  rw [interpreter_setInterpreter, if_pos rfl, hheap]

end World

/-! ## The two ends -/

namespace World

/-- What a conversion that succeeds has done, with the tree that the value unfolds to and the nodes
that were made for it. -/
structure Converted (w : World) (i : InterpreterId) (config : Config) (v : Value) (h : Handle)
    (w' : World) (t : Tree) (ns : List Handle) : Prop where
  unfold_eq : ∀ room, config.maxDepth < room → (w.passage i config).unfold room v = some t
  reads : (w'.interpreter i).heap.Reads [h] [t] ns
  nodup : ns.Nodup
  fresh : ∀ k ∈ ns, (w.interpreter i).heap.contains k = false
  /-- A scalar that was there has one share more for each boundary object over it. -/
  cell?_eq : ∀ k, k ∉ ns → (w'.interpreter i).heap.cell? k =
    ((w.interpreter i).heap.cell? k).map fun c => { c with shares := c.shares + t.scalars.count k }
  live : ∀ k ∈ t.scalars, (w.interpreter i).heap.contains k = true
  atRest : (w'.interpreter i).heap.AtRest
  same : SameOutside i w w'

/-- What a conversion that fails has left as it was, and why it fails. -/
structure Unconverted (w : World) (i : InterpreterId) (config : Config) (v : Value)
    (e : CrossingError) (w' : World) : Prop where
  cell?_eq : ∀ j k, (w'.interpreter j).heap.cell? k = (w.interpreter j).heap.cell? k
  stack_eq : ∀ j, (w'.interpreter j).stack = (w.interpreter j).stack
  firstError_eq : (w.passage i config).firstError (w.interpreter i).heap.contains
    (config.maxDepth + 1) v = some e
  atRest : (w'.interpreter i).heap.AtRest
  same : SameOutside i w w'

variable {e : CrossingError}

theorem converted (hrest : (w.interpreter i).heap.AtRest)
    (hspared : (w.passage i config).Spared (w.interpreter i).heap.contains (w.frees i config v)
      (w.interpreter i).heap)
    (hrun : w.convert i config v = (.ok h, w')) : ∃ t ns, Converted w i config v h w' t ns := by
  obtain ⟨hp, houtcome, hheap, hsame⟩ := convert_outcome config v hrest hspared
  rw [hrun] at houtcome hheap hsame
  dsimp only at houtcome hheap hsame
  cases houtcome with
  | @made _ _ t ns hunfold herror hbuilt =>
    have hscalars : Tree.scalarsOfItems [t] = t.scalars := by simp [Tree.scalarsOfItems]
    have hgrown := hbuilt.grown
    rw [hscalars] at hgrown
    refine ⟨t, ns, fun room hroom => Passage.unfold_mono hunfold hroom, ?_, hgrown.nodup, ?_, ?_,
      fun k hk => hbuilt.live k (hscalars ▸ hk), ?_, hsame⟩
    · rw [hheap]
      exact hbuilt.reads.congr fun k _ => rfl
    · intro k hk
      exact Heap.contains_eq_false_iff.2 (hgrown.fresh k hk)
    · intro k hk
      rw [hheap]
      exact hgrown.cell?_eq k hk
    · rw [hheap]
      exact hgrown.wellFormed.atRest

theorem unconverted (hrest : (w.interpreter i).heap.AtRest)
    (hspared : (w.passage i config).Spared (w.interpreter i).heap.contains (w.frees i config v)
      (w.interpreter i).heap)
    (hrun : w.convert i config v = (.error e, w')) : Unconverted w i config v e w' := by
  obtain ⟨hp, houtcome, hheap, hsame⟩ := convert_outcome config v hrest hspared
  rw [hrun] at houtcome hheap hsame
  dsimp only at houtcome hheap hsame
  cases houtcome with
  | failed herror hgrown =>
    refine ⟨?_, ?_, herror, ?_, hsame⟩
    · intro j k
      by_cases hj : j = i
      · subst hj
        rw [hheap]
        have hcell := hgrown.cell?_eq k List.not_mem_nil
        exact hcell.trans (by cases (w.interpreter j).heap.cell? k <;> rfl)
      · rw [hsame.others j hj]
    · intro j
      by_cases hj : j = i
      · subst hj
        exact hsame.stack
      · rw [hsame.others j hj]
    · rw [hheap]
      exact hgrown.wellFormed.atRest

end World

section

variable {w w' : World} {i : InterpreterId} {config : Config} {v : Value} {h : Handle}
variable {e : CrossingError}

/-- A conversion that succeeds is faithful. From the handle that it answers, the heap reads as the
unfolded value. The nodes that are passed are new and each is passed once; no other scalar is new;
and a scalar that was there has the body and the blessing that it had, and one share more for each
boundary object over it that was retained.

The heap is at rest, as it is between two operations, and no stale handle in a boundary object comes
to fit a new scalar because its slot has been emptied too often on the way. In a run this cannot
happen before a slot has been emptied `2 ^ 32` times (`World.Logged.spared`). -/
theorem convert_reads (hrest : (w.interpreter i).heap.AtRest)
    (hspared : (w.passage i config).Spared (w.interpreter i).heap.contains (w.frees i config v)
      (w.interpreter i).heap)
    (hrun : w.convert i config v = (.ok h, w')) :
    ∃ t ns, (∀ room, config.maxDepth < room → (w.passage i config).unfold room v = some t) ∧
      (w'.interpreter i).heap.Reads [h] [t] ns ∧ ns.Nodup ∧
      (∀ k ∈ ns, (w.interpreter i).heap.contains k = false) ∧
      (∀ k, k ∉ ns → (w'.interpreter i).heap.cell? k =
        ((w.interpreter i).heap.cell? k).map fun c =>
          { c with shares := c.shares + t.scalars.count k }) ∧
      (∀ k ∈ t.scalars, (w.interpreter i).heap.contains k = true) ∧
      (w'.interpreter i).heap.AtRest ∧ World.SameOutside i w w' := by
  obtain ⟨t, ns, hmade⟩ := World.converted hrest hspared hrun
  exact ⟨t, ns, hmade.unfold_eq, hmade.reads, hmade.nodup, hmade.fresh, hmade.cell?_eq, hmade.live,
    hmade.atRest, hmade.same⟩

/-- A hash of which two keys have one image, and a boundary object that it names twice and an array
in it once more. -/
def collision : World where
  interpreters := ({} : Table Interpreter).set 1 { heap := (({} : Heap).allocate (.int 7)).2 }
  store := {
    holdings := #[some ⟨4, .boundary ⟨1⟩ ⟨0, 0⟩⟩,
      some ⟨1, .array [.text "a", .boundary ⟨0⟩]⟩,
      some ⟨1, .hash [("k", .array ⟨1⟩), ("k\x00x", .boundary ⟨0⟩), ("m", .boundary ⟨0⟩)]⟩] }

/-- What the array was converted to is gone, with the share that it had taken. -/
theorem convert_reads_collision : ∃ w' t ns,
    collision.convert ⟨1⟩ { stringPolicy := .truncateAtNul } (.hash ⟨2⟩) = (.ok ⟨3, 1⟩, w') ∧
      (w'.interpreter ⟨1⟩).heap.Reads [⟨3, 1⟩] [t] ns ∧
      (w'.interpreter ⟨1⟩).heap.cell? ⟨0, 0⟩ = some { shares := 3, body := .int 7 } := by
  have hrest : (collision.interpreter ⟨1⟩).heap.AtRest :=
    ⟨Heap.wellFormed_empty.allocate (.int 7), rfl⟩
  have hspared : (collision.passage ⟨1⟩ { stringPolicy := .truncateAtNul }).Spared
      (collision.interpreter ⟨1⟩).heap.contains
      (collision.frees ⟨1⟩ { stringPolicy := .truncateAtNul } (.hash ⟨2⟩))
      (collision.interpreter ⟨1⟩).heap := by
    rintro ⟨_ | _ | _ | n⟩ k hown hk
    · cases hown
      exact absurd hk (by decide +kernel)
    · cases hown
    · cases hown
    · cases hown
  have hok : (collision.convert ⟨1⟩ { stringPolicy := .truncateAtNul } (.hash ⟨2⟩)).1
      = .ok ⟨3, 1⟩ := by cbv
  obtain ⟨t, ns, -, hreads, -⟩ := convert_reads hrest hspared (Prod.ext hok rfl)
  exact ⟨_, t, ns, Prod.ext hok rfl, hreads, by decide +kernel⟩

/-- A conversion that fails has changed nothing: each scalar of each interpreter is as it was, and
so are the stacks and all else. The error is that of the first element that cannot be converted.

The heap is at rest, as it is between two operations, and no stale handle in a boundary object comes
to fit a new scalar because its slot has been emptied too often on the way. In a run this cannot
happen before a slot has been emptied `2 ^ 32` times (`World.Logged.spared`). -/
theorem convert_failed (hrest : (w.interpreter i).heap.AtRest)
    (hspared : (w.passage i config).Spared (w.interpreter i).heap.contains (w.frees i config v)
      (w.interpreter i).heap)
    (hrun : w.convert i config v = (.error e, w')) :
    (∀ j k, (w'.interpreter j).heap.cell? k = (w.interpreter j).heap.cell? k) ∧
      (∀ j, (w'.interpreter j).stack = (w.interpreter j).stack) ∧
      (w.passage i config).firstError (w.interpreter i).heap.contains (config.maxDepth + 1) v
        = some e ∧
      (w'.interpreter i).heap.AtRest ∧ World.SameOutside i w w' := by
  have hfailed := World.unconverted hrest hspared hrun
  exact ⟨hfailed.cell?_eq, hfailed.stack_eq, hfailed.firstError_eq, hfailed.atRest, hfailed.same⟩

/-- An array with a boundary object whose scalar is gone, after one whose scalar is there. -/
def outlived : World where
  interpreters := ({} : Table Interpreter).set 1
    { heap :=
      { (((({} : Heap).allocate (.int 7)).2.allocate (.int 8)).2.unshare ⟨1, 0⟩).2 with
        freed := #[] } }
  store := {
    holdings := #[some ⟨1, .boundary ⟨1⟩ ⟨0, 0⟩⟩, some ⟨1, .boundary ⟨1⟩ ⟨1, 0⟩⟩,
      some ⟨1, .array [.text "a", .boundary ⟨0⟩, .boundary ⟨1⟩]⟩] }

/-- The slot that was emptied is taken by the array, and the stale handle does not fit it. -/
theorem convert_failed_outlived : ∃ w',
    outlived.convert ⟨1⟩ {} (.array ⟨2⟩) = (.error (.guest (.staleHandle 1 0)), w') ∧
      ∀ k, (w'.interpreter ⟨1⟩).heap.cell? k = (outlived.interpreter ⟨1⟩).heap.cell? k := by
  have hrest : (outlived.interpreter ⟨1⟩).heap.AtRest :=
    (((Heap.wellFormed_empty.allocate (.int 7)).allocate (.int 8)).unshare ⟨1, 0⟩).atRest
  have hspared : (outlived.passage ⟨1⟩ {}).Spared (outlived.interpreter ⟨1⟩).heap.contains
      (outlived.frees ⟨1⟩ {} (.array ⟨2⟩)) (outlived.interpreter ⟨1⟩).heap := by
    rintro ⟨_ | _ | _ | n⟩ k hown hk
    · cases hown
      exact absurd hk (by decide +kernel)
    · cases hown
      exact ⟨{ generation := 1 }, by decide +kernel, by decide +kernel⟩
    · cases hown
    · cases hown
  have herror : (outlived.convert ⟨1⟩ {} (.array ⟨2⟩)).1
      = .error (.guest (.staleHandle 1 0)) := by cbv
  obtain ⟨hcell, -⟩ := convert_failed hrest hspared (Prod.ext herror rfl)
  exact ⟨_, Prod.ext herror rfl, fun k => hcell ⟨1⟩ k⟩

end

end GuestBridge
