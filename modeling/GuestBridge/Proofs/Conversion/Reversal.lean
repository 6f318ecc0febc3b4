import GuestBridge.Proofs.Calls.Undone

/-!
# Conversion and release

A conversion that succeeds answers a scalar with one share for the caller. Dropping that share takes
the conversion back: what was made goes, each scalar that was shared has the shares that it had
before, and nothing else is touched (`marshal_unshare`).

The conversion recurses on the value and makes a container before its elements; the release works
through a list of pending drops, the last child first. What joins the two is the tree that the heap
reads as from the answered handle (`Built.undone`).
-/

namespace GuestBridge

/-! ## One share of what was built -/

namespace Heap

variable {live : Handle → Bool} {hp hp₁ : Heap} {h : Handle} {t : Tree} {ns : List Handle}

/-- What was built behind one handle has the share of the caller besides those that were there. -/
theorem Built.cell?_root (hbuilt : Built live hp hp₁ [h] [t] ns) :
    ∃ c, hp₁.cell? h = some c ∧ c.shares = hp.shareCount h + 1 := by
  have hgrown := hbuilt.grown
  have hnode : h ∈ ns → hp.shareCount h = 0 := fun hk => shareCount_of_none (hgrown.fresh h hk)
  cases hbuilt.reads with
  | scalar hnil =>
    cases hnil
    have hmem : h ∈ Tree.scalarsOfItems [Tree.scalar h] := by
      simp [Tree.scalarsOfItems, Tree.scalars]
    obtain ⟨c, hc⟩ := hgrown.live h hmem
    refine ⟨_, hgrown.exists_cell hc, ?_⟩
    rw [shareCount_of_cell? hc]
    simp [Cell.gain, Tree.scalarsOfItems, Tree.scalars]
  | int hc | num hc | str hc | array hc | hash hc =>
    refine ⟨_, hc, ?_⟩
    rw [hnode List.mem_cons_self]

/-- Dropping that share takes it all back. -/
theorem Built.unshare (hbuilt : Built live hp hp₁ [h] [t] ns) (hwf : hp.WellFormed) :
    ∃ hp₂, Heap.unshare { hp₁ with freed := #[] } h = (.ok (hp.shareCount h), hp₂) ∧
      hp₂.WellFormed ∧ (∀ k, hp₂.cell? k = hp.cell? k) ∧
      ∀ body ∈ hp₂.freed.toList, body.closure? = none := by
  obtain ⟨hp₂, hrun, hrest⟩ := hbuilt.undone hwf
  obtain ⟨c, hc, hshares⟩ := hbuilt.cell?_root
  have hleft : ((cell? { hp₁ with freed := #[] } h).elim 0 fun c => c.shares - 1)
      = hp.shareCount h := by
    rw [show cell? { hp₁ with freed := #[] } h = some c from hc, Option.elim_some, hshares,
      Nat.add_sub_cancel]
  refine ⟨hp₂, ?_, hrest⟩
  rw [List.reverse_singleton, unshareEach] at hrun
  rw [unshare_eq, hleft] at hrun ⊢
  rcases hcascade : cascade [h] { hp₁ with freed := #[] } with ⟨fault | ⟨⟩, hp₃⟩
  · rw [hcascade] at hrun
    cases hrun
  · rw [hcascade] at hrun
    cases hrun
    rfl

end Heap

/-! ## Across a bridge -/

section

variable {w w' w₁ : World} {i : InterpreterId} {b : Bridge} {v : Value} {h : Handle}

/-- A report changes the collector alone. -/
theorem World.SameOutside.tally (hsame : World.SameOutside i w w₁) (b : Bridge) (kind : EventKind)
    (detail : String) (result : Except CrossingError α) :
    World.SameOutside i (w.tally b kind detail result) (w₁.tally b kind detail result) := by
  obtain ⟨hothers, hstack, hpackages, hholds, hstore, hcount, hcollectors, hcollectorCount,
    hjournal⟩ := hsame
  cases result <;>
    exact ⟨hothers, hstack, hpackages, hholds, hstore, hcount,
      by simp only [World.tally, World.note, World.onTelemetry, hcollectors], hcollectorCount,
      hjournal⟩

/-- A drop that frees no code is settled at once. -/
theorem World.guest_unshare {left : Nat} {hp : Heap}
    (hdrop : (w.interpreter i).heap.unshare h = (.ok left, hp))
    (hclosure : ∀ body ∈ hp.freed.toList, body.closure? = none) :
    w.guest i (·.unshare h) = (.ok left,
      w.setInterpreter i { w.interpreter i with heap := { hp with freed := #[] } }) := by
  have hrun : (w.interpreter i).unshare h = (.ok left, { w.interpreter i with heap := hp }) := by
    rw [Interpreter.unshare, Interpreter.onHeap, hdrop]
  refine Prod.ext ?_ ?_
  · rw [guest_fst, hrun]
  · exact guest_of_parked (f := (·.unshare h)) (congrArg Prod.snd hrun) hclosure

/-- What is left of a conversion once the share that it answers has been dropped: the handles that
see a scalar are those from before, and nothing else has changed but for the report. -/
structure World.TakenBack (w : World) (b : Bridge) (v : Value) (w'' : World) : Prop where
  cell?_eq : ∀ k, (w''.interpreter b.interpreter).heap.cell? k
    = (w.interpreter b.interpreter).heap.cell? k
  live_eq : (w''.interpreter b.interpreter).heap.live = (w.interpreter b.interpreter).heap.live
  atRest : (w''.interpreter b.interpreter).heap.AtRest
  same : World.SameOutside b.interpreter
    (w.tally b .convert ("convert " ++ w.store.typeName v) (w.marshal b v).1) w''

/-- The drop succeeds, and it leaves as many shares as there were before. -/
theorem World.unshare_takesBack (hrest : (w.interpreter b.interpreter).heap.AtRest)
    (hspared : (w.passage b.interpreter b.config).Spared
      (w.interpreter b.interpreter).heap.contains (w.frees b.interpreter b.config v)
      (w.interpreter b.interpreter).heap)
    (hrun : w.marshal b v = (.ok h, w')) :
    ∃ w'', w'.guest b.interpreter (·.unshare h)
      = (.ok ((w.interpreter b.interpreter).heap.shareCount h), w'') ∧ w.TakenBack b v w'' := by
  obtain ⟨hp, houtcome, hheap, hsame⟩ := World.convert_outcome b.config v hrest hspared
  have htallied := hsame.tally b .convert ("convert " ++ w.store.typeName v) (w.marshal b v).1
  have hw' : (w.convert b.interpreter b.config v).2.tally b .convert
      ("convert " ++ w.store.typeName v) (w.marshal b v).1 = w' := congrArg Prod.snd hrun
  have hheap' : (w'.interpreter b.interpreter).heap = { hp with freed := #[] } := by
    rw [← hheap, ← hw']
    cases (w.marshal b v).1 <;> rfl
  rw [show (w.convert b.interpreter b.config v).1 = .ok h from congrArg Prod.fst hrun] at houtcome
  rw [hw'] at htallied
  cases houtcome with
  | made _ _ hbuilt =>
    obtain ⟨hp₂, hdrop, hwf, hcell, hclosure⟩ := hbuilt.unshare hrest.toWellFormed
    rw [← hheap'] at hdrop
    have hlive := hrest.toWellFormed.live_congr hwf.atRest.toWellFormed hcell
    refine ⟨_, World.guest_unshare hdrop hclosure, ?_, ?_, ?_, htallied.setHeap _⟩
    all_goals rw [World.interpreter_setInterpreter, if_pos rfl]
    · exact hcell
    · exact hlive
    · exact hwf.atRest

/-- A conversion that succeeds is taken back by dropping the share that it answers. The drop
succeeds, and it leaves as many shares as there were before, none if the scalar was new. Then the
handles that see a scalar are those from before, each with the body, the shares and the blessing
from before; there are as many scalars; and nothing else has changed but for the report.

The heap is at rest, as it is between two operations, and no stale handle in a boundary object comes
to fit a new scalar because its slot has been emptied too often on the way. In a run this cannot
happen before a slot has been emptied `2 ^ 32` times (`World.Logged.spared`). -/
theorem marshal_unshare (hrest : (w.interpreter b.interpreter).heap.AtRest)
    (hspared : (w.passage b.interpreter b.config).Spared
      (w.interpreter b.interpreter).heap.contains (w.frees b.interpreter b.config v)
      (w.interpreter b.interpreter).heap)
    (hrun : w.marshal b v = (.ok h, w')) :
    ∃ w'', w'.guest b.interpreter (·.unshare h)
          = (.ok ((w.interpreter b.interpreter).heap.shareCount h), w'') ∧
      (∀ k, (w''.interpreter b.interpreter).heap.cell? k
        = (w.interpreter b.interpreter).heap.cell? k) ∧
      (w''.interpreter b.interpreter).heap.live = (w.interpreter b.interpreter).heap.live ∧
      (w''.interpreter b.interpreter).heap.AtRest ∧
      World.SameOutside b.interpreter
        (w.tally b .convert ("convert " ++ w.store.typeName v) (w.marshal b v).1) w'' := by
  obtain ⟨w'', hdrop, hback⟩ := World.unshare_takesBack hrest hspared hrun
  exact ⟨w'', hdrop, hback.cell?_eq, hback.live_eq, hback.atRest, hback.same⟩

/-- A guest array with a scalar in it, and a boundary object over the array. The hash names the
boundary object twice itself, under two keys with one image and once more through an array that it
names twice. -/
def interwoven : World where
  interpreters := ({} : Table Interpreter).set 1
    { heap := ((({} : Heap).allocate (.int 7)).2.allocate (.array [⟨0, 0⟩])).2 }
  store := {
    holdings := #[some ⟨4, .boundary ⟨1⟩ ⟨1, 0⟩⟩,
      some ⟨2, .array [.text "a", .boundary ⟨0⟩]⟩,
      some ⟨1, .hash [("k", .array ⟨1⟩), ("k\x00x", .boundary ⟨0⟩), ("m", .array ⟨1⟩),
        ("n", .boundary ⟨0⟩)]⟩] }

/-- In between, the guest array has four shares. -/
theorem marshal_unshare_interwoven :
    ∃ w' w'', interwoven.marshal ⟨⟨1⟩, { stringPolicy := .truncateAtNul }, ⟨0⟩⟩ (.hash ⟨2⟩)
        = (.ok ⟨6, 0⟩, w') ∧
      (w'.interpreter ⟨1⟩).heap.cell? ⟨1, 0⟩ = some { shares := 4, body := .array [⟨0, 0⟩] } ∧
      w'.guest ⟨1⟩ (·.unshare ⟨6, 0⟩) = (.ok 0, w'') ∧
      ∀ k, (w''.interpreter ⟨1⟩).heap.cell? k = (interwoven.interpreter ⟨1⟩).heap.cell? k := by
  have hrest : (interwoven.interpreter ⟨1⟩).heap.AtRest :=
    ⟨(Heap.wellFormed_empty.allocate (.int 7)).allocate (.array [⟨0, 0⟩]), rfl⟩
  have hspared : (interwoven.passage ⟨1⟩ { stringPolicy := .truncateAtNul }).Spared
      (interwoven.interpreter ⟨1⟩).heap.contains
      (interwoven.frees ⟨1⟩ { stringPolicy := .truncateAtNul } (.hash ⟨2⟩))
      (interwoven.interpreter ⟨1⟩).heap := by
    rintro ⟨_ | _ | _ | n⟩ k hown hk
    · cases hown
      exact absurd hk (by decide +kernel)
    all_goals cases hown
  have hok : (interwoven.marshal ⟨⟨1⟩, { stringPolicy := .truncateAtNul }, ⟨0⟩⟩ (.hash ⟨2⟩)).1
      = .ok ⟨6, 0⟩ := by decide +kernel
  obtain ⟨w'', hdrop, hcell, -⟩ := marshal_unshare
    (b := ⟨⟨1⟩, { stringPolicy := .truncateAtNul }, ⟨0⟩⟩) hrest hspared (Prod.ext hok rfl)
  exact ⟨_, w'', Prod.ext hok rfl, by decide +kernel, hdrop, hcell⟩

end

end GuestBridge
