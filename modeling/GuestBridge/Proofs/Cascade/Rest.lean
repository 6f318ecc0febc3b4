import GuestBridge.Proofs.Cascade.Freeing
import GuestBridge.Proofs.Cascade.Kept
import GuestBridge.Proofs.Provenance.Operations

/-!
# Nothing stays parked

Whatever a run does, its heaps are at rest between two steps: they are well formed, and no freed
body waits to be handed over. So the operations that free scalars always start from worlds at rest.
-/

namespace GuestBridge

namespace World

variable {w w₁ : World}

theorem atRest_empty : ({} : World).AtRest := fun _ => ⟨Heap.wellFormed_empty, rfl⟩

/-- Closing a scope is one of the operations that free scalars. -/
theorem AtRest.closeScope (hrest : w.AtRest) (i : InterpreterId) (depth : Nat) :
    (w.closeScope i depth).AtRest := by
  obtain ⟨hstart, -⟩ := (Freeing.guest i (.closeScope depth)).hands_start hrest
  have hperform := (Freeing.guest i (.closeScope depth)).perform_eq w
  rw [Freeing.perform] at hperform
  rw [hperform]
  exact hstart.release _

/-- Whatever happens, a world at rest comes to rest again. -/
theorem Advances.atRest (hadvances : Advances w w₁) (hrest : w.AtRest) : w₁.AtRest := by
  induction hadvances with
  | refl => exact hrest
  | trans _ _ ihfirst ihnext => exact ihnext (ihfirst hrest)
  | fades hheap _ => exact fun i => hheap i ▸ hrest i
  | guest hf => exact hrest.guest (hf.wellFormed (hrest _).toWellFormed)
  | closeScope _ i depth => exact hrest.closeScope i depth
  | release steps => exact hrest.release steps
  | newBoundary _ _ ih => exact ih hrest

end World

/-- So does every run. -/
theorem State.atRest_reaches {s t : State} {n : Nat} (hreach : Reaches n s t)
    (hrest : s.machine.world.AtRest) : t.machine.world.AtRest := by
  induction n generalizing s with
  | zero =>
    obtain rfl : s = t := hreach
    exact hrest
  | succ n ih =>
    obtain ⟨u, hstep, hnext⟩ := hreach
    exact ih hnext ((advances_step hstep).atRest hrest)

namespace Freeing

/-- Between any two steps of a run all heaps are at rest; and an operation that can free scalars,
whatever it frees on whatever interpreters, comes to an end with all heaps at rest again, having
handed over each freed body once and dropped the share of each boundary object that went once. -/
theorem unwound :
    (∀ (r : Routine) (s : State) (n : Nat), State.Reaches n { routine := r } s →
      s.machine.world.AtRest) ∧
      ∀ (o : Freeing) (w : World), w.AtRest → ∃ us gone, o.Unwound w us gone :=
  ⟨fun _ _ _ hreach => State.atRest_reaches hreach World.atRest_empty,
    fun o _ hrest => o.exists_unwound hrest⟩

/-- A sub of the first interpreter has captured a sub of the second one, and that has captured a
number of the first. -/
def chained : World where
  interpreters :=
    { entries := #[{},
        { heap := ((({} : Heap).allocate
            (.code { name := "main::first", closure := ⟨0⟩ })).2.allocate (.int 7)).2 },
        { heap := (({} : Heap).allocate (.code { name := "main::second", closure := ⟨2⟩ })).2 }] }
  interpreterCount := 2
  holds := { entries := #[0, 1, 1] }
  store :=
    { holdings := #[
        some { holders := 1, object := .closure 0 [.boundary ⟨1⟩] },
        some { holders := 1, object := .boundary ⟨2⟩ ⟨0, 0⟩ },
        some { holders := 1, object := .closure 1 [.boundary ⟨3⟩] },
        some { holders := 1, object := .boundary ⟨1⟩ ⟨1, 0⟩ }] }

/-- The first sub goes, and with it the rest of the chain, to and fro between the interpreters. -/
theorem unwound_chained :
    chained.AtRest ∧ chained.Counted [] ∧
      ∃ us gone, (guest ⟨1⟩ (.unshare ⟨0, 0⟩)).Unwound chained us gone := by
  have hrest : chained.AtRest := by
    rintro ⟨n⟩
    match n with
    | 0 => exact ⟨Heap.wellFormed_empty, rfl⟩
    | 1 => exact ⟨(Heap.wellFormed_empty.allocate _).allocate _, rfl⟩
    | 2 => exact ⟨Heap.wellFormed_empty.allocate _, rfl⟩
    | n + 3 => exact ⟨Heap.wellFormed_empty, rfl⟩
  have hcount : chained.Counted [] := by
    refine ⟨?_, ?_⟩
    · rintro ⟨n⟩
      match n with
      | 0 | 1 | 2 | 3 => decide
      | n + 4 => rfl
    · rintro ⟨n⟩ h hh
      match n with
      | 0 | 1 | 2 | 3 => exact Option.some.inj hh ▸ Nat.one_pos
      | n + 4 => cases hh
  exact ⟨hrest, hcount, unwound.2 _ _ hrest⟩

end Freeing

end GuestBridge
