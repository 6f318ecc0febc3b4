import GuestBridge.Proofs.HeapInvariant
import Mathlib.Algebra.Group.Nat.Defs

/-!
# Changes of a heap

Whatever is done to a heap is a sequence of changes of five kinds, and `replay` carries out such a
sequence. A change is sound if it does to the heap no more than it may: a new scalar goes into a
slot that is there and empty, a write goes to a scalar that is there and takes no share away, and a
share or a scalar is taken away only where there is one.

1. Sound changes keep the invariant of the heap (`WellFormed.replay`).
2. Dropping shares is a sequence of sound changes, `drops`, whatever the bodies name and however it
   ends (`replay_drops`, `WellFormed.sounds_drops`).
3. A handle ages with its slot: sound changes move the generation of the slot on as often as they
   empty the slot, and they do nothing else to it (`Aged.replay`). So how often the slot has been
   emptied since the handle was answered decides whether it still fits.
-/

namespace GuestBridge.Heap

/-! ## Single changes -/

/-- A single change of a heap. -/
inductive Change where
  /-- A new scalar. -/
  | fill (body : Body)
  /-- Writes over the cell of a handle. -/
  | write (h : Handle) (c : Cell)
  /-- Takes a share away and leaves others. -/
  | lessen (h : Handle)
  /-- Empties the slot of a handle. -/
  | empty (h : Handle)
  /-- Takes the parked bodies. -/
  | collect

namespace Change

/-- Carries a change out. -/
def apply (hp : Heap) : Change → Heap
  | fill body => (hp.allocate body).2
  | write h c => hp.setCell h c
  | lessen h =>
    match hp.cell? h with
    | some c => hp.setCell h { c with shares := c.shares - 1 }
    | none => hp
  | empty h => hp.discard h
  | collect => hp.takeFreed.2

/-- The slot that is written to is there, and nothing is taken away that is not there: an occupied
slot is not filled, and neither a share count nor the number of scalars goes below zero. -/
def Sound (hp : Heap) : Change → Prop
  | fill _ => ∀ i free, hp.free = i :: free → ∃ slot, hp.slots[i]? = some slot ∧ slot.cell = none
  | write h c => h.index < hp.slots.size ∧ ∃ old, hp.cell? h = some old ∧ old.shares ≤ c.shares
  | lessen h => h.index < hp.slots.size ∧ ∃ c, hp.cell? h = some c ∧ 1 < c.shares
  | empty h =>
    h.index < hp.slots.size ∧ 0 < hp.live ∧ ∃ c, hp.cell? h = some c ∧ 0 < c.shares
  | collect => True

/-- Does a change empty the slot with this number? -/
def empties (i : Nat) : Change → Bool
  | empty h => h.index == i
  | _ => false

end Change

/-- Carries out changes, first to last. -/
def replay : List Change → Heap → Heap
  | [], hp => hp
  | change :: rest, hp => replay rest (change.apply hp)

/-- Each change is sound where it is carried out. -/
def Sounds : List Change → Heap → Prop
  | [], _ => True
  | change :: rest, hp => change.Sound hp ∧ Sounds rest (change.apply hp)

/-- How often changes empty the slot with this number. -/
def timesEmptied (i : Nat) (cs : List Change) : Nat := cs.countP (·.empties i)

variable {hp : Heap} {h k : Handle} {c : Cell} {change : Change} {cs : List Change} {n i : Nat}

theorem replay_append (cs more : List Change) (hp : Heap) :
    replay (cs ++ more) hp = replay more (replay cs hp) := by
  induction cs generalizing hp with
  | nil => rfl
  | cons change rest ih => exact ih _

theorem sounds_append (cs more : List Change) (hp : Heap) :
    Sounds (cs ++ more) hp ↔ Sounds cs hp ∧ Sounds more (replay cs hp) := by
  induction cs generalizing hp with
  | nil => simp [Sounds, replay]
  | cons change rest ih => simp [Sounds, replay, ih, and_assoc]

@[simp] theorem timesEmptied_nil (i : Nat) : timesEmptied i [] = 0 := rfl

theorem timesEmptied_cons (i : Nat) (change : Change) (cs : List Change) :
    timesEmptied i (change :: cs) = (if change.empties i then 1 else 0) + timesEmptied i cs := by
  rw [timesEmptied, List.countP_cons, Nat.add_comm]
  rfl

theorem timesEmptied_append (i : Nat) (cs more : List Change) :
    timesEmptied i (cs ++ more) = timesEmptied i cs + timesEmptied i more :=
  List.countP_append

/-! ## The invariant -/

theorem WellFormed.live_pos (hwf : hp.WellFormed) (hc : hp.cell? h = some c) : 0 < hp.live := by
  have hocc := occupied_vacate hc c.body
  rw [hwf.live_eq]
  omega

/-- A slot that waits for use is there and empty. -/
theorem WellFormed.sound_fill (hwf : hp.WellFormed) (body : Body) :
    (Change.fill body).Sound hp := by
  intro i free hfree
  exact (hwf.mem_free i).1 (by rw [hfree]; exact List.mem_cons_self)

theorem sound_write (hc : hp.cell? h = some c) {c' : Cell} (hle : c.shares ≤ c'.shares) :
    (Change.write h c').Sound hp :=
  ⟨lt_size_of_cell? hc, c, hc, hle⟩

theorem WellFormed.sound_empty (hwf : hp.WellFormed) (hc : hp.cell? h = some c) :
    (Change.empty h).Sound hp :=
  ⟨lt_size_of_cell? hc, hwf.live_pos hc, c, hc, hwf.shares_pos h c hc⟩

theorem apply_lessen (hc : hp.cell? h = some c) :
    (Change.lessen h).apply hp = hp.setCell h { c with shares := c.shares - 1 } := by
  simp only [Change.apply, hc]

theorem apply_empty (hc : hp.cell? h = some c) :
    (Change.empty h).apply hp = hp.vacate h c.body := by
  simp only [Change.apply, discard, hc]

/-- One sound change keeps the invariant. -/
theorem WellFormed.apply (hwf : hp.WellFormed) (hsound : change.Sound hp) :
    (change.apply hp).WellFormed := by
  cases change with
  | fill body => exact hwf.allocate body
  | write h c =>
    obtain ⟨-, old, hold, hle⟩ := hsound
    exact hwf.setCell hold (Nat.lt_of_lt_of_le (hwf.shares_pos h old hold) hle)
  | lessen h =>
    obtain ⟨-, c, hc, hlt⟩ := hsound
    rw [apply_lessen hc]
    exact hwf.setCell hc (Nat.sub_pos_of_lt hlt)
  | empty h =>
    obtain ⟨-, -, c, hc, -⟩ := hsound
    rw [apply_empty hc]
    exact hwf.vacate hc c.body
  | collect => exact hwf.setFreed #[]

/-- So do any number of them. -/
theorem WellFormed.replay (hwf : hp.WellFormed) (hsounds : Sounds cs hp) :
    (replay cs hp).WellFormed := by
  induction cs generalizing hp with
  | nil => exact hwf
  | cons change rest ih => exact ih (hwf.apply hsounds.1) hsounds.2

/-! ## Dropping shares -/

/-- The changes by which one share of each pending handle is dropped, and of whatever these drops
free. -/
def drops (pending : List Handle) (hp : Heap) : List Change :=
  match pending with
  | [] => []
  | h :: rest =>
    match _hc : hp.cell? h with
    | none => []
    | some c =>
      if c.shares - 1 = 0 then
        .empty h :: drops (c.body.children.reverse ++ rest) (hp.vacate h c.body)
      else
        .lessen h :: drops rest (hp.setCell h { c with shares := c.shares - 1 })
termination_by hp.weight + pending.length
decreasing_by
  · have := weight_vacate _hc c.body
    simp only [List.length_append, List.length_reverse, List.length_cons]
    omega
  · have : (hp.setCell h { c with shares := c.shares - 1 }).weight = hp.weight :=
      weight_setCell _hc rfl
    rw [List.length_cons]
    omega

/-- They come to what the cascade leaves, wherever it ends. -/
theorem replay_drops (pending : List Handle) (hp : Heap) :
    replay (drops pending hp) hp = (cascade pending hp).2 := by
  fun_induction drops pending hp with
  | case1 hp => rw [cascade_nil, replay]
  | case2 hp h rest hc => rw [cascade_of_none hc, replay]
  | case3 hp h rest c hc hleft ih =>
    rw [replay, apply_empty hc, ih, cascade_of_last hc hleft]
  | case4 hp h rest c hc hleft ih =>
    rw [replay, apply_lessen hc, ih, cascade_of_left hc hleft]

/-- None of them takes away what is not there, whatever the bodies name. -/
theorem WellFormed.sounds_drops (hwf : hp.WellFormed) (pending : List Handle) :
    Sounds (drops pending hp) hp := by
  fun_induction drops pending hp with
  | case1 => trivial
  | case2 => trivial
  | case3 hp h rest c hc hleft ih =>
    refine ⟨hwf.sound_empty hc, ?_⟩
    rw [apply_empty hc]
    exact ih (hwf.vacate hc c.body)
  | case4 hp h rest c hc hleft ih =>
    refine ⟨⟨lt_size_of_cell? hc, c, hc, by omega⟩, ?_⟩
    rw [apply_lessen hc]
    exact ih (hwf.setCell hc (by dsimp only; omega))

/-! ## The age of a handle -/

/-- The slot of a handle has been emptied `n` times since the handle was answered. Until the first
time it holds the scalar. -/
structure Aged (hp : Heap) (h : Handle) (n : Nat) : Prop where
  slot : ∃ slot, hp.slots[h.index]? = some slot ∧ slot.generation = h.generation + UInt32.ofNat n
  cell : n = 0 → ∃ c, hp.cell? h = some c

/-- The handle of a scalar has age zero. -/
theorem aged_of_cell? (hc : hp.cell? h = some c) : hp.Aged h 0 :=
  ⟨⟨_, getElem?_of_cell? hc, by simp⟩, fun _ => ⟨c, hc⟩⟩

theorem WellFormed.aged_allocate (hwf : hp.WellFormed) (body : Body) :
    (hp.allocate body).2.Aged (hp.allocate body).1 0 := by
  have hc := hwf.cell?_allocate body (hp.allocate body).1
  rw [if_pos rfl] at hc
  exact aged_of_cell? hc

/-- What becomes of the slot of a handle decides about its age. -/
theorem Aged.of_slots {hp₁ : Heap} (haged : hp.Aged h n)
    (hslot : ∀ slot, hp.slots[h.index]? = some slot →
      ∃ slot', hp₁.slots[h.index]? = some slot' ∧ slot'.generation = slot.generation)
    (hcell : ∀ c, hp.cell? h = some c → ∃ c', hp₁.cell? h = some c') : hp₁.Aged h n := by
  obtain ⟨⟨slot, hslot₀, hgen⟩, hc⟩ := haged
  refine ⟨?_, ?_⟩
  · obtain ⟨slot', hslot', heq⟩ := hslot slot hslot₀
    exact ⟨slot', hslot', heq.trans hgen⟩
  · intro hn
    obtain ⟨c, hc⟩ := hc hn
    exact hcell c hc

theorem Aged.setCell (haged : hp.Aged h n) (hc : hp.cell? k = some c) (c' : Cell) :
    (hp.setCell k c').Aged h n := by
  refine haged.of_slots ?_ ?_
  · intro slot hslot
    by_cases hi : k.index = h.index
    · rw [← hi, getElem?_of_cell? hc, Option.some.injEq] at hslot
      rw [Heap.setCell, ← hi, Array.getElem?_setIfInBounds_self_of_lt (lt_size_of_cell? hc)]
      exact ⟨_, rfl, by rw [← hslot]⟩
    · exact ⟨slot, by rw [Heap.setCell, Array.getElem?_setIfInBounds_ne hi, hslot], rfl⟩
  · intro d hd
    rw [cell?_setCell hc]
    split
    · exact ⟨_, rfl⟩
    · exact ⟨d, hd⟩

theorem Aged.allocate (haged : hp.Aged h n) (hwf : hp.WellFormed) (body : Body) :
    (hp.allocate body).2.Aged h n := by
  refine haged.of_slots ?_ ?_
  · intro slot hslot
    obtain ⟨hlt, -⟩ := Array.getElem?_eq_some_iff.1 hslot
    rcases hwf.allocate_cases body with ⟨i, free, slot', -, hslot', -, heq⟩ | ⟨-, heq⟩
    · rw [heq]
      by_cases hi : i = h.index
      · subst hi
        rw [hslot', Option.some.injEq] at hslot
        exact ⟨_, Array.getElem?_setIfInBounds_self_of_lt hlt, by rw [hslot]⟩
      · exact ⟨slot, by rw [Array.getElem?_setIfInBounds_ne hi, hslot], rfl⟩
    · rw [heq]
      exact ⟨slot, by rw [Array.getElem?_push_lt hlt, ← hslot, Array.getElem?_eq_getElem hlt], rfl⟩
  · intro c hc
    rw [hwf.cell?_allocate]
    split
    · exact ⟨_, rfl⟩
    · exact ⟨c, hc⟩

/-- Emptying the slot of the handle makes it older, and emptying another one does not. -/
theorem Aged.vacate (haged : hp.Aged h n) (hc : hp.cell? k = some c) (body : Body) :
    (hp.vacate k body).Aged h (n + if k.index = h.index then 1 else 0) := by
  by_cases hi : k.index = h.index
  · obtain ⟨⟨slot, hslot, hgen⟩, -⟩ := haged
    rw [← hi, getElem?_of_cell? hc, Option.some.injEq] at hslot
    rw [if_pos hi]
    refine ⟨⟨{ generation := k.generation + 1 }, ?_, ?_⟩, fun hn => absurd hn (Nat.succ_ne_zero n)⟩
    · rw [Heap.vacate, ← hi, Array.getElem?_setIfInBounds_self_of_lt (lt_size_of_cell? hc)]
    · rw [← hslot] at hgen
      rw [show k.generation = _ from hgen, UInt32.ofNat_add, UInt32.add_assoc]
      rfl
  · rw [if_neg hi, Nat.add_zero]
    refine haged.of_slots ?_ ?_
    · intro slot hslot
      exact ⟨slot, by rw [Heap.vacate, Array.getElem?_setIfInBounds_ne hi, hslot], rfl⟩
    · intro d hd
      rw [cell?_vacate hc, if_neg (Ne.symm hi)]
      exact ⟨d, hd⟩

/-- One sound change makes a handle older by one if it empties its slot, and no older otherwise. -/
theorem Aged.apply (haged : hp.Aged h n) (hwf : hp.WellFormed) (hsound : change.Sound hp) :
    (change.apply hp).Aged h (n + if change.empties h.index then 1 else 0) := by
  cases change with
  | fill body => exact haged.allocate hwf body
  | write k c =>
    obtain ⟨-, old, hold, -⟩ := hsound
    exact haged.setCell hold c
  | lessen k =>
    obtain ⟨-, c, hc, -⟩ := hsound
    rw [apply_lessen hc]
    exact haged.setCell hc _
  | empty k =>
    obtain ⟨-, -, c, hc, -⟩ := hsound
    rw [apply_empty hc]
    simpa [Change.empties] using haged.vacate hc c.body
  | collect => exact ⟨haged.slot, haged.cell⟩

/-- A handle is as old as its slot has been emptied often. -/
theorem Aged.replay (haged : hp.Aged h n) (hwf : hp.WellFormed) (hsounds : Sounds cs hp) :
    (replay cs hp).Aged h (n + timesEmptied h.index cs) := by
  induction cs generalizing hp n with
  | nil => exact haged
  | cons change rest ih =>
    have hnext := ih (haged.apply hwf hsounds.1) (hwf.apply hsounds.1) hsounds.2
    rwa [timesEmptied_cons, ← Nat.add_assoc]

theorem ofNat_ne_zero (hpos : 0 < n) (hlt : n < 2 ^ 32) : UInt32.ofNat n ≠ 0 := by
  intro hzero
  have hnat := congrArg UInt32.toNat hzero
  rw [UInt32.toNat_ofNat', Nat.mod_eq_of_lt hlt] at hnat
  exact absurd hnat (Nat.ne_of_gt hpos)

/-- A handle whose slot has been emptied fits nothing, unless the generation has come around. -/
theorem Aged.cell?_eq_none (haged : hp.Aged h n) (hpos : 0 < n) (hlt : n < 2 ^ 32) :
    hp.cell? h = none := by
  obtain ⟨⟨slot, hslot, hgen⟩, -⟩ := haged
  have hne : slot.generation ≠ h.generation := by
    rw [hgen]
    simpa using ofNat_ne_zero hpos hlt
  simp [cell?, hslot, hne]

/-- An allocation that takes the slot of a handle answers it with the generation that its age has
come to. -/
theorem Aged.generation_allocate (haged : hp.Aged h n) (hwf : hp.WellFormed) {body : Body}
    (hi : (hp.allocate body).1.index = h.index) :
    (hp.allocate body).1.generation = h.generation + UInt32.ofNat n := by
  obtain ⟨⟨slot, hslot, hgen⟩, -⟩ := haged
  rcases hwf.allocate_cases body with ⟨i, free, slot', -, hslot', -, heq⟩ | ⟨-, heq⟩
  · rw [heq] at hi ⊢
    dsimp only at hi ⊢
    rw [hi, hslot, Option.some.injEq] at hslot'
    rw [← hslot', hgen]
  · rw [heq] at hi
    obtain ⟨hlt, -⟩ := Array.getElem?_eq_some_iff.1 hslot
    exact absurd hi (Nat.ne_of_gt hlt)

/-- No allocation answers a handle again before the generation has come around. -/
theorem Aged.allocate_ne (haged : hp.Aged h n) (hwf : hp.WellFormed) (hlt : n < 2 ^ 32)
    (body : Body) : (hp.allocate body).1 ≠ h := by
  intro heq
  by_cases hn : n = 0
  · obtain ⟨c, hc⟩ := haged.cell hn
    have hnone := hwf.cell?_allocate_fst body
    rw [heq, hc] at hnone
    cases hnone
  · have hgen := haged.generation_allocate hwf (congrArg Handle.index heq)
    rw [heq] at hgen
    exact ofNat_ne_zero (Nat.pos_of_ne_zero hn) hlt (by simpa using hgen.symm)

/-- When it has come around, the allocation that takes the slot answers the handle. -/
theorem Aged.allocate_eq (haged : hp.Aged h (2 ^ 32)) (hwf : hp.WellFormed) {body : Body}
    (hi : (hp.allocate body).1.index = h.index) : (hp.allocate body).1 = h := by
  have hgen := haged.generation_allocate hwf hi
  rw [show UInt32.ofNat (2 ^ 32) = 0 from rfl, UInt32.add_zero] at hgen
  rcases hnew : (hp.allocate body).1 with ⟨i, g⟩
  rw [hnew] at hi hgen
  cases h
  simp_all

end GuestBridge.Heap
