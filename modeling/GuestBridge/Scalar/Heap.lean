import GuestBridge.Guest.Fault
import GuestBridge.Scalar.Body
import GuestBridge.Total

/-!
# The scalar heap

Scalars live in slots. A slot is empty or holds a cell: a share count, a body and possibly the
package the scalar is blessed into. Emptied slots wait on a free list, the last one emptied being
the first one used again, and the generation of a slot moves on each time it is emptied.

Dropping the last share of a scalar frees it and drops one share of each child, and so on; the
bodies freed are parked in the order in which they were freed, because a code body owns host
values that are to be dropped only after the heap has come to rest.

* `Heap.cell?` is the view of the heap: the cell a handle fits, if it still does.
* `Heap.weight` counts the shares that freeing everything could still drop; `Heap.cascade` ends
  because each step lowers it together with the number of pending drops.
* `Heap.mass` counts scalars and parked bodies. Dropping shares keeps it: each scalar freed is one
  body parked.
-/

namespace GuestBridge

/-- A scalar: share count, body and blessing. -/
structure Cell where
  shares : Nat
  body : Body
  blessed : Option String := none
  deriving DecidableEq, Inhabited

/-- A place for a scalar. -/
structure Slot where
  generation : UInt32 := 0
  cell : Option Cell := none
  deriving DecidableEq, Inhabited

/-- Slots, the indices free for use (next one first), the number of scalars, and the bodies freed
since they were last collected, in the order freed. -/
structure Heap where
  slots : Array Slot := #[]
  free : List Nat := []
  live : Nat := 0
  freed : Array Body := #[]
  deriving DecidableEq, Inhabited

namespace Heap

/-! ## Reading -/

/-- The cell a handle fits: its slot is occupied and has the handle's generation. -/
def cell? (hp : Heap) (h : Handle) : Option Cell :=
  match hp.slots[h.index]? with
  | some slot => if slot.generation = h.generation then slot.cell else none
  | none => none

/-- The cell of a handle, or the fault of a stale one. -/
def cell (hp : Heap) (h : Handle) : Except Fault Cell :=
  match hp.cell? h with
  | some c => .ok c
  | none => .error h.stale

/-- Is the scalar still there? -/
def contains (hp : Heap) (h : Handle) : Bool := (hp.cell? h).isSome

/-- What the scalar holds. -/
def body (hp : Heap) (h : Handle) : Except Fault Body := (·.body) <$> hp.cell h

/-- How many shares of the scalar there are. -/
def shares (hp : Heap) (h : Handle) : Except Fault Nat := (·.shares) <$> hp.cell h

/-- The package the scalar is blessed into. -/
def blessed (hp : Heap) (h : Handle) : Except Fault (Option String) := (·.blessed) <$> hp.cell h

/-- The handles of all scalars, by slot. -/
def handles (hp : Heap) : List Handle :=
  hp.slots.toList.zipIdx.filterMap fun (slot, i) => slot.cell.map fun _ => ⟨i, slot.generation⟩

/-- Number of occupied slots. -/
def occupied (hp : Heap) : Nat := total (fun s => s.cell.elim 0 fun _ => 1) hp.slots

/-- Number of scalars together with their children, once per occurrence. -/
def weight (hp : Heap) : Nat :=
  total (fun s => s.cell.elim 0 fun c => c.body.children.length + 1) hp.slots

/-- Number of scalars and parked bodies. -/
def mass (hp : Heap) : Nat := hp.occupied + hp.freed.size

/-! ## Writing one cell -/

/-- Puts a cell where a fitting handle points. -/
def setCell (hp : Heap) (h : Handle) (c : Cell) : Heap :=
  { hp with slots := hp.slots.setIfInBounds h.index { generation := h.generation, cell := some c } }

/-- A new scalar with one share. An emptied slot is used first. -/
def allocate (hp : Heap) (body : Body) : Handle × Heap :=
  let cell : Cell := { shares := 1, body }
  match hp.free with
  | index :: free =>
    let generation := match hp.slots[index]? with
      | some slot => slot.generation
      | none => 0
    (⟨index, generation⟩,
      { hp with
        slots := hp.slots.setIfInBounds index { generation, cell := some cell }
        free
        live := hp.live + 1 })
  | [] =>
    (⟨hp.slots.size, 0⟩,
      { hp with slots := hp.slots.push { cell := some cell }, live := hp.live + 1 })

/-- Changes the cell of a handle; a stale handle is reported and changes nothing. -/
def update (hp : Heap) (h : Handle) (f : Cell → Cell) : Except Fault Unit × Heap :=
  match hp.cell? h with
  | some c => (.ok (), hp.setCell h (f c))
  | none => (.error h.stale, hp)

/-- Replaces the body of a scalar. No share moves and nothing is parked. -/
def setBody (hp : Heap) (h : Handle) (body : Body) : Except Fault Unit × Heap :=
  hp.update h fun c => { c with body }

/-- Blesses a scalar into a package. -/
def bless (hp : Heap) (h : Handle) (package : String) : Except Fault Unit × Heap :=
  hp.update h fun c => { c with blessed := some package }

/-- Adds one share and answers the new count. -/
def share (hp : Heap) (h : Handle) : Except Fault Nat × Heap :=
  match hp.cell? h with
  | some c => (.ok (c.shares + 1), hp.setCell h { c with shares := c.shares + 1 })
  | none => (.error h.stale, hp)

/-! ## Dropping shares -/

/-- Empties the slot of a scalar that held `body` and parks the body. -/
def vacate (hp : Heap) (h : Handle) (body : Body) : Heap :=
  { slots := hp.slots.setIfInBounds h.index { generation := h.generation + 1 }
    free := h.index :: hp.free
    live := hp.live - 1
    freed := hp.freed.push body }

/-- The slot a fitting handle names holds the cell. -/
theorem getElem?_of_cell? {hp : Heap} {h : Handle} {c : Cell} (hc : hp.cell? h = some c) :
    hp.slots[h.index]? = some { generation := h.generation, cell := some c } := by
  unfold cell? at hc
  split at hc
  · rename_i slot hslot
    split at hc
    · rename_i hgen
      rw [hslot, ← hgen, ← hc]
    · simp at hc
  · simp at hc

/-- A cell is seen through its own handle only: another handle of the slot has another
generation. -/
theorem cell?_setCell {hp : Heap} {h : Handle} {c : Cell} (hc : hp.cell? h = some c) (c' : Cell)
    (k : Handle) : (hp.setCell h c').cell? k = if k = h then some c' else hp.cell? k := by
  have hslot := getElem?_of_cell? hc
  obtain ⟨hlt, -⟩ := Array.getElem?_eq_some_iff.1 hslot
  by_cases hi : k.index = h.index
  · have hk : k = h ↔ h.generation = k.generation :=
      ⟨fun e => e ▸ rfl, fun e => by cases k; cases h; simp_all⟩
    simp only [cell?, setCell, hi, Array.getElem?_setIfInBounds_self_of_lt hlt, hslot, hk]
    split <;> rfl
  · have hne : k ≠ h := fun e => hi (e ▸ rfl)
    simp only [cell?, setCell, if_neg hne, Array.getElem?_setIfInBounds_ne (Ne.symm hi)]

/-- No handle of an emptied slot sees a cell; other slots stay as they are. -/
theorem cell?_vacate {hp : Heap} {h : Handle} {c : Cell} (hc : hp.cell? h = some c) (body : Body)
    (k : Handle) :
    (hp.vacate h body).cell? k = if k.index = h.index then none else hp.cell? k := by
  obtain ⟨hlt, -⟩ := Array.getElem?_eq_some_iff.1 (getElem?_of_cell? hc)
  by_cases hi : k.index = h.index
  · simp only [cell?, vacate, hi, Array.getElem?_setIfInBounds_self_of_lt hlt, if_true]
    split <;> rfl
  · simp only [cell?, vacate, if_neg hi, Array.getElem?_setIfInBounds_ne (Ne.symm hi)]

/-- What writing over the slot of a scalar does to a total over the slots. -/
theorem total_setIfInBounds_of_cell? {hp : Heap} {h : Handle} {c : Cell}
    (hc : hp.cell? h = some c) (f : Slot → Nat) (slot : Slot) :
    total f (hp.slots.setIfInBounds h.index slot) + f { generation := h.generation, cell := some c }
      = total f hp.slots + f slot :=
  total_setIfInBounds f (getElem?_of_cell? hc) slot

theorem weight_setCell {hp : Heap} {h : Handle} {c c' : Cell} (hc : hp.cell? h = some c)
    (hbody : c'.body = c.body) : (hp.setCell h c').weight = hp.weight := by
  have := total_setIfInBounds_of_cell? hc
    (fun s => s.cell.elim 0 fun c => c.body.children.length + 1)
    { generation := h.generation, cell := some c' }
  simp only [Option.elim_some, hbody] at this
  simp only [weight, setCell]
  omega

theorem weight_vacate {hp : Heap} {h : Handle} {c : Cell} (hc : hp.cell? h = some c) (body : Body) :
    (hp.vacate h body).weight + (c.body.children.length + 1) = hp.weight := by
  have := total_setIfInBounds_of_cell? hc
    (fun s => s.cell.elim 0 fun c => c.body.children.length + 1)
    { generation := h.generation + 1 }
  simp only [Option.elim_some, Option.elim_none, Nat.add_zero] at this
  exact this

theorem mass_setCell {hp : Heap} {h : Handle} {c : Cell} (hc : hp.cell? h = some c) (c' : Cell) :
    (hp.setCell h c').mass = hp.mass := by
  have := total_setIfInBounds_of_cell? hc (fun s => s.cell.elim 0 fun _ => 1)
    { generation := h.generation, cell := some c' }
  simp only [Option.elim_some] at this
  simp only [mass, occupied, setCell]
  omega

theorem mass_vacate {hp : Heap} {h : Handle} {c : Cell} (hc : hp.cell? h = some c) (body : Body) :
    (hp.vacate h body).mass = hp.mass := by
  have := total_setIfInBounds_of_cell? hc (fun s => s.cell.elim 0 fun _ => 1)
    { generation := h.generation + 1 }
  simp only [Option.elim_some, Option.elim_none, Nat.add_zero] at this
  simp only [mass, occupied, vacate, Array.size_push]
  omega

/-- Drops one share of each pending handle, first to last, and of whatever these drops free: the
children of a freed body go in front of the rest, last child first. A stale handle ends it at once,
and what is still pending keeps its share. -/
def cascade (pending : List Handle) (hp : Heap) : Except Fault Unit × Heap :=
  match pending with
  | [] => (.ok (), hp)
  | h :: rest =>
    match _hc : hp.cell? h with
    | none => (.error h.stale, hp)
    | some c =>
      if c.shares - 1 = 0 then
        -- the slot is emptied before its children lose a share, so a scalar that holds itself is
        -- stale when its own turn comes
        cascade (c.body.children.reverse ++ rest) (hp.vacate h c.body)
      else
        cascade rest (hp.setCell h { c with shares := c.shares - 1 })
termination_by hp.weight + pending.length
decreasing_by
  · have := weight_vacate _hc c.body
    simp only [List.length_append, List.length_reverse, List.length_cons]
    omega
  · have : (hp.setCell h { c with shares := c.shares - 1 }).weight = hp.weight :=
      weight_setCell _hc rfl
    rw [List.length_cons]
    omega

/-- Drops one share and answers how many are left. The last one frees the scalar and, in turn,
whatever only it kept alive. -/
def unshare (hp : Heap) (h : Handle) : Except Fault Nat × Heap :=
  match hp.cell? h with
  | none => (.error h.stale, hp)
  | some c =>
    let left := c.shares - 1
    if left = 0 then
      match cascade c.body.children.reverse (hp.vacate h c.body) with
      | (.ok (), hp) => (.ok left, hp)
      | (.error fault, hp) => (.error fault, hp)
    else
      (.ok left, hp.setCell h { c with shares := left })

theorem mass_cascade (pending : List Handle) (hp : Heap) :
    (cascade pending hp).2.mass = hp.mass := by
  fun_induction cascade pending hp with
  | case1 => rfl
  | case2 => rfl
  | case3 _ _ _ _ hc _ ih => rw [ih, mass_vacate hc]
  | case4 _ _ _ _ hc _ ih => rw [ih, mass_setCell hc]

/-- Dropping a share moves scalars to the parked bodies and loses none. -/
theorem mass_unshare (hp : Heap) (h : Handle) : (hp.unshare h).2.mass = hp.mass := by
  unfold unshare
  split
  · rfl
  · rename_i c hc
    dsimp only
    split
    · have hm := mass_cascade c.body.children.reverse (hp.vacate h c.body)
      rw [mass_vacate hc] at hm
      split <;> simp_all
    · exact mass_setCell hc _

/-- Hands over the bodies freed since the last call, in the order freed. -/
def takeFreed (hp : Heap) : List Body × Heap :=
  (hp.freed.toList, { hp with freed := #[] })

/-! ## Freeing everything -/

/-- Frees a scalar, whatever its share count. Its children keep their shares. -/
def discard (hp : Heap) (h : Handle) : Heap :=
  match hp.cell? h with
  | some c => hp.vacate h c.body
  | none => hp

/-- Frees all scalars, first slot to last. -/
def clear (hp : Heap) : Heap := hp.handles.foldl discard hp

theorem mem_handles {hp : Heap} {h : Handle} {c : Cell} (hc : hp.cell? h = some c) :
    h ∈ hp.handles := by
  have hslot := getElem?_of_cell? hc
  rw [handles, List.mem_filterMap]
  refine ⟨({ generation := h.generation, cell := some c }, h.index), ?_, rfl⟩
  rw [List.mem_zipIdx_iff_getElem?, Array.getElem?_toList]
  exact hslot

theorem cell?_discard_self (hp : Heap) (h : Handle) : (hp.discard h).cell? h = none := by
  unfold discard
  split
  · rename_i c hc
    rw [cell?_vacate hc, if_pos rfl]
  · assumption

theorem cell?_discard_of_eq_none {hp : Heap} {k : Handle} (hk : hp.cell? k = none) (h : Handle) :
    (hp.discard h).cell? k = none := by
  unfold discard
  split
  · rename_i c hc
    rw [cell?_vacate hc]
    split
    · rfl
    · exact hk
  · exact hk

/-- No scalar is left in a heap that was cleared. -/
theorem cell?_clear (hp : Heap) (k : Handle) : hp.clear.cell? k = none := by
  suffices h : ∀ (hs : List Handle) (hp : Heap), hp.cell? k = none ∨ k ∈ hs →
      (hs.foldl discard hp).cell? k = none by
    refine h hp.handles hp ?_
    cases hc : hp.cell? k with
    | none => exact .inl rfl
    | some c => exact .inr (mem_handles hc)
  intro hs
  induction hs with
  | nil => exact fun hp hk => hk.elim id (by simp)
  | cons h hs ih =>
    intro hp hk
    refine ih _ ?_
    rcases hk with hk | hk
    · exact .inl (cell?_discard_of_eq_none hk h)
    · rcases List.mem_cons.1 hk with rfl | hk
      · exact .inl (cell?_discard_self hp k)
      · exact .inr hk

theorem mass_discard (hp : Heap) (h : Handle) : (hp.discard h).mass = hp.mass := by
  unfold discard
  split
  · rename_i c hc
    exact mass_vacate hc _
  · rfl

/-- Clearing a heap turns its scalars into parked bodies and loses none. -/
theorem mass_clear (hp : Heap) : hp.clear.mass = hp.mass := by
  suffices h : ∀ (hs : List Handle) (hp : Heap), (hs.foldl discard hp).mass = hp.mass from
    h hp.handles hp
  intro hs
  induction hs with
  | nil => exact fun _ => rfl
  | cons h hs ih => exact fun hp => (ih _).trans (mass_discard hp h)

end Heap

end GuestBridge
