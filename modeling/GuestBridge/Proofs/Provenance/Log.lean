import GuestBridge.Proofs.Calls.GivenUp
import GuestBridge.Proofs.Heap.Evolution

/-!
# Where handles come from

A handle says nothing about the interpreter that answered it, so where it comes from is a matter of
history. A log keeps for each interpreter the changes of its heap from the beginning on, and the
handles that the heap has issued can be read off it.

A world is logged if its heaps are what the changes of a log come to, and if the handle of each
boundary object has been issued by the heap of the interpreter that the object names. Whatever
happens to the world then makes the log longer (`World.Continues`): there are heaps that evolve,
objects that go or change their content, and boundary objects over scalars that are there.
-/

namespace GuestBridge

/-! ## Issued handles -/

namespace Heap

variable {hp : Heap} {h : Handle} {c : Cell} {change : Change} {cs : List Change}

/-- The handle that a change answers. -/
def Change.answers (hp : Heap) : Change → List Handle
  | fill body => [(hp.allocate body).1]
  | _ => []

/-- The handles that a heap issues as it goes through changes. -/
def issued : List Change → Heap → List Handle
  | [], _ => []
  | change :: rest, hp => change.answers hp ++ issued rest (change.apply hp)

theorem issued_append (cs more : List Change) (hp : Heap) :
    issued (cs ++ more) hp = issued cs hp ++ issued more (replay cs hp) := by
  induction cs generalizing hp with
  | nil => rfl
  | cons change rest ih => rw [List.cons_append, issued, ih, issued, replay, List.append_assoc]

/-- A scalar that is there after a change was there before, or the change answered its handle. -/
theorem exists_cell?_of_apply (hwf : hp.WellFormed) (hsound : change.Sound hp)
    (hc : (change.apply hp).cell? h = some c) :
    (∃ c', hp.cell? h = some c') ∨ h ∈ change.answers hp := by
  cases change with
  | fill body =>
    rw [Change.apply, hwf.cell?_allocate] at hc
    split at hc
    · rename_i hnew
      exact .inr (by simp [Change.answers, hnew])
    · exact .inl ⟨c, hc⟩
  | write k d =>
    obtain ⟨-, old, hold, -⟩ := hsound
    rw [Change.apply, cell?_setCell hold] at hc
    split at hc
    · rename_i hk
      exact .inl ⟨old, hk ▸ hold⟩
    · exact .inl ⟨c, hc⟩
  | lessen k =>
    obtain ⟨-, d, hd, -⟩ := hsound
    rw [apply_lessen hd, cell?_setCell hd] at hc
    split at hc
    · rename_i hk
      exact .inl ⟨d, hk ▸ hd⟩
    · exact .inl ⟨c, hc⟩
  | empty k =>
    obtain ⟨-, -, d, hd, -⟩ := hsound
    rw [apply_empty hd, cell?_vacate_eq hd] at hc
    split at hc
    · cases hc
    · exact .inl ⟨c, hc⟩
  | collect => exact .inl ⟨c, hc⟩

/-- A scalar that is there in the end was there from the start, or its handle has been issued. -/
theorem mem_issued_of_cell? (hwf : hp.WellFormed) (hsounds : Sounds cs hp)
    (hc : (replay cs hp).cell? h = some c) : (∃ c', hp.cell? h = some c') ∨ h ∈ issued cs hp := by
  induction cs generalizing hp with
  | nil => exact .inl ⟨c, hc⟩
  | cons change rest ih =>
    rw [issued, List.mem_append]
    rcases ih (hwf.apply hsounds.1) hsounds.2 hc with ⟨c', hc'⟩ | hmem
    · rcases exists_cell?_of_apply hwf hsounds.1 hc' with hbefore | hmem
      · exact .inl hbefore
      · exact .inr (.inl hmem)
    · exact .inr (.inr hmem)

/-- An issued handle is as old as its slot has been emptied since, and so at most as old as its slot
has been emptied at all. -/
theorem aged_of_mem_issued (hwf : hp.WellFormed) (hsounds : Sounds cs hp)
    (hmem : h ∈ issued cs hp) :
    ∃ n, n ≤ timesEmptied h.index cs ∧ (replay cs hp).Aged h n := by
  induction cs generalizing hp with
  | nil => cases hmem
  | cons change rest ih =>
    have hwf₁ := hwf.apply hsounds.1
    rw [issued, List.mem_append] at hmem
    rw [timesEmptied_cons]
    rcases hmem with hmem | hmem
    · cases change with
      | fill body =>
        obtain rfl := List.mem_singleton.1 hmem
        refine ⟨_, Nat.le_add_left _ _, ?_⟩
        have haged := (hwf.aged_allocate body).replay hwf₁ hsounds.2
        rwa [Nat.zero_add] at haged
      | write | lessen | empty | collect => cases hmem
    · obtain ⟨n, hle, haged⟩ := ih hwf₁ hsounds.2 hmem
      exact ⟨n, Nat.le_trans hle (Nat.le_add_left _ _), haged⟩

end Heap

/-! ## Logs -/

namespace World

open Heap (Change Sounds replay issued Evolves)

variable {w w₁ w₂ : World} {i : InterpreterId} {it : Interpreter} {h : Handle}

/-- For each interpreter the changes that its heap has gone through, first to last. -/
abbrev Log := InterpreterId → List Change

/-- A world with its log. The handle of a boundary object was issued by the heap of the interpreter
that the object names. -/
structure Logged (w : World) (log : Log) : Prop where
  sounds : ∀ i, Sounds (log i) {}
  heap : ∀ i, (w.interpreter i).heap = replay (log i) {}
  boundary : ∀ id owner h, w.store.boundary? id = some (owner, h) → h ∈ issued (log owner) {}

variable {log : Log}

theorem logged_empty : Logged {} fun _ => [] where
  sounds := fun _ => trivial
  heap := fun _ => rfl
  boundary := by
    intro id owner h hid
    simp [Store.boundary?, Store.get?, Store.holding?, Functor.map] at hid

theorem Logged.wellFormed (hlogged : w.Logged log) (i : InterpreterId) :
    (w.interpreter i).heap.WellFormed := by
  rw [hlogged.heap]
  exact Heap.wellFormed_empty.replay (hlogged.sounds i)

/-- The handle of a scalar has been issued by its heap. -/
theorem Logged.mem_issued (hlogged : w.Logged log)
    (hlive : (w.interpreter i).heap.contains h = true) : h ∈ issued (log i) {} := by
  obtain ⟨c, hc⟩ := Heap.contains_iff.1 hlive
  rw [hlogged.heap] at hc
  rcases Heap.mem_issued_of_cell? Heap.wellFormed_empty (hlogged.sounds i) hc with ⟨c', hc'⟩ | hmem
  · simp [Heap.cell?] at hc'
  · exact hmem

/-! ## Going on -/

/-- Whatever the log of the one world is, it goes on to a log of the other. -/
def Continues (w w₁ : World) : Prop :=
  ∀ log : Log, w.Logged log → ∃ more : Log, w₁.Logged fun i => log i ++ more i

theorem Continues.refl (w : World) : Continues w w :=
  fun log hlogged => ⟨fun _ => [], by simpa using hlogged⟩

theorem Continues.trans (hfirst : Continues w w₁) (hnext : Continues w₁ w₂) : Continues w w₂ := by
  intro log hlogged
  obtain ⟨more, hmore⟩ := hfirst log hlogged
  obtain ⟨rest, hrest⟩ := hnext _ hmore
  exact ⟨fun i => more i ++ rest i, by simpa only [List.append_assoc] using hrest⟩

/-- No heap has changed, and no boundary object has been added. -/
theorem continues_of_fades (hheap : ∀ i, (w₁.interpreter i).heap = (w.interpreter i).heap)
    (hfades : w.store.Fades w₁.store) : Continues w w₁ := by
  intro log hlogged
  refine ⟨fun _ => [], ?_⟩
  simp only [List.append_nil]
  exact ⟨hlogged.sounds, fun i => (hheap i).trans (hlogged.heap i),
    fun id owner h hid => hlogged.boundary id owner h (hfades id _ hid)⟩

/-- The heap of one interpreter evolves. -/
theorem continues_setInterpreter (hevolves : Evolves (w.interpreter i).heap it.heap) :
    Continues w (w.setInterpreter i it) := by
  intro log hlogged
  obtain ⟨cs, hsounds, hreplay⟩ := hevolves (hlogged.wellFormed i)
  rw [hlogged.heap] at hsounds hreplay
  refine ⟨fun j => if i = j then cs else [], ?_, ?_, ?_⟩
  · intro j
    refine (Heap.sounds_append _ _ _).2 ⟨hlogged.sounds j, ?_⟩
    dsimp only
    split
    · rename_i hij
      exact hij ▸ hsounds
    · trivial
  · intro j
    rw [Heap.replay_append, interpreter_setInterpreter]
    dsimp only
    split
    · rename_i hij
      rw [← hij, hreplay]
    · exact hlogged.heap j
  · intro id owner h hid
    rw [Heap.issued_append]
    exact List.mem_append_left _ (hlogged.boundary id owner h hid)

theorem boundary?_newBoundary (w : World) (i : InterpreterId) (h : Handle) (id : ObjectId) :
    (w.newBoundary i h).2.store.boundary? id =
      if id.number = w.store.holdings.size then some (i, h) else w.store.boundary? id := by
  have hget := w.store.get?_add (.boundary i h) id
  rw [Store.boundary?, show (w.newBoundary i h).2.store = (w.store.add (.boundary i h)).2 from rfl,
    hget]
  by_cases hid : id.number = w.store.holdings.size
  · rw [if_pos hid, if_pos hid]
  · rw [if_neg hid, if_neg hid]
    rfl

/-- A boundary object is made for a scalar that was there, whatever has happened since. -/
theorem Continues.newBoundary (hcontinues : Continues w w₁)
    (hlive : (w.interpreter i).heap.contains h = true) :
    Continues w (w₁.newBoundary i h).2 := by
  intro log hlogged
  obtain ⟨more, hmore⟩ := hcontinues log hlogged
  refine ⟨more, hmore.sounds, hmore.heap, ?_⟩
  intro id owner k hid
  rw [boundary?_newBoundary] at hid
  split at hid
  · cases hid
    rw [Heap.issued_append]
    exact List.mem_append_left _ (hlogged.mem_issued hlive)
  · exact hmore.boundary id owner k hid

end World

end GuestBridge
