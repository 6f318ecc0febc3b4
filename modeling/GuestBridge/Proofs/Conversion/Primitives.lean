import GuestBridge.Crossing.Conversion
import GuestBridge.Proofs.HeapInvariant

/-!
# What a conversion does to the heap

A conversion works on the heap by four operations: it adds a scalar, adds a share, replaces a body
and drops a share. So whatever relates a heap to the one after each of these operations, and can be
composed, relates the heap before a conversion to the one after it, however the conversion ends.
-/

namespace GuestBridge

/-- A relation between heaps that each operation of a conversion keeps. -/
structure Heap.Closed (R : Heap → Heap → Prop) : Prop where
  refl : ∀ hp, R hp hp
  trans : ∀ {hp hp₁ hp₂}, R hp hp₁ → R hp₁ hp₂ → R hp hp₂
  allocate : ∀ hp body, R hp (hp.allocate body).2
  share : ∀ hp h, R hp (hp.share h).2
  setBody : ∀ hp h body, R hp (hp.setBody h body).2
  unshare : ∀ hp h, R hp (hp.unshare h).2

namespace Passage

variable {p : Passage} {f : Value → Heap → Except CrossingError Handle × Heap} {v : Value}
variable {hp hp₁ hp₂ : Heap} {h old : Handle} {e : CrossingError} {fault : Fault} {left : Nat}

/-! ## One element -/

theorem convertItems_of_error (hrun : f v hp = (.error e, hp₁)) (rest : List Value) :
    convertItems f (v :: rest) hp = ([], .error e, hp₁) := by
  rw [convertItems, hrun]

theorem convertItems_of_ok (hrun : f v hp = (.ok h, hp₁)) (rest : List Value) :
    convertItems f (v :: rest) hp
      = (h :: (convertItems f rest hp₁).1, (convertItems f rest hp₁).2) := by
  rw [convertItems, hrun]

theorem convertEntries_of_error (hrun : f v hp = (.error e, hp₁)) (key : String)
    (rest : List (String × Value)) (entries : List (Bytes × Handle)) :
    p.convertEntries f ((key, v) :: rest) entries hp = (entries, .error e, hp₁) := by
  rw [convertEntries, hrun]

theorem convertEntries_of_new (hrun : f v hp = (.ok h, hp₁)) {key : String}
    {entries : List (Bytes × Handle)} (hnew : Entries.find? (p.bytesOf key) entries = none)
    (rest : List (String × Value)) :
    p.convertEntries f ((key, v) :: rest) entries hp
      = p.convertEntries f rest (Entries.insert (p.bytesOf key) h entries) hp₁ := by
  rw [convertEntries, hrun]
  simp only [hnew]

theorem convertEntries_of_old (hrun : f v hp = (.ok h, hp₁)) {key : String}
    {entries : List (Bytes × Handle)} (hold : Entries.find? (p.bytesOf key) entries = some old)
    (hdrop : hp₁.unshare old = (.ok left, hp₂)) (rest : List (String × Value)) :
    p.convertEntries f ((key, v) :: rest) entries hp
      = p.convertEntries f rest (Entries.insert (p.bytesOf key) h entries) hp₂ := by
  rw [convertEntries, hrun]
  simp only [hold, hdrop]

theorem convertEntries_of_fault (hrun : f v hp = (.ok h, hp₁)) {key : String}
    {entries : List (Bytes × Handle)} (hold : Entries.find? (p.bytesOf key) entries = some old)
    (hdrop : hp₁.unshare old = (.error fault, hp₂)) (rest : List (String × Value)) :
    p.convertEntries f ((key, v) :: rest) entries hp
      = (Entries.insert (p.bytesOf key) h entries, .error (.guest fault), hp₂) := by
  rw [convertEntries, hrun]
  simp only [hold, hdrop]

end Passage

/-! ## Whole values -/

namespace Heap.Closed

open Passage

variable {R : Heap → Heap → Prop} {p : Passage} {v : Value} {hp hp₁ : Heap} {h : Handle}
variable {f : Value → Heap → Except CrossingError Handle × Heap}

theorem shareBoundary (hR : Closed R) (p : Passage) (id : ObjectId) (hp : Heap) :
    R hp (p.shareBoundary id hp).2 := by
  unfold Passage.shareBoundary
  split
  · exact hR.refl hp
  · rename_i owner handle _
    split
    · have hshare := hR.share hp handle
      split <;> (rename_i heq; rw [heq] at hshare; exact hshare)
    · exact hR.refl hp

theorem convertItems (hR : Closed R) (hf : ∀ v hp, R hp (f v hp).2) (vs : List Value) :
    ∀ hp : Heap, R hp (Passage.convertItems f vs hp).2.2 := by
  induction vs with
  | nil => exact fun hp => hR.refl hp
  | cons v rest ih =>
    intro hp
    have hv := hf v hp
    rcases hrun : f v hp with ⟨e | h, hp₁⟩
    · rw [hrun] at hv
      rwa [convertItems_of_error hrun]
    · rw [hrun] at hv
      rw [convertItems_of_ok hrun]
      exact hR.trans hv (ih hp₁)

/-- After an element has been converted. -/
theorem stored (hR : Closed R) {rest : List (String × Value)}
    (hrest : ∀ (entries : List (Bytes × Handle)) (hp : Heap),
      R hp (p.convertEntries f rest entries hp).2.2)
    (hrun : f v hp = (.ok h, hp₁)) (key : String) (entries : List (Bytes × Handle)) :
    R hp₁ (p.convertEntries f ((key, v) :: rest) entries hp).2.2 := by
  cases hfind : Entries.find? (p.bytesOf key) entries with
  | none =>
    rw [convertEntries_of_new hrun hfind]
    exact hrest _ hp₁
  | some old =>
    have hdrop := hR.unshare hp₁ old
    rcases hgone : hp₁.unshare old with ⟨fault | left, hp₂⟩
    · rw [hgone] at hdrop
      rwa [convertEntries_of_fault hrun hfind hgone]
    · rw [hgone] at hdrop
      rw [convertEntries_of_old hrun hfind hgone]
      exact hR.trans hdrop (hrest _ hp₂)

theorem convertEntries (hR : Closed R) (hf : ∀ v hp, R hp (f v hp).2)
    (pairs : List (String × Value)) : ∀ (entries : List (Bytes × Handle)) (hp : Heap),
      R hp (p.convertEntries f pairs entries hp).2.2 := by
  induction pairs with
  | nil => exact fun _ hp => hR.refl hp
  | cons pair rest ih =>
    intro entries hp
    obtain ⟨key, v⟩ := pair
    have hv := hf v hp
    rcases hrun : f v hp with ⟨e | h, hp₁⟩
    · rw [hrun] at hv
      rwa [convertEntries_of_error hrun]
    · rw [hrun] at hv
      exact hR.trans hv (hR.stored ih hrun key entries)

theorem complete (hR : Closed R) (container : Handle) (body : Body)
    (ended : Except CrossingError Unit) (hp : Heap) :
    R hp (Passage.complete container body ended hp).2 := by
  refine hR.trans (hR.setBody hp container body) ?_
  unfold Passage.complete Heap.referTaking
  cases ended with
  | ok =>
    dsimp only
    split
    · rename_i heq
      split at heq
      · obtain ⟨-, rfl⟩ := Prod.mk.inj heq
        exact hR.allocate _ _
      · cases heq
    · rename_i heq
      split at heq
      · cases heq
      · obtain ⟨-, rfl⟩ := Prod.mk.inj heq
        exact hR.refl _
  | error e =>
    have hdrop := hR.unshare (hp.setBody container body).2 container
    dsimp only
    split <;> (rename_i heq; rw [heq] at hdrop; exact hdrop)

/-- The relation holds from the heap before a conversion to the one after it. -/
theorem convert (hR : Closed R) (p : Passage) (room : Nat) :
    ∀ v hp, R hp (p.convert room v hp).2 := by
  induction room with
  | zero => exact fun v hp => hR.refl hp
  | succ room ih =>
    intro v hp
    cases v with
    | boundary id => exact hR.shareBoundary p id hp
    | integer n => exact hR.allocate hp _
    | float x => exact hR.allocate hp _
    | text s => exact hR.allocate hp _
    | array id =>
      exact hR.trans (hR.trans (hR.allocate hp _) (hR.convertItems ih _ _)) (hR.complete _ _ _ _)
    | hash id =>
      exact hR.trans (hR.trans (hR.allocate hp _) (hR.convertEntries ih _ _ _))
        (hR.complete _ _ _ _)
    | undef => exact hR.refl hp
    | object id => exact hR.refl hp

end Heap.Closed

end GuestBridge
