import GuestBridge.Proofs.Conversion.Primitives
import GuestBridge.Proofs.Heap.Requests

/-!
# How a heap evolves

One heap evolves into another if sound changes lead from one to the other. Everything that works on
a heap makes it evolve: requests, what puts one scalar into another, conversions, and freeing
everything. So what holds of all sequences of sound changes holds of the heap of an interpreter,
whatever is done to it.
-/

namespace GuestBridge.Heap

variable {hp hp₁ hp₂ : Heap}

/-- Sound changes lead from a well-formed heap to another heap. -/
def Evolves (hp hp₁ : Heap) : Prop := hp.WellFormed → ∃ cs, Sounds cs hp ∧ replay cs hp = hp₁

theorem Evolves.refl (hp : Heap) : Evolves hp hp := fun _ => ⟨[], trivial, rfl⟩

theorem Evolves.trans (hfirst : Evolves hp hp₁) (hnext : Evolves hp₁ hp₂) : Evolves hp hp₂ := by
  intro hwf
  obtain ⟨cs, hsounds, rfl⟩ := hfirst hwf
  obtain ⟨more, hmore, rfl⟩ := hnext (hwf.replay hsounds)
  exact ⟨cs ++ more, (sounds_append cs more hp).2 ⟨hsounds, hmore⟩, replay_append cs more hp⟩

/-- A heap that evolves stays well-formed. -/
theorem Evolves.wellFormed (hevolves : Evolves hp hp₁) (hwf : hp.WellFormed) : hp₁.WellFormed := by
  obtain ⟨cs, hsounds, rfl⟩ := hevolves hwf
  exact hwf.replay hsounds

/-! ## Requests and what is made of them -/

theorem evolves_perform (r : Request) (hp : Heap) : Evolves hp (r.perform hp).2 :=
  fun hwf => ⟨r.changes hp, hwf.sounds_changes r, (r.perform_snd hp).symm⟩

/-- The operations of a conversion. -/
theorem closed_evolves : Closed Evolves where
  refl := .refl
  trans := .trans
  allocate := fun hp body => hp.evolves_perform (.allocate body)
  share := fun hp h => hp.evolves_perform (.share h)
  setBody := fun hp h body => hp.evolves_perform (.setBody h body)
  unshare := fun hp h => hp.evolves_perform (.unshare h)

theorem evolves_referTaking (hp : Heap) (target : Handle) :
    Evolves hp (hp.referTaking target).2 := by
  unfold referTaking
  split
  · exact closed_evolves.allocate hp _
  · exact .refl hp

theorem evolves_referSharing (hp : Heap) (target : Handle) :
    Evolves hp (hp.referSharing target).2 := by
  have hshare := closed_evolves.share hp target
  unfold referSharing
  split
  · rename_i heq
    rw [heq] at hshare
    exact hshare.trans (closed_evolves.allocate _ _)
  · rename_i heq
    rw [heq] at hshare
    exact hshare

theorem evolves_blessTarget (hp : Heap) (reference : Handle) (package : String) :
    Evolves hp (hp.blessTarget reference package).2 := by
  unfold blessTarget
  split
  · rename_i target _
    exact hp.evolves_perform (.bless target package)
  · exact .refl hp
  · exact .refl hp

theorem evolves_arrayPush (hp : Heap) (array item : Handle) :
    Evolves hp (hp.arrayPush array item).2 := by
  unfold arrayPush
  split
  · exact closed_evolves.setBody hp array _
  · exact .refl hp
  · exact .refl hp

theorem evolves_hashStore (hp : Heap) (hash : Handle) (key : Bytes) (value : Handle) :
    Evolves hp (hp.hashStore hash key value).2 := by
  unfold hashStore
  split
  · rename_i entries _
    have hset := closed_evolves.setBody hp hash (.hash (Entries.insert key value entries))
    split
    · rename_i hp₁ old heq _
      rw [heq] at hset
      have hdrop := hset.trans (closed_evolves.unshare hp₁ old)
      split <;> (rename_i heq₁; rw [heq₁] at hdrop; exact hdrop)
    · rename_i heq _
      rw [heq] at hset
      exact hset
  · exact .refl hp
  · exact .refl hp

theorem evolves_unshareEach (hs : List Handle) : ∀ hp : Heap, Evolves hp (hp.unshareEach hs).2 := by
  induction hs with
  | nil => exact .refl
  | cons h rest ih =>
    intro hp
    have hdrop := closed_evolves.unshare hp h
    rw [unshareEach]
    split
    · rename_i heq
      rw [heq] at hdrop
      exact hdrop.trans (ih _)
    · rename_i heq
      rw [heq] at hdrop
      exact hdrop.trans (ih _)

/-! ## Freeing everything -/

theorem evolves_discard (hp : Heap) (h : Handle) : Evolves hp (hp.discard h) := by
  intro hwf
  cases hc : hp.cell? h with
  | none => exact ⟨[], trivial, by rw [replay, discard, hc]⟩
  | some c => exact ⟨[.empty h], ⟨hwf.sound_empty hc, trivial⟩, rfl⟩

theorem evolves_clear (hp : Heap) : Evolves hp hp.clear := by
  unfold clear
  generalize hp.handles = hs
  induction hs generalizing hp with
  | nil => exact .refl hp
  | cons h rest ih => exact (hp.evolves_discard h).trans (ih _)

end GuestBridge.Heap
