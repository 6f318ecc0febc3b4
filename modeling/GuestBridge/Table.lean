import GuestBridge.Total

/-!
# Tables

A table has an entry for every number. Entries that were never written hold the default, so reading
is total, and a write changes what is read at its own number only.
-/

namespace GuestBridge

/-- An entry for every number; those beyond the end of the array hold the default. -/
structure Table (α : Type) where
  entries : Array α := #[]
  deriving DecidableEq, Inhabited

namespace Table

variable {α : Type} [Inhabited α]

/-- The entry of a number. -/
def get (t : Table α) (i : Nat) : α := t.entries.getD i default

/-- Writes the entry of a number. -/
def set (t : Table α) (i : Nat) (a : α) : Table α :=
  if i < t.entries.size then { entries := t.entries.setIfInBounds i a }
  else { entries := (t.entries ++ Array.replicate (i - t.entries.size) default).push a }

/-- Takes the entry of a number out. -/
@[noinline] def take (t : Table α) (i : Nat) : α × Table α := (t.get i, t.set i default)

/-- Acts on the entry of a number. The entry is taken out of the table meanwhile, so that nothing
else refers to it and it can change in place. -/
@[inline] def update (t : Table α) (i : Nat) (f : α → β × α) : β × Table α :=
  let (a, t) := t.take i
  let (b, a) := f a
  (b, t.set i a)

@[simp] theorem get_empty (i : Nat) : ({} : Table α).get i = default := by simp [get]

theorem get_set (t : Table α) (i j : Nat) (a : α) :
    (t.set i a).get j = if i = j then a else t.get j := by
  unfold get set
  split
  · by_cases hij : i = j
    · subst hij
      simp [*]
    · simp [hij]
  · by_cases hij : i = j
    · subst hij
      simp only [Array.getD_eq_getD_getElem?, Array.getElem?_push, Array.size_append,
        Array.size_replicate]
      rw [if_pos (by omega)]
      rfl
    · simp only [Array.getD_eq_getD_getElem?, Array.getElem?_push, Array.size_append,
        Array.size_replicate]
      rw [if_neg (by omega), Array.getElem?_append]
      split
      · rfl
      · rw [Array.getElem?_replicate, Array.getElem?_eq_none (by omega)]
        split <;> rfl

@[simp] theorem get_set_self (t : Table α) (i : Nat) (a : α) : (t.set i a).get i = a := by
  simp [get_set]

theorem get_set_of_ne (t : Table α) {i j : Nat} (hij : i ≠ j) (a : α) :
    (t.set i a).get j = t.get j := by
  simp [get_set, hij]

/-- Of two writes at one number the later one counts. -/
theorem set_set (t : Table α) (i : Nat) (a b : α) : (t.set i a).set i b = t.set i b := by
  unfold set
  by_cases hi : i < t.entries.size
  · simp [hi]
  · have hsize : (t.entries ++ Array.replicate (i - t.entries.size) default).size = i := by
      simp only [Array.size_append, Array.size_replicate]
      omega
    rw [if_neg hi, if_neg hi, if_pos (by simp only [Array.size_push]; omega)]
    congr 1
    rw [← Array.toList_inj, Array.toList_setIfInBounds, Array.toList_push, Array.toList_push,
      List.set_append_right _ _ (by rw [Array.length_toList]; omega), Array.length_toList, hsize,
      Nat.sub_self, List.set_cons_zero]

theorem update_eq (t : Table α) (i : Nat) (f : α → β × α) :
    t.update i f = ((f (t.get i)).1, t.set i (f (t.get i)).2) := by
  simp only [update, take, set_set]

/-- The total of a number read off each entry written so far. -/
def total (f : α → Nat) (t : Table α) : Nat := GuestBridge.total f t.entries

/-- A write takes the old entry out of a total and puts the new one in, if the default counts
nothing. -/
theorem total_set {f : α → Nat} (hf : f default = 0) (t : Table α) (i : Nat) (a : α) :
    (t.set i a).total f + f (t.get i) = t.total f + f a := by
  unfold get
  rw [Array.getD_eq_getD_getElem?]
  by_cases hi : i < t.entries.size
  · have hentry : t.entries[i]? = some t.entries[i] := Array.getElem?_eq_getElem hi
    rw [set, if_pos hi, hentry, Option.getD_some]
    exact total_setIfInBounds f hentry a
  · rw [set, if_neg hi, Array.getElem?_eq_none (by omega), Option.getD_none, hf]
    simp only [total, total_push, total_append, total_replicate_eq_zero f hf]
    omega

end Table

end GuestBridge
