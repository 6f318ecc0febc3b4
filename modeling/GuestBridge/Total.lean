/-!
# Totals over arrays

The total of a number read off each element of an array. Heaps, stores and tables are arrays whose
elements are written one at a time, and the procedures on them end because a total falls, so the
law that matters says what one write does to a total: the element written over goes out of it, and
the new one comes in.
-/

namespace GuestBridge

/-- The total of a number read off each element of a list. -/
def totalOfList (f : α → Nat) : List α → Nat
  | [] => 0
  | x :: xs => f x + totalOfList f xs

/-- The total of a number read off each element. -/
def total (f : α → Nat) (xs : Array α) : Nat := totalOfList f xs.toList

/-! ## Lists -/

theorem totalOfList_set (f : α → Nat) (b : α) :
    ∀ {xs : List α} {i : Nat} {a : α}, xs[i]? = some a →
      totalOfList f (xs.set i b) + f a = totalOfList f xs + f b
  | [], _, _, h => by simp at h
  | x :: xs, 0, a, h => by
    rw [List.getElem?_cons_zero, Option.some.injEq] at h
    subst h
    simp only [List.set_cons_zero, totalOfList]
    omega
  | x :: xs, i + 1, a, h => by
    rw [List.getElem?_cons_succ] at h
    have ih := totalOfList_set f b h
    simp only [List.set_cons_succ, totalOfList]
    omega

theorem totalOfList_append (f : α → Nat) (xs ys : List α) :
    totalOfList f (xs ++ ys) = totalOfList f xs + totalOfList f ys := by
  induction xs with
  | nil => simp [totalOfList]
  | cons x xs ih =>
    simp only [List.cons_append, totalOfList, ih]
    omega

theorem totalOfList_eq_zero (f : α → Nat) {xs : List α} (h : ∀ x ∈ xs, f x = 0) :
    totalOfList f xs = 0 := by
  induction xs with
  | nil => rfl
  | cons x xs ih =>
    rw [totalOfList, h x List.mem_cons_self, ih fun y hy => h y (List.mem_cons_of_mem x hy)]

/-! ## Arrays -/

@[simp] theorem total_empty (f : α → Nat) : total f #[] = 0 := rfl

/-- A write takes the old element out of the total and puts the new one in. -/
theorem total_setIfInBounds (f : α → Nat) {xs : Array α} {i : Nat} {a : α} (h : xs[i]? = some a)
    (b : α) : total f (xs.setIfInBounds i b) + f a = total f xs + f b := by
  rw [total, Array.toList_setIfInBounds]
  exact totalOfList_set f b (by rw [Array.getElem?_toList]; exact h)

theorem total_push (f : α → Nat) (xs : Array α) (a : α) :
    total f (xs.push a) = total f xs + f a := by
  simp [total, totalOfList_append, totalOfList]

theorem total_append (f : α → Nat) (xs ys : Array α) :
    total f (xs ++ ys) = total f xs + total f ys := by
  simp [total, totalOfList_append]

theorem total_replicate_eq_zero (f : α → Nat) {a : α} (h : f a = 0) (n : Nat) :
    total f (Array.replicate n a) = 0 :=
  totalOfList_eq_zero f fun x hx => by
    rw [Array.toList_replicate] at hx
    rw [List.eq_of_mem_replicate hx, h]

end GuestBridge
