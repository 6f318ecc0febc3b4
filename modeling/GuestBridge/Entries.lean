/-!
# Entry lists

A finite map as the list of its entries, in the order in which it enumerates them. Storing under a
key that is present keeps its place; a new key comes last. Every key occurs once in a list built by
`insert` from the empty one.
-/

namespace GuestBridge.Entries

variable {κ α : Type} [DecidableEq κ]

/-- The value stored under a key. -/
@[specialize]
def find? (key : κ) : List (κ × α) → Option α
  | [] => none
  | (k, a) :: rest => if k = key then some a else find? key rest

/-- Stores a value under a key: in place of the old one, or behind all other entries. -/
@[specialize]
def insert (key : κ) (value : α) : List (κ × α) → List (κ × α)
  | [] => [(key, value)]
  | e :: rest => if e.1 = key then (e.1, value) :: rest else e :: insert key value rest

/-- The entry list of a list of pairs; of two pairs with one key the later one counts. -/
def ofList (pairs : List (κ × α)) : List (κ × α) :=
  pairs.foldl (fun entries pair => insert pair.1 pair.2 entries) []

@[simp] theorem find?_nil (key : κ) : find? key ([] : List (κ × α)) = none := rfl

theorem find?_insert_self (key : κ) (value : α) (entries : List (κ × α)) :
    find? key (insert key value entries) = some value := by
  induction entries with
  | nil => simp [insert, find?]
  | cons e rest ih =>
    obtain ⟨k, a⟩ := e
    by_cases h : k = key <;> simp [insert, find?, h, ih]

theorem find?_insert_of_ne {key other : κ} (hne : other ≠ key) (value : α)
    (entries : List (κ × α)) :
    find? other (insert key value entries) = find? other entries := by
  induction entries with
  | nil => simp [insert, find?, Ne.symm hne]
  | cons e rest ih =>
    obtain ⟨k, a⟩ := e
    by_cases h : k = key
    · subst h
      simp [insert, find?, Ne.symm hne]
    · rw [insert, if_neg h, find?, find?, ih]

/-- Storing changes what is found under one key. -/
theorem find?_insert (key other : κ) (value : α) (entries : List (κ × α)) :
    find? other (insert key value entries) =
      if other = key then some value else find? other entries := by
  by_cases h : other = key
  · rw [if_pos h, h, find?_insert_self]
  · rw [if_neg h, find?_insert_of_ne h]

theorem find?_foldl_insert (key : κ) (pairs : List (κ × α)) : ∀ entries : List (κ × α),
    find? key (pairs.foldl (fun entries pair => insert pair.1 pair.2 entries) entries)
      = ((pairs.reverse.find? fun pair => pair.1 = key).map (·.2)).or (find? key entries) := by
  induction pairs with
  | nil => exact fun entries => by simp
  | cons pair rest ih =>
    intro entries
    rw [List.foldl_cons, ih, find?_insert, List.reverse_cons, List.find?_append]
    by_cases hkey : pair.1 = key
    · rw [if_pos hkey.symm]
      cases rest.reverse.find? fun pair => pair.1 = key <;> simp [hkey]
    · rw [if_neg (Ne.symm hkey)]
      cases rest.reverse.find? fun pair => pair.1 = key <;> simp [hkey]

/-- Of several pairs with one key the last one counts. -/
theorem find?_ofList (key : κ) (pairs : List (κ × α)) :
    find? key (ofList pairs) = (pairs.reverse.find? fun pair => pair.1 = key).map (·.2) := by
  rw [ofList, find?_foldl_insert, find?_nil, Option.or_none]

/-! ## Keys -/

/-- The keys are those under which something is found. -/
theorem mem_keys_iff (key : κ) (entries : List (κ × α)) :
    key ∈ entries.map (·.1) ↔ (find? key entries).isSome = true := by
  induction entries with
  | nil => simp
  | cons e rest ih =>
    obtain ⟨k, a⟩ := e
    by_cases hkey : k = key
    · simp [find?, hkey]
    · rw [find?, if_neg hkey, ← ih]
      simp [Ne.symm hkey]

theorem mem_keys_insert (key other : κ) (value : α) (entries : List (κ × α)) :
    other ∈ (insert key value entries).map (·.1) ↔ other = key ∨ other ∈ entries.map (·.1) := by
  induction entries with
  | nil => simp [insert]
  | cons e rest ih =>
    obtain ⟨k, a⟩ := e
    by_cases h : k = key
    · subst h
      simp [insert]
    · rw [insert, if_neg h, List.map_cons, List.mem_cons, ih, List.map_cons, List.mem_cons]
      exact or_left_comm

/-- Storing keeps the keys apart. -/
theorem nodup_keys_insert (key : κ) (value : α) {entries : List (κ × α)}
    (hnodup : (entries.map (·.1)).Nodup) : ((insert key value entries).map (·.1)).Nodup := by
  induction entries with
  | nil => simp [insert]
  | cons e rest ih =>
    obtain ⟨k, a⟩ := e
    rw [List.map_cons, List.nodup_cons] at hnodup
    by_cases h : k = key
    · rw [insert, if_pos h, List.map_cons, List.nodup_cons]
      exact hnodup
    · rw [insert, if_neg h, List.map_cons, List.nodup_cons, mem_keys_insert]
      exact ⟨fun hmem => hmem.elim h hnodup.1, ih hnodup.2⟩

theorem nodup_keys_ofList (pairs : List (κ × α)) : ((ofList pairs).map (·.1)).Nodup := by
  unfold ofList
  suffices h : ∀ entries : List (κ × α), (entries.map (·.1)).Nodup →
      ((pairs.foldl (fun entries pair => insert pair.1 pair.2 entries) entries).map (·.1)).Nodup
    from h [] (by simp)
  induction pairs with
  | nil => exact fun _ h => h
  | cons pair rest ih => exact fun _ h => ih _ (nodup_keys_insert _ _ h)

end GuestBridge.Entries
