import GuestBridge.Proofs.Conversion.Graph

/-!
# Unfolded values

What an unfolded value says about the value: it does not depend on how much room was left over, and
a hash has the images of its keys, each with what the last key of that image stands for.
-/

namespace GuestBridge

variable {α β : Type} {f g : α → Option β}

/-! ## Element by element -/

theorem mapM_cons_eq_some_iff {a : α} {rest : List α} {bs : List β} :
    (a :: rest).mapM f = some bs ↔
      ∃ b bs', f a = some b ∧ rest.mapM f = some bs' ∧ b :: bs' = bs := by
  rw [List.mapM_cons]
  cases f a with
  | none => simp
  | some b => cases rest.mapM f <;> simp

theorem mapM_mono : ∀ {l : List α} {bs : List β},
    (∀ a ∈ l, ∀ b, f a = some b → g a = some b) → l.mapM f = some bs → l.mapM g = some bs := by
  intro l
  induction l with
  | nil => exact fun _ hbs => hbs
  | cons a rest ih =>
    intro bs hfg hbs
    obtain ⟨b, bs', ha, hrest, rfl⟩ := mapM_cons_eq_some_iff.1 hbs
    refine mapM_cons_eq_some_iff.2 ⟨b, bs', hfg a List.mem_cons_self b ha, ih ?_ hrest, rfl⟩
    exact fun a' ha' => hfg a' (List.mem_cons_of_mem a ha')

theorem mapM_congr {l : List α} (hfg : ∀ a ∈ l, f a = g a) :
    l.mapM f = l.mapM g := by
  induction l with
  | nil => rfl
  | cons a rest ih =>
    rw [List.mapM_cons, List.mapM_cons, hfg a List.mem_cons_self,
      ih fun a' ha' => hfg a' (List.mem_cons_of_mem a ha')]

/-- What is found in the outcome belongs to what is found in the list. -/
theorem find?_of_mapM {q : α → Bool} {r : β → Bool} (hqr : ∀ a b, f a = some b → r b = q a) :
    ∀ {l : List α} {bs : List β}, l.mapM f = some bs → bs.find? r = (l.find? q).bind f := by
  intro l
  induction l with
  | nil =>
    rintro bs ⟨⟩
    rfl
  | cons a rest ih =>
    intro bs hbs
    obtain ⟨b, bs', ha, hrest, rfl⟩ := mapM_cons_eq_some_iff.1 hbs
    rw [List.find?_cons, List.find?_cons, hqr a b ha]
    cases q a with
    | true => exact ha.symm
    | false => exact ih hrest

theorem exists_of_mapM {a : α} : ∀ {l : List α} {bs : List β},
    l.mapM f = some bs → a ∈ l → ∃ b, f a = some b := by
  intro l
  induction l with
  | nil => exact fun _ hmem => absurd hmem List.not_mem_nil
  | cons a' rest ih =>
    intro bs hbs hmem
    obtain ⟨b, bs', ha, hrest, -⟩ := mapM_cons_eq_some_iff.1 hbs
    rcases List.mem_cons.1 hmem with rfl | hmem
    · exact ⟨b, ha⟩
    · exact ih hrest hmem

theorem mapM_reverse : ∀ {l : List α} {bs : List β},
    l.mapM f = some bs → l.reverse.mapM f = some bs.reverse := by
  intro l
  induction l with
  | nil =>
    rintro bs ⟨⟩
    rfl
  | cons a rest ih =>
    intro bs hbs
    obtain ⟨b, bs', ha, hrest, rfl⟩ := mapM_cons_eq_some_iff.1 hbs
    rw [List.reverse_cons, List.mapM_append, ih hrest]
    simp [ha]

/-! ## Values -/

namespace Passage

variable {p : Passage} {room : Nat} {v : Value} {t : Tree}

/-- A value that is unfolded to its end is not unfolded further by more room. -/
theorem unfold_succ (hunfold : p.unfold room v = some t) : p.unfold (room + 1) v = some t := by
  induction room generalizing v t with
  | zero => simp [unfold] at hunfold
  | succ room ih =>
    cases v with
    | boundary | integer | float | text => exact hunfold
    | undef | object => simp [unfold] at hunfold
    | array id =>
      rw [unfold, Option.map_eq_some_iff] at hunfold ⊢
      obtain ⟨ts, hts, ht⟩ := hunfold
      exact ⟨ts, mapM_mono (fun a _ b hb => ih hb) hts, ht⟩
    | hash id =>
      rw [unfold, Option.map_eq_some_iff] at hunfold ⊢
      obtain ⟨pairs, hpairs, ht⟩ := hunfold
      refine ⟨pairs, mapM_mono ?_ hpairs, ht⟩
      intro e _ b hb
      obtain ⟨t', ht', hb'⟩ := Option.map_eq_some_iff.1 hb
      exact Option.map_eq_some_iff.2 ⟨t', ih ht', hb'⟩

theorem unfold_mono {room' : Nat} (hunfold : p.unfold room v = some t) (hle : room ≤ room') :
    p.unfold room' v = some t := by
  induction hle with
  | refl => exact hunfold
  | step _ ih => exact unfold_succ ih

/-- What an unfolded hash has under a key is what the last key with that image stands for. -/
theorem find?_unfold_hash {id : ObjectId} {trees : List (Bytes × Tree)}
    (hunfold : p.unfold (room + 1) (.hash id) = some (.hash trees)) (key : Bytes) :
    Entries.find? key trees =
      ((p.store.entries id).reverse.find? fun e => p.bytesOf e.1 = key).bind
        fun e => p.unfold room e.2 := by
  rw [unfold, Option.map_eq_some_iff] at hunfold
  obtain ⟨pairs, hpairs, heq⟩ := hunfold
  cases heq
  have hfind := find?_of_mapM (q := fun e => p.bytesOf e.1 = key) (r := fun e => e.1 = key) ?_
    (mapM_reverse hpairs)
  · rw [Entries.find?_ofList, hfind]
    cases (p.store.entries id).reverse.find? fun e => p.bytesOf e.1 = key with
    | none => rfl
    | some e => simp [Function.comp_def]
  · intro e b hb
    obtain ⟨t, -, rfl⟩ := Option.map_eq_some_iff.1 hb
    rfl

/-- The keys of an unfolded hash are the images of the keys, each once. -/
theorem keys_unfold_hash {id : ObjectId} {trees : List (Bytes × Tree)}
    (hunfold : p.unfold (room + 1) (.hash id) = some (.hash trees)) :
    (trees.map (·.1)).Nodup ∧
      ∀ key, key ∈ trees.map (·.1) ↔ ∃ e ∈ p.store.entries id, p.bytesOf e.1 = key := by
  have hfind := find?_unfold_hash hunfold
  rw [unfold, Option.map_eq_some_iff] at hunfold
  obtain ⟨pairs, hpairs, heq⟩ := hunfold
  cases heq
  refine ⟨Entries.nodup_keys_ofList pairs, ?_⟩
  intro key
  rw [Entries.mem_keys_iff, hfind, Option.isSome_bind, Option.any_eq_true]
  constructor
  · rintro ⟨e, he, -⟩
    have hkey := List.find?_some he
    exact ⟨e, List.mem_reverse.1 (List.mem_of_find?_eq_some he), by simpa using hkey⟩
  · rintro ⟨e, he, hkey⟩
    cases hlast : (p.store.entries id).reverse.find? fun e => p.bytesOf e.1 = key with
    | none =>
      have hall := List.find?_eq_none.1 hlast e (List.mem_reverse.2 he)
      simp [hkey] at hall
    | some e' =>
      obtain ⟨b, hb⟩ := exists_of_mapM hpairs (List.mem_reverse.1 (List.mem_of_find?_eq_some hlast))
      obtain ⟨t, ht, -⟩ := Option.map_eq_some_iff.1 hb
      exact ⟨e', rfl, by rw [ht]; rfl⟩

end Passage

end GuestBridge
