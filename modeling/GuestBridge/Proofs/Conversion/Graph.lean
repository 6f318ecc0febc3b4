import GuestBridge.Crossing.Conversion

/-!
# What a value unfolds to, and what a heap holds

`Tree` is what a conversion is to make of a value: the value unfolded, its text turned into bytes by
the settings, with boundary objects as leaves that stand for scalars which are there already.
`Passage.unfold` says it of a value without a word about heaps, and `Passage.firstError` says which
element cannot be converted.

`Heap.Reads` says that a tree is what one finds in a heap, going down from a handle. It goes by
lists, as the elements of an array and of a hash do, and collects the nodes it passes, each as often
as it passes it.
-/

namespace GuestBridge

/-! ## Trees -/

/-- An unfolded value. A hash lists its entries as a guest hash does; a leaf that is a scalar stands
for that scalar itself. -/
inductive Tree where
  | int (value : Int64)
  | num (value : Binary64)
  | str (bytes : Bytes)
  | array (items : List Tree)
  | hash (entries : List (Bytes × Tree))
  | scalar (handle : Handle)

namespace Tree

mutual

/-- The scalars a tree has as leaves, once per occurrence. -/
def scalars : Tree → List Handle
  | int _ | num _ | str _ => []
  | array items => scalarsOfItems items
  | hash entries => scalarsOfEntries entries
  | scalar h => [h]

/-- The scalars of several trees. -/
def scalarsOfItems : List Tree → List Handle
  | [] => []
  | t :: rest => t.scalars ++ scalarsOfItems rest

/-- The scalars of the values of an entry list. -/
def scalarsOfEntries : List (Bytes × Tree) → List Handle
  | [] => []
  | (_, t) :: rest => t.scalars ++ scalarsOfEntries rest

end

theorem scalarsOfItems_append (ts ts' : List Tree) :
    scalarsOfItems (ts ++ ts') = scalarsOfItems ts ++ scalarsOfItems ts' := by
  induction ts with
  | nil => simp [scalarsOfItems]
  | cons t rest ih => simp [scalarsOfItems, ih]

theorem scalarsOfEntries_eq (entries : List (Bytes × Tree)) :
    scalarsOfEntries entries = scalarsOfItems (entries.map (·.2)) := by
  induction entries with
  | nil => simp [scalarsOfItems, scalarsOfEntries]
  | cons e rest ih => simp [scalarsOfItems, scalarsOfEntries, ih]

end Tree

/-! ## Unfolding -/

namespace Passage

/-- The scalar of the target that a boundary object stands for. -/
def own? (p : Passage) (id : ObjectId) : Option Handle :=
  match p.store.boundary? id with
  | some (owner, handle) => if owner = p.target then some handle else none
  | none => none

/-- A value unfolded to so many levels; none if it does not end there or has an element that cannot
be converted. Of several keys with one image the last one counts. -/
def unfold (p : Passage) : Nat → Value → Option Tree
  | 0, _ => none
  | room + 1, v =>
    match v with
    | .boundary id => (p.own? id).map .scalar
    | .integer n => some (.int n)
    | .float x => some (.num x)
    | .text s => some (.str (p.bytesOf s))
    | .array id => ((p.store.items id).mapM (p.unfold room)).map .array
    | .hash id =>
      ((p.store.entries id).mapM fun e => (p.unfold room e.2).map ((p.bytesOf e.1, ·))).map
        fun pairs => .hash (Entries.ofList pairs)
    | .undef | .object _ => none

/-- The error of a boundary object, if its scalar cannot be shared with the target. `live` says
which scalars of the target are there. -/
def boundaryError (p : Passage) (live : Handle → Bool) (id : ObjectId) : Option CrossingError :=
  match p.store.boundary? id with
  | none => some (.unsupportedConversion "GuestScalar")
  | some (owner, handle) =>
    if owner = p.target then if live handle then none else some (.guest handle.stale)
    else some (.crossInterpreter owner p.target)

/-- The error of the first element, in the order of the conversion, that cannot be converted. -/
def firstError (p : Passage) (live : Handle → Bool) : Nat → Value → Option CrossingError
  | 0, _ => some (.nestingTooDeep p.config.maxDepth)
  | room + 1, v =>
    match v with
    | .boundary id => p.boundaryError live id
    | .integer _ | .float _ | .text _ => none
    | .array id => (p.store.items id).findSome? (p.firstError live room)
    | .hash id => (p.store.entries id).findSome? fun e => p.firstError live room e.2
    | .undef | .object _ => some (.unsupportedConversion (p.store.typeName v))

end Passage

/-! ## Reading -/

namespace Heap

/-- From each handle of a list the heap reads as a tree; `nodes` are the scalars passed on the way.
Each node has one share and no blessing. A leaf that is a scalar is not looked into. -/
inductive Reads (hp : Heap) : List Handle → List Tree → (nodes : List Handle) → Prop where
  | nil : Reads hp [] [] []
  | scalar {h hs ts ns} : Reads hp hs ts ns → Reads hp (h :: hs) (.scalar h :: ts) ns
  | int {h n hs ts ns} : hp.cell? h = some { shares := 1, body := .int n } → Reads hp hs ts ns →
      Reads hp (h :: hs) (.int n :: ts) (h :: ns)
  | num {h x hs ts ns} : hp.cell? h = some { shares := 1, body := .num x } → Reads hp hs ts ns →
      Reads hp (h :: hs) (.num x :: ts) (h :: ns)
  | str {h bytes hs ts ns} : hp.cell? h = some { shares := 1, body := .str bytes } →
      Reads hp hs ts ns → Reads hp (h :: hs) (.str bytes :: ts) (h :: ns)
  /-- An array is reached through a reference. -/
  | array {h a items trees inner hs ts ns} : hp.cell? h = some { shares := 1, body := .ref a } →
      hp.cell? a = some { shares := 1, body := .array items } → Reads hp items trees inner →
      Reads hp hs ts ns → Reads hp (h :: hs) (.array trees :: ts) (h :: a :: inner ++ ns)
  /-- So is a hash; its keys are those of the tree, in the same order. -/
  | hash {h a entries trees inner hs ts ns} : hp.cell? h = some { shares := 1, body := .ref a } →
      hp.cell? a = some { shares := 1, body := .hash entries } →
      entries.map (·.1) = trees.map (·.1) →
      Reads hp (entries.map (·.2)) (trees.map (·.2)) inner →
      Reads hp hs ts ns → Reads hp (h :: hs) (.hash trees :: ts) (h :: a :: inner ++ ns)

variable {hp hp' : Heap} {hs hs' ns ns' : List Handle} {ts ts' : List Tree}

/-- Reading looks at the nodes only. -/
theorem Reads.congr (hreads : Reads hp hs ts ns) (hsame : ∀ k ∈ ns, hp'.cell? k = hp.cell? k) :
    Reads hp' hs ts ns := by
  induction hreads with
  | nil => exact .nil
  | scalar _ ih => exact .scalar (ih hsame)
  | int hc _ ih =>
    exact .int (by rw [hsame _ List.mem_cons_self, hc]) (ih fun k hk => hsame k (.tail _ hk))
  | num hc _ ih =>
    exact .num (by rw [hsame _ List.mem_cons_self, hc]) (ih fun k hk => hsame k (.tail _ hk))
  | str hc _ ih =>
    exact .str (by rw [hsame _ List.mem_cons_self, hc]) (ih fun k hk => hsame k (.tail _ hk))
  | array hc ha _ _ ihin ih =>
    refine .array (by rw [hsame _ (by simp), hc]) (by rw [hsame _ (by simp), ha])
      (ihin fun k hk => hsame k ?_) (ih fun k hk => hsame k ?_)
    · simp [hk]
    · simp [hk]
  | hash hc ha hkeys _ _ ihin ih =>
    refine .hash (by rw [hsame _ (by simp), hc]) (by rw [hsame _ (by simp), ha]) hkeys
      (ihin fun k hk => hsame k ?_) (ih fun k hk => hsame k ?_)
    · simp [hk]
    · simp [hk]

theorem Reads.append (hreads : Reads hp hs ts ns) (hmore : Reads hp hs' ts' ns') :
    Reads hp (hs ++ hs') (ts ++ ts') (ns ++ ns') := by
  induction hreads with
  | nil => exact hmore
  | scalar _ ih => exact .scalar ih
  | int hc _ ih => exact .int hc ih
  | num hc _ ih => exact .num hc ih
  | str hc _ ih => exact .str hc ih
  | array hc ha hin _ _ ih =>
    rw [List.append_assoc]
    exact .array hc ha hin ih
  | hash hc ha hkeys hin _ _ ih =>
    rw [List.append_assoc]
    exact .hash hc ha hkeys hin ih

/-- A node is there, with one share and no closure. -/
theorem Reads.exists_cell (hreads : Reads hp hs ts ns) {k : Handle} (hk : k ∈ ns) :
    ∃ body : Body, body.closure? = none ∧ hp.cell? k = some { shares := 1, body } := by
  induction hreads with
  | nil => simp at hk
  | scalar _ ih => exact ih hk
  | int hc _ ih | num hc _ ih | str hc _ ih =>
    rcases List.mem_cons.1 hk with rfl | hk
    · exact ⟨_, rfl, hc⟩
    · exact ih hk
  | array hc ha _ _ ihin ih | hash hc ha _ _ _ ihin ih =>
    simp only [List.cons_append, List.mem_cons, List.mem_append] at hk
    rcases hk with rfl | rfl | hk | hk
    · exact ⟨_, rfl, hc⟩
    · exact ⟨_, rfl, ha⟩
    · exact ihin hk
    · exact ih hk

/-- The first tree and the others are read from nodes of their own. -/
theorem Reads.uncons {h : Handle} {t : Tree} (hreads : Reads hp (h :: hs) (t :: ts) ns) :
    ∃ first others, ns = first ++ others ∧ Reads hp [h] [t] first ∧ Reads hp hs ts others := by
  cases hreads with
  | scalar hrest => exact ⟨[], ns, rfl, .scalar .nil, hrest⟩
  | int hc hrest => exact ⟨[h], _, rfl, .int hc .nil, hrest⟩
  | num hc hrest => exact ⟨[h], _, rfl, .num hc .nil, hrest⟩
  | str hc hrest => exact ⟨[h], _, rfl, .str hc .nil, hrest⟩
  | array hc ha hin hrest =>
    refine ⟨_, _, rfl, ?_, hrest⟩
    have hfirst := Reads.array hc ha hin .nil
    rwa [List.append_nil] at hfirst
  | hash hc ha hkeys hin hrest =>
    refine ⟨_, _, rfl, ?_, hrest⟩
    have hfirst := Reads.hash hc ha hkeys hin .nil
    rwa [List.append_nil] at hfirst

/-- Storing under a key puts one tree in and takes the one it displaces out, nodes included. -/
theorem Reads.insert {key : Bytes} {h : Handle} {t : Tree} (hnew : Reads hp [h] [t] ns')
    (entries : List (Bytes × Handle)) :
    ∀ {trees : List (Bytes × Tree)} {ns}, entries.map (·.1) = trees.map (·.1) →
      Reads hp (entries.map (·.2)) (trees.map (·.2)) ns →
      ∃ inside outside,
        Reads hp ((Entries.insert key h entries).map (·.2))
          ((Entries.insert key t trees).map (·.2)) inside ∧
        Reads hp (Entries.find? key entries).toList (Entries.find? key trees).toList outside ∧
        (Entries.insert key h entries).map (·.1) = (Entries.insert key t trees).map (·.1) ∧
        (ns ++ ns').Perm (inside ++ outside) := by
  induction entries with
  | nil =>
    intro trees ns hkeys hreads
    obtain rfl : trees = [] := by simpa using hkeys.symm
    cases hreads
    exact ⟨ns', [], hnew, .nil, rfl, by simp⟩
  | cons e rest ih =>
    intro trees ns hkeys hreads
    obtain ⟨k, old⟩ := e
    cases trees with
    | nil => simp at hkeys
    | cons e' trees =>
      obtain ⟨k', old'⟩ := e'
      obtain ⟨rfl, hrest⟩ : k = k' ∧ rest.map (·.1) = trees.map (·.1) := by simpa using hkeys
      obtain ⟨first, others, rfl, hfirst, hothers⟩ := hreads.uncons
      by_cases hkey : k = key
      · subst hkey
        simp only [Entries.insert, Entries.find?, if_true, List.map_cons, Option.toList_some]
        refine ⟨ns' ++ others, first, hnew.append hothers, hfirst, hkeys, ?_⟩
        rw [List.append_assoc ns']
        exact List.perm_append_comm.trans (List.perm_append_comm.append_left ns')
      · obtain ⟨inside, outside, hin, hout, hkeys', hperm⟩ := ih hrest hothers
        simp only [Entries.insert, Entries.find?, if_neg hkey, List.map_cons]
        refine ⟨first ++ inside, outside, hfirst.append hin, hout, by rw [hkeys'], ?_⟩
        rw [List.append_assoc, List.append_assoc]
        exact hperm.append_left first

end Heap

/-- Storing under a key puts the scalars of one tree in and takes those of the displaced one out. -/
theorem Tree.count_scalars_insert (key : Bytes) (t : Tree) (trees : List (Bytes × Tree))
    (k : Handle) :
    (scalarsOfItems ((Entries.insert key t trees).map (·.2))).count k
        + (scalarsOfItems (Entries.find? key trees).toList).count k
      = (scalarsOfItems (trees.map (·.2))).count k + t.scalars.count k := by
  induction trees with
  | nil => simp [Entries.insert, Entries.find?, scalarsOfItems]
  | cons e rest ih =>
    obtain ⟨key', old⟩ := e
    by_cases hkey : key' = key
    · subst hkey
      simp only [Entries.insert, Entries.find?, if_true, List.map_cons, scalarsOfItems,
        Option.toList_some, List.count_append, List.count_nil]
      omega
    · simp only [Entries.insert, Entries.find?, if_neg hkey, List.map_cons, scalarsOfItems,
        List.count_append] at ih ⊢
      omega

end GuestBridge
