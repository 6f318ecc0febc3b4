import GuestBridge.Proofs.Calls.Leaving
import GuestBridge.Proofs.Calls.Snapshot

/-!
# Frames of arguments

The arguments of a call lie on the stack as a frame of slots: one for each positional value, and two
for each named one, its key and the value. `World.frame` lists the slots before anything is pushed.
`pushAll_frame` says what is there when pushing has ended, be it after the last slot or in front of
the first one whose value cannot be converted.

1. Positional and named arguments are pushed by two loops. Both go from slot to slot, and
   `World.fill` is the one loop that they come to (`pushPositional_eq`, `pushNamed_eq`).
2. Between two slots the heap has grown by what the slots so far are to hold, and by nothing else;
   and what is still to be pushed is held, so it is there in full, although other values have been
   let go of. `Laid` is this invariant, and `Laid.fill` carries it through the loop.
3. What the slots have brought with them goes when any of the open scopes is closed
   (`Interpreter.closeScope_built`).
-/

namespace GuestBridge

open Value (namesOf)
open Heap (Built)

/-! ## Slots -/

/-- What goes into one place of a frame: the key of a named value, or a value. With it goes what its
conversion depends on. -/
inductive FrameSlot where
  | key (p : Passage) (key : String)
  | value (p : Passage) (v : Value)

namespace FrameSlot

/-- What the conversion depends on. -/
def passage : FrameSlot → Passage
  | key p _ | value p _ => p

/-- What a slot is to hold: the key as a string, or what the value unfolds to. -/
def tree? : FrameSlot → Option Tree
  | key p k => some (.str (p.bytesOf k))
  | value p v => p.unfold (p.config.maxDepth + 1) v

/-- Why a slot cannot be filled. -/
def error? (live : Handle → Bool) : FrameSlot → Option CrossingError
  | key _ _ => none
  | value p v => p.firstError live (p.config.maxDepth + 1) v

/-- The slots of positional values. -/
def ofItems (p : Passage) (vs : List Value) : List FrameSlot := vs.map (.value p)

/-- The slots of named values: each key and then its value. -/
def ofEntries (p : Passage) (es : List (String × Value)) : List FrameSlot :=
  es.flatMap fun e => [.key p e.1, .value p e.2]

/-- The values that go into some slots. -/
def values (slots : List FrameSlot) : List Value :=
  slots.filterMap fun
    | key _ _ => none
    | value _ v => some v

variable {p : Passage} {live : Handle → Bool} {s : FrameSlot} {slots done : List FrameSlot}

theorem ofItems_cons (p : Passage) (v : Value) (vs : List Value) :
    ofItems p (v :: vs) = .value p v :: ofItems p vs :=
  rfl

theorem ofEntries_cons (p : Passage) (e : String × Value) (es : List (String × Value)) :
    ofEntries p (e :: es) = .key p e.1 :: .value p e.2 :: ofEntries p es :=
  rfl

@[simp] theorem values_ofItems (p : Passage) (vs : List Value) : values (ofItems p vs) = vs := by
  simp [values, ofItems, List.filterMap_map]

@[simp] theorem values_ofEntries (p : Passage) (es : List (String × Value)) :
    values (ofEntries p es) = es.map (·.2) := by
  induction es with
  | nil => rfl
  | cons e rest ih => exact congrArg (e.2 :: ·) ih

theorem passage_ofItems {vs : List Value} (hs : s ∈ ofItems p vs) : s.passage = p := by
  obtain ⟨v, -, rfl⟩ := List.mem_map.1 hs
  rfl

theorem passage_ofEntries {es : List (String × Value)} (hs : s ∈ ofEntries p es) :
    s.passage = p := by
  obtain ⟨e, -, hs⟩ := List.mem_flatMap.1 hs
  rcases List.mem_pair.1 hs with rfl | rfl <;> rfl

theorem length_ofItems (p : Passage) (vs : List Value) : (ofItems p vs).length = vs.length :=
  List.length_map _

theorem length_ofEntries (p : Passage) (es : List (String × Value)) :
    (ofEntries p es).length = 2 * es.length := by
  induction es with
  | nil => rfl
  | cons e rest ih =>
    rw [ofEntries_cons, List.length_cons, List.length_cons, ih, List.length_cons]
    omega

/-- Of some slots the first ones have been filled: all of them, or those in front of one that cannot
be filled. -/
inductive Ends (live : Handle → Bool) :
    List FrameSlot → List FrameSlot → Except CrossingError Unit → Prop where
  | all (slots : List FrameSlot) : Ends live slots slots (.ok ())
  | before {done rest : List FrameSlot} {s : FrameSlot} {e : CrossingError} :
    s.error? live = some e → Ends live (done ++ s :: rest) done (.error e)

theorem Ends.eq_of_ok (hends : Ends live slots done (.ok ())) : done = slots := by
  cases hends
  rfl

/-- What comes after a slot that cannot be filled is of no matter. -/
theorem Ends.append {e : CrossingError} (hends : Ends live slots done (.error e))
    (more : List FrameSlot) : Ends live (slots ++ more) done (.error e) := by
  cases hends with
  | before hs =>
    rw [List.append_assoc]
    exact .before hs

end FrameSlot

open FrameSlot (Ends ofItems ofEntries values)

/-! ## Filling slots -/

namespace World

variable {w w' w₀ w₁ : World} {i : InterpreterId} {config : Config} {p : Passage}

/-- Fills slots, first to last. When a conversion fails, the values that have not been pushed are
let go of. -/
def fill (i : InterpreterId) (config : Config) :
    List FrameSlot → World → Except CrossingError Unit × World
  | [], w => (.ok (), w)
  | .key _ key :: rest, w =>
    match w.pushKey i config key with
    | (.error e, w) => (.error e, w.dropEach (values rest))
    | (.ok (), w) => fill i config rest w
  | .value _ v :: rest, w =>
    match w.pushConverted i config v with
    | (.error e, w) => (.error e, w.dropEach (v :: values rest))
    | (.ok (), w) => fill i config rest (w.drop v)

/-- The number of scalars that are freed while slots are filled. -/
def freesFill (i : InterpreterId) (config : Config) : List FrameSlot → World → Nat
  | [], _ => 0
  | .key _ key :: rest, w =>
    match w.pushKey i config key with
    | (.error _, _) => 0
    | (.ok (), w) => freesFill i config rest w
  | .value _ v :: rest, w =>
    w.frees i config v +
      match w.pushConverted i config v with
      | (.error _, _) => 0
      | (.ok (), w) => freesFill i config rest (w.drop v)

theorem pushPositional_eq (p : Passage) (vs : List Value) (w : World) :
    pushPositional i config vs w =
      ((fill i config (ofItems p vs) w).1.map fun _ => vs.length,
        (fill i config (ofItems p vs) w).2) := by
  induction vs generalizing w with
  | nil => rfl
  | cons v rest ih =>
    rw [pushPositional, FrameSlot.ofItems_cons, fill, FrameSlot.values_ofItems]
    rcases w.pushConverted i config v with ⟨e | ⟨⟩, w₁⟩
    · rfl
    · dsimp only
      rw [ih]
      rcases fill i config (ofItems p rest) (w₁.drop v) with ⟨e | ⟨⟩, w₂⟩ <;> rfl

theorem pushNamed_eq (p : Passage) (es : List (String × Value)) (w : World) :
    pushNamed i config es w =
      ((fill i config (ofEntries p es) w).1.map fun _ => 2 * es.length,
        (fill i config (ofEntries p es) w).2) := by
  induction es generalizing w with
  | nil => rfl
  | cons e rest ih =>
    obtain ⟨key, v⟩ := e
    have hvalues : values (.value p v :: ofEntries p rest) = v :: rest.map (·.2) :=
      congrArg (v :: ·) (FrameSlot.values_ofEntries p rest)
    rw [pushNamed, FrameSlot.ofEntries_cons, fill, hvalues]
    rcases w.pushKey i config key with ⟨e | ⟨⟩, w₁⟩
    · rfl
    · dsimp only
      rw [fill, FrameSlot.values_ofEntries]
      rcases w₁.pushConverted i config v with ⟨e | ⟨⟩, w₂⟩
      · rfl
      · dsimp only
        rw [ih]
        rcases fill i config (ofEntries p rest) (w₂.drop v) with ⟨e | ⟨⟩, w₃⟩ <;> rfl

theorem freesPositional_eq (p : Passage) (vs : List Value) (w : World) :
    freesPositional i config vs w = freesFill i config (ofItems p vs) w := by
  induction vs generalizing w with
  | nil => rfl
  | cons v rest ih =>
    rw [freesPositional, FrameSlot.ofItems_cons, freesFill]
    rcases w.pushConverted i config v with ⟨e | ⟨⟩, w₁⟩
    · rfl
    · dsimp only
      rw [ih]

theorem freesNamed_eq (p : Passage) (es : List (String × Value)) (w : World) :
    freesNamed i config es w = freesFill i config (ofEntries p es) w := by
  induction es generalizing w with
  | nil => rfl
  | cons e rest ih =>
    obtain ⟨key, v⟩ := e
    rw [freesNamed, FrameSlot.ofEntries_cons, freesFill]
    rcases w.pushKey i config key with ⟨e | ⟨⟩, w₁⟩
    · rfl
    · dsimp only
      rw [freesFill]
      rcases w₁.pushConverted i config v with ⟨e | ⟨⟩, w₂⟩
      · rfl
      · dsimp only
        rw [ih]

/-! ## Between two slots -/

variable {u : World} {given outside loose loose' ids : List ObjectId} {n : Nat}
variable {done : List FrameSlot} {s : FrameSlot} {hs ns : List Handle} {h : Handle} {t : Tree}
variable {hp : Heap}

/-- Some slots have been filled. From the world `w₀` the heap has grown by what they are to hold,
and the scalars `hs` have been pushed for them. The holds `loose` are still to be let go of, and
other holders have the holds `outside`. -/
structure Laid (i : InterpreterId) (given outside : List ObjectId) (w₀ : World)
    (loose : List ObjectId) (n : Nat) (done : List FrameSlot) (hs : List Handle) (w : World) : Prop
    extends Underway i given w₀ loose n hs hs w where
  length : hs.length = done.length
  built : ∃ hp ts ns, done.mapM FrameSlot.tree? = some ts ∧
    Built (w₀.interpreter i).heap.contains (w₀.interpreter i).heap hp hs ts ns ∧
    (w.interpreter i).heap = { hp with freed := #[] }
  counted : w.Counted (loose ++ outside)

theorem Laid.start (hrest : (w₀.interpreter i).heap.AtRest)
    (hgives : w₀.store.GivesUp given loose) (hcount : w₀.Counted (loose ++ outside)) :
    Laid i given outside w₀ loose 0 [] [] w₀ where
  toUnderway := .start hrest hgives
  length := rfl
  built := ⟨_, [], [], rfl, .nil _ hrest.toWellFormed, hrest.setFreed_eq.symm⟩
  counted := hcount

/-- A step that acts on the store. -/
theorem Laid.discards (hlaid : Laid i given outside w₀ loose n done hs w)
    (hdiscards : Discards given loose' w w₁) (hcount : w₁.Counted (loose' ++ outside)) :
    Laid i given outside w₀ loose' n done hs w₁ where
  toUnderway := hlaid.toUnderway.discards hdiscards
  length := hlaid.length
  built := by
    rw [hdiscards.eq]
    exact hlaid.built
  counted := hcount

/-- Loose holds are let go of, and no object that stays has changed. -/
theorem Laid.release (hlaid : Laid i given outside w₀ (ids ++ loose) n done hs w)
    (hobject : ∀ id o, w.store.get? id = some o → u.store.get? id = some o) :
    Laid i given outside w₀ loose n done hs (w.release (ids.map .holder)) ∧
      ∀ id o, (w.release (ids.map .holder)).store.get? id = some o → u.store.get? id = some o := by
  have hcount := hlaid.counted
  rw [List.append_assoc] at hcount
  exact ⟨hlaid.discards (discards_release hlaid.gives) hcount.release,
    fun id o ho => hobject id o ((recedes_release _ w).get? id o ho)⟩

theorem Laid.dropObjects (hlaid : Laid i given outside w₀ ids n done hs w)
    (hobject : ∀ id o, w.store.get? id = some o → u.store.get? id = some o) :
    Laid i given outside w₀ [] n done hs (w.dropObjects ids) ∧
      ∀ id o, (w.dropObjects ids).store.get? id = some o → u.store.get? id = some o := by
  rw [← List.append_nil ids] at hlaid
  exact hlaid.release hobject

theorem Laid.dropEach {vs : List Value}
    (hlaid : Laid i given outside w₀ (namesOf vs ++ loose) n done hs w)
    (hobject : ∀ id o, w.store.get? id = some o → u.store.get? id = some o) :
    Laid i given outside w₀ loose n done hs (w.dropEach vs) ∧
      ∀ id o, (w.dropEach vs).store.get? id = some o → u.store.get? id = some o := by
  rw [World.dropEach, Value.flatMap_releaseSteps]
  exact hlaid.release hobject

theorem Laid.drop {v : Value} {vs : List Value}
    (hlaid : Laid i given outside w₀ (namesOf (v :: vs) ++ loose) n done hs w)
    (hobject : ∀ id o, w.store.get? id = some o → u.store.get? id = some o) :
    Laid i given outside w₀ (namesOf vs ++ loose) n done hs (w.drop v) ∧
      ∀ id o, (w.drop v).store.get? id = some o → u.store.get? id = some o := by
  rw [← List.singleton_append, Value.namesOf_append, List.append_assoc] at hlaid
  rw [World.drop, Value.releaseSteps_eq]
  exact hlaid.release hobject

/-- A step that acts on the interpreter: what it builds comes after what has been built. -/
theorem Laid.built_next {more : List FrameSlot} {hs' : List Handle} {ts' : List Tree}
    (hlaid : Laid i given outside w₀ loose n done hs w)
    (hmore : more.mapM FrameSlot.tree? = some ts')
    (hbuilt : Built (w₀.interpreter i).heap.contains (w.interpreter i).heap hp hs' ts' ns) :
    ∃ hp' ts ns', (done ++ more).mapM FrameSlot.tree? = some ts ∧
      Built (w₀.interpreter i).heap.contains (w₀.interpreter i).heap hp' (hs ++ hs') ts ns' ∧
      { hp with freed := #[] } = { hp' with freed := #[] } := by
  obtain ⟨hp₁, ts₁, ns₁, htrees, hfirst, hheap⟩ := hlaid.built
  rw [hheap] at hbuilt
  refine ⟨_, ts₁ ++ ts', _, ?_,
    hfirst.append (fun k hk => Heap.contains_iff.1 hk) hbuilt.after_taken, rfl⟩
  rw [List.mapM_append, htrees, hmore]
  rfl

/-- A scalar that is there gets onto the stack, and nothing else happens. -/
theorem pushTemporary_eq (hrest : (w.interpreter i).heap.AtRest)
    (hthere : (w.interpreter i).heap.contains h = true) :
    w.pushTemporary i h = (.ok (), w.setInterpreter i
      { w.interpreter i with stack := (w.interpreter i).stack.pass [h] }) := by
  have hpush : (w.interpreter i).pushTemporary h = (.ok (),
      { w.interpreter i with stack := (w.interpreter i).stack.pass [h] }) := by
    rw [Interpreter.pushTemporary, Interpreter.ifLive, if_pos hthere,
      ArgumentStack.push_addTemporary]
  have hguest : w.guest i (·.pushTemporary h) = (.ok (), w.setInterpreter i
      { w.interpreter i with stack := (w.interpreter i).stack.pass [h] }) := by
    refine Prod.ext ?_ ?_
    · rw [guest_fst, hpush]
    · rw [guest_of_parked (congrArg Prod.snd hpush) (by simp [hrest.freed_eq])]
      simp only [hrest.setFreed_eq]
  rw [World.pushTemporary, hguest]

/-- No hold is on a stack. -/
theorem Counted.setStack (hcount : w.Counted loose) (stack : ArgumentStack) :
    (w.setInterpreter i { w.interpreter i with stack }).Counted loose := by
  refine hcount.move rfl fun id => ?_
  have hset := w.keepers_setInterpreter i { w.interpreter i with stack } id
  have hsame : Interpreter.keepers { w.interpreter i with stack } id
      = (w.interpreter i).keepers id := rfl
  omega

/-- A step that builds what the next slot is to hold, and whose scalar is pushed. -/
theorem Laid.push {f : Interpreter → α × Interpreter}
    (hlaid : Laid i given outside w₀ loose n done hs w)
    (hf : (f (w.interpreter i)).2 = { w.interpreter i with heap := hp })
    (hbuilt : Built (w₀.interpreter i).heap.contains (w.interpreter i).heap hp [h] [t] ns)
    (htree : s.tree? = some t) :
    ((w.guest i f).2.pushTemporary i h).1 = .ok () ∧
      ((w.guest i f).2.pushTemporary i h).2.store = w.store ∧
      Laid i given outside w₀ loose (n + hp.freed.size) (done ++ [s]) (hs ++ [h])
        ((w.guest i f).2.pushTemporary i h).2 := by
  have hunder := hlaid.guest_push hf hbuilt
  have hguest := guest_of_parked hf (closure?_of_built hlaid.atRest hbuilt)
  have hcount : (w.guest i f).2.Counted (loose ++ outside) := by
    refine hlaid.counted.guest fun id => ?_
    rw [hf]
    exact congrArg (· + _) (hbuilt.keepers id)
  have hheap : ((w.guest i f).2.interpreter i).heap = { hp with freed := #[] } := by
    rw [hguest, interpreter_setInterpreter, if_pos rfl]
  have hthere : ((w.guest i f).2.interpreter i).heap.contains h = true := by
    obtain ⟨c, hc⟩ := exists_cell_of_built hlaid.serves hbuilt
    rw [hheap]
    exact Heap.contains_iff.2 ⟨c, hc⟩
  have hrest : ((w.guest i f).2.interpreter i).heap.AtRest := by
    rw [hheap]
    exact hbuilt.grown.wellFormed.atRest
  have hnext : [s].mapM FrameSlot.tree? = some [t] := by simp [htree]
  obtain ⟨hp', ts, ns', htrees, hboth, hsame⟩ := hlaid.built_next hnext hbuilt
  rw [pushTemporary_eq hrest hthere] at hunder ⊢
  refine ⟨rfl, by rw [hguest]; rfl, hunder, by simp [hlaid.length],
    ⟨hp', ts, ns', htrees, hboth, ?_⟩, hcount.setStack _⟩
  rw [interpreter_setInterpreter, if_pos rfl]
  exact hheap.trans hsame

/-- A step that builds nothing. -/
theorem Laid.idle {f : Interpreter → α × Interpreter}
    (hlaid : Laid i given outside w₀ loose n done hs w)
    (hf : (f (w.interpreter i)).2 = { w.interpreter i with heap := hp })
    (hgrown : Heap.Grown (w.interpreter i).heap hp [] []) :
    (w.guest i f).2.store = w.store ∧
      Laid i given outside w₀ loose (n + hp.freed.size) done hs (w.guest i f).2 := by
  have hbuilt : Built (w₀.interpreter i).heap.contains (w.interpreter i).heap hp [] [] [] :=
    ⟨hgrown, .nil, by simp [Tree.scalarsOfItems]⟩
  have hguest := guest_of_parked hf (closure?_of_built hlaid.atRest hbuilt)
  have hunder := hlaid.guest hf hbuilt (ArgumentStack.pass_nil _).symm rfl
  have hnone : ([] : List FrameSlot).mapM FrameSlot.tree? = some [] := rfl
  have hnext := hlaid.built_next hnone hbuilt
  rw [List.append_nil] at hunder
  rw [List.append_nil, List.append_nil] at hnext
  obtain ⟨hp', ts, ns', htrees, hboth, hheap⟩ := hnext
  refine ⟨by rw [hguest]; rfl, hunder, hlaid.length, ⟨hp', ts, ns', htrees, hboth, ?_⟩, ?_⟩
  · rw [hguest, interpreter_setInterpreter, if_pos rfl]
    exact hheap
  · refine hlaid.counted.guest fun id => ?_
    rw [hf]
    exact congrArg (· + _) (hbuilt.keepers id)

/-- A key is pushed. -/
theorem Laid.pushKey (hlaid : Laid i given outside w₀ loose n done hs w) (config : Config)
    (key : String) :
    ∃ h, (w.pushKey i config key).1 = .ok () ∧ (w.pushKey i config key).2.store = w.store ∧
      Laid i given outside w₀ loose n (done ++ [.key (u.passage i config) key]) (hs ++ [h])
        (w.pushKey i config key).2 := by
  let bytes := config.stringPolicy.apply (Utf8.encode key)
  have hf : ((w.interpreter i).create (.str bytes)).2
      = { w.interpreter i with heap := ((w.interpreter i).heap.allocate (.str bytes)).2 } := rfl
  have htree : (FrameSlot.key (u.passage i config) key).tree? = some (.str bytes) := rfl
  have hnext := hlaid.push (f := (·.create (.str bytes))) hf
    (built_str hlaid.atRest.toWellFormed _ bytes) htree
  rw [Heap.freed_allocate, hlaid.atRest.freed_eq] at hnext
  rw [World.pushKey]
  dsimp only
  rw [guest_fst]
  exact ⟨_, hnext⟩

/-- A value is converted and its scalar pushed, or its conversion fails and nothing is built. The
value is held, so it has not changed, whatever has been let go of. -/
theorem Laid.pushConverted {v : Value} (hlaid : Laid i given outside w₀ loose n done hs w)
    (hobject : ∀ id o, w.store.get? id = some o → u.store.get? id = some o)
    (hheld : ∀ id ∈ namesOf [v], id ∈ loose)
    (hspared : (w₀.passage i config).Spared (w₀.interpreter i).heap.contains
      (n + w.frees i config v) (w₀.interpreter i).heap) :
    (w.pushConverted i config v).2.store = w.store ∧
      ((∃ h, (w.pushConverted i config v).1 = .ok () ∧
          Laid i given outside w₀ loose (n + w.frees i config v)
            (done ++ [.value (u.passage i config) v]) (hs ++ [h])
            (w.pushConverted i config v).2) ∨
        ∃ e, (w.pushConverted i config v).1 = .error e ∧
          (FrameSlot.value (u.passage i config) v).error? (w₀.interpreter i).heap.contains
            = some e ∧
          Laid i given outside w₀ loose (n + w.frees i config v) done hs
            (w.pushConverted i config v).2) := by
  obtain ⟨hp, hrun, hsize, houtcome⟩ := hlaid.convert hspared
  have hf : ((w.interpreter i).onHeap ((w.passage i config).marshal v)).2
      = { w.interpreter i with heap := hp } := by rw [Interpreter.onHeap, hrun]
  have hconvert : w.convert i config v = ((w.convert i config v).1,
      (w.guest i (·.onHeap ((w.passage i config).marshal v))).2) := rfl
  have hheld' : ∀ id ∈ namesOf [v], id ∈ loose ++ outside :=
    fun id hid => List.mem_append_left _ (hheld id hid)
  rw [← hsize, World.pushConverted]
  generalize (w.convert i config v).1 = result at hconvert houtcome
  rw [hconvert]
  cases houtcome with
  | made hunfold _ hbuilt =>
    rw [← hlaid.counted.unfold_eq hobject hheld'] at hunfold
    obtain ⟨hok, hstore, hnext⟩ := hlaid.push
      (f := (·.onHeap ((w.passage i config).marshal v))) (s := .value (u.passage i config) v)
      hf hbuilt hunfold
    exact ⟨hstore, .inl ⟨_, hok, hnext⟩⟩
  | failed herror hgrown =>
    rw [← hlaid.counted.firstError_eq hobject hheld'] at herror
    obtain ⟨hstore, hnext⟩ :=
      hlaid.idle (f := (·.onHeap ((w.passage i config).marshal v))) hf hgrown
    exact ⟨hstore, .inr ⟨_, rfl, herror, hnext⟩⟩

/-- Slots are filled up to the first one that cannot be. -/
theorem Laid.fill (slots : List FrameSlot)
    (hlaid : Laid i given outside w₀ (namesOf (values slots) ++ loose) n done hs w)
    (hobject : ∀ id o, w.store.get? id = some o → u.store.get? id = some o)
    (hpassage : ∀ s ∈ slots, s.passage = u.passage i config)
    (hspared : (w₀.passage i config).Spared (w₀.interpreter i).heap.contains
      (n + freesFill i config slots w) (w₀.interpreter i).heap) :
    ∃ done' hs',
      Laid i given outside w₀ loose (n + freesFill i config slots w) done' hs'
        (fill i config slots w).2 ∧
      (∀ id o, (fill i config slots w).2.store.get? id = some o → u.store.get? id = some o) ∧
      Ends (w₀.interpreter i).heap.contains (done ++ slots) done' (fill i config slots w).1 := by
  induction slots generalizing w n done hs with
  | nil =>
    refine ⟨done, hs, hlaid, hobject, ?_⟩
    rw [List.append_nil]
    exact .all done
  | cons s rest ih =>
    have hrest : ∀ s ∈ rest, s.passage = u.passage i config :=
      fun s hs => hpassage s (List.mem_cons_of_mem _ hs)
    rw [freesFill.eq_def] at hspared ⊢
    rw [World.fill.eq_def]
    cases s with
    | key p key =>
      obtain rfl : p = u.passage i config := hpassage _ List.mem_cons_self
      obtain ⟨h, hok, hstore, hnext⟩ := hlaid.pushKey config key
      dsimp only at hspared ⊢
      rcases hrun : w.pushKey i config key with ⟨result, w₁⟩
      rw [hrun] at hok hstore hnext hspared
      obtain rfl : result = .ok () := hok
      dsimp only at hstore hnext hspared ⊢
      have hfilled := ih hnext (fun id o ho => hobject id o (hstore ▸ ho)) hrest hspared
      rwa [List.append_assoc, List.singleton_append] at hfilled
    | value p v =>
      obtain rfl : p = u.passage i config := hpassage _ List.mem_cons_self
      dsimp only at hspared ⊢
      have hvalue := hlaid.pushConverted hobject (fun id hid => List.mem_append_left _
        (Value.namesOf_subset List.mem_cons_self hid)) (hspared.mono (by omega))
      rcases hrun : w.pushConverted i config v with ⟨result, w₁⟩
      rw [hrun] at hvalue hspared
      obtain ⟨hstore, ⟨h, hok, hnext⟩ | ⟨e, hfail, herror, hnext⟩⟩ := hvalue
      · obtain rfl : result = .ok () := hok
        dsimp only at hstore hnext hspared ⊢
        obtain ⟨hdropped, hkept⟩ := hnext.drop fun id o ho => hobject id o (hstore ▸ ho)
        rw [← Nat.add_assoc] at hspared ⊢
        have hfilled := ih hdropped hkept hrest hspared
        rwa [List.append_assoc, List.singleton_append] at hfilled
      · obtain rfl : result = .error e := hfail
        dsimp only at hstore hnext ⊢
        obtain ⟨hdropped, hkept⟩ := hnext.dropEach fun id o ho => hobject id o (hstore ▸ ho)
        exact ⟨done, hs, hdropped, hkept, .before herror⟩

/-! ## Both collections -/

variable {positional named : ObjectId} {vs : List Value} {es : List (String × Value)}

/-- The slots of a frame: the positional values in order, and then each key in front of its value.
A positional value is converted when the positional array has been emptied, a named one when the
named hash has been emptied as well. -/
def frame (w : World) (i : InterpreterId) (config : Config) (positional named : ObjectId)
    (vs : List Value) (es : List (String × Value)) : List FrameSlot :=
  ofItems ((w.setItems positional []).passage i config) vs ++
    ofEntries (((w.setItems positional []).setEntries named []).passage i config) es

theorem length_frame (w : World) (i : InterpreterId) (config : Config)
    (positional named : ObjectId) (vs : List Value) (es : List (String × Value)) :
    (w.frame i config positional named vs es).length = vs.length + 2 * es.length := by
  rw [frame, List.length_append, FrameSlot.length_ofItems, FrameSlot.length_ofEntries]

/-- Emptying an array leaves a hash alone. -/
theorem get?_setItems_hash (hes : w.store.get? named = some (.hash es)) :
    (w.setItems positional []).store.get? named = some (.hash es) := by
  rw [get?_setItems, hes]
  split <;> rfl

/-- Once both collections have been emptied, they are empty. -/
theorem get?_emptied (hvs : w.store.get? positional = some (.array vs))
    (hes : w.store.get? named = some (.hash es)) :
    ((w.setItems positional []).setEntries named []).store.get? positional = some (.array []) ∧
      ((w.setItems positional []).setEntries named []).store.get? named = some (.hash []) := by
  constructor
  · rw [get?_setEntries, get?_setItems, if_pos rfl, hvs]
    split <;> rfl
  · rw [get?_setEntries, if_pos rfl, get?_setItems_hash hes]
    rfl

theorem pushAll_eq (p q : Passage) (hvs : w.store.get? positional = some (.array vs)) :
    w.pushAll i config positional named =
      match fill i config (ofItems p vs) (w.setItems positional []) with
      | (.error e, u) => (.error e, u.dropObjects [named, positional])
      | (.ok (), u) =>
        let filled := fill i config (ofEntries q (u.store.entries named)) (u.setEntries named [])
        (filled.1.map fun _ => vs.length + 2 * (u.store.entries named).length,
          filled.2.dropObjects [named, positional]) := by
  have hitems : w.store.items positional = vs := by rw [Store.items, hvs]
  rw [pushAll, arrayDrain, hitems]
  dsimp only
  rw [pushPositional_eq p]
  rcases fill i config (ofItems p vs) (w.setItems positional []) with ⟨e | ⟨⟩, u⟩
  · rfl
  · dsimp only [Except.map]
    rw [hashDrain]
    dsimp only
    rw [pushNamed_eq q]
    rcases fill i config (ofEntries q (u.store.entries named)) (u.setEntries named [])
      with ⟨e | ⟨⟩, u'⟩ <;> rfl

theorem freesAll_eq (p q : Passage) (hvs : w.store.get? positional = some (.array vs)) :
    w.freesAll i config positional named =
      freesFill i config (ofItems p vs) (w.setItems positional []) +
        match fill i config (ofItems p vs) (w.setItems positional []) with
        | (.error _, _) => 0
        | (.ok (), u) =>
          freesFill i config (ofEntries q (u.store.entries named)) (u.setEntries named []) := by
  have hitems : w.store.items positional = vs := by rw [Store.items, hvs]
  rw [freesAll, arrayDrain, hitems]
  dsimp only
  rw [freesPositional_eq p, pushPositional_eq p]
  rcases fill i config (ofItems p vs) (w.setItems positional []) with ⟨e | ⟨⟩, u⟩
  · rfl
  · dsimp only [Except.map]
    rw [hashDrain]
    dsimp only
    rw [freesNamed_eq q]

/-- The positional array is emptied: its items are loose. -/
theorem Laid.drainItems (hlaid : Laid i given outside w₀ loose n done hs w)
    (hpositional : positional ∈ given) (hvs : w.store.get? positional = some (.array vs)) :
    Laid i given outside w₀ (namesOf vs ++ loose) n done hs (w.setItems positional []) := by
  have hitems : w.store.items positional = vs ++ [] := by
    rw [Store.items, hvs, List.append_nil]
  have hcount := hlaid.counted.setItems hvs
  rw [← List.append_assoc] at hcount
  exact hlaid.discards (discards_setItems hlaid.gives hpositional hitems) hcount

/-- The named hash is emptied: its values are loose. -/
theorem Laid.drainEntries (hlaid : Laid i given outside w₀ loose n done hs w)
    (hnamed : named ∈ given) (hes : w.store.get? named = some (.hash es)) :
    Laid i given outside w₀ (namesOf (es.map (·.2)) ++ loose) n done hs
      (w.setEntries named []) := by
  have hemptied := discards_hashDrain hlaid.gives hnamed
  have hentries : w.store.entries named = es := by rw [Store.entries, hes]
  rw [hashDrain, hentries] at hemptied
  have hcount := hlaid.counted.setEntries hes
  rw [← List.append_assoc] at hcount
  exact hlaid.discards hemptied hcount

/-- What is held is there, and it has not changed. -/
theorem Laid.get?_of_mem {id : ObjectId} {o : HostObject}
    (hlaid : Laid i given outside w₀ loose n done hs w)
    (hobject : ∀ id o, w.store.get? id = some o → u.store.get? id = some o) (hid : id ∈ loose)
    (ho : u.store.get? id = some o) : w.store.get? id = some o := by
  obtain ⟨o', ho'⟩ := hlaid.counted.exists_of_mem (List.mem_append_left outside hid)
  rw [ho', ← hobject id o' ho', ho]

/-- The frame is laid out, all of it or up to the first slot that cannot be filled. -/
theorem Laid.pushAll (hlaid : Laid i given outside w [named, positional] 0 [] [] w)
    (hpositional : positional ∈ given) (hnamed : named ∈ given)
    (hvs : w.store.get? positional = some (.array vs)) (hes : w.store.get? named = some (.hash es))
    (hspared : (w.passage i config).Spared (w.interpreter i).heap.contains
      (w.freesAll i config positional named) (w.interpreter i).heap) :
    ∃ done hs,
      Laid i given outside w [] (w.freesAll i config positional named) done hs
        (w.pushAll i config positional named).2 ∧
      Ends (w.interpreter i).heap.contains (w.frame i config positional named vs es) done
        ((w.pushAll i config positional named).1.map fun _ => ()) ∧
      ∀ m, (w.pushAll i config positional named).1 = .ok m → m = vs.length + 2 * es.length ∧
        ∀ id o, (w.pushAll i config positional named).2.store.get? id = some o →
          ((w.setItems positional []).setEntries named []).store.get? id = some o := by
  let p := (w.setItems positional []).passage i config
  let q := ((w.setItems positional []).setEntries named []).passage i config
  rw [pushAll_eq p q hvs]
  rw [freesAll_eq p q hvs] at hspared ⊢
  have hdrained := hlaid.drainItems hpositional hvs
  rw [← FrameSlot.values_ofItems p vs] at hdrained
  obtain ⟨done, hs, hfilled, hobject, hends⟩ := hdrained.fill (u := w.setItems positional [])
    (ofItems p vs) (fun _ _ ho => ho) (fun _ => FrameSlot.passage_ofItems)
    (hspared.mono (by omega))
  rw [Nat.zero_add] at hfilled
  rw [List.nil_append] at hends
  rcases hrun : World.fill i config (ofItems p vs) (w.setItems positional []) with ⟨result, u⟩
  rw [hrun] at hfilled hobject hends hspared
  cases result with
  | error e =>
    obtain ⟨hdropped, -⟩ := hfilled.dropObjects hobject
    exact ⟨done, hs, hdropped, hends.append _, fun m hm => by cases hm⟩
  | ok a =>
    obtain rfl := hends.eq_of_ok
    dsimp only at hfilled hobject hspared ⊢
    -- the hash is held, so it has its entries when its turn comes
    have hes' := hfilled.get?_of_mem hobject List.mem_cons_self (get?_setItems_hash hes)
    have hentries : u.store.entries named = es := by rw [Store.entries, hes']
    rw [hentries] at hspared ⊢
    have hdrained' := hfilled.drainEntries hnamed hes'
    rw [← FrameSlot.values_ofEntries q es] at hdrained'
    obtain ⟨done, hs, hfilled', hobject', hends'⟩ :=
      hdrained'.fill (ofEntries q es) (object_setEntries hobject named [])
        (fun _ => FrameSlot.passage_ofEntries) hspared
    obtain ⟨hdropped, hkept⟩ := hfilled'.dropObjects hobject'
    rcases hlast : World.fill i config (ofEntries q es) (u.setEntries named []) with ⟨result, u'⟩
    rw [hlast] at hends' hdropped hkept
    cases result with
    | error e => exact ⟨done, hs, hdropped, hends', fun m hm => by cases hm⟩
    | ok b => exact ⟨done, hs, hdropped, hends', fun m hm => ⟨(Except.ok.inj hm).symm, hkept⟩⟩

/-- What is there once some slots of a frame have been filled, and nothing else: the stack and the
temporaries have grown by the scalars `hs`, one for each slot in order, and the heap by what they
read as. -/
structure Framed (i : InterpreterId) (w w' : World) (done : List FrameSlot) (hs : List Handle) :
    Prop where
  length : hs.length = done.length
  stack : (w'.interpreter i).stack = (w.interpreter i).stack.pass hs
  /-- From the scalars the heap reads as what the slots are to hold. The nodes that are passed are
  new and each is passed once. A scalar that was there has one share more for each occurrence among
  the leaves, and there is no other. The nodes are gone when one of the open scopes is closed. -/
  heap : ∃ ts ns, done.mapM FrameSlot.tree? = some ts ∧
    (w'.interpreter i).heap.Reads hs ts ns ∧ ns.Nodup ∧
    (∀ k ∈ ns, (w.interpreter i).heap.contains k = false) ∧
    (∀ k, k ∉ ns → (w'.interpreter i).heap.cell? k =
      ((w.interpreter i).heap.cell? k).map fun c =>
        { c with shares := c.shares + (Tree.scalarsOfItems ts).count k }) ∧
    (∀ k ∈ Tree.scalarsOfItems ts, (w.interpreter i).heap.contains k = true) ∧
    ∀ d, 0 < d → d ≤ (w.interpreter i).stack.depth → ∀ k ∈ ns,
      ((w'.closeScope i d).interpreter i).heap.contains k = false
  others : ∀ j, j ≠ i → w'.interpreter j = w.interpreter j
  /-- Closing an open scope leaves the scalars, the temporaries and the scopes, and has the faults,
  that it would have left and had before. -/
  leaving : ∀ d, 0 < d → d ≤ (w.interpreter i).stack.depth →
    ((w'.interpreter i).closeScope d).1 = ((w.interpreter i).closeScope d).1 ∧
    (∀ k, ((w'.interpreter i).closeScope d).2.heap.cell? k
      = ((w.interpreter i).closeScope d).2.heap.cell? k) ∧
    ((w'.interpreter i).closeScope d).2.stack.temps
      = ((w.interpreter i).closeScope d).2.stack.temps ∧
    ((w'.interpreter i).closeScope d).2.stack.scopes
      = ((w.interpreter i).closeScope d).2.stack.scopes

theorem Laid.framed (hlaid : Laid i given outside w loose n done hs w')
    (hwf : (w.interpreter i).heap.WellFormed)
    (hfloors : ∀ f ∈ (w.interpreter i).stack.scopes,
      f.temps ≤ (w.interpreter i).stack.temps.size) : Framed i w w' done hs := by
  obtain ⟨hp, ts, ns, htrees, hbuilt, hheap⟩ := hlaid.built
  refine ⟨hlaid.length, hlaid.stack, ⟨ts, ns, htrees, ?_, hbuilt.grown.nodup, ?_, ?_, hbuilt.live,
    ?_⟩, hlaid.others, ?_⟩
  · rw [hheap]
    exact hbuilt.reads.congr fun _ _ => rfl
  · exact fun k hk => Heap.contains_eq_false_iff.2 (hbuilt.grown.fresh k hk)
  · intro k hk
    rw [hheap]
    exact hbuilt.grown.cell?_eq k hk
  · exact fun d hd hopen k hk =>
      World.closeScope_built hwf hbuilt hheap hlaid.stack hfloors hd hopen hk
  · exact fun d hd hopen =>
      Interpreter.closeScope_built hwf hbuilt hheap hlaid.stack hfloors hd hopen

/-- How pushing the arguments of a call ends, with the slots that have been filled. -/
inductive FrameEnds (w : World) (i : InterpreterId) (config : Config) (positional named : ObjectId)
    (vs : List Value) (es : List (String × Value)) (w' : World) :
    Except CrossingError Nat → List FrameSlot → Prop
  /-- All slots have been filled and are counted, and both collections are empty. -/
  | full : (∀ o, w'.store.get? positional = some o → o = .array []) →
      (∀ o, w'.store.get? named = some o → o = .hash []) →
      FrameEnds w i config positional named vs es w' (.ok (vs.length + 2 * es.length))
        (w.frame i config positional named vs es)
  /-- The slots in front of one that cannot be filled. -/
  | part {done s rest e} : w.frame i config positional named vs es = done ++ s :: rest →
      s.error? (w.interpreter i).heap.contains = some e →
      FrameEnds w i config positional named vs es w' (.error e) done

/-- The slots of the frame are filled one after the other, all of them or up to the first one that
cannot be. -/
theorem framed_pushAll {run : List ArgumentStack.Act} {result : Except CrossingError Nat}
    (hrest : (w.interpreter i).heap.AtRest)
    (hstack : (w.interpreter i).stack = ArgumentStack.after {} run)
    (hvs : w.store.get? positional = some (.array vs)) (hes : w.store.get? named = some (.hash es))
    (hgives : w.store.GivesUp given []) (hpositional : positional ∈ given) (hnamed : named ∈ given)
    (hcount : w.Counted (named :: positional :: outside))
    (hspared : (w.passage i config).Spared (w.interpreter i).heap.contains
      (w.freesAll i config positional named) (w.interpreter i).heap)
    (hpush : w.pushAll i config positional named = (result, w')) :
    ∃ done hs, Framed i w w' done hs ∧
      FrameEnds w i config positional named vs es w' result done := by
  have hheld : w.store.GivesUp given [named, positional] := by
    have hids : ∀ id ∈ [named, positional], id ∈ given := by simp [hpositional, hnamed]
    have happend := hgives.append hids
    rwa [List.append_nil] at happend
  have hstart : Laid i given outside w [named, positional] 0 [] [] w := .start hrest hheld hcount
  obtain ⟨done, hs, hlaid, hends, hok⟩ := hstart.pushAll hpositional hnamed hvs hes hspared
  rw [hpush] at hlaid hends hok
  have hframed : Framed i w w' done hs := by
    refine hlaid.framed hrest.toWellFormed ?_
    rw [hstack]
    exact ArgumentStack.floor_le_of_run run
  refine ⟨done, hs, hframed, ?_⟩
  cases result with
  | error e =>
    generalize hslots : w.frame i config positional named vs es = slots at hends
    cases hends with
    | before herror => exact .part hslots herror
  | ok m =>
    obtain ⟨rfl, hkept⟩ := hok m rfl
    obtain ⟨hpositional', hnamed'⟩ := get?_emptied hvs hes
    obtain rfl := hends.eq_of_ok
    refine .full (fun o ho => ?_) fun o ho => ?_
    · exact Option.some.inj ((hkept positional o ho).symm.trans hpositional')
    · exact Option.some.inj ((hkept named o ho).symm.trans hnamed')

/-- The arguments of a call are laid out as their frame. When all conversions succeed, every slot is
filled, the number of slots is answered, and both collections are empty. When one fails, the slots
in front of its value are filled and no others, and the error is that of the first element of the
value that cannot be converted.

The heap is at rest, as it is between two operations, and the stack in a state of some run. `given`
lists the collections and what else may go with them, no boundary object among them: each of those
has a holder that is not in the list. The two collections are held by the caller, and `outside`
lists the other holds that host code has. No stale handle in a boundary object comes to fit a new
scalar because its slot has been emptied too often on the way. In a run this cannot happen before a
slot has been emptied `2 ^ 32` times (`World.Logged.spared`). -/
theorem pushAll_frame {run : List ArgumentStack.Act} {result : Except CrossingError Nat}
    (hrest : (w.interpreter i).heap.AtRest)
    (hstack : (w.interpreter i).stack = ArgumentStack.after {} run)
    (hvs : w.store.get? positional = some (.array vs)) (hes : w.store.get? named = some (.hash es))
    (hgives : w.store.GivesUp given []) (hpositional : positional ∈ given) (hnamed : named ∈ given)
    (hcount : w.Counted (named :: positional :: outside))
    (hspared : (w.passage i config).Spared (w.interpreter i).heap.contains
      (w.freesAll i config positional named) (w.interpreter i).heap)
    (hpush : w.pushAll i config positional named = (result, w')) :
    ∃ done hs, Framed i w w' done hs ∧
      ((result = .ok (vs.length + 2 * es.length) ∧ hs.length = vs.length + 2 * es.length ∧
          done = w.frame i config positional named vs es ∧
          (∀ o, w'.store.get? positional = some o → o = .array []) ∧
          ∀ o, w'.store.get? named = some o → o = .hash []) ∨
        ∃ s rest e, w.frame i config positional named vs es = done ++ s :: rest ∧
          s.error? (w.interpreter i).heap.contains = some e ∧ result = .error e) := by
  obtain ⟨done, hs, hframed, hends⟩ :=
    framed_pushAll hrest hstack hvs hes hgives hpositional hnamed hcount hspared hpush
  refine ⟨done, hs, hframed, ?_⟩
  cases hends with
  | full hpositional' hnamed' =>
    exact .inl ⟨rfl, hframed.length.trans (w.length_frame i config positional named vs es), rfl,
      hpositional', hnamed'⟩
  | part hslots herror => exact .inr ⟨_, _, _, hslots, herror, rfl⟩

/-- A scalar with a boundary object over it that has a holder elsewhere, an open scope with a
temporary, and two collections that name the boundary object three times. The last value of the
named one ends in an element that cannot be converted. -/
def half : World where
  interpreters := ({} : Table Interpreter).set 1 {
    heap := ((({} : Heap).allocate (.int 7)).2.allocate (.int 8)).2
    stack := .after {} [.openScope, .addTemporary ⟨1, 0⟩, .push ⟨1, 0⟩] }
  store := {
    holdings := #[some ⟨4, .boundary ⟨1⟩ ⟨0, 0⟩⟩,
      some ⟨1, .array [.text "a", .boundary ⟨0⟩, .boundary ⟨0⟩]⟩,
      some ⟨1, .hash [("k", .boundary ⟨0⟩), ("m", .array ⟨3⟩)]⟩,
      some ⟨1, .array [.integer 1, .undef]⟩] }

/-- The frame ends after the key of that value. -/
theorem pushAll_frame_half : ∃ w' done hs s,
    half.pushAll ⟨1⟩ {} ⟨1⟩ ⟨2⟩ = (.error (.unsupportedConversion "Undef"), w') ∧
      Framed ⟨1⟩ half w' done hs ∧ hs = [⟨2, 0⟩, ⟨0, 0⟩, ⟨0, 0⟩, ⟨3, 0⟩, ⟨0, 0⟩, ⟨4, 0⟩] ∧
      half.frame ⟨1⟩ {} ⟨1⟩ ⟨2⟩ [.text "a", .boundary ⟨0⟩, .boundary ⟨0⟩]
        [("k", .boundary ⟨0⟩), ("m", .array ⟨3⟩)] = done ++ [s] := by
  have hrest : (half.interpreter ⟨1⟩).heap.AtRest :=
    ⟨(Heap.wellFormed_empty.allocate (.int 7)).allocate (.int 8), rfl⟩
  have hgives : half.store.GivesUp [⟨1⟩, ⟨2⟩, ⟨3⟩] [] := by
    refine ⟨by decide, by decide +kernel, ?_⟩
    rintro ⟨_ | _ | _ | _ | n⟩ h hid hh -
    · cases hh
      decide +kernel
    · simp at hid
    · simp at hid
    · simp at hid
    · cases hh
  have hcount : half.Counted [⟨2⟩, ⟨1⟩, ⟨0⟩] := by
    refine ⟨?_, ?_⟩
    · rintro ⟨n⟩
      match n with
      | 0 | 1 | 2 | 3 => decide +kernel
      | n + 4 => rfl
    · rintro ⟨n⟩ h hh
      match n with
      | 0 | 1 | 2 | 3 => exact Option.some.inj hh ▸ by decide
      | n + 4 => cases hh
  have hspared : (half.passage ⟨1⟩ {}).Spared (half.interpreter ⟨1⟩).heap.contains
      (half.freesAll ⟨1⟩ {} ⟨1⟩ ⟨2⟩) (half.interpreter ⟨1⟩).heap := by
    rintro ⟨_ | _ | _ | _ | n⟩ k hown hk
    · cases hown
      exact absurd hk (by decide +kernel)
    all_goals cases hown
  have hstack : (half.interpreter ⟨1⟩).stack
      = .after {} [.openScope, .addTemporary ⟨1, 0⟩, .push ⟨1, 0⟩] := rfl
  have hvs : half.store.get? ⟨1⟩ = some (.array [.text "a", .boundary ⟨0⟩, .boundary ⟨0⟩]) := rfl
  have hes : half.store.get? ⟨2⟩ = some (.hash [("k", .boundary ⟨0⟩), ("m", .array ⟨3⟩)]) := rfl
  have herror : (half.pushAll ⟨1⟩ {} ⟨1⟩ ⟨2⟩).1 = .error (.unsupportedConversion "Undef") := by
    decide +kernel
  obtain ⟨done, hs, hframed, ⟨hok, -⟩ | ⟨s, rest, e, hslots, -, -⟩⟩ :=
    pushAll_frame hrest hstack hvs hes hgives (by decide) (by decide) hcount hspared
      (Prod.ext herror rfl)
  · cases hok
  -- the stack shows how far it came
  have hvalues : ((half.pushAll ⟨1⟩ {} ⟨1⟩ ⟨2⟩).2.interpreter ⟨1⟩).stack.values.toList
      = [⟨1, 0⟩] ++ [⟨2, 0⟩, ⟨0, 0⟩, ⟨0, 0⟩, ⟨3, 0⟩, ⟨0, 0⟩, ⟨4, 0⟩] := by decide +kernel
  have hgrown : ((half.pushAll ⟨1⟩ {} ⟨1⟩ ⟨2⟩).2.interpreter ⟨1⟩).stack.values.toList
      = [⟨1, 0⟩] ++ hs := by
    rw [hframed.stack, ArgumentStack.pass, Array.toList_append]
    rfl
  obtain rfl := List.append_cancel_left (hgrown.symm.trans hvalues)
  have hlength := congrArg List.length hslots
  rw [length_frame, List.length_append, ← hframed.length] at hlength
  simp only [List.length_cons, List.length_nil] at hlength
  obtain rfl : rest = [] := List.length_eq_zero_iff.1 (by omega)
  exact ⟨_, done, _, s, Prod.ext herror rfl, hframed, rfl, hslots⟩

end World

end GuestBridge
