import GuestBridge.Proofs.Calls.Dispatch
import GuestBridge.Proofs.Cascade.Kept
import GuestBridge.Proofs.Conversion.Shown

/-!
# What the guest gets to see of the arguments

The two collections of a call are emptied before their elements are converted, the positional one
first. `arguments_seen` says what each element has become: the scalar that was pushed for it shows
the element as it unfolds in the store in which the collections have been emptied so far, and no
other object is touched. So an element that does not lead to a collection is seen as it was when the
arguments were handed over. One that leads to the positional array is seen with this array empty,
and a named one that leads to the named hash with this hash empty (`emptying_shows`).

1. What has yet to be converted is held, so it is there with all that it leads to, whatever the
   values that have been let go of have taken with them (`Counted.unfold_eq`).
2. What has been pushed is a temporary, so it shows the same in the end (`Interpreter.Recalls`).
-/

namespace GuestBridge

open Value (namesOf)

/-! ## Temporaries -/

/-- The temporaries of an interpreter are temporaries still, and show what they showed. -/
structure Interpreter.Recalls (it it₁ : Interpreter) : Prop where
  temps : ∀ k ∈ it.stack.temps.toList, k ∈ it₁.stack.temps.toList
  shows : ∀ hs ts, (∀ k ∈ hs, k ∈ it.stack.temps.toList) → it.heap.Shows hs ts →
    it₁.heap.Shows hs ts

theorem Interpreter.Recalls.refl (it : Interpreter) : it.Recalls it where
  temps := fun _ hk => hk
  shows := fun _ _ _ hshows => hshows

theorem Interpreter.Recalls.trans {it it₁ it₂ : Interpreter} (hfirst : it.Recalls it₁)
    (hnext : it₁.Recalls it₂) : it.Recalls it₂ where
  temps := fun k hk => hnext.temps k (hfirst.temps k hk)
  shows := fun hs ts hhs hshows =>
    hnext.shows hs ts (fun k hk => hfirst.temps k (hhs k hk)) (hfirst.shows hs ts hhs hshows)

/-- A new scalar without a closure keeps nothing. -/
theorem Interpreter.keepers_create {it : Interpreter} {body : Body} (hwf : it.heap.WellFormed)
    (hclosure : body.closure? = none) (id : ObjectId) :
    (it.create body).2.keepers id = it.keepers id := by
  have hnone : body.keepers id = 0 := by rw [Body.keepers, hclosure]; rfl
  exact congrArg (· + it.packages.closures.count id)
    ((hwf.keepers_allocate body id).trans (by rw [hnone, Nat.add_zero]))

/-- What one temporary shows. -/
theorem Interpreter.Recalls.shows_one {it it₁ : Interpreter} (hrecalls : it.Recalls it₁)
    {h : Handle} {t : Tree} (htemp : h ∈ it.stack.temps.toList) (hshows : it.heap.Shows [h] [t]) :
    it₁.heap.Shows [h] [t] :=
  hrecalls.shows [h] [t] (fun _ hk => List.mem_singleton.1 hk ▸ htemp) hshows

namespace World

variable {held : Held} {w₀ w w₁ : World} {i : InterpreterId} {config : Config}
variable {h k : Handle} {hs : List Handle} {ts : List Tree} {v : Value} {loose : List ObjectId}

/-- The scalars of an interpreter that is held have their children. -/
theorem Balanced.rooted (hbal : Balanced held w₀ w) (hi : w.isHeld i = true) :
    (w.interpreter i).heap.Rooted := by
  intro k body hbody c hc
  obtain ⟨cell, hcell, rfl⟩ := Heap.body_eq_ok_iff.1 hbody
  have hvacate := Heap.asChild_vacate hcell cell.body c
  have hpos := List.count_pos_iff.2 hc
  have hledger : (w.interpreter i).heap.Balanced _ := hbal.ledger i hi
  exact Heap.contains_iff.2 (hledger.exists_cell (by omega))

/-- Temporaries are there, with what they show. -/
theorem Balanced.recalls (hbal : Balanced held w₀ w₁) (hi : w₁.isHeld i = true)
    (hretains : (w.interpreter i).Retains (w₁.interpreter i))
    (hkeeps : (w.interpreter i).heap.Keeps (w₁.interpreter i).heap) :
    (w.interpreter i).Recalls (w₁.interpreter i) where
  temps := fun k hk => (hretains k hk).1
  shows := by
    intro hs ts hhs hshows
    refine hshows.kept hkeeps (hbal.rooted hi) fun k hk => ?_
    exact Heap.contains_iff.2 (hbal.exists_temporary hi (hretains k (hhs k hk)).1)

/-- An operation that leaves the bodies alone keeps them, whatever is let go of after it. -/
theorem keeps_guest (w : World) (i : InterpreterId) {f : Interpreter → α × Interpreter}
    (hf : ∀ k body, (w.interpreter i).heap.body k = .ok body →
      (f (w.interpreter i)).2.heap.body k = .ok body) :
    (w.interpreter i).heap.Keeps ((w.guest i f).2.interpreter i).heap := by
  intro k body hbody hk
  have hrec := (w.recedes_guest i f).heap i
  rw [interpreter_setInterpreter, if_pos rfl] at hrec
  exact hrec.keeps k body (hf k body hbody) hk

/-- No boundary object outlives its scalar. -/
theorem Balanced.spared (hbal : Balanced held w₀ w) (hhost : w₀.holds.get i.number ≠ 0)
    (config : Config) (n : Nat) :
    (w.passage i config).Spared (w.interpreter i).heap.contains n (w.interpreter i).heap := by
  intro id k hown hk
  obtain ⟨⟨owner, handle⟩, hboundary, howner⟩ : ∃ boundary, w.store.boundary? id = some boundary ∧
      (if boundary.1 = i then some boundary.2 else none) = some k := by
    unfold Passage.own? passage at hown
    cases hboundary : w.store.boundary? id with
    | none => simp [hboundary] at hown
    | some boundary => exact ⟨boundary, rfl, by simpa [hboundary] using hown⟩
  split at howner
  · rename_i hsame
    cases hsame
    obtain rfl := Option.some.inj howner
    rw [Store.boundary?_eq, Option.bind_eq_some_iff] at hboundary
    obtain ⟨o, ho, hscalar⟩ := hboundary
    obtain ⟨⟨holders, object⟩, hh, rfl⟩ := Option.map_eq_some_iff.1 ho
    cases object with
    | boundary =>
      cases hscalar
      rw [hbal.contains_of_wrapped hhost hh] at hk
      cases hk
    | array | hash | object | closure => cases hscalar
  · cases howner

/-! ## Between two steps -/

/-- What is held unfolds as it did, if no object that is there has got another content. -/
theorem Counted.unfold_eq {loose : List ObjectId} (hcount : w₁.Counted loose)
    (hobject : ∀ id o, w₁.store.get? id = some o → w.store.get? id = some o)
    (hv : ∀ id ∈ namesOf [v], id ∈ loose) (room : Nat) :
    (w.passage i config).unfold room v = (w₁.passage i config).unfold room v := by
  refine @Passage.unfold_congr (w₁.passage i config) (w.passage i config)
    (fun id => ∃ o, w₁.store.get? id = some o) rfl rfl ?_ ?_ room v
    fun id hid => hcount.exists_of_mem (hv id hid)
  · rintro id ⟨o, ho⟩
    exact (hobject id o ho).trans ho.symm
  · intro id o _ ho x hx
    exact hcount.exists_of_part ho hx

/-- Nor has it got another element that cannot be converted. -/
theorem Counted.firstError_eq {loose : List ObjectId} (hcount : w₁.Counted loose)
    (hobject : ∀ id o, w₁.store.get? id = some o → w.store.get? id = some o)
    (hv : ∀ id ∈ namesOf [v], id ∈ loose) (live : Handle → Bool) (room : Nat) :
    (w.passage i config).firstError live room v = (w₁.passage i config).firstError live room v := by
  refine @Passage.firstError_congr (w₁.passage i config) (w.passage i config)
    (fun id => ∃ o, w₁.store.get? id = some o) rfl rfl ?_ ?_ live room v
    fun id hid => hcount.exists_of_mem (hv id hid)
  · rintro id ⟨o, ho⟩
    exact (hobject id o ho).trans ho.symm
  · intro id o _ ho x hx
    exact hcount.exists_of_part ho hx

/-- A world between two steps: shares and holds are right, and nothing is parked. -/
structure Settled (held : Held) (w₀ : World) (loose : List ObjectId) (w : World) : Prop
    extends Balanced held w₀ w where
  rest : w.AtRest
  counted : w.Counted loose

/-- The same of several values. -/
theorem Settled.mapM_unfold_eq {vs : List Value} (hset : Settled held w₀ (namesOf vs ++ loose) w₁)
    (hobject : ∀ id o, w₁.store.get? id = some o → w.store.get? id = some o) (room : Nat) :
    vs.mapM ((w.passage i config).unfold room) = vs.mapM ((w₁.passage i config).unfold room) :=
  mapM_congr fun _ ha => hset.counted.unfold_eq hobject
    (fun _ hid => List.mem_append_left _ (Value.namesOf_subset ha hid)) room

/-- A collection is emptied: its elements are loose. -/
theorem Settled.setItems {id : ObjectId} {vs : List Value} (hset : Settled held w₀ loose w)
    (hvs : w.store.get? id = some (.array vs)) :
    Settled held w₀ (namesOf vs ++ loose) (w.setItems id []) :=
  ⟨hset.toBalanced.setItems id [], hset.rest, hset.counted.setItems hvs⟩

theorem Settled.setEntries {id : ObjectId} {es : List (String × Value)}
    (hset : Settled held w₀ loose w) (hes : w.store.get? id = some (.hash es)) :
    Settled held w₀ (namesOf (es.map (·.2)) ++ loose) (w.setEntries id []) :=
  ⟨hset.toBalanced.setEntries id [], hset.rest, hset.counted.setEntries hes⟩

/-- Letting go of loose holds. -/
theorem Settled.release {ids : List ObjectId} (hset : Settled held w₀ (ids ++ loose) w)
    (hhost : w₀.holds.get i.number ≠ 0) :
    Settled held w₀ loose (w.release (ids.map .holder)) ∧
      (w.interpreter i).Recalls ((w.release (ids.map .holder)).interpreter i) := by
  have hbal : Balanced held w₀ (w.release (ids.map .holder)) := hset.dropObjects ids
  have hi := hbal.isHeld_of_holds hhost
  have hrec : Recedes w (w.release (ids.map .holder)) := recedes_release _ _
  exact ⟨⟨hbal, hset.rest.release _, hset.counted.release⟩,
    hbal.recalls hi (hbal.retains hi hrec) (hrec.heap i).keeps⟩

/-- A value is converted: the scalar is the caller's and shows what the value unfolds to. -/
theorem Settled.convert (hset : Settled held w₀ loose w) (hhost : w₀.holds.get i.number ≠ 0)
    (hconvert : w.convert i config v = (.ok h, w₁)) :
    Settled (Held.of i [h] ++ held) w₀ loose w₁ ∧
      (w.interpreter i).Recalls (w₁.interpreter i) ∧
      ∃ t, (∀ room, config.maxDepth < room → (w.passage i config).unfold room v = some t) ∧
        (w₁.interpreter i).heap.Shows [h] [t] := by
  have hpassed := hset.passed_conversion hhost hconvert
  have hspared := hset.spared hhost config (w.frees i config v)
  have hcounted := hset.counted.convert (hset.rest i) hspared
  obtain ⟨t, ns, hmade⟩ := World.converted (hset.rest i) hspared hconvert
  rw [hconvert] at hcounted
  have hatrest : w₁.AtRest := by
    intro j
    by_cases hj : j = i
    · exact hj ▸ hmade.atRest
    · rw [hmade.same.others j hj]
      exact hset.rest j
  refine ⟨⟨hpassed.balanced, hatrest, hcounted⟩, ?_, t, hmade.unfold_eq, hmade.reads.shows⟩
  refine hpassed.balanced.recalls (hpassed.balanced.isHeld_of_holds hhost) hpassed.retains ?_
  intro k body hbody _
  obtain ⟨c, hc, rfl⟩ := Heap.body_eq_ok_iff.1 hbody
  have hold : k ∉ ns := fun hk => by
    rw [Heap.contains_eq_false_iff.1 (hmade.fresh k hk)] at hc
    cases hc
  have hc₁ := hmade.cell?_eq k hold
  rw [hc, Option.map_some] at hc₁
  exact Heap.body_eq_ok_iff.2 ⟨_, hc₁, rfl⟩

/-- A string is made of a key. -/
theorem Settled.create {bytes : Bytes} (hset : Settled held w₀ loose w)
    (hhost : w₀.holds.get i.number ≠ 0) (hcreate : w.guest i (·.create (.str bytes)) = (k, w₁)) :
    Settled (Held.of i [k] ++ held) w₀ loose w₁ ∧
      (w.interpreter i).Recalls (w₁.interpreter i) := by
  obtain ⟨hpassed, -⟩ := hset.passed_create hhost rfl hcreate
  have hwf := (hset.rest i).toWellFormed
  have hrest : (w.guest i (·.create (.str bytes))).2.AtRest := hset.rest.guest (hwf.allocate _)
  have hcounted : (w.guest i (·.create (.str bytes))).2.Counted loose :=
    hset.counted.guest (f := (·.create (.str bytes))) fun id =>
      Interpreter.keepers_create hwf rfl id
  have hkeeps := w.keeps_guest i (f := (·.create (.str bytes))) fun k body hbody =>
    hwf.body_allocate hbody _
  rw [hcreate] at hrest hcounted hkeeps
  exact ⟨⟨hpassed.balanced, hrest, hcounted⟩,
    hpassed.balanced.recalls (hpassed.balanced.isHeld_of_holds hhost) hpassed.retains hkeeps⟩

/-- The caller's scalar becomes a temporary, and shows what it showed. -/
theorem Settled.pushTemporary (hset : Settled (Held.of i [h] ++ held) w₀ loose w)
    (hhost : w₀.holds.get i.number ≠ 0) :
    Settled held w₀ loose (w.pushTemporary i h).2 ∧
      (w.interpreter i).Recalls ((w.pushTemporary i h).2.interpreter i) ∧
      h ∈ ((w.pushTemporary i h).2.interpreter i).stack.temps.toList ∧
      ∀ t, (w.interpreter i).heap.Shows [h] [t] →
        ((w.pushTemporary i h).2.interpreter i).heap.Shows [h] [t] := by
  obtain ⟨w₁, hpush, hpassed, -⟩ := Balanced.passed_pushTemporary hset.toBalanced hhost
  have hsnd := w.pushTemporary_snd i h
  rw [hpush] at hsnd ⊢
  dsimp only at hsnd ⊢
  obtain ⟨stack, hstack⟩ : ∃ stack, ((w.interpreter i).pushTemporary h).2
      = { w.interpreter i with stack } := by
    unfold Interpreter.pushTemporary Interpreter.ifLive
    split <;> exact ⟨_, rfl⟩
  have hrest : (w.guest i (·.pushTemporary h)).2.AtRest :=
    hset.rest.guest (by rw [hstack]; exact (hset.rest i).toWellFormed)
  have hcounted : (w.guest i (·.pushTemporary h)).2.Counted loose :=
    hset.counted.guest fun id => by rw [hstack]; rfl
  have hkeeps := w.keeps_guest i (f := (·.pushTemporary h)) fun k body hbody => by
    rw [hstack]
    exact hbody
  rw [← hsnd] at hrest hcounted hkeeps
  have hi := hpassed.balanced.isHeld_of_holds hhost
  have htemp : h ∈ (w₁.interpreter i).stack.temps.toList := by
    rw [hpassed.stack]
    simp [ArgumentStack.pass]
  refine ⟨⟨hpassed.balanced, hrest, hcounted⟩,
    hpassed.balanced.recalls hi hpassed.retains hkeeps, htemp, ?_⟩
  intro t hshows
  refine hshows.kept hkeeps (hpassed.balanced.rooted hi) fun k hk => ?_
  rw [List.mem_singleton.1 hk]
  exact Heap.contains_iff.2 (hpassed.balanced.exists_temporary hi htemp)

/-! ## Runs -/

/-- A value is converted, pushed and let go of: its scalar shows what the value unfolds to. -/
theorem Settled.passes (hset : Settled held w₀ (namesOf [v] ++ loose) w)
    (hhost : w₀.holds.get i.number ≠ 0) (hconvert : w.convert i config v = (.ok h, w₁)) :
    Settled held w₀ loose ((w₁.pushTemporary i h).2.drop v) ∧
      (w.interpreter i).Recalls (((w₁.pushTemporary i h).2.drop v).interpreter i) ∧
      h ∈ (((w₁.pushTemporary i h).2.drop v).interpreter i).stack.temps.toList ∧
      ∃ t, (∀ room, config.maxDepth < room → (w.passage i config).unfold room v = some t) ∧
        (((w₁.pushTemporary i h).2.drop v).interpreter i).heap.Shows [h] [t] := by
  obtain ⟨hset₁, hrecalls₁, t, hunfold, hshows⟩ := hset.convert hhost hconvert
  obtain ⟨hset₂, hrecalls₂, htemp, hshown⟩ := hset₁.pushTemporary hhost
  rw [World.drop, Value.releaseSteps_eq]
  obtain ⟨hset₃, hrecalls₃⟩ := hset₂.release (i := i) hhost
  exact ⟨hset₃, (hrecalls₁.trans hrecalls₂).trans hrecalls₃, hrecalls₃.temps h htemp, t, hunfold,
    hrecalls₃.shows_one htemp (hshown t hshows)⟩

/-- Values converted one after the other: the scalars show what the values unfold to at the start.
-/
theorem Passes.shows {vs : List Value} (hpasses : Passes i config w vs hs w₁)
    (hhost : w₀.holds.get i.number ≠ 0) (hset : Settled held w₀ (namesOf vs ++ loose) w) :
    Settled held w₀ loose w₁ ∧ (w.interpreter i).Recalls (w₁.interpreter i) ∧
      ∃ ts, (∀ room, config.maxDepth < room →
          vs.mapM ((w.passage i config).unfold room) = some ts) ∧
        (w₁.interpreter i).heap.Shows hs ts := by
  induction hpasses with
  | nil => exact ⟨hset, .refl _, [], fun _ _ => rfl, .nil⟩
  | @cons w _ _ v h rest hs hconvert _ ih =>
    rw [← List.singleton_append, Value.namesOf_append, List.append_assoc] at hset
    obtain ⟨hset', hrecalls, htemp, t, hunfold, hshows⟩ := hset.passes hhost hconvert
    obtain ⟨hset₁, hrecalls₁, ts, hunfolds, hshown⟩ := ih hset'
    obtain ⟨-, -, hpassed⟩ := hset.passed_convert hhost hconvert
    refine ⟨hset₁, hrecalls.trans hrecalls₁, t :: ts, fun room hroom => ?_, ?_⟩
    · refine mapM_cons_eq_some_iff.2 ⟨t, ts, hunfold room hroom, ?_, rfl⟩
      rw [← hunfolds room hroom]
      exact hset'.mapM_unfold_eq hpassed.object room
    · exact (hrecalls₁.shows_one htemp hshows).append hshown

/-- The same of named values. -/
theorem PassesNamed.shows {es : List (String × Value)} {pairs : List (Handle × Handle)}
    (hpasses : PassesNamed i config w es pairs w₁) (hhost : w₀.holds.get i.number ≠ 0)
    (hset : Settled held w₀ (namesOf (es.map (·.2)) ++ loose) w) :
    Settled held w₀ loose w₁ ∧ (w.interpreter i).Recalls (w₁.interpreter i) ∧
      ∃ ts, (∀ room, config.maxDepth < room →
          (es.map (·.2)).mapM ((w.passage i config).unfold room) = some ts) ∧
        (w₁.interpreter i).heap.Shows (pairs.map (·.2)) ts := by
  induction hpasses with
  | nil => exact ⟨hset, .refl _, [], fun _ _ => rfl, .nil⟩
  | @cons w _ _ _ key k v h rest pairs hcreate hconvert _ ih =>
    obtain ⟨-, hkey, -⟩ := hset.passed_key hhost hcreate
    obtain ⟨hcreated, hrecalls₀⟩ := hset.create hhost hcreate
    obtain ⟨hpushed, hrecalls₁, -⟩ := hcreated.pushTemporary hhost
    rw [List.map_cons, ← List.singleton_append, Value.namesOf_append, List.append_assoc]
      at hpushed hset
    obtain ⟨hset', hrecalls, htemp, t, hunfold, hshows⟩ := hpushed.passes hhost hconvert
    obtain ⟨hset₁, hrecalls₂, ts, hunfolds, hshown⟩ := ih hset'
    obtain ⟨-, -, hpassed⟩ := hpushed.passed_convert hhost hconvert
    refine ⟨hset₁, ((hrecalls₀.trans hrecalls₁).trans hrecalls).trans hrecalls₂, t :: ts,
      fun room hroom => ?_, ?_⟩
    · refine mapM_cons_eq_some_iff.2 ⟨t, ts, ?_, ?_, rfl⟩
      · rw [← hunfold room hroom]
        exact hpushed.counted.unfold_eq hkey.object (fun id hid => List.mem_append_left _ hid) room
      · rw [← hunfolds room hroom]
        exact hset'.mapM_unfold_eq (fun id o ho => hkey.object id o (hpassed.object id o ho)) room
    · exact (hrecalls₂.shows_one htemp hshows).append hshown

/-! ## What pushing does -/

theorem pushConverted_ok (hpush : w.pushConverted i config v = (.ok (), w₁)) :
    ∃ h w₂, w.convert i config v = (.ok h, w₂) ∧ w₁ = (w₂.pushTemporary i h).2 := by
  unfold pushConverted at hpush
  split at hpush
  · rename_i h w₂ hconvert
    exact ⟨h, w₂, hconvert, by rw [hpush]⟩
  · cases hpush

/-- Pushing that succeeds has passed all values. -/
theorem pushPositional_ok {vs : List Value} {n : Nat}
    (hpush : pushPositional i config vs w = (.ok n, w₁)) :
    n = vs.length ∧ ∃ hs, Passes i config w vs hs w₁ := by
  induction vs generalizing w n with
  | nil =>
    cases hpush
    exact ⟨rfl, [], .nil⟩
  | cons v rest ih =>
    rw [pushPositional] at hpush
    split at hpush
    · cases hpush
    · rename_i w₂ hfirst
      obtain ⟨h, w₃, hconvert, rfl⟩ := pushConverted_ok hfirst
      split at hpush
      · rename_i m w₄ hrest
        cases hpush
        obtain ⟨rfl, hs, hpasses⟩ := ih hrest
        exact ⟨rfl, h :: hs, .cons hconvert hpasses⟩
      · cases hpush

theorem pushNamed_ok {es : List (String × Value)} {n : Nat}
    (hpush : pushNamed i config es w = (.ok n, w₁)) :
    n = 2 * es.length ∧ ∃ pairs, PassesNamed i config w es pairs w₁ := by
  induction es generalizing w n with
  | nil =>
    cases hpush
    exact ⟨rfl, [], .nil⟩
  | cons e rest ih =>
    obtain ⟨key, v⟩ := e
    rw [pushNamed] at hpush
    split at hpush
    · cases hpush
    · rename_i w₂ hkey
      split at hpush
      · cases hpush
      · rename_i w₃ hsecond
        obtain ⟨h, w₄, hconvert, rfl⟩ := pushConverted_ok hsecond
        split at hpush
        · rename_i m w₅ hrest
          cases hpush
          obtain ⟨rfl, pairs, hpasses⟩ := ih hrest
          have hw₂ : w₂ = (w.pushKey i config key).2 := by rw [hkey]
          rw [hw₂] at hconvert
          exact ⟨rfl, _, .cons rfl hconvert hpasses⟩
        · cases hpush

theorem pushAll_ok {positional named : ObjectId} {n : Nat}
    (hpush : w.pushAll i config positional named = (.ok n, w₁)) :
    ∃ hs pairs w₂ w₃,
      n = (w.store.items positional).length + 2 * (w₂.store.entries named).length ∧
      Passes i config (w.setItems positional []) (w.store.items positional) hs w₂ ∧
      PassesNamed i config (w₂.setEntries named []) (w₂.store.entries named) pairs w₃ ∧
      w₁ = w₃.dropObjects [named, positional] := by
  rw [pushAll, arrayDrain] at hpush
  dsimp only at hpush
  split at hpush
  · cases hpush
  · rename_i m w₂ hpositional
    rw [hashDrain] at hpush
    dsimp only at hpush
    split at hpush
    · cases hpush
    · rename_i m' w₃ hnamed
      cases hpush
      obtain ⟨rfl, hs, hpasses⟩ := pushPositional_ok hpositional
      obtain ⟨rfl, pairs, hpassed⟩ := pushNamed_ok hnamed
      exact ⟨hs, pairs, w₂, w₃, rfl, hpasses, hpassed, rfl⟩

/-! ## Collections -/

/-- What the arguments have become: `hs` are the scalars of the positional values `vs`, and `pairs`
those of the named values `es` with their keys. -/
structure Seen (b : Bridge) (positional named : ObjectId) (vs : List Value)
    (es : List (String × Value)) (hs : List Handle) (pairs : List (Handle × Handle))
    (w w₁ : World) : Prop where
  stack : (w₁.interpreter b.interpreter).stack
    = (w.interpreter b.interpreter).stack.pass (hs ++ flatten pairs)
  keys : Spells b.config (w₁.interpreter b.interpreter) pairs es
  /-- A positional value is seen as it unfolds once the positional array has been emptied. -/
  positional_shown : ∃ ts, (∀ room, b.config.maxDepth < room →
      vs.mapM (((w.setItems positional []).passage b.interpreter b.config).unfold room) = some ts) ∧
    (w₁.interpreter b.interpreter).heap.Shows hs ts
  /-- A named value is seen as it unfolds once both collections have been emptied. -/
  named_shown : ∃ ts, (∀ room, b.config.maxDepth < room →
      (es.map (·.2)).mapM ((((w.setItems positional []).setEntries named []).passage b.interpreter
        b.config).unfold room) = some ts) ∧
    (w₁.interpreter b.interpreter).heap.Shows (pairs.map (·.2)) ts
  /-- So a value that does not lead to a collection is seen as it was. -/
  positional_apart : ∀ v ∈ vs, ¬ w.store.LeadsFrom v positional → ∀ room,
    ((w.setItems positional []).passage b.interpreter b.config).unfold room v
      = (w.passage b.interpreter b.config).unfold room v
  named_apart : ∀ e ∈ es, ¬ w.store.LeadsFrom e.2 positional → ¬ w.store.LeadsFrom e.2 named →
    ∀ room, (((w.setItems positional []).setEntries named []).passage b.interpreter
        b.config).unfold room e.2
      = (w.passage b.interpreter b.config).unfold room e.2

variable {b : Bridge} {positional named : ObjectId} {vs : List Value} {es : List (String × Value)}
variable {pairs : List (Handle × Handle)} {outside : List ObjectId}

/-- Emptying the positional array is not seen by a value that does not lead to it. -/
theorem unfold_setItems (hv : ¬ w.store.LeadsFrom v positional) (room : Nat) :
    ((w.setItems positional []).passage i config).unfold room v
      = (w.passage i config).unfold room v := by
  refine @Passage.unfold_of_not_leads (w.passage i config)
    ((w.setItems positional []).passage i config) rfl rfl [positional] ?_ room v ?_
  · intro id hid
    rw [List.mem_singleton] at hid
    exact (get?_setItems w positional [] id).trans (if_neg hid)
  · intro id hid
    rw [List.mem_singleton.1 hid]
    exact hv

/-- Nor is the emptying of the named hash. -/
theorem unfold_setEntries (hpositional : ¬ w.store.LeadsFrom v positional)
    (hnamed : ¬ w.store.LeadsFrom v named) (room : Nat) :
    (((w.setItems positional []).setEntries named []).passage i config).unfold room v
      = (w.passage i config).unfold room v := by
  refine @Passage.unfold_of_not_leads (w.passage i config)
    (((w.setItems positional []).setEntries named []).passage i config) rfl rfl
    [positional, named] ?_ room v ?_
  · intro id hid
    obtain ⟨hne, hne'⟩ : id ≠ positional ∧ id ≠ named := by simpa using hid
    refine (get?_setEntries _ named [] id).trans ?_
    rw [if_neg hne', get?_setItems, if_neg hne]
    rfl
  · intro id hid
    rcases List.mem_pair.1 hid with rfl | rfl
    · exact hpositional
    · exact hnamed

/-- What is passed is a temporary. -/
theorem Carried.mem_temps (hcarried : Carried held w₀ i hs w w₁) (hk : k ∈ hs) :
    k ∈ (w₁.interpreter i).stack.temps.toList := by
  rw [hcarried.stack]
  simp [ArgumentStack.pass, hk]

/-- A hash that is emptied before and after has no other content then. -/
theorem object_setEntries (hobject : ∀ id o, w₁.store.get? id = some o → w.store.get? id = some o)
    (id : ObjectId) (entries : List (String × Value)) (j : ObjectId) (o : HostObject)
    (ho : (w₁.setEntries id entries).store.get? j = some o) :
    (w.setEntries id entries).store.get? j = some o := by
  rw [get?_setEntries] at ho ⊢
  split at ho
  · rename_i hj
    obtain ⟨o', ho', rfl⟩ := Option.map_eq_some_iff.1 ho
    rw [if_pos hj, hobject j o' ho', Option.map_some]
  · rename_i hj
    rw [if_neg hj]
    exact hobject j o ho

/-- Two collections that are handed over are seen. -/
theorem HandsOver.seen (hhands : HandsOver b positional named w vs es hs pairs w₁)
    (hhost : w₀.holds.get b.interpreter.number ≠ 0)
    (hset : Settled held w₀ (positional :: named :: outside) w) :
    Seen b positional named vs es hs pairs w w₁ := by
  obtain ⟨-, hcarried, hspells, hvs, hes⟩ := hhands.carried hhost hset.toBalanced
  obtain ⟨-, hpasses, hes₂, hnamed⟩ := hhands
  rename_i w₂ w₃
  have hdrained := hset.setItems hvs
  obtain ⟨hset₂, -, ts, hunfold, hshows⟩ := hpasses.shows hhost hdrained
  obtain ⟨-, hpassed⟩ := hpasses.passed hhost hdrained.toBalanced
  have hdrained₂ := hset₂.setEntries hes₂
  obtain ⟨hset₃, hrecalls₃, us, hunfold₃, hshows₃⟩ := hnamed.shows hhost hdrained₂
  obtain ⟨-, hpassed₃, -⟩ := hnamed.passed hhost hdrained₂.toBalanced
  -- both sets of scalars are temporaries when the collections go
  have hhs : ∀ k ∈ hs, k ∈ (w₂.interpreter b.interpreter).stack.temps.toList :=
    fun k hk => hpassed.mem_temps hk
  have hpairs : ∀ k ∈ pairs.map (·.2), k ∈ (w₃.interpreter b.interpreter).stack.temps.toList := by
    intro k hk
    obtain ⟨pair, hpair, rfl⟩ := List.mem_map.1 hk
    exact hpassed₃.mem_temps (List.mem_flatMap.2 ⟨pair, hpair, .tail _ (.head _)⟩)
  have hdropped : (w₃.interpreter b.interpreter).Recalls
      ((w₃.dropObjects [named, positional]).interpreter b.interpreter) := by
    have hset₃' : Settled held w₀ ([named, positional] ++ outside) w₃ :=
      ⟨hset₃.toBalanced, hset₃.rest, hset₃.counted.move rfl fun id => by
        rw [(List.Perm.swap named positional outside).count_eq]
        rfl⟩
    exact (hset₃'.release hhost).2
  refine ⟨hcarried.stack, hspells, ⟨ts, hunfold, ?_⟩, ⟨us, ?_, ?_⟩,
    fun v _ hv => unfold_setItems hv, fun e _ hpos hnam => unfold_setEntries hpos hnam⟩
  · exact hdropped.shows hs ts (fun k hk => hrecalls₃.temps k (hhs k hk))
      (hrecalls₃.shows hs ts hhs hshows)
  · intro room hroom
    rw [← hunfold₃ room hroom]
    exact hdrained₂.mapM_unfold_eq (object_setEntries hpassed.object named []) room
  · exact hdropped.shows _ us hpairs hshows₃

/-- Arguments that are pushed are seen as they unfold in the store in which their collections have
been emptied, and as they were if they do not lead there. -/
theorem arguments_seen {n : Nat} (hbal : Balanced held w w)
    (hhost : w.holds.get b.interpreter.number ≠ 0) (hrest : w.AtRest)
    (hcount : w.Counted (positional :: named :: outside))
    (hvs : w.store.get? positional = some (.array vs)) (hes : w.store.get? named = some (.hash es))
    (hpush : w.passArguments b positional named = (.ok n, w₁)) :
    n = vs.length + 2 * es.length ∧
      ∃ hs pairs, Seen b positional named vs es hs pairs w w₁ := by
  rcases hall : w.pushAll b.interpreter b.config positional named with ⟨result, w'⟩
  rw [passArguments, hall] at hpush
  obtain ⟨rfl, rfl⟩ := Prod.mk.inj hpush
  obtain ⟨hs, pairs, w₂, w₃, hn, hpasses, hnamed, heq⟩ := pushAll_ok hall
  have hset : Settled held w (positional :: named :: outside) w := ⟨hbal, hrest, hcount⟩
  rw [show w.store.items positional = vs by rw [Store.items, hvs]] at hn hpasses
  have hdrained := hset.setItems hvs
  -- the hash is held, so it is there with its entries when its turn comes
  obtain ⟨hset₂, -⟩ := hpasses.shows hhost hdrained
  obtain ⟨-, hpassed⟩ := hpasses.passed hhost hdrained.toBalanced
  have hes₂ : w₂.store.get? named = some (.hash es) := by
    obtain ⟨o, ho⟩ := hset₂.counted.exists_of_mem (.tail _ (.head _))
    have hbefore := hpassed.object named o ho
    rw [get?_setItems, if_neg, hes] at hbefore
    · rw [ho, hbefore]
    · rintro rfl
      rw [hvs] at hes
      cases hes
  rw [show w₂.store.entries named = es by rw [Store.entries, hes₂]] at hn hnamed
  have hhands :
      HandsOver b positional named w vs es hs pairs (w₃.dropObjects [named, positional]) :=
    .intro hvs hpasses hes₂ hnamed
  rw [← heq] at hhands
  have hseen := hhands.seen hhost hset
  exact ⟨hn, hs, pairs, hseen.stack, hseen.keys, hseen.positional_shown, hseen.named_shown,
    hseen.positional_apart, hseen.named_apart⟩

/-- A hash whose value is an array with one text. -/
def sharedArray : World :=
  let w := ({} : World).newInterpreter.2
  let w := (w.newArray [.text "1"]).2
  let w := w.retainObject ⟨0⟩
  (w.newHash [("k", .array ⟨0⟩)]).2

/-- The bridge to its interpreter. -/
def sharedArrayBridge : Bridge := { interpreter := ⟨1⟩, collector := ⟨0⟩ }

/-- The array is the positional array of a call as well. -/
theorem arguments_seen_sharedArray :
    ∃ w₁ hs pairs, sharedArray.passArguments sharedArrayBridge ⟨0⟩ ⟨1⟩ = (.ok 3, w₁) ∧
      Seen sharedArrayBridge ⟨0⟩ ⟨1⟩ [.text "1"] [("k", .array ⟨0⟩)] hs pairs sharedArray w₁ := by
  have hbal : Balanced [] sharedArray sharedArray :=
    (((balanced_empty.newInterpreter.newArray _).retainObject ⟨0⟩).newHash _).rebase
  have hrest : sharedArray.AtRest := by
    rintro ⟨n⟩
    match n with
    | 0 | 1 => exact ⟨Heap.wellFormed_empty, rfl⟩
    | n + 2 => exact ⟨Heap.wellFormed_empty, rfl⟩
  have hcount : sharedArray.Counted [⟨0⟩, ⟨1⟩] := by
    refine ⟨?_, ?_⟩
    · rintro ⟨n⟩
      match n with
      | 0 | 1 => decide
      | n + 2 => rfl
    · rintro ⟨n⟩ h hh
      match n with
      | 0 | 1 => exact Option.some.inj hh ▸ by decide
      | n + 2 => cases hh
  have hok : (sharedArray.passArguments sharedArrayBridge ⟨0⟩ ⟨1⟩).1 = .ok 3 := by decide +kernel
  have hvs : sharedArray.store.get? ⟨0⟩ = some (.array [.text "1"]) := by decide +kernel
  have hes : sharedArray.store.get? ⟨1⟩ = some (.hash [("k", .array ⟨0⟩)]) := by decide +kernel
  obtain ⟨-, hs, pairs, hseen⟩ :=
    arguments_seen hbal (by decide +kernel) hrest hcount hvs hes (Prod.ext hok rfl)
  exact ⟨_, hs, pairs, Prod.ext hok rfl, hseen⟩

/-- The guest gets the array empty for the named value, which is not what it unfolds to. -/
theorem emptying_shows : ∃ w₁,
    sharedArray.passArguments sharedArrayBridge ⟨0⟩ ⟨1⟩ = (.ok 3, w₁) ∧
      (w₁.interpreter ⟨1⟩).stack.values = #[⟨0, 0⟩, ⟨1, 0⟩, ⟨3, 0⟩] ∧
      (∀ room, sharedArrayBridge.config.maxDepth < room →
        (sharedArray.passage ⟨1⟩ sharedArrayBridge.config).unfold room (.array ⟨0⟩)
          = some (.array [.str (Utf8.encode "1")])) ∧
      ¬ (w₁.interpreter ⟨1⟩).heap.Shows [⟨3, 0⟩] [.array [.str (Utf8.encode "1")]] := by
  have hok : (sharedArray.passArguments sharedArrayBridge ⟨0⟩ ⟨1⟩).1 = .ok 3 := by decide +kernel
  refine ⟨_, Prod.ext hok rfl, by decide +kernel, ?_, ?_⟩
  · intro room hroom
    exact Passage.unfold_mono (by rfl) hroom
  · have href : ((sharedArray.passArguments sharedArrayBridge ⟨0⟩ ⟨1⟩).2.interpreter
        ⟨1⟩).heap.body ⟨3, 0⟩ = .ok (.ref ⟨2, 0⟩) := by decide +kernel
    have harray : ((sharedArray.passArguments sharedArrayBridge ⟨0⟩ ⟨1⟩).2.interpreter
        ⟨1⟩).heap.body ⟨2, 0⟩ = .ok (.array []) := by decide +kernel
    rintro (_ | _ | _ | _ | _ | ⟨hc, ha, hitems, -⟩)
    rw [href] at hc
    cases hc
    rw [harray] at ha
    cases ha
    cases hitems

end World

end GuestBridge
