import GuestBridge.Routine.Basic

/-!
# What the pieces of an operation do to the world

Operations on host objects, and everything that goes on around a guest call, are made of a few
pieces: objects are let go of or have more holders, a collection is written to, an object is made, an
argument is pushed. So whatever relates a world to the one after each of these pieces, and can be
composed, relates the world before the whole to the one after it, however that ends.

* `World.HostClosed` — a relation that composes and that the pieces on the side of the host keep;
  then each operation on host objects keeps it (`HostClosed.perform`)
* `World.ArgumentClosed` — besides, it is kept whenever a single argument is pushed; then so it is
  when all are (`ArgumentClosed.pushAll`, `ArgumentClosed.prepareMethod`)
-/

namespace GuestBridge

/-- Does an operation act on host objects alone? -/
def Op.onObjects : Op → Bool
  | unwrap .. | newArray .. | newHash .. | newObject .. | retain .. | drop .. | dropEach ..
  | dropObject .. | arrayPush .. | arrayUnshift .. | arrayShift .. | arrayGet .. | arrayDrain ..
  | arrayClear .. | arrayList .. | hashInsert .. | hashGet .. | hashDrain .. => true
  | _ => false

namespace World

/-- A relation between worlds that composes and is kept when objects are let go of, when values have
more holders, when a collection is written to, and when an object is made that is no boundary
object. -/
structure HostClosed (R : World → World → Prop) : Prop where
  refl : ∀ w, R w w
  trans : ∀ {w w₁ w₂}, R w w₁ → R w₁ w₂ → R w w₂
  dropObjects : ∀ (w : World) ids, R w (w.dropObjects ids)
  retainValues : ∀ (w : World) vs, R w (w.onStore (·.retainValues vs))
  setItems : ∀ (w : World) id items, R w (w.setItems id items)
  setEntries : ∀ (w : World) id entries, R w (w.setEntries id entries)
  addObject : ∀ (w : World) {o}, (∀ owner handle, o ≠ .boundary owner handle) →
    R w (w.addObject o).2

/-- A relation that is also kept when an argument is pushed on an interpreter: a value, a key or a
receiver. -/
structure ArgumentClosed (i : InterpreterId) (R : World → World → Prop) : Prop
    extends HostClosed R where
  pushConverted : ∀ (w : World) config v, R w (w.pushConverted i config v).2
  pushKey : ∀ (w : World) config key, R w (w.pushKey i config key).2
  pushInvocant : ∀ (w : World) config invocant, R w (w.pushInvocant i config invocant).2

variable {i : InterpreterId} {R : World → World → Prop}

/-! ## Host objects -/

namespace HostClosed

theorem drop (hR : HostClosed R) (w : World) (v : Value) : R w (w.drop v) :=
  hR.dropObjects w v.shared?.toList

theorem dropEach (hR : HostClosed R) (w : World) (vs : List Value) : R w (w.dropEach vs) := by
  have hdrop := hR.dropObjects w (vs.flatMap (·.shared?.toList))
  rwa [World.dropObjects, List.map_flatMap] at hdrop

theorem retain (hR : HostClosed R) (w : World) (v : Value) : R w (w.retain v) :=
  hR.retainValues w [v]

theorem newArray (hR : HostClosed R) (w : World) (items : List Value) :
    R w (w.newArray items).2 := hR.addObject w nofun

theorem newClosure (hR : HostClosed R) (w : World) (code : Nat) (captured : List Value) :
    R w (w.newClosure code captured).2 :=
  hR.trans (hR.retainValues w captured) (hR.addObject (o := .closure code captured) _ nofun)

theorem hashInsert (hR : HostClosed R) (w : World) (id : ObjectId) (key : String) (v : Value) :
    R w (w.hashInsert id key v) := by
  have hset := hR.setEntries w id (Entries.insert key v (w.store.entries id))
  unfold World.hashInsert
  dsimp only
  split
  · exact hR.trans hset (hR.drop _ _)
  · exact hset

theorem newHash (hR : HostClosed R) (w : World) (pairs : List (String × Value)) :
    R w (w.newHash pairs).2 := by
  have hinserts : ∀ (id : ObjectId) (w : World),
      R w (pairs.foldl (fun w pair => w.hashInsert id pair.1 pair.2) w) := by
    intro id
    induction pairs with
    | nil => exact hR.refl
    | cons pair rest ih => exact fun w => hR.trans (hR.hashInsert w id pair.1 pair.2) (ih _)
  exact hR.trans (hR.addObject (o := .hash []) w nofun) (hinserts _ _)

theorem arrayShift (hR : HostClosed R) (w : World) (id : ObjectId) : R w (w.arrayShift id).2 := by
  unfold World.arrayShift
  split
  · exact hR.refl w
  · exact hR.setItems w id _

theorem arrayGet (hR : HostClosed R) (w : World) (id : ObjectId) (index : Nat) :
    R w (w.arrayGet id index).2 := by
  unfold World.arrayGet
  split
  · exact hR.retain w _
  · exact hR.refl w

theorem hashGet (hR : HostClosed R) (w : World) (id : ObjectId) (key : String) :
    R w (w.hashGet id key).2 := by
  unfold World.hashGet
  split
  · exact hR.retain w _
  · exact hR.refl w

theorem unwrap (hR : HostClosed R) (w : World) (b : Bridge) (v : Value) :
    R w (w.unwrap b v).2 := by
  unfold World.unwrap
  split
  · exact hR.retain w _
  · exact hR.refl w

/-- The relation holds from the world before an operation on host objects to the one after it. -/
theorem perform (hR : HostClosed R) {o : Op} (ho : o.onObjects = true) (w : World) :
    R w (o.perform w).2 := by
  cases o with
  | unwrap b v => exact hR.unwrap w b v
  | newArray => exact hR.newArray w _
  | newHash pairs => exact hR.newHash w pairs
  | newObject => exact hR.addObject w nofun
  | retain v => exact hR.retain w v
  | drop v => exact hR.drop w v
  | dropEach vs => exact hR.dropEach w vs
  | dropObject id => exact hR.dropObjects w [id]
  | arrayPush | arrayUnshift | arrayDrain => exact hR.setItems w _ _
  | arrayShift id => exact hR.arrayShift w id
  | arrayGet id index => exact hR.arrayGet w id index
  | arrayClear id => exact hR.trans (hR.setItems w id []) (hR.dropEach _ _)
  | arrayList id => exact hR.retainValues w _
  | hashInsert id key v => exact hR.hashInsert w id key v
  | hashGet id key => exact hR.hashGet w id key
  | hashDrain id => exact hR.setEntries w id []
  | _ => cases ho

/-! ## Results -/

theorem popResults (hR : HostClosed R) (hpop : ∀ w : World, R w (w.guest i (·.pop)).2)
    (hwrap : ∀ (w : World) h, R w (w.wrapScalar i h).2) (n : Nat) (wrapped : List Value)
    (w : World) : R w (World.popResults i n wrapped w).2 := by
  induction n generalizing wrapped w with
  | zero => exact hR.refl w
  | succ n ih =>
    have hfirst := hpop w
    rw [World.popResults]
    split
    · rename_i heq
      rw [heq] at hfirst
      exact hR.trans hfirst (hR.dropEach _ _)
    · rename_i h w₁ heq
      rw [heq] at hfirst
      have hwrapped := hR.trans hfirst (hwrap w₁ h)
      split
      · rename_i heq'
        rw [heq'] at hwrapped
        exact hR.trans hwrapped (hR.dropEach _ _)
      · rename_i heq'
        rw [heq'] at hwrapped
        exact hR.trans hwrapped (ih _ _)

theorem boxResults (hR : HostClosed R) (hpop : ∀ w : World, R w (w.guest i (·.pop)).2)
    (hwrap : ∀ (w : World) h, R w (w.wrapScalar i h).2) (w : World) (count : Nat) :
    R w (w.boxResults i count).2 := by
  have hpops := hR.popResults hpop hwrap count [] w
  unfold World.boxResults
  split
  · rename_i heq
    rw [heq] at hpops
    exact hR.trans hpops (hR.newArray _ _)
  · rename_i heq
    rw [heq] at hpops
    exact hpops

/-! ## Arguments -/

theorem takeInvocantSlot (hR : HostClosed R) (w : World) (config : Config)
    (positional : ObjectId) : R w (w.takeInvocantSlot config positional).2 := by
  have hshift := hR.arrayShift w positional
  unfold World.takeInvocantSlot
  split
  · rename_i heq
    rw [heq] at hshift
    exact hR.trans hshift (hR.drop _ _)
  · rename_i heq
    rw [heq] at hshift
    exact hshift

/-- An argument is pushed in two pieces: a scalar is converted, made or shared, and becomes a
temporary. -/
theorem arguments (hR : HostClosed R)
    (hconvert : ∀ (w : World) config v, R w (w.convert i config v).2)
    (hcreate : ∀ (w : World) body, R w (w.guest i (·.create body)).2)
    (hshare : ∀ (w : World) h, R w (w.guest i (·.share h)).2)
    (hpush : ∀ (w : World) h, R w (w.pushTemporary i h).2) : ArgumentClosed i R := by
  have hconverted : ∀ (w : World) config v, R w (w.pushConverted i config v).2 := by
    intro w config v
    have hfirst := hconvert w config v
    unfold World.pushConverted
    split
    · rename_i heq
      rw [heq] at hfirst
      exact hR.trans hfirst (hpush _ _)
    · rename_i heq
      rw [heq] at hfirst
      exact hfirst
  refine ⟨hR, hconverted, fun w _ _ => hR.trans (hcreate w _) (hpush _ _), ?_⟩
  intro w config invocant
  match invocant with
  | .namespace name => exact hconverted w config (.text name)
  | .scalar h =>
    have hfirst := hshare w h
    rw [World.pushInvocant]
    split
    · rename_i heq
      rw [heq] at hfirst
      exact hR.trans hfirst (hpush _ h)
    · rename_i heq
      rw [heq] at hfirst
      exact hfirst

end HostClosed

namespace ArgumentClosed

theorem pushPositional (hR : ArgumentClosed i R) (config : Config) (vs : List Value) (w : World) :
    R w (World.pushPositional i config vs w).2 := by
  induction vs generalizing w with
  | nil => exact hR.refl w
  | cons v rest ih =>
    have hfirst := hR.pushConverted w config v
    rw [World.pushPositional]
    split
    · rename_i heq
      rw [heq] at hfirst
      exact hR.trans hfirst (hR.dropEach _ _)
    · rename_i w₁ heq
      rw [heq] at hfirst
      have hrest := hR.trans (hR.trans hfirst (hR.drop w₁ v)) (ih (w₁.drop v))
      split <;> (rename_i heq'; rw [heq'] at hrest; exact hrest)

theorem pushNamed (hR : ArgumentClosed i R) (config : Config) (pairs : List (String × Value))
    (w : World) : R w (World.pushNamed i config pairs w).2 := by
  induction pairs generalizing w with
  | nil => exact hR.refl w
  | cons pair rest ih =>
    obtain ⟨key, v⟩ := pair
    have hkey := hR.pushKey w config key
    rw [World.pushNamed]
    split
    · rename_i heq
      rw [heq] at hkey
      exact hR.trans hkey (hR.dropEach _ _)
    · rename_i w₁ heq
      rw [heq] at hkey
      have hvalue := hR.trans hkey (hR.pushConverted w₁ config v)
      split
      · rename_i heq'
        rw [heq'] at hvalue
        exact hR.trans hvalue (hR.dropEach _ _)
      · rename_i w₂ heq'
        rw [heq'] at hvalue
        have hrest := hR.trans (hR.trans hvalue (hR.drop w₂ v)) (ih (w₂.drop v))
        split <;> (rename_i heq''; rw [heq''] at hrest; exact hrest)

theorem pushAll (hR : ArgumentClosed i R) (w : World) (config : Config)
    (positional named : ObjectId) : R w (w.pushAll i config positional named).2 := by
  have hfirst := hR.trans (hR.setItems w positional [])
    (hR.pushPositional config (w.arrayDrain positional).1 (w.arrayDrain positional).2)
  unfold World.pushAll
  dsimp only
  split
  · rename_i heq
    rw [heq] at hfirst
    exact hR.trans hfirst (hR.dropObjects _ _)
  · rename_i w₁ heq
    rw [heq] at hfirst
    have hboth := hR.trans (hR.trans hfirst (hR.setEntries w₁ named []))
      (hR.pushNamed config (w₁.hashDrain named).1 (w₁.hashDrain named).2)
    split <;> (rename_i heq'; rw [heq'] at hboth; exact hR.trans hboth (hR.dropObjects _ _))

theorem prepareSub {b : Bridge} (hR : ArgumentClosed b.interpreter R)
    (positional named : ObjectId) (w : World) : R w (World.prepareSub b positional named w).2 :=
  hR.pushAll w b.config positional named

theorem prepareMethod {b : Bridge} (hR : ArgumentClosed b.interpreter R) (invocant : Invocant)
    (positional named : ObjectId) (w : World) :
    R w (World.prepareMethod b invocant positional named w).2 := by
  have hfirst := hR.pushInvocant w b.config invocant
  unfold World.prepareMethod
  split
  · rename_i heq
    rw [heq] at hfirst
    exact hfirst
  · rename_i w₁ heq
    rw [heq] at hfirst
    have hslot := hR.trans hfirst (hR.takeInvocantSlot w₁ b.config positional)
    split
    · rename_i heq'
      rw [heq'] at hslot
      exact hslot
    · rename_i heq'
      rw [heq'] at hslot
      exact hR.trans hslot (hR.prepareSub positional named _)

end ArgumentClosed

end World

end GuestBridge
