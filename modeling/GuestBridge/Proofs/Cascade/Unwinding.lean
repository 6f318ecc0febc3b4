import GuestBridge.World.Release

/-!
# A release step by step

`World.release` answers the world in which a release ends and says nothing about what lies in
between. Here a release is a run of single steps (`Unwinding.Step`), and `Unwinds` lists the
situations through which it goes. Each step lowers the weight of the world together with the number
of steps that are still to be done, so a release comes to its end (`unwinds_release`), and in at
most that many steps (`Unwinds.length_le`). What every step keeps is kept by the whole release
(`World.release_induct`, and `World.release_rel` for a relation between two worlds).

In some of these situations a heap has just freed scalars and hands over their bodies
(`Unwinding.handed`), and in some a boundary object drops its share (`Unwinding.dropped`).
-/

namespace GuestBridge

/-- A release under way: the steps still to be done, and the world. -/
structure Unwinding where
  steps : List ReleaseStep
  world : World

namespace Unwinding

/-- One step of a release. -/
inductive Step : Unwinding → Unwinding → Prop
  | report {e rest w} : Step ⟨.report e :: rest, w⟩ ⟨rest, w.report e⟩
  /-- Something else still holds on to the interpreter. -/
  | held {i rest w} : (w.isHeld i || rest.contains (.interpreter i)) = true →
      Step ⟨.interpreter i :: rest, w⟩ ⟨rest, w⟩
  /-- The interpreter ends. -/
  | ends {i rest w} : ¬ (w.isHeld i || rest.contains (.interpreter i)) = true →
      Step ⟨.interpreter i :: rest, w⟩ ⟨(w.endInterpreter i).1 ++ rest, (w.endInterpreter i).2⟩
  | absent {id rest w} : w.store.holding? id = none → Step ⟨.holder id :: rest, w⟩ ⟨rest, w⟩
  /-- The last holder lets go. -/
  | last {id h rest} {w : World} : w.store.holding? id = some h → h.holders - 1 = 0 →
      Step ⟨.holder id :: rest, w⟩
        ⟨(World.dismantle { w with store := w.store.put id none } h.object).1 ++ rest,
          (World.dismantle { w with store := w.store.put id none } h.object).2⟩
  /-- Another holder lets go. -/
  | fewer {id h rest} {w : World} : w.store.holding? id = some h → ¬ h.holders - 1 = 0 →
      Step ⟨.holder id :: rest, w⟩
        ⟨rest, { w with store := w.store.put id (some { h with holders := h.holders - 1 }) }⟩

/-- What bounds the number of steps to come. -/
def weight (u : Unwinding) : Nat := u.world.weight + u.steps.length

theorem Step.weight_lt {u u' : Unwinding} (hstep : Step u u') : u'.weight < u.weight := by
  cases hstep with
  | report | held => simp [weight, World.weight, World.report]
  | absent => simp [weight]
  | @ends i rest w =>
    have hend := w.weight_endInterpreter i
    simp only [weight, List.length_append, List.length_cons]
    omega
  | @last id h rest w hh =>
    have hput := Store.weight_put_none hh
    have hparts := World.weight_dismantle { w with store := w.store.put id none } h.object
    simp only [weight, World.weight, List.length_append, List.length_cons] at hparts ⊢
    omega
  | @fewer id h rest w hh =>
    have hput := Store.weight_put_holders hh (h.holders - 1)
    simp only [weight, World.weight, List.length_cons]
    omega

/-! ## What happens in a step -/

end Unwinding

/-- The bodies that an interpreter has freed and not handed over yet. -/
def Interpreter.parked (i : InterpreterId) (it : Interpreter) : List (InterpreterId × Body) :=
  it.heap.freed.toList.map (i, ·)

namespace Unwinding

/-- The bodies that are handed over in the next step. -/
def handed : Unwinding → List (InterpreterId × Body)
  | ⟨.holder id :: _, w⟩ =>
    match w.store.holding? id with
    | some ⟨holders, .boundary owner handle⟩ =>
      if holders - 1 = 0 then ((w.interpreter owner).unshare handle).2.parked owner else []
    | _ => []
  | ⟨.interpreter i :: rest, w⟩ =>
    if w.isHeld i || rest.contains (.interpreter i) then [] else (w.interpreter i).clear.parked i
  | _ => []

/-- The boundary object that drops its share in the next step. -/
def dropped : Unwinding → List ObjectId
  | ⟨.holder id :: _, w⟩ =>
    match w.store.holding? id with
    | some ⟨holders, .boundary _ _⟩ => if holders - 1 = 0 then [id] else []
    | _ => []
  | _ => []

end Unwinding

/-! ## Runs -/

/-- A release goes through some situations, first to last, and ends with a world. -/
inductive Unwinds : Unwinding → List Unwinding → World → Prop
  | done {w} : Unwinds ⟨[], w⟩ [] w
  | step {u u' us w} : Unwinding.Step u u' → Unwinds u' us w → Unwinds u (u :: us) w

theorem Unwinds.length_le {u : Unwinding} {us : List Unwinding} {w : World}
    (hrun : Unwinds u us w) : us.length ≤ u.weight := by
  induction hrun with
  | done => exact Nat.zero_le _
  | step hstep _ ih =>
    have hlt := hstep.weight_lt
    rw [List.length_cons]
    omega

/-- A release is such a run. -/
theorem unwinds_release (steps : List ReleaseStep) (w : World) :
    ∃ us, Unwinds ⟨steps, w⟩ us (w.release steps) := by
  fun_induction World.release steps w with
  | case1 w => exact ⟨[], .done⟩
  | case2 w e rest ih =>
    obtain ⟨us, hus⟩ := ih
    exact ⟨_, .step .report hus⟩
  | case3 w i rest hheld ih =>
    obtain ⟨us, hus⟩ := ih
    exact ⟨_, .step (.held hheld) hus⟩
  | case4 w i rest hheld more after hend ih =>
    obtain ⟨us, hus⟩ := ih
    have hstep := Unwinding.Step.ends hheld
    rw [hend] at hstep
    exact ⟨_, .step hstep hus⟩
  | case5 w id rest hh ih =>
    obtain ⟨us, hus⟩ := ih
    exact ⟨_, .step (.absent hh) hus⟩
  | case6 w id rest h hh hlast more after hd ih =>
    obtain ⟨us, hus⟩ := ih
    have hstep := @Unwinding.Step.last id h rest w hh hlast
    rw [hd] at hstep
    exact ⟨_, .step hstep hus⟩
  | case7 w id rest h hh hlast ih =>
    obtain ⟨us, hus⟩ := ih
    exact ⟨_, .step (.fewer hh hlast) hus⟩

/-- What each step keeps holds in every situation of a run and at its end. -/
theorem Unwinds.induct {P : Unwinding → Prop} {u : Unwinding} {us : List Unwinding} {w : World}
    (hrun : Unwinds u us w) (hu : P u) (hstep : ∀ u u', P u → Unwinding.Step u u' → P u') :
    (∀ x ∈ us, P x) ∧ P ⟨[], w⟩ := by
  induction hrun with
  | done => exact ⟨by simp, hu⟩
  | step hfirst _ ih =>
    obtain ⟨hrest, hend⟩ := ih (hstep _ _ hu hfirst)
    exact ⟨List.forall_mem_cons.2 ⟨hu, hrest⟩, hend⟩

namespace World

variable {steps : List ReleaseStep} {w : World}

/-- What each step keeps, a release keeps. -/
theorem release_induct {P : Unwinding → Prop} (hstart : P ⟨steps, w⟩)
    (hstep : ∀ u u', P u → Unwinding.Step u u' → P u') : P ⟨[], w.release steps⟩ := by
  obtain ⟨us, hrun⟩ := unwinds_release steps w
  exact (hrun.induct hstart hstep).2

/-- A relation that composes and holds across each step holds across a release. -/
theorem release_rel {R : World → World → Prop} (hrefl : ∀ w, R w w)
    (htrans : ∀ {w w₁ w₂}, R w w₁ → R w₁ w₂ → R w w₂)
    (hstep : ∀ {u u'}, Unwinding.Step u u' → R u.world u'.world) (steps : List ReleaseStep)
    (w : World) : R w (w.release steps) :=
  release_induct (P := fun u => R w u.world) (hrefl w) fun _ _ hbefore hnext =>
    htrans hbefore (hstep hnext)

end World

end GuestBridge
