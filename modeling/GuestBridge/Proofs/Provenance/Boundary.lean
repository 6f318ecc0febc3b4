import GuestBridge.Proofs.Conversion.Fidelity
import GuestBridge.Proofs.Provenance.Operations

/-!
# Whose scalar a handle names

A handle is an index and a generation. An interpreter that is given one looks at its own heap and at
nothing else, so what it can tell is whether the handle is one of its own. Along a run, with any
number of interpreters and any handles passed between them:

* the handle of a boundary object has been issued by the heap of the interpreter that the object
  names, and a handle that an interpreter has not issued is refused by it, in each of the three
  places where a bridge takes a handle (`handle_provenance`)
* two interpreters issue equal handles, and then neither of them can tell: a scalar is wrapped that
  has nothing to do with the one the handle was issued for (`lending_confuses`)

Boundary objects over scalars that are gone stay stale in the same way that handles do, as long as
no slot has been emptied so often that its generation has come around (`World.Logged.spared`).
-/

namespace GuestBridge

open Heap (Sounds replay issued timesEmptied)

/-! ## The log of a run -/

namespace State

variable {r : Routine} {s t : State} {log : World.Log} {n : Nat}

/-- A log of the run of a routine up to a state: for each step, what has led the heaps on in it. -/
inductive Traced (r : Routine) : State → World.Log → Prop where
  | start : Traced r { routine := r } fun _ => []
  | step {s t : State} {log more : World.Log} (htraced : Traced r s log) (hstep : s.step = some t)
      (hsounds : ∀ i, Sounds (more i) (s.machine.world.interpreter i).heap)
      (hheap : ∀ i, replay (more i) (s.machine.world.interpreter i).heap
        = (t.machine.world.interpreter i).heap) : Traced r t fun i => log i ++ more i

/-- The log leads from empty heaps to those of the state. -/
theorem Traced.leads (htraced : Traced r s log) (i : InterpreterId) :
    Sounds (log i) {} ∧ replay (log i) {} = (s.machine.world.interpreter i).heap := by
  induction htraced with
  | start => exact ⟨trivial, rfl⟩
  | step _ _ hsounds hheap ih =>
    refine ⟨(Heap.sounds_append _ _ _).2 ⟨ih.1, ?_⟩, ?_⟩
    · rw [ih.2]
      exact hsounds i
    · rw [Heap.replay_append, ih.2, hheap]

theorem Traced.reaches (htraced : Traced r s log) (hlogged : s.machine.world.Logged log)
    (hreach : Reaches n s t) : ∃ log', Traced r t log' ∧ t.machine.world.Logged log' := by
  induction n generalizing s log with
  | zero =>
    obtain rfl : s = t := hreach
    exact ⟨log, htraced, hlogged⟩
  | succ n ih =>
    obtain ⟨u, hstep, hrest⟩ := hreach
    obtain ⟨more, hmore⟩ := (advances_step hstep).continues log hlogged
    have hnext : Traced r u fun i => log i ++ more i := by
      refine htraced.step hstep ?_ ?_
      · intro i
        rw [hlogged.heap]
        exact ((Heap.sounds_append _ _ _).1 (hmore.sounds i)).2
      · intro i
        rw [hlogged.heap, hmore.heap, Heap.replay_append]
    exact ih hnext hmore hrest

end State

/-! ## Handles that are refused -/

namespace World

variable {w : World} {b : Bridge} {h : Handle} {i : InterpreterId}

/-- A bridge refuses a handle as stale wherever it takes one: as the scalar to wrap, as the receiver
of a method call, and as the code to call. -/
structure Refuses (w : World) (b : Bridge) (h : Handle) : Prop where
  wrap : (w.wrap b h).1 = .error (.guest h.stale)
  receiver : ∀ (m : Machine Code) name positional named, m.world = w →
    ((Call.method b name (.scalar h) positional named).start m).1 = .inl (.error (.guest h.stale))
  target : (w.interpreter b.interpreter).targetSub (.code h) = .error h.stale

/-- A share of a scalar that is gone cannot be had. -/
theorem guest_share_fst (hgone : (w.interpreter i).heap.contains h = false) :
    (w.guest i (·.share h)).1 = .error h.stale := by
  rw [guest_fst]
  exact congrArg Prod.fst (Heap.share_eq_of_none (Heap.contains_eq_false_iff.1 hgone))

theorem wrapScalar_fst (hgone : (w.interpreter i).heap.contains h = false) :
    (w.wrapScalar i h).1 = .error (.guest h.stale) := by
  have hshare := guest_share_fst hgone
  unfold wrapScalar
  split
  · rename_i heq
    rw [heq] at hshare
    cases hshare
  · rename_i heq
    rw [heq] at hshare
    cases hshare
    rfl

theorem pushInvocant_fst (hgone : (w.interpreter i).heap.contains h = false) (config : Config) :
    (w.pushInvocant i config (.scalar h)).1 = .error (.guest h.stale) := by
  have hshare := guest_share_fst hgone
  rw [pushInvocant]
  split
  · rename_i heq
    rw [heq] at hshare
    cases hshare
  · rename_i heq
    rw [heq] at hshare
    cases hshare
    rfl

/-- What happens before the receiver is pushed does not bring its scalar back. -/
theorem contains_opened (hgone : (w.interpreter i).heap.contains h = false) :
    ((w.opened i).interpreter i).heap.contains h = false := by
  have hopen := w.heap_guest i (·.openScope)
  have hmark := (w.guest i (·.openScope)).2.heap_guest i fun it => ((), it.mark)
  rw [Heap.contains_eq_false_iff] at hgone ⊢
  cases hc : ((w.opened i).interpreter i).heap.cell? h with
  | none => rfl
  | some c =>
    obtain ⟨c₁, hc₁, -⟩ := hmark.cell h c hc
    obtain ⟨c₂, hc₂, -⟩ := hopen.cell h c₁ hc₁
    rw [show (w.interpreter i).heap.cell? h = some c₂ from hc₂] at hgone
    cases hgone

theorem start_method_fst (hgone : (w.interpreter b.interpreter).heap.contains h = false)
    (m : Machine Code) (name : String) (positional named : ObjectId) (hm : m.world = w) :
    ((Call.method b name (.scalar h) positional named).start m).1
      = .inl (.error (.guest h.stale)) := by
  subst hm
  have hfailed := pushInvocant_fst (contains_opened hgone) b.config
  rcases hpush : (m.world.opened b.interpreter).pushInvocant b.interpreter b.config (.scalar h) with
    ⟨pushed, w₁⟩
  rw [hpush] at hfailed
  dsimp only at hfailed
  subst hfailed
  have hprepare : prepareMethod b (.scalar h) positional named (m.world.opened b.interpreter)
      = ((.error (.guest h.stale), [named, positional]), w₁) := by
    rw [prepareMethod, hpush]
  rw [Call.start, Machine.startAcross, Machine.openAcross_eq hprepare]

/-- A bridge refuses a handle that fits nothing in its interpreter. -/
theorem refuses_of_contains (hgone : (w.interpreter b.interpreter).heap.contains h = false) :
    w.Refuses b h where
  wrap := wrapScalar_fst hgone
  receiver := start_method_fst hgone
  target := by
    have hbody := (Heap.rejects_of_none (Heap.contains_eq_false_iff.1 hgone)).body
    simp only [Interpreter.targetSub, hbody]

end World

/-! ## Generations that have not come around -/

/-- A handle whose slot has been emptied fits again only after `2 ^ 32` times. -/
theorem Heap.Aged.retired {hp : Heap} {h : Handle} {age n : Nat} (haged : hp.Aged h age)
    (hpos : 0 < age) (hlt : age + n < 2 ^ 32) : hp.Retired n h := by
  obtain ⟨⟨slot, hslot, hgen⟩, -⟩ := haged
  have hage : (UInt32.ofNat age).toNat = age :=
    UInt32.toNat_ofNat_of_lt' (show age < 2 ^ 32 by omega)
  have hsub : h.generation - slot.generation = 0 - UInt32.ofNat age := by
    rw [hgen]
    grind
  refine ⟨slot, hslot, ?_⟩
  rw [hsub, UInt32.toNat_sub, hage]
  simp only [UInt32.toNat_zero]
  omega

namespace World

variable {w : World} {i : InterpreterId}

/-- Scalars that are gone stay gone while their slots are emptied so many times more, if that does
not make `2 ^ 32` times altogether. So a conversion meets no boundary object over a new scalar by
mistake. -/
theorem Logged.spared {log : Log} (hlogged : w.Logged log) {n : Nat} (config : Config)
    (hrare : ∀ index, timesEmptied index (log i) + n < 2 ^ 32) :
    (w.passage i config).Spared (w.interpreter i).heap.contains n (w.interpreter i).heap := by
  intro id h hown hgone
  have hboundary : w.store.boundary? id = some (i, h) := by
    unfold Passage.own? at hown
    split at hown
    · rename_i owner handle hid
      split at hown
      · rename_i howner
        cases hown
        rw [show i = owner from howner.symm]
        exact hid
      · cases hown
    · cases hown
  obtain ⟨age, hle, haged⟩ := Heap.aged_of_mem_issued Heap.wellFormed_empty (hlogged.sounds i)
    (hlogged.boundary id i h hboundary)
  rw [← hlogged.heap] at haged
  have hpos : 0 < age := by
    refine Nat.pos_of_ne_zero fun hzero => ?_
    obtain ⟨c, hc⟩ := haged.cell hzero
    rw [Heap.contains_eq_false_iff, hc] at hgone
    cases hgone
  have := hrare h.index
  exact haged.retired hpos (by omega)

end World

/-! ## Equal handles -/

/-- A bridge to the second interpreter. -/
def secondBridge : Bridge := { interpreter := ⟨2⟩, collector := ⟨0⟩ }

/-- Two interpreters with a number and a sub each, and one more number in the first one. Then a
scalar of the first one is wrapped across a bridge to the second one. -/
def lending : Routine :=
  .closure [] (fun _ _ => .finish (.ok [])) fun f =>
    .act .newInterpreter fun i => .act .newInterpreter fun j =>
      .act (.create i (.int 7)) fun h => .act (.newCode i "mine" f) fun _ =>
        .act (.create i (.int 9)) fun _ =>
          .act (.create j (.int 8)) fun _ => .act (.newCode j "yours" f) fun _ =>
            .act (.wrap secondBridge h) fun _ => .finish (.ok [])

/-! ## Runs -/

/-- In every state of every run, with any number of interpreters: the handle of a boundary object
has been issued by the heap of the interpreter that the object names. A bridge refuses each handle
that its interpreter has not issued, whichever interpreter has. -/
theorem handle_provenance {r : Routine} {s : State} {n : Nat}
    (hreach : State.Reaches n { routine := r } s) :
    ∃ log, State.Traced r s log ∧
      (∀ id owner h, s.machine.world.store.boundary? id = some (owner, h) →
        h ∈ issued (log owner) {}) ∧
      ∀ (b : Bridge) (h : Handle), h ∉ issued (log b.interpreter) {} →
        s.machine.world.Refuses b h := by
  obtain ⟨log, htraced, hlogged⟩ := State.Traced.start.reaches World.logged_empty hreach
  refine ⟨log, htraced, hlogged.boundary, fun b h hnot => World.refuses_of_contains ?_⟩
  exact Bool.eq_false_iff.2 fun hlive => hnot (hlogged.mem_issued hlive)

/-- The second number of the first interpreter has no equal in the second one. -/
theorem handle_provenance_lending : ∃ s log, State.Reaches 9 { routine := lending } s ∧
    State.Traced lending s log ∧ ⟨0, 0⟩ ∈ issued (log ⟨2⟩) {} ∧
    (s.machine.world.interpreter ⟨1⟩).heap.body ⟨2, 0⟩ = .ok (.int 9) ∧
    ⟨2, 0⟩ ∉ issued (log ⟨2⟩) {} ∧ s.machine.world.Refuses secondBridge ⟨2, 0⟩ := by
  obtain ⟨s, hreach, hboundary, hnine, hsize⟩ : ∃ s, State.Reaches 9 { routine := lending } s ∧
      s.machine.world.store.boundary? ⟨1⟩ = some (⟨2⟩, ⟨0, 0⟩) ∧
      (s.machine.world.interpreter ⟨1⟩).heap.body ⟨2, 0⟩ = .ok (.int 9) ∧
      (s.machine.world.interpreter ⟨2⟩).heap.slots.size = 2 := by
    refine ⟨_, ⟨_, rfl, _, rfl, _, rfl, _, rfl, _, rfl, _, rfl, _, rfl, _, rfl, _, rfl, rfl⟩, ?_⟩
    decide +kernel
  obtain ⟨log, htraced, hissued, hrefuses⟩ := handle_provenance hreach
  obtain ⟨hsounds, hheap⟩ := htraced.leads ⟨2⟩
  have hnot : (⟨2, 0⟩ : Handle) ∉ issued (log ⟨2⟩) {} := by
    intro hmem
    obtain ⟨-, -, ⟨slot, hslot, -⟩, -⟩ :=
      Heap.aged_of_mem_issued Heap.wellFormed_empty hsounds hmem
    obtain ⟨hlt, -⟩ := Array.getElem?_eq_some_iff.1 hslot
    rw [hheap, hsize] at hlt
    exact absurd hlt (by decide)
  exact ⟨s, log, hreach, htraced, hissued _ _ _ hboundary, hnine, hnot,
    hrefuses secondBridge _ hnot⟩

/-- The first two scalars of both interpreters have equal handles, so the second one takes those of
the first one for its own: as the scalar to wrap, as the receiver of a call, and as the code to
call. -/
theorem lending_confuses : ∃ s, State.Reaches 9 { routine := lending } s ∧
    (s.machine.world.interpreter ⟨1⟩).heap.body ⟨0, 0⟩ = .ok (.int 7) ∧
    s.machine.world.store.boundary? ⟨1⟩ = some (⟨2⟩, ⟨0, 0⟩) ∧
    s.machine.world.readBack secondBridge (.boundary ⟨1⟩) = .ok (.integer 8) ∧
    (s.machine.world.pushInvocant ⟨2⟩ {} (.scalar ⟨0, 0⟩)).1 = .ok () ∧
    (s.machine.world.interpreter ⟨1⟩).targetSub (.code ⟨1, 0⟩) = .ok ⟨"mine", ⟨0⟩⟩ ∧
    (s.machine.world.interpreter ⟨2⟩).targetSub (.code ⟨1, 0⟩) = .ok ⟨"yours", ⟨0⟩⟩ := by
  refine ⟨_, ⟨_, rfl, _, rfl, _, rfl, _, rfl, _, rfl, _, rfl, _, rfl, _, rfl, _, rfl, rfl⟩, ?_⟩
  decide +kernel

end GuestBridge
