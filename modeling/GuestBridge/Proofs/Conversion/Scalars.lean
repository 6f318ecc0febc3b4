import GuestBridge.Proofs.Conversion.Encoding
import GuestBridge.Proofs.Heap.Storing
import GuestBridge.Proofs.Provenance.Log

/-!
# Scalars there and back

A host scalar that is converted, wrapped in a boundary object and read back is the same number, with
the same bits, or the same text as far as the settings let it through (`World.scalar_roundTrip`).
The new scalar may take a slot that was used before. What matters is that its handle sees the body
it was made with (`World.Sees`), and that wrapping it adds a share and no more.

A boundary object is converted to the scalar that it stands for. So what is read back through a
second boundary object is what is read back through the first.
-/

namespace GuestBridge

/-- What the host reads of a body: a plain value, or none. -/
def Body.plain? : Body → Option Value
  | .undef => some .undef
  | .int n => some (.integer n)
  | .num x => some (.float x)
  | .str bytes => some (.text (Utf8.decodeLossy bytes))
  | .ref _ | .array _ | .hash _ | .code _ => none

/-- The body of the scalar to which a plain value is converted. -/
def Config.bodyOf? (config : Config) : Value → Option Body
  | .integer n => some (.int n)
  | .float x => some (.num x)
  | .text s => some (.str (config.stringPolicy.apply (Utf8.encode s)))
  | _ => none

namespace World

variable {w w₁ : World} {i : InterpreterId} {b : Bridge} {v : Value} {h : Handle} {body : Body}
variable {id : ObjectId} {hp : Heap} {α : Type}

/-- Converts a value, wraps its scalar in a boundary object, and reads this back. -/
def roundTrip (w : World) (b : Bridge) (v : Value) : Except CrossingError Value × World :=
  match w.marshal b v with
  | (.error e, w) => (.error e, w)
  | (.ok h, w) =>
    match w.wrap b h with
    | (.error e, w) => (.error e, w)
    | (.ok wrapped, w) => w.unwrap b wrapped

/-- The heap of an interpreter is at rest, and a handle sees a body in it. -/
structure Sees (w : World) (i : InterpreterId) (h : Handle) (body : Body) : Prop where
  rest : (w.interpreter i).heap.AtRest
  body_eq : (w.interpreter i).heap.body h = .ok body

/-! ## Acting on the heap -/

/-- Replaces the heap of an interpreter. -/
def setHeap (w : World) (i : InterpreterId) (hp : Heap) : World :=
  w.setInterpreter i { w.interpreter i with heap := hp }

theorem heap_setHeap (w : World) (i : InterpreterId) (hp : Heap) :
    ((w.setHeap i hp).interpreter i).heap = hp := by
  rw [setHeap, interpreter_setInterpreter, if_pos rfl]

/-- An operation on a heap that parks nothing changes this heap alone. -/
theorem guest_onHeap {f : Heap → α × Heap} {a : α} (hf : f (w.interpreter i).heap = (a, hp))
    (hfreed : hp.freed = #[]) : w.guest i (·.onHeap f) = (a, w.setHeap i hp) := by
  have hrun : (w.interpreter i).onHeap f = (a, { w.interpreter i with heap := hp }) := by
    rw [Interpreter.onHeap, hf]
  refine Prod.ext ?_ ?_
  · rw [guest_fst, hrun]
  · exact guest_of_atRest (f := (·.onHeap f)) (congrArg Prod.snd hrun) hfreed

/-- A report changes neither the interpreters nor the store. -/
theorem interpreter_tally (w : World) (b : Bridge) (kind : EventKind) (detail : String)
    (result : Except CrossingError α) :
    (w.tally b kind detail result).interpreter i = w.interpreter i := by
  cases result <;> rfl

theorem store_tally (w : World) (b : Bridge) (kind : EventKind) (detail : String)
    (result : Except CrossingError α) : (w.tally b kind detail result).store = w.store := by
  cases result <;> rfl

/-! ## Converting -/

/-- A conversion that parks nothing changes the heap that it writes, and reports. -/
theorem marshal_of_passage {result : Except CrossingError Handle}
    (hrun : (w.passage b.interpreter b.config).marshal v (w.interpreter b.interpreter).heap
      = (result, hp)) (hfreed : hp.freed = #[]) :
    ∃ w₁, w.marshal b v = (result, w₁) ∧ (w₁.interpreter b.interpreter).heap = hp ∧
      w₁.store = w.store := by
  have hconvert : w.convert b.interpreter b.config v = (result, w.setHeap b.interpreter hp) :=
    guest_onHeap hrun hfreed
  have hmarshal : w.marshal b v = (result, (w.setHeap b.interpreter hp).tally b .convert
      ("convert " ++ w.store.typeName v) result) := by
    rw [marshal, hconvert]
  refine ⟨_, hmarshal, ?_, store_tally ..⟩
  rw [interpreter_tally, heap_setHeap]

/-- A plain value is converted to a new scalar with its body. -/
theorem marshal_plain (hrest : (w.interpreter b.interpreter).heap.AtRest)
    (hbody : b.config.bodyOf? v = some body) :
    ∃ h w₁, w.marshal b v = (.ok h, w₁) ∧ w₁.Sees b.interpreter h body := by
  have hrun : (w.passage b.interpreter b.config).marshal v (w.interpreter b.interpreter).heap
      = (.ok ((w.interpreter b.interpreter).heap.allocate body).1,
        ((w.interpreter b.interpreter).heap.allocate body).2) := by
    cases v <;> cases hbody <;> rfl
  have hfreed := (Heap.freed_allocate (w.interpreter b.interpreter).heap body).trans hrest.freed_eq
  obtain ⟨w₁, hmarshal, hheap, -⟩ := marshal_of_passage hrun hfreed
  refine ⟨_, w₁, hmarshal, ?_, ?_⟩
  · rw [hheap]
    exact ⟨hrest.toWellFormed.allocate body, hfreed⟩
  · rw [hheap]
    exact hrest.toWellFormed.body_allocate_fst body

/-- One more share changes nothing that is seen. -/
theorem Sees.share (hsees : w.Sees i h body)
    (hheap : (w₁.interpreter i).heap = ((w.interpreter i).heap.share h).2) :
    w₁.Sees i h body := by
  refine ⟨?_, ?_⟩
  · rw [hheap]
    exact ⟨hsees.rest.toWellFormed.share h, (Heap.freed_share _ h).trans hsees.rest.freed_eq⟩
  · rw [hheap]
    exact Heap.body_share hsees.body_eq h

theorem Sees.share_eq (hsees : w.Sees i h body) :
    ∃ n, (w.interpreter i).heap.share h = (.ok n, ((w.interpreter i).heap.share h).2) := by
  obtain ⟨c, hc, -⟩ := Heap.body_eq_ok_iff.1 hsees.body_eq
  exact ⟨c.shares + 1, by rw [Heap.share_eq_of_cell? hc]⟩

/-- A boundary object is converted to the scalar that it stands for. -/
theorem Sees.marshal (hsees : w.Sees b.interpreter h body)
    (hid : w.store.boundary? id = some (b.interpreter, h)) :
    ∃ w₁, w.marshal b (.boundary id) = (.ok h, w₁) ∧ w₁.Sees b.interpreter h body ∧
      w₁.store = w.store := by
  obtain ⟨n, hshare⟩ := hsees.share_eq
  have hrun : (w.passage b.interpreter b.config).marshal (.boundary id)
      (w.interpreter b.interpreter).heap
      = (.ok h, ((w.interpreter b.interpreter).heap.share h).2) := by
    show (w.passage b.interpreter b.config).shareBoundary id _ = _
    rw [Passage.shareBoundary, show (w.passage b.interpreter b.config).store.boundary? id = _
      from hid]
    exact (if_pos rfl).trans (by rw [hshare])
  obtain ⟨w₁, hmarshal, hheap, hstore⟩ :=
    marshal_of_passage hrun ((Heap.freed_share _ h).trans hsees.rest.freed_eq)
  exact ⟨w₁, hmarshal, hsees.share hheap, hstore⟩

/-! ## Wrapping and reading back -/

/-- A scalar is wrapped in a new boundary object that stands for it, and the boundary objects that
were there stand for what they stood for. -/
theorem Sees.wrap (hsees : w.Sees b.interpreter h body) :
    ∃ id w₁, w.wrap b h = (.ok (.boundary id), w₁) ∧ w₁.Sees b.interpreter h body ∧
      w₁.store.boundary? id = some (b.interpreter, h) := by
  obtain ⟨n, hshare⟩ := hsees.share_eq
  have hguest : w.guest b.interpreter (·.share h) = (.ok n,
      w.setHeap b.interpreter ((w.interpreter b.interpreter).heap.share h).2) :=
    guest_onHeap (f := (·.share h)) hshare ((Heap.freed_share _ h).trans hsees.rest.freed_eq)
  have hscalar : w.wrapScalar b.interpreter h = (.ok (.boundary ⟨w.store.holdings.size⟩),
      ((w.setHeap b.interpreter ((w.interpreter b.interpreter).heap.share h).2).newBoundary
        b.interpreter h).2) := by
    rw [wrapScalar, hguest]
    rfl
  -- the report comes last and touches neither the heap nor the store
  refine ⟨⟨w.store.holdings.size⟩, (w.wrap b h).2, ?_, ?_, ?_⟩ <;> rw [World.wrap, hscalar]
  · refine hsees.share ?_
    rw [interpreter_tally]
    exact heap_setHeap w b.interpreter _
  · rw [store_tally]
    exact (boundary?_newBoundary _ b.interpreter h _).trans (if_pos rfl)

/-- A boundary object is read back as the plain value of the body that it shows, or as itself if
there is none. -/
theorem Sees.unwrap (hsees : w.Sees b.interpreter h body)
    (hid : w.store.boundary? id = some (b.interpreter, h)) :
    (w.unwrap b (.boundary id)).1 = .ok (body.plain?.getD (.boundary id)) := by
  have hread : w.readBack b (.boundary id) = .ok (body.plain?.getD (.boundary id)) := by
    simp only [readBack, hid, if_true, hsees.body_eq]
    cases body <;> rfl
  rw [World.unwrap, hread]

/-- A plain value comes back as the plain value of the body it is converted to. -/
theorem roundTrip_plain {answer : Value} (hrest : (w.interpreter b.interpreter).heap.AtRest)
    (hbody : b.config.bodyOf? v = some body) (hplain : body.plain? = some answer) :
    (w.roundTrip b v).1 = .ok answer := by
  obtain ⟨h, w₁, hmarshal, hsees⟩ := marshal_plain hrest hbody
  obtain ⟨id, w₂, hwrap, hsees, hid⟩ := hsees.wrap
  rw [roundTrip, hmarshal]
  dsimp only
  rw [hwrap]
  dsimp only
  rw [hsees.unwrap hid, hplain, Option.getD_some]

/-- A scalar is wrapped, the boundary object converted, and the scalar wrapped once more. The
conversion answers the scalar itself, and both boundary objects are read back as its plain value, or
each as itself if there is none. -/
theorem Sees.wrap_again (hsees : w.Sees b.interpreter h body) :
    ∃ id id' w₁ w₂ w₃, w.wrap b h = (.ok (.boundary id), w₁) ∧
      w₁.marshal b (.boundary id) = (.ok h, w₂) ∧ w₂.wrap b h = (.ok (.boundary id'), w₃) ∧
      w₃.store.boundary? id' = some (b.interpreter, h) ∧
      (w₁.unwrap b (.boundary id)).1 = .ok (body.plain?.getD (.boundary id)) ∧
      (w₃.unwrap b (.boundary id')).1 = .ok (body.plain?.getD (.boundary id')) := by
  obtain ⟨id, w₁, hwrap, hsees₁, hid⟩ := hsees.wrap
  obtain ⟨w₂, hmarshal, hsees₂, -⟩ := hsees₁.marshal hid
  obtain ⟨id', w₃, hwrap', hsees₃, hid'⟩ := hsees₂.wrap
  exact ⟨id, id', w₁, w₂, w₃, hwrap, hmarshal, hwrap', hid', hsees₁.unwrap hid, hsees₃.unwrap hid'⟩

/-- A number comes back as it was, a float with the same bits. A text comes back as it was if all
bytes are let through. If they are cut at a zero byte, what comes back is the longest part of it
from the front that has no NUL; the bytes that are left are those of this part, so no character is
split. A boundary object is converted to the scalar that it stands for, and this scalar shows the
same through a new boundary object.

The heap is at rest, as it is between two operations; which of its slots are used again does not
matter. -/
theorem scalar_roundTrip (hrest : (w.interpreter b.interpreter).heap.AtRest) :
    (∀ n, (w.roundTrip b (.integer n)).1 = .ok (.integer n)) ∧
    (∀ x, (w.roundTrip b (.float x)).1 = .ok (.float x)) ∧
    (∀ s, ∃ t, (w.roundTrip b (.text s)).1 = .ok (.text t) ∧
      b.config.stringPolicy.apply (Utf8.encode s) = Utf8.encode t ∧
      (b.config.stringPolicy = .preserve → t = s) ∧
      (b.config.stringPolicy = .truncateAtNul → t.toList <+: s.toList ∧ '\x00' ∉ t.toList ∧
        ∀ cs, cs <+: s.toList → '\x00' ∉ cs → cs <+: t.toList)) ∧
    ∀ h body, (w.interpreter b.interpreter).heap.body h = .ok body →
      (∀ id, w.store.boundary? id = some (b.interpreter, h) →
        (w.marshal b (.boundary id)).1 = .ok h) ∧
      ∃ id id' w₁ w₂ w₃, w.wrap b h = (.ok (.boundary id), w₁) ∧
        w₁.marshal b (.boundary id) = (.ok h, w₂) ∧ w₂.wrap b h = (.ok (.boundary id'), w₃) ∧
        w₃.store.boundary? id' = some (b.interpreter, h) ∧
        (w₁.unwrap b (.boundary id)).1 = .ok (body.plain?.getD (.boundary id)) ∧
        (w₃.unwrap b (.boundary id')).1 = .ok (body.plain?.getD (.boundary id')) := by
  refine ⟨fun n => roundTrip_plain hrest rfl rfl, fun x => roundTrip_plain hrest rfl rfl,
    fun s => ?_, fun h body hbody => ?_⟩
  · -- what is let through is the bytes of a text, and these are read back as this text
    have hbytes := b.config.stringPolicy.apply_encode s
    refine ⟨b.config.stringPolicy.applyText s, roundTrip_plain hrest rfl ?_, hbytes, ?_, ?_⟩
    · rw [hbytes, Body.plain?, Utf8.decodeLossy_encode]
    · intro hpolicy
      rw [hpolicy, StringPolicy.applyText]
    · intro hpolicy
      rw [hpolicy, StringPolicy.applyText]
      exact Utf8.beforeNul_longest s
  · have hsees : w.Sees b.interpreter h body := ⟨hrest, hbody⟩
    refine ⟨fun id hid => ?_, hsees.wrap_again⟩
    obtain ⟨w₁, hmarshal, -⟩ := hsees.marshal hid
    rw [hmarshal]

/-- An emptied slot beside a scalar that is not a number, and a boundary object over this scalar. -/
def reused : World where
  interpreters := ({} : Table Interpreter).set 1
    { heap :=
      { (((({} : Heap).allocate (.int 7)).2.allocate (.num ⟨0x7FF8000000000001⟩)).2.unshare
          ⟨0, 0⟩).2 with freed := #[] } }
  store := { holdings := #[some ⟨1, .boundary ⟨1⟩ ⟨1, 0⟩⟩] }

/-- The text takes the slot, and it comes back up to its NUL. -/
theorem scalar_roundTrip_reused :
    let b : Bridge := ⟨⟨1⟩, { stringPolicy := .truncateAtNul }, ⟨0⟩⟩
    (reused.marshal b (.text "é\x00x")).1 = .ok ⟨0, 1⟩ ∧
      (∃ t, (reused.roundTrip b (.text "é\x00x")).1 = .ok (.text t) ∧
        t.toList <+: ['é', '\x00', 'x'] ∧ '\x00' ∉ t.toList ∧ ['é'] <+: t.toList) ∧
      (reused.roundTrip b (.float ⟨0xFFF0000000000002⟩)).1 = .ok (.float ⟨0xFFF0000000000002⟩) ∧
      (reused.marshal b (.boundary ⟨0⟩)).1 = .ok ⟨1, 0⟩ ∧
      ∃ (id id' : ObjectId) (w₁ w₂ w₃ : World), reused.wrap b ⟨1, 0⟩ = (.ok (.boundary id), w₁) ∧
        w₁.marshal b (.boundary id) = (.ok ⟨1, 0⟩, w₂) ∧
        w₂.wrap b ⟨1, 0⟩ = (.ok (.boundary id'), w₃) ∧
        (w₃.unwrap b (.boundary id')).1 = .ok (.float ⟨0x7FF8000000000001⟩) := by
  intro b
  have hrest : (reused.interpreter ⟨1⟩).heap.AtRest :=
    (((Heap.wellFormed_empty.allocate (.int 7)).allocate (.num ⟨0x7FF8000000000001⟩)).unshare
      ⟨0, 0⟩).atRest
  obtain ⟨-, hfloat, htext, hscalar⟩ := scalar_roundTrip (b := b) hrest
  obtain ⟨t, hround, -, -, hcut⟩ := htext "é\x00x"
  obtain ⟨hfront, hnul, hlongest⟩ := hcut rfl
  obtain ⟨hmarshal, id, id', w₁, w₂, w₃, hwrap, hback, hwrap', -, -, hread⟩ :=
    hscalar ⟨1, 0⟩ (.num ⟨0x7FF8000000000001⟩) (by decide +kernel)
  exact ⟨by decide +kernel, ⟨t, hround, hfront, hnul, hlongest ['é'] (by decide) (by decide)⟩,
    hfloat _, hmarshal ⟨0⟩ (by decide +kernel), id, id', w₁, w₂,
    w₃, hwrap, hback, hwrap', hread⟩

end World

end GuestBridge
