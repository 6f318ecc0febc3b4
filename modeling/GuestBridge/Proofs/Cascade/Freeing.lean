import GuestBridge.Proofs.Calls.Results
import GuestBridge.Proofs.Cascade.Holders

/-!
# Operations that free scalars

Dropping a share, closing a scope, storing in a hash and settling the results of a call are
primitives of one interpreter: they write to its heap and then drop shares, one after the other.
What that frees is handed over when the primitive is done, and only then is anything let go of. Host
code also lets go of objects, and of interpreters.

Each of these is a release that starts when the primitive is over (`Freeing.perform_eq`), and
`Freeing.Unwound` says how it goes: it ends, it hands over the body of each scalar that it frees
once, and it drops the share of each boundary object that goes once, when its last holder lets go.
-/

namespace GuestBridge

/-! ## Primitives -/

namespace Heap

variable {hp : Heap} {h : Handle} {c : Cell} {id : ObjectId}

theorem mass_unshareEach (hs : List Handle) (hp : Heap) : (hp.unshareEach hs).2.mass = hp.mass := by
  induction hs generalizing hp with
  | nil => rfl
  | cons h rest ih => rw [unshareEach_cons_snd, ih, mass_unshare]

theorem WellFormed.unshareEach (hwf : hp.WellFormed) (hs : List Handle) :
    (hp.unshareEach hs).2.WellFormed := by
  induction hs generalizing hp with
  | nil => exact hwf
  | cons h rest ih =>
    rw [unshareEach_cons_snd]
    exact ih (hwf.unshare h)

theorem WellFormed.mass_allocate (hwf : hp.WellFormed) (body : Body) :
    (hp.allocate body).2.mass = hp.mass + 1 := by
  have htotal := hwf.total_allocate body (fun s => s.cell.elim 0 fun _ => 1) (fun _ => 1)
    fun _ => rfl
  rw [mass, occupied, htotal, freed_allocate, mass, occupied]
  omega

/-- Before it drops shares a primitive may have written the entries of a hash, or made an undefined
value. -/
inductive Writes (hp : Heap) : Heap → Prop
  | none : Writes hp hp
  | entries {h : Handle} {c : Cell} {before after : List (Bytes × Handle)} :
      hp.cell? h = some c → c.body = .hash before →
      Writes hp (hp.setCell h { c with body := .hash after })
  | undef : Writes hp (hp.allocate .undef).2

variable {hp₁ : Heap}

theorem Writes.atRest (hwrites : Writes hp hp₁) (hrest : hp.AtRest) : hp₁.AtRest := by
  cases hwrites with
  | none => exact hrest
  | entries hc =>
    have hpos := hrest.toWellFormed.shares_pos _ _ hc
    exact ⟨hrest.toWellFormed.setCell hc hpos, hrest.freed_eq⟩
  | undef => exact ⟨hrest.toWellFormed.allocate .undef, (freed_allocate ..).trans hrest.freed_eq⟩

theorem Writes.keepers (hwrites : Writes hp hp₁) (hwf : hp.WellFormed) (id : ObjectId) :
    hp₁.keepers id = hp.keepers id := by
  cases hwrites with
  | none => rfl
  | entries hc hbody => exact keepers_setCell hc (by rw [hbody]; rfl)
  | undef => exact hwf.keepers_allocate .undef id

theorem Writes.mass_le (hwrites : Writes hp hp₁) (hwf : hp.WellFormed) :
    hp₁.mass ≤ hp.mass + 1 := by
  cases hwrites with
  | none => exact Nat.le_succ _
  | entries hc => exact (mass_setCell hc _).le.trans (Nat.le_succ _)
  | undef => exact (hwf.mass_allocate .undef).le

end Heap

/-- The primitives of an interpreter that drop shares. -/
inductive Primitive where
  /-- Drops a share. -/
  | unshare (h : Handle)
  /-- Closes a scope. -/
  | closeScope (depth : Nat)
  /-- Stores in a hash. -/
  | hashStore (hash : Handle) (key : Bytes) (value : Handle)
  /-- Settles the results of a call. -/
  | settle (mode : Mode) (results : List Handle)

namespace Primitive

variable {it : Interpreter}

/-- The interpreter after a primitive, with the freed bodies still parked. -/
def act : Primitive → Interpreter → Interpreter
  | unshare h, it => (it.unshare h).2
  | closeScope depth, it => (it.closeScope depth).2
  | hashStore hash key value, it => (it.hashStore hash key value).2
  | settle mode results, it => (it.settle mode results).2

/-- What is reported of a primitive before anything is let go of. -/
def reports : Primitive → Interpreter → List Event
  | closeScope depth, it => (it.closeScope depth).1.map Fault.alreadyReleased
  | unshare _, _ | hashStore .., _ | settle .., _ => []

/-- The heap when a primitive has written to it and is about to drop shares. -/
def written : Primitive → Interpreter → Heap
  | hashStore hash key value, it =>
    match it.heap.body hash with
    | .ok (.hash entries) => (it.heap.setBody hash (.hash (Entries.insert key value entries))).2
    | _ => it.heap
  | settle mode results, it =>
    if mode = .scalar ∧ results = [] then (it.heap.allocate .undef).2 else it.heap
  | unshare _, it | closeScope _, it => it.heap

/-- The shares that a primitive drops, first to last. -/
def spends : Primitive → Interpreter → List Handle
  | unshare h, _ => [h]
  | closeScope depth, it => (it.stack.closeScope depth).1
  | hashStore hash key _, it =>
    match it.heap.body hash with
    | .ok (.hash entries) => (Entries.find? key entries).toList
    | _ => []
  | settle mode results, _ => (mode.split results).1

theorem writes_written (p : Primitive) (it : Interpreter) : it.heap.Writes (p.written it) := by
  cases p with
  | unshare | closeScope => exact .none
  | hashStore hash key value =>
    rw [written]
    split
    · rename_i entries hbody
      obtain ⟨c, hc, hentries⟩ := Heap.body_eq_ok_iff.1 hbody
      rw [Heap.setBody_eq_of_cell? hc]
      exact .entries hc hentries
    · exact .none
  | settle mode results =>
    rw [written]
    split
    · exact .undef
    · exact .none

/-- A primitive writes and then drops shares. -/
theorem heap_act (p : Primitive) (it : Interpreter) :
    (p.act it).heap = ((p.written it).unshareEach (p.spends it)).2 := by
  cases p with
  | unshare h =>
    rw [spends, Heap.unshareEach_cons_snd]
    rfl
  | closeScope depth => rfl
  | hashStore hash key value =>
    have hact : ((hashStore hash key value).act it).heap
        = (it.heap.hashStore hash key value).2 := rfl
    rw [hact, written, spends]
    cases hbody : it.heap.body hash with
    | error fault =>
      have hhash : it.heap.isHash hash = false := by rw [Heap.isHash, hbody]
      rw [(Heap.hashStore_of_not_isHash hhash key value).2]
      rfl
    | ok body =>
      cases body with
      | hash entries =>
        cases hold : Entries.find? key entries with
        | none =>
          rw [Heap.hashStore_of_new hbody hold]
          simp only [hold]
          rfl
        | some old =>
          rw [Heap.hashStore_of_old hbody hold]
          simp only [hold]
          exact (Heap.unshareEach_cons_snd old [] _).symm
      | undef | int | num | str | ref | array | code =>
        have hhash : it.heap.isHash hash = false := by rw [Heap.isHash, hbody]
        rw [(Heap.hashStore_of_not_isHash hhash key value).2]
        rfl
  | settle mode results =>
    rw [act, Interpreter.heap_settle, written, spends]
    split
    · rename_i hnone
      rw [hnone.1, hnone.2]
      rfl
    · rfl

theorem packages_act (p : Primitive) (it : Interpreter) : (p.act it).packages = it.packages := by
  cases p with
  | unshare | closeScope | hashStore => rfl
  | settle mode results =>
    have hkeep : ∀ (hs : List Handle) (it : Interpreter),
        (Interpreter.keepEach hs it).2.packages = it.packages := by
      intro hs
      induction hs with
      | nil => exact fun _ => rfl
      | cons h rest ih =>
        intro it
        rw [Interpreter.keepEach_cons_snd, ih, Interpreter.pushTemporary, Interpreter.ifLive]
        split <;> rfl
    rw [act, Interpreter.settle_snd]
    split
    · rw [hkeep]
      rfl
    · rw [hkeep]
      rfl

theorem keepers_act (p : Primitive) (hwf : it.heap.WellFormed) (id : ObjectId) :
    (p.act it).keepers id = it.keepers id := by
  rw [Interpreter.keepers, heap_act, packages_act, Heap.keepers_unshareEach,
    (p.writes_written it).keepers hwf, Interpreter.keepers]

theorem mass_act_le (p : Primitive) (hwf : it.heap.WellFormed) :
    (p.act it).mass ≤ it.mass + 1 := by
  have hmass := (p.writes_written it).mass_le hwf
  rw [Interpreter.mass, heap_act, packages_act, Heap.mass_unshareEach, Interpreter.mass]
  omega

end Primitive

/-! ## Operations -/

/-- An operation that can free scalars: a primitive of an interpreter, or host code that lets go of
objects or of an interpreter. -/
inductive Freeing where
  | guest (i : InterpreterId) (p : Primitive)
  | letGo (ids : List ObjectId)
  | dropInterpreter (i : InterpreterId)

namespace Freeing

variable {w : World}

/-- The world after an operation. -/
def perform : Freeing → World → World
  | guest i (.unshare h), w => (w.guest i (·.unshare h)).2
  | guest i (.closeScope depth), w => w.closeScope i depth
  | guest i (.hashStore hash key value), w => (w.guest i (·.hashStore hash key value)).2
  | guest i (.settle mode results), w => (w.guest i (·.settle mode results)).2
  | letGo ids, w => w.dropObjects ids
  | dropInterpreter i, w => w.dropInterpreter i

/-- The holds that the caller gives up. -/
def given : Freeing → List ObjectId
  | letGo ids => ids
  | guest .. | dropInterpreter _ => []

/-- The world when an operation is about to drop shares. -/
def written : Freeing → World → World
  | guest i p, w => w.setInterpreter i { w.interpreter i with heap := p.written (w.interpreter i) }
  | letGo _, w | dropInterpreter _, w => w

/-- The bodies that a primitive has freed when it is done. -/
def handed : Freeing → World → List (InterpreterId × Body)
  | guest i p, w => (p.act (w.interpreter i)).parked i
  | letGo _, _ | dropInterpreter _, _ => []

/-- Where the release starts: the primitive is done, and what it has freed is handed over. -/
def start : Freeing → World → Unwinding
  | guest i p, w =>
    let acted := (w.setInterpreter i (p.act (w.interpreter i))).reportEach
      (p.reports (w.interpreter i))
    ⟨(acted.takeFreed i).1, (acted.takeFreed i).2⟩
  | letGo ids, w => ⟨ids.map .holder, w⟩
  | dropInterpreter i, w => ⟨[.interpreter i], w.setHolds i (w.holds.get i.number - 1)⟩

/-- An operation is a release from there on. -/
theorem perform_eq (o : Freeing) (w : World) :
    o.perform w = (o.start w).world.release (o.start w).steps := by
  cases o with
  | guest i p =>
    cases p with
    | unshare | hashStore | settle =>
      simp only [perform, World.guest, World.onInterpreter_eq, World.settleFreed, start,
        Primitive.reports, Primitive.act, World.reportEach, List.foldl_nil]
    | closeScope depth =>
      simp only [perform, World.closeScope, World.onInterpreter_eq, World.settleFreed, start,
        Primitive.reports, Primitive.act]
  | letGo | dropInterpreter => rfl

theorem reportEach_eq (es : List Event) (w : World) :
    ∃ journal, w.reportEach es = { w with journal } := by
  induction es generalizing w with
  | nil => exact ⟨w.journal, rfl⟩
  | cons e rest ih => exact ih (w.report e)

theorem start_guest (i : InterpreterId) (p : Primitive) (w : World) :
    ∃ journal, (guest i p).start w =
      ⟨(p.act (w.interpreter i)).orphans.map .holder,
        { w.setInterpreter i (p.act (w.interpreter i)).rested with journal }⟩ := by
  obtain ⟨journal, hjournal⟩ := reportEach_eq (p.reports (w.interpreter i))
    (w.setInterpreter i (p.act (w.interpreter i)))
  have htaken := ({ w with journal } : World).takeFreed_setInterpreter i (p.act (w.interpreter i))
  refine ⟨journal, ?_⟩
  rw [start, hjournal]
  exact congrArg (fun taken : List ReleaseStep × World => Unwinding.mk taken.1 taken.2) htaken

/-- What the release starts from. -/
theorem counted_start (o : Freeing) (hrest : w.AtRest) {outside : List ObjectId}
    (hcount : w.Counted (o.given ++ outside)) :
    (o.start w).world.Counted ((o.start w).names ++ outside) := by
  cases o with
  | guest i p =>
    obtain ⟨journal, hstart⟩ := start_guest i p w
    have hacted := @World.Counted.takeFreed w i (p.act (w.interpreter i)) _ [] hcount
      fun id => p.keepers_act (hrest i).toWellFormed id
    rw [hstart, Unwinding.names, ReleaseStep.names_holders]
    rw [List.append_nil] at hacted
    exact hacted.move rfl fun _ => rfl
  | letGo ids =>
    rw [start, Unwinding.names, ReleaseStep.names_holders]
    exact hcount
  | dropInterpreter i => exact hcount.move rfl fun _ => rfl

theorem weight_start_le (o : Freeing) (hrest : w.AtRest) :
    (o.start w).weight ≤ w.weight + o.given.length + 1 := by
  cases o with
  | guest i p =>
    have hweight : ∀ (es : List Event) (w : World), (w.reportEach es).weight = w.weight := by
      intro es w
      obtain ⟨journal, hjournal⟩ := reportEach_eq es w
      rw [hjournal]
      rfl
    have hset := w.weight_setInterpreter i (p.act (w.interpreter i))
    have hact := p.mass_act_le (hrest i).toWellFormed
    have htake := World.weight_takeFreed ((w.setInterpreter i (p.act (w.interpreter i))).reportEach
      (p.reports (w.interpreter i))) i
    rw [hweight] at htake
    simp only [start, given, Unwinding.weight, List.length_nil]
    omega
  | letGo ids => simp [start, given, Unwinding.weight]
  | dropInterpreter i => simp [start, given, Unwinding.weight, World.weight, World.setHolds]

/-- A primitive frees scalars and parks their bodies, and these are handed over. -/
theorem hands_start (o : Freeing) (hrest : w.AtRest) :
    (o.start w).world.AtRest ∧ ∃ gone, World.Loses (o.written w) (o.start w).world gone ∧
      o.handed w = gone.map fun g => (g.1, g.2.2) := by
  cases o with
  | guest i p =>
    obtain ⟨journal, hstart⟩ := start_guest i p w
    have hwritten := (p.writes_written (w.interpreter i)).atRest (hrest i)
    have hset : ((guest i p).written w).AtRest := by
      intro j
      rw [written, World.interpreter_setInterpreter]
      split
      · exact hwritten
      · exact hrest j
    obtain ⟨lost, hlost⟩ := Heap.loses_unshareEach (p.spends (w.interpreter i))
      (p.written (w.interpreter i))
    rw [← p.heap_act] at hlost
    have hself : (((guest i p).written w).interpreter i).heap = p.written (w.interpreter i) := by
      rw [written, World.interpreter_setInterpreter, if_pos rfl]
    rw [← hself] at hlost
    have hwf : (p.act (w.interpreter i)).heap.WellFormed := by
      rw [p.heap_act]
      exact hwritten.toWellFormed.unshareEach _
    have hgone := World.loses_setInterpreter hlost
    rw [written, World.setInterpreter_setInterpreter] at hgone
    rw [hstart]
    exact ⟨hrest.setInterpreter hwf, _,
      ⟨hgone.nodup, hgone.body, hgone.mem, hgone.recedes⟩, World.parked_of_loses hlost hset⟩
  | letGo | dropInterpreter =>
    exact ⟨hrest, [], World.loses_of_heaps fun _ => rfl, rfl⟩

/-! ## How an operation frees -/

/-- An operation goes through the situations `us` once it has done its own frees, and the scalars
`gone` have been freed in the end, each of them listed once with its body. -/
structure Unwound (o : Freeing) (w : World) (us : List Unwinding)
    (gone : List (InterpreterId × Handle × Body)) : Prop where
  /-- The release comes to an end. -/
  run : Unwinds (o.start w) us (o.perform w)
  /-- It does so in a number of steps that is known beforehand. -/
  length_le : us.length ≤ w.weight + o.given.length + 1
  /-- Each step ends an interpreter that nothing holds, or drops one share, or does nothing. -/
  effects : (us ++ [Unwinding.mk [] (o.perform w)]).IsChain Unwinding.Effect
  /-- No body is parked when something is let go of, -/
  rests : ∀ u ∈ us, u.world.AtRest
  /-- nor when the operation returns. -/
  rest : (o.perform w).AtRest
  lost : World.Loses (o.written w) (o.perform w) gone
  /-- The bodies of the scalars freed are handed over, each of them once. -/
  handed : o.handed w ++ us.flatMap Unwinding.handed = gone.map fun g => (g.1, g.2.2)
  /-- A boundary object drops its share once, -/
  drops_nodup : (us.flatMap Unwinding.dropped).Nodup
  /-- if it goes, -/
  drops_iff : ∀ id, id ∈ us.flatMap Unwinding.dropped ↔
    (w.store.boundary? id).isSome ∧ (o.perform w).store.boundary? id = none
  /-- and that is when its last hold ends. -/
  drops_last : ∀ outside, w.Counted (o.given ++ outside) →
    (o.perform w).Counted outside ∧ ∀ u ∈ us, u.world.Counted (u.names ++ outside) ∧
      ∀ id ∈ u.dropped, (u.names ++ outside).count id = 1 ∧ u.world.keepers id = 0

theorem store_start (o : Freeing) (w : World) : (o.start w).world.store = w.store := by
  cases o with
  | guest i p =>
    obtain ⟨journal, hstart⟩ := start_guest i p w
    rw [hstart]
    rfl
  | letGo | dropInterpreter => rfl

/-- Whatever an operation frees, it ends with all heaps at rest. -/
theorem exists_unwound (o : Freeing) {w : World} (hrest : w.AtRest) :
    ∃ us gone, o.Unwound w us gone := by
  obtain ⟨us, hrun⟩ := unwinds_release (o.start w).steps (o.start w).world
  rw [← o.perform_eq] at hrun
  obtain ⟨hstart, first, hfirst, hhanded⟩ := o.hands_start hrest
  obtain ⟨hrests, hend, others, hothers, hflat⟩ := hrun.hands hstart
  obtain ⟨hnodup, hdrops⟩ := hrun.drops
  refine ⟨us, first ++ others, ?_⟩
  exact {
    run := hrun
    length_le := hrun.length_le.trans (o.weight_start_le hrest)
    effects := hrun.effects.1
    rests := hrests
    rest := hend
    lost := hfirst.trans hothers
    handed := by rw [hhanded, hflat, List.map_append]
    drops_nodup := hnodup
    drops_iff := fun id => by rw [hdrops, o.store_start]
    drops_last := fun outside hcount => by
      obtain ⟨hall, hafter⟩ := hrun.counted (o.counted_start hrest hcount)
      exact ⟨hafter, fun u hu => ⟨hall u hu, fun id hid => Unwinding.alone (hall u hu) hid⟩⟩ }

end Freeing

end GuestBridge
