import GuestBridge.Proofs.Ledger.Crossing
import GuestBridge.Routine.Basic

/-!
# The share ledger of the operations

What each operation of a routine takes from the shares in the hands of callers, `Op.spends`, and
what it puts there, `Op.gains`. An operation that fails takes nothing.

`Op.allowed` says that an operation goes to an interpreter that is still there. A guest operation
goes to one that something holds on to; what crosses a bridge goes to one that host code holds on
to, as the bridge does.

* `Balanced.perform` is the law: spending and gaining is all that an operation does to the ledger.
* The operations on holds themselves, `newInterpreter` and its like, come after it, since they
  change which interpreters there are.
-/

namespace GuestBridge

/-! ## One interpreter -/

namespace Interpreter

variable {it : Interpreter} {give get : List Handle}

/-- What is spent may depend on whether the operation succeeds. -/
theorem Trades.ite {f : Interpreter → α × Interpreter} {p : Bool}
    (hyes : p = true → it.Trades f give get) (hno : p = false → it.Trades f [] get) :
    it.Trades f (if p then give else []) get := by
  cases p with
  | true => exact hyes rfl
  | false => exact hno rfl

/-- An operation that fails and leaves the interpreter as it is. -/
theorem trades_of_eq {f : Interpreter → α × Interpreter} (hsame : (f it).2 = it) :
    it.Trades f [] [] := by
  intro owed hbal
  rw [hsame]
  exact hbal

theorem spends_referTaking (h : Handle) :
    it.Trades (·.referTaking h) (if it.heap.contains h then [h] else [])
      (handed (it.referTaking h).1) := by
  refine .ite ?_ ?_
  · intro hc
    have htrades := trades_referTaking hc
    rwa [referTaking, onHeap, Heap.referTaking_of_contains hc]
  · intro hc
    rw [referTaking, onHeap, Heap.referTaking_of_stale hc]
    exact trades_of_eq (by rw [referTaking, onHeap, Heap.referTaking_of_stale hc])

theorem spends_referSharing (h : Handle) :
    it.Trades (·.referSharing h) [] (handed (it.referSharing h).1) := by
  cases hc : it.heap.cell? h with
  | none =>
    rw [referSharing, onHeap, Heap.referSharing_of_none hc]
    exact trades_of_eq (by rw [referSharing, onHeap, Heap.referSharing_of_none hc])
  | some c =>
    have htrades := trades_referSharing hc
    rwa [referSharing, onHeap, Heap.referSharing_of_cell? hc]

theorem spends_arrayPush (array item : Handle) :
    it.Trades (·.arrayPush array item) (if it.heap.isArray array then [item] else []) [] :=
  .ite trades_arrayPush fun harray => trades_of_eq <| by
    rw [arrayPush, onHeap]
    exact congrArg ({ it with heap := · }) (Heap.arrayPush_of_not_isArray harray item).2

theorem spends_hashStore (hash value : Handle) (key : Bytes) :
    it.Trades (·.hashStore hash key value) (if it.heap.isHash hash then [value] else []) [] :=
  .ite (fun hhash => trades_hashStore hhash key) fun hhash => trades_of_eq <| by
    rw [hashStore, onHeap]
    exact congrArg ({ it with heap := · }) (Heap.hashStore_of_not_isHash hhash key value).2

theorem gains_share (h : Handle) :
    it.Trades (·.share h) [] (handed ((it.share h).1.map fun _ => h)) := by
  cases hc : it.heap.cell? h with
  | none =>
    rw [share, onHeap, Heap.share_eq_of_none hc]
    exact trades_of_eq (by rw [share, onHeap, Heap.share_eq_of_none hc])
  | some c =>
    have htrades := trades_share hc
    rwa [share, onHeap, Heap.share_eq_of_cell? hc]

theorem spends_unshare (h : Handle) :
    it.Trades (·.unshare h) (if it.heap.contains h then [h] else []) [] :=
  .ite (fun _ => trades_unshare h) fun hc => trades_of_eq <| by
    rw [unshare, onHeap]
    refine congrArg ({ it with heap := · }) ?_
    rw [Heap.unshare_snd, Heap.cascade_of_none (Heap.contains_eq_false_iff.1 hc)]

theorem spends_pushTemporary (h : Handle) :
    it.Trades (·.pushTemporary h) (if it.heap.contains h then [h] else []) [] :=
  .ite trades_pushTemporary fun hc => trades_of_eq <| by
    rw [pushTemporary, ifLive, if_neg (by simp [hc])]

theorem spends_addTemporary (h : Handle) :
    it.Trades (·.addTemporary h) (if it.heap.contains h then [h] else []) [] :=
  .ite trades_addTemporary fun hc => trades_of_eq <| by
    rw [addTemporary, ifLive, if_neg (by simp [hc])]

/-- Packages own no shares. -/
theorem trades_packages (f : Packages → Packages) :
    it.Trades (fun it => ((), { it with packages := f it.packages })) [] [] :=
  trades_of_temps rfl rfl

end Interpreter

/-! ## Operations of routines -/

namespace Op

/-- The shares that an operation takes over from callers. -/
def spends (w : World) : Op → Held
  | create i (.array items) => Held.of i items
  | guestArrayPush i array item =>
    Held.of i (if (w.interpreter i).heap.isArray array then [item] else [])
  | guestHashStore i hash _ value =>
    Held.of i (if (w.interpreter i).heap.isHash hash then [value] else [])
  | referTaking i h | unshare i h | pushTemporary i h | addTemporary i h =>
    Held.of i (if (w.interpreter i).heap.contains h then [h] else [])
  | _ => []

/-- The shares that an operation hands to its caller. -/
def gains : (o : Op) → o.Reply → Held
  | create i _, h => Held.of i [h]
  | newCode i _ _, h => Held.of i [h]
  | referTaking i _, result => Held.of i (handed result)
  | referSharing i _, result => Held.of i (handed result)
  | share i h, result => Held.of i (handed (result.map fun _ => h))
  | marshal b _, result => Held.of b.interpreter (handed result)
  | _, _ => []

/-- Does the operation go to an interpreter that is there? -/
def allowed (w : World) : Op → Bool
  | holdInterpreter i | create i _ | newCode i _ _ | define i _ _ _ | declareParents i _ _
  | referTaking i _ | referSharing i _ | guestArrayPush i _ _ | guestHashStore i _ _ _
  | bless i _ _ | share i _ | unshare i _ | push i _ | pushTemporary i _ | addTemporary i _
  | pop i | mark i | openScope i | closeScope i _ => w.isHeld i
  | marshal b _ | wrap b _ | unwrap b _ | passArguments b _ _ | resume b _ _ =>
    w.holds.get b.interpreter.number != 0
  | dropInterpreter i => w.holds.get i.number != 0
  | _ => true

/-- The operation leaves the holds of host code, the interpreters and the journal as they are. -/
def Keeps : Op → Prop
  | newInterpreter | holdInterpreter _ | dropInterpreter _ | remark _ => False
  | _ => True

end Op

namespace World

variable {held : Held} {w₀ w : World} {i : InterpreterId}

/-- The ledger of a guest operation, with what it hands out read off its answer. -/
theorem Balanced.guestAnswer {f : Interpreter → α × Interpreter} {give : List Handle}
    (hbal : Balanced (Held.of i give ++ held) w₀ w) (hi : w.isHeld i = true)
    (get : α → List Handle) (hf : (w.interpreter i).Trades f give (get (f (w.interpreter i)).1)) :
    Balanced (Held.of i (get (w.guest i f).1) ++ held) w₀ (w.guest i f).2 := by
  rw [guest_fst]
  exact hbal.guest hi hf

/-- One more holder of a host object holds on to no interpreter. -/
theorem isHeld_retainObject (w : World) (id : ObjectId) (i : InterpreterId) :
    (w.retainObject id).isHeld i = w.isHeld i :=
  @isHeld_eq_of_wrappers w (w.retainObject id) rfl (fun _ _ => Store.wrappers_retain id) i

theorem Balanced.newCode (hbal : Balanced held w₀ w) (hi : w.isHeld i = true) (name : String)
    (closure : ObjectId) :
    Balanced (Held.of i [((w.retainObject closure).guest i (·.create (.code { name, closure }))).1]
        ++ held) w₀
      ((w.retainObject closure).guest i (·.create (.code { name, closure }))).2 := by
  rw [guest_fst]
  exact (hbal.retainObject closure).guestGain ((isHeld_retainObject w closure i).trans hi)
    (Interpreter.trades_create (.code { name, closure }))

theorem Balanced.defineIn (hbal : Balanced held w₀ w) (hi : w.isHeld i = true)
    (package name : String) (closure : ObjectId) :
    Balanced held w₀ (Op.defineIn i package name closure w) := by
  refine Balanced.dropObjects ?_ _
  exact (hbal.retainObject closure).guestKeeping ((isHeld_retainObject w closure i).trans hi)
    (Interpreter.trades_packages (·.define package name _))

theorem Balanced.newCollector (hbal : Balanced held w₀ w) : Balanced held w₀ w.newCollector.2 where
  closed := hbal.closed
  ledger := hbal.ledger
  fresh := hbal.fresh
  holds_eq := hbal.holds_eq
  count_eq := hbal.count_eq
  journal_eq := hbal.journal_eq

/-- Spending and gaining is all that an operation does to the ledger. -/
theorem Balanced.perform {o : Op} (hkeeps : o.Keeps) (hallowed : o.allowed w = true)
    (hbal : Balanced (o.spends w ++ held) w₀ w) (hbase : w₀.holds = w.holds) :
    Balanced (o.gains (o.perform w).1 ++ held) w₀ (o.perform w).2 := by
  cases o with
  -- these change the holds of host code or the journal
  | newInterpreter => exact hkeeps.elim
  | holdInterpreter => exact hkeeps.elim
  | dropInterpreter => exact hkeeps.elim
  | remark => exact hkeeps.elim
  | newCollector => exact hbal.newCollector
  | count c kind => exact hbal.onTelemetry _ _
  | record c kind detail => exact hbal.onTelemetry _ _
  | create i seed =>
    have hspent : Balanced (Held.of i seed.body.children ++ held) w₀ w := by
      cases seed <;> exact hbal
    exact hspent.guestAnswer hallowed (fun h => [h]) (Interpreter.trades_create seed.body)
  | newCode i name closure => exact hbal.newCode hallowed name closure
  | define i package name closure => exact hbal.defineIn hallowed package name closure
  | declareParents i package parents =>
    have hguest := hbal.guestKeeping hallowed
      (Interpreter.trades_packages (·.declareParents package parents))
    exact hguest
  | referTaking i h => exact hbal.guestAnswer hallowed handed (Interpreter.spends_referTaking h)
  | referSharing i h =>
    have hspent : Balanced (Held.of i [] ++ held) w₀ w := hbal
    exact hspent.guestAnswer hallowed handed (Interpreter.spends_referSharing h)
  | guestArrayPush i array item =>
    exact hbal.guestSpend hallowed (Interpreter.spends_arrayPush array item)
  | guestHashStore i hash key value =>
    exact hbal.guestSpend hallowed (Interpreter.spends_hashStore hash value key)
  | bless i reference package =>
    exact hbal.guestKeeping hallowed (Interpreter.trades_bless _ _)
  | share i h =>
    have hspent : Balanced (Held.of i [] ++ held) w₀ w := hbal
    exact hspent.guestAnswer hallowed (fun result : Except Fault Nat =>
      handed (result.map fun _ => h)) (Interpreter.gains_share h)
  | unshare i h => exact hbal.guestSpend hallowed (Interpreter.spends_unshare h)
  | push i h => exact hbal.guestKeeping hallowed (Interpreter.trades_push h)
  | pushTemporary i h => exact hbal.guestSpend hallowed (Interpreter.spends_pushTemporary h)
  | addTemporary i h => exact hbal.guestSpend hallowed (Interpreter.spends_addTemporary h)
  | pop i => exact hbal.guestKeeping hallowed Interpreter.trades_pop
  | mark i =>
    have hguest := hbal.guestKeeping hallowed Interpreter.trades_mark
    exact hguest
  | openScope i => exact hbal.guestKeeping hallowed Interpreter.trades_openScope
  | closeScope i depth => exact hbal.closeScope hallowed depth
  | marshal b v => exact hbal.marshal (hbase ▸ bne_iff_ne.1 hallowed) v
  | wrap b h => exact hbal.wrap (hbase ▸ bne_iff_ne.1 hallowed) h
  | passArguments b positional named =>
    exact hbal.passArguments (hbase ▸ bne_iff_ne.1 hallowed) positional named
  | resume b ctx next => exact hbal.resume ctx next
  | newArray | newHash | newObject | retain | drop | dropEach | dropObject | arrayPush
  | arrayUnshift | arrayShift | arrayGet | arrayDrain | arrayClear | arrayList | hashInsert
  | hashGet | hashDrain | unwrap => exact (hostClosed_balanced held w₀).perform rfl w hbal

/-! ## Interpreters and the journal -/

theorem Balanced.report (hbal : Balanced held w w) (e : Event) :
    Balanced held (w.report e) (w.report e) where
  ledger := hbal.ledger
  fresh := hbal.fresh
  holds_eq := rfl
  count_eq := rfl
  journal_eq := rfl
  closed := hbal.closed

theorem holds_setHolds (w : World) (i j : InterpreterId) (n : Nat) :
    (w.setHolds i n).holds.get j.number = if i = j then n else w.holds.get j.number := by
  rw [setHolds, Table.get_set]
  by_cases hij : i = j
  · simp [hij]
  · have hne : i.number ≠ j.number := fun hn => hij (by cases i; cases j; simp_all)
    simp [hij, hne]

/-- Another number of holds on an interpreter that is held. With none it is still to end, unless a
boundary object holds on to it. -/
theorem Balanced.setHolds (hbal : Balanced held w w) (hi : w.isHeld i = true) (n : Nat) :
    Ledger held (w.setHolds i n) (w.setHolds i n) ∧ Closed [.interpreter i] (w.setHolds i n) := by
  have hother : ∀ j, i ≠ j → (w.setHolds i n).isHeld j = w.isHeld j := by
    intro j hij
    rw [Bool.eq_iff_iff, isHeld_iff, isHeld_iff, holds_setHolds, if_neg hij]
    rfl
  have hheld : ∀ j, (w.setHolds i n).isHeld j = true → w.isHeld j = true := by
    intro j hj
    by_cases hij : i = j
    · exact hij ▸ hi
    · exact hother j hij ▸ hj
  refine ⟨{ ledger := fun j hj => hbal.ledger j (hheld j hj), fresh := ?_,
            holds_eq := rfl, count_eq := rfl, journal_eq := rfl }, ?_⟩
  · intro j hlt
    obtain ⟨hempty, hnot, hnone⟩ := hbal.fresh j hlt
    refine ⟨hempty, Bool.eq_false_iff.2 ?_, hnone⟩
    intro hj
    rw [hheld j hj] at hnot
    simp at hnot
  · intro j hj hnot k
    have hij : i ≠ j := fun hij => hnot (by simp [hij])
    exact hbal.closed j (hother j hij ▸ hj) (by simp) k

theorem Balanced.holdInterpreter (hbal : Balanced held w w) (hi : w.isHeld i = true) :
    Balanced held (w.holdInterpreter i) (w.holdInterpreter i) := by
  obtain ⟨hledger, hclosed⟩ := hbal.setHolds hi (w.holds.get i.number + 1)
  refine ⟨hledger, fun j hj hnot k => hclosed j hj ?_ k⟩
  intro hmem
  -- one more hold leaves the interpreter held
  have hij : j = i := by simpa using hmem
  subst hij
  refine Bool.eq_false_iff.1 hj (isHeld_iff.2 (.inl ?_))
  rw [World.holdInterpreter, holds_setHolds, if_pos rfl]
  exact Nat.succ_ne_zero _

/-- Host code that gives up a hold may end the interpreter. -/
theorem Balanced.dropInterpreter (hbal : Balanced held w w) (hhost : w.holds.get i.number ≠ 0) :
    Balanced held (w.dropInterpreter i) (w.dropInterpreter i) ∧
      (w.dropInterpreter i).journal = w.journal := by
  obtain ⟨hledger, hclosed⟩ :=
    hbal.setHolds (isHeld_iff.2 (.inl hhost)) (w.holds.get i.number - 1)
  have hquiet : Quiet [.interpreter i] := by simp [Quiet]
  have hrelease := hledger.release hclosed hquiet
  exact ⟨hrelease.rebase, hrelease.journal_eq⟩

/-- A new interpreter has no scalars and nobody owns one. -/
theorem Balanced.newInterpreter (hbal : Balanced held w w) :
    Balanced held w.newInterpreter.2 w.newInterpreter.2 := by
  obtain ⟨hempty, hnot, hnone⟩ := hbal.fresh ⟨w.interpreterCount + 1⟩ (Nat.lt_succ_self _)
  have hheld : ∀ j, j ≠ ⟨w.interpreterCount + 1⟩ → w.newInterpreter.2.isHeld j = w.isHeld j := by
    intro j hj
    have hholds := holds_setHolds { w with interpreterCount := w.interpreterCount + 1 }
      ⟨w.interpreterCount + 1⟩ j 1
    rw [if_neg (Ne.symm hj)] at hholds
    rw [Bool.eq_iff_iff, isHeld_iff, isHeld_iff, World.newInterpreter, hholds]
    rfl
  refine { ledger := ?_, fresh := ?_, holds_eq := rfl, count_eq := rfl,
           journal_eq := rfl, closed := ?_ }
  · intro j hj
    by_cases hnew : j = ⟨w.interpreterCount + 1⟩
    · subst hnew
      have hwraps : ∀ k, w.store.wrappers ⟨w.interpreterCount + 1⟩ k = 0 := fun k =>
        Nat.eq_zero_of_not_pos fun hpos => by
          rw [isHeld_iff.2 (.inr ⟨k, hpos⟩)] at hnot
          simp at hnot
      show (w.interpreter ⟨w.interpreterCount + 1⟩).Balanced _
      rw [hempty]
      refine Interpreter.balanced_empty.congr ?_
      intro k
      show 0 = held.count (_, k) + w.store.wrappers _ k
      rw [hnone, hwraps]
    · exact hbal.ledger j ((hheld j hnew) ▸ hj)
  · intro j hlt
    have hlt' : w.interpreterCount + 1 < j.number := hlt
    have hj : j ≠ ⟨w.interpreterCount + 1⟩ := fun hj => by simp [hj] at hlt'
    rw [hheld j hj]
    exact hbal.fresh j (by omega)
  · intro j hj hnot k
    by_cases hnew : j = ⟨w.interpreterCount + 1⟩
    · subst hnew
      show (w.interpreter ⟨w.interpreterCount + 1⟩).heap.cell? k = none
      rw [hempty]
      rfl
    · exact hbal.closed j ((hheld j hnew) ▸ hj) hnot k

end World

end GuestBridge
