import GuestBridge.Proofs.Ledger.Conversion
import GuestBridge.Proofs.Ledger.World

/-!
# The share ledger across a bridge

What crosses a bridge without running guest code keeps the ledger of the world. A conversion and its
like hand the caller one share; arguments become temporaries of the call's scope; results are
wrapped, and each wrapper has a share of its own.

Everything here is about an interpreter that host code holds on to, as a bridge does. Values are let
go of on the way, and without that hold the interpreter could end in the middle.
-/

namespace GuestBridge.World

variable {held : Held} {w₀ w : World} {i : InterpreterId} {b : Bridge}

theorem Balanced.tally (hbal : Balanced held w₀ w) (kind : EventKind) (detail : String)
    (result : Except CrossingError α) : Balanced held w₀ (w.tally b kind detail result) := by
  cases result with
  | ok => exact hbal.onTelemetry _ _
  | error => exact hbal.onTelemetry _ _

/-! ## Conversion -/

/-- The caller of a conversion is handed the share of what it answers. -/
theorem Balanced.convert (hbal : Balanced held w₀ w) (config : Config)
    (hhost : w₀.holds.get i.number ≠ 0) (v : Value) :
    Balanced (Held.of i (handed (w.convert i config v).1) ++ held) w₀
      (w.convert i config v).2 := by
  refine hbal.guestGain (hbal.isHeld_of_holds hhost) ?_
  unfold World.convert
  rw [guest_fst]
  refine Interpreter.trades_onHeap ?_
  intro owed hheap
  exact (Passage.convert_keepsLedger _ _ v _ owed hheap).balanced

theorem Balanced.marshal (hbal : Balanced held w₀ w)
    (hhost : w₀.holds.get b.interpreter.number ≠ 0) (v : Value) :
    Balanced (Held.of b.interpreter (handed (w.marshal b v).1) ++ held) w₀
      (w.marshal b v).2 :=
  Balanced.tally (hbal.convert b.config hhost v) .convert _ _

/-! ## Arguments -/

/-- A scalar of which the caller owns a share is there. -/
theorem Balanced.exists_cell {h : Handle} (hbal : Balanced (Held.of i [h] ++ held) w₀ w)
    (hi : w.isHeld i = true) : ∃ c, (w.interpreter i).heap.cell? h = some c := by
  refine (hbal.ledger i hi).exists_cell ?_
  rw [Held.count_append_self, List.count_singleton_self]
  omega

/-- A share that the caller owns becomes a temporary. -/
theorem Balanced.pushTemporary {h : Handle} (hbal : Balanced (Held.of i [h] ++ held) w₀ w)
    (hhost : w₀.holds.get i.number ≠ 0) :
    (w.pushTemporary i h).1 = .ok () ∧ Balanced held w₀ (w.pushTemporary i h).2 := by
  have hi := hbal.isHeld_of_holds hhost
  obtain ⟨c, hc⟩ := hbal.exists_cell hi
  have hlive := Heap.contains_iff.2 ⟨c, hc⟩
  have hguest : Balanced held w₀ (w.guest i (·.pushTemporary h)).2 :=
    hbal.guestSpend hi (Interpreter.trades_pushTemporary hlive)
  have hok : (w.guest i (·.pushTemporary h)).1 = .ok () := by
    rw [guest_fst, Interpreter.pushTemporary, Interpreter.ifLive, if_pos hlive]
  unfold World.pushTemporary
  split
  · rename_i heq
    rw [heq] at hguest
    exact ⟨rfl, hguest⟩
  · rename_i heq
    rw [heq] at hok
    simp at hok

theorem Balanced.pushConverted (hbal : Balanced held w₀ w) (config : Config)
    (hhost : w₀.holds.get i.number ≠ 0) (v : Value) :
    Balanced held w₀ (w.pushConverted i config v).2 := by
  have hconv := hbal.convert config hhost v
  unfold World.pushConverted
  split
  · rename_i heq
    rw [heq] at hconv
    exact (Balanced.pushTemporary hconv hhost).2
  · rename_i heq
    rw [heq] at hconv
    exact hconv

theorem Balanced.pushKey (hbal : Balanced held w₀ w) (config : Config)
    (hhost : w₀.holds.get i.number ≠ 0) (key : String) :
    (w.pushKey i config key).1 = .ok () ∧ Balanced held w₀ (w.pushKey i config key).2 := by
  have hcreate : ∀ body : Body, body.children = [] →
      Balanced (Held.of i [(w.guest i (·.create body)).1] ++ held) w₀
        (w.guest i (·.create body)).2 := by
    intro body hbody
    rw [guest_fst]
    have htrades : (w.interpreter i).Trades (·.create body) body.children
        [((w.interpreter i).create body).1] := Interpreter.trades_create body
    rw [hbody] at htrades
    exact hbal.guestGain (hbal.isHeld_of_holds hhost) htrades
  exact Balanced.pushTemporary (hcreate (.str _) rfl) hhost

/-- A scalar that is there yields one more share; a stale handle changes nothing. -/
theorem Balanced.guestShare (hbal : Balanced held w₀ w) (hhost : w₀.holds.get i.number ≠ 0)
    (h : Handle) :
    (∃ n w', w.guest i (·.share h) = (.ok n, w') ∧ Balanced (Held.of i [h] ++ held) w₀ w') ∨
      ∃ w', w.guest i (·.share h) = (.error h.stale, w') ∧ Balanced held w₀ w' := by
  have hi := hbal.isHeld_of_holds hhost
  have hfst := guest_fst w i (·.share h)
  cases hc : (w.interpreter i).heap.cell? h with
  | none =>
    have hguest : Balanced held w₀ (w.guest i (·.share h)).2 :=
      hbal.guestKeeping hi (Interpreter.trades_onHeap fun owed hheap => by
        rw [Heap.share_eq_of_none hc]
        exact hheap)
    rw [Interpreter.share, Interpreter.onHeap, Heap.share_eq_of_none hc] at hfst
    exact .inr ⟨_, Prod.ext hfst rfl, hguest⟩
  | some c =>
    have hguest := hbal.guestGain hi (Interpreter.trades_share hc)
    rw [Interpreter.share, Interpreter.onHeap, Heap.share_eq_of_cell? hc] at hfst
    exact .inl ⟨_, _, Prod.ext hfst rfl, hguest⟩

theorem Balanced.pushInvocant (hbal : Balanced held w₀ w) (config : Config)
    (hhost : w₀.holds.get i.number ≠ 0) (invocant : Invocant) :
    Balanced held w₀ (w.pushInvocant i config invocant).2 := by
  rcases invocant with h | name
  · unfold World.pushInvocant
    rcases hbal.guestShare hhost h with ⟨n, w', heq, hshare⟩ | ⟨w', heq, hsame⟩
    · simp only [heq]
      exact (Balanced.pushTemporary hshare hhost).2
    · simp only [heq]
      exact hsame
  · exact hbal.pushConverted config hhost _

theorem argumentClosed_balanced (held : Held) (hhost : w₀.holds.get i.number ≠ 0) :
    ArgumentClosed i fun w w' => Balanced held w₀ w → Balanced held w₀ w' where
  toHostClosed := hostClosed_balanced held w₀
  pushConverted := fun _ config v hbal => hbal.pushConverted config hhost v
  pushKey := fun _ config key hbal => (hbal.pushKey config hhost key).2
  pushInvocant := fun _ config invocant hbal => hbal.pushInvocant config hhost invocant

theorem Balanced.passArguments (hbal : Balanced held w₀ w)
    (hhost : w₀.holds.get b.interpreter.number ≠ 0) (positional named : ObjectId) :
    Balanced held w₀ (w.passArguments b positional named).2 :=
  Balanced.tally ((argumentClosed_balanced held hhost).pushAll w b.config positional named hbal)
    .push _ _

theorem Balanced.takeInvocantSlot (hbal : Balanced held w₀ w) (config : Config)
    (positional : ObjectId) : Balanced held w₀ (w.takeInvocantSlot config positional).2 :=
  (hostClosed_balanced held w₀).takeInvocantSlot w config positional hbal

theorem Balanced.prepareSub (hbal : Balanced held w₀ w)
    (hhost : w₀.holds.get b.interpreter.number ≠ 0) (positional named : ObjectId) :
    Balanced held w₀ (prepareSub b positional named w).2 :=
  (argumentClosed_balanced held hhost).prepareSub positional named w hbal

theorem Balanced.prepareMethod (hbal : Balanced held w₀ w)
    (hhost : w₀.holds.get b.interpreter.number ≠ 0) (invocant : Invocant)
    (positional named : ObjectId) :
    Balanced held w₀ (prepareMethod b invocant positional named w).2 :=
  (argumentClosed_balanced held hhost).prepareMethod invocant positional named w hbal

/-! ## Results -/

/-- A wrapper has a share of its own. -/
theorem Balanced.wrapScalar (hbal : Balanced held w₀ w) (hhost : w₀.holds.get i.number ≠ 0)
    (h : Handle) : Balanced held w₀ (w.wrapScalar i h).2 := by
  unfold World.wrapScalar
  rcases hbal.guestShare hhost h with ⟨n, w', heq, hshare⟩ | ⟨w', heq, hsame⟩
  · simp only [heq]
    exact Balanced.newBoundary hshare (hshare.isHeld_of_holds hhost)
  · simp only [heq]
    exact hsame

theorem Balanced.wrap (hbal : Balanced held w₀ w)
    (hhost : w₀.holds.get b.interpreter.number ≠ 0) (h : Handle) :
    Balanced held w₀ (w.wrap b h).2 :=
  Balanced.tally (hbal.wrapScalar hhost h) .wrap _ _

theorem Balanced.resume (hbal : Balanced held w₀ w) (ctx : CallContext) (next : Address) :
    Balanced held w₀ (w.resume b ctx next).2 := by
  unfold World.resume
  dsimp only
  split
  · split
    · exact hbal.onTelemetry _ _
    · exact hbal
  · exact hbal.onTelemetry _ _

theorem Balanced.boxResults (hbal : Balanced held w₀ w) (hhost : w₀.holds.get i.number ≠ 0)
    (count : Nat) : Balanced held w₀ (w.boxResults i count).2 :=
  (hostClosed_balanced held w₀).boxResults
    (fun w hbal => hbal.guestKeeping (hbal.isHeld_of_holds hhost) (w.interpreter i).trades_pop)
    (fun _ h hbal => hbal.wrapScalar hhost h) w count hbal

end GuestBridge.World
