import GuestBridge.Proofs.Calls.Stack
import GuestBridge.Proofs.Ledger.Crossing
import GuestBridge.Proofs.Release

/-!
# Handing over the arguments of a call

`Passes` and `PassesNamed` say which scalars a list of values is converted to when each is pushed
and let go of before the next one is converted. `HandsOver` puts the two together for the
collections of a call, and `Receives` says what is pushed for a receiver. If the conversions
succeed, so does the pushing, since a scalar that was just converted is there.

`Carried` is what has changed meanwhile. The scalars are on top of the stack, in order, and each is
a temporary of the scope; all that was below is there still. Temporaries own shares, so none of
these scalars goes or changes its body while the next value is converted, whatever the values that
are let go of take with them. `Passed` adds that no object of the store has got another content,
which holds until a collection is emptied.
-/

namespace GuestBridge

/-! ## Temporaries -/

/-- The temporaries of an interpreter are temporaries still, and have the bodies that they had. -/
def Interpreter.Retains (it it₁ : Interpreter) : Prop :=
  ∀ k ∈ it.stack.temps.toList, k ∈ it₁.stack.temps.toList ∧
    ∀ body, it.heap.body k = .ok body → it₁.heap.body k = .ok body

theorem Interpreter.Retains.refl (it : Interpreter) : it.Retains it :=
  fun _ hmem => ⟨hmem, fun _ hbody => hbody⟩

theorem Interpreter.Retains.trans {it it₁ it₂ : Interpreter} (hfirst : it.Retains it₁)
    (hnext : it₁.Retains it₂) : it.Retains it₂ := by
  intro k hmem
  obtain ⟨hmem₁, hbody₁⟩ := hfirst k hmem
  obtain ⟨hmem₂, hbody₂⟩ := hnext k hmem₁
  exact ⟨hmem₂, fun body hbody => hbody₂ body (hbody₁ body hbody)⟩

namespace World

variable {held : Held} {w₀ w w₁ w₂ : World} {i : InterpreterId} {config : Config}
variable {hs hs' : List Handle}

/-- A temporary is there. -/
theorem Balanced.exists_temporary (hbal : Balanced held w₀ w) (hi : w.isHeld i = true) {k : Handle}
    (hmem : k ∈ (w.interpreter i).stack.temps.toList) :
    ∃ c, (w.interpreter i).heap.cell? k = some c := by
  have hledger : (w.interpreter i).heap.Balanced _ := hbal.ledger i hi
  refine hledger.exists_cell ?_
  have hpos := List.count_pos_iff.2 hmem
  rw [ArgumentStack.tempCount]
  omega

/-- What recedes keeps its temporaries, since these are there in the end. -/
theorem Balanced.retains (hbal : Balanced held w₀ w₁) (hi : w₁.isHeld i = true)
    (hrec : Recedes w w₁) : (w.interpreter i).Retains (w₁.interpreter i) := by
  intro k hmem
  rw [← hrec.stack i] at hmem
  refine ⟨hmem, ?_⟩
  intro body hbody
  obtain ⟨c₁, hc₁⟩ := hbal.exists_temporary hi hmem
  obtain ⟨c, hc, hsame⟩ := (hrec.heap i).cell k c₁ hc₁
  obtain ⟨c', hc', rfl⟩ := Heap.body_eq_ok_iff.1 hbody
  rw [hc, Option.some.injEq] at hc'
  exact Heap.body_eq_ok_iff.2 ⟨c₁, hc₁, by rw [← hsame, hc']⟩

/-! ## Passing -/

/-- From one world to another, scalars have been passed on top of a stack. -/
structure Carried (held : Held) (w₀ : World) (i : InterpreterId) (hs : List Handle)
    (w w₁ : World) : Prop where
  balanced : Balanced held w₀ w₁
  stack : (w₁.interpreter i).stack = (w.interpreter i).stack.pass hs
  retains : (w.interpreter i).Retains (w₁.interpreter i)

/-- The same, and the objects that are there still have the content that they had. -/
structure Passed (held : Held) (w₀ : World) (i : InterpreterId) (hs : List Handle)
    (w w₁ : World) : Prop extends Carried held w₀ i hs w w₁ where
  object : ∀ id o, w₁.store.get? id = some o → w.store.get? id = some o

theorem Passed.refl (hbal : Balanced held w₀ w) : Passed held w₀ i [] w w where
  balanced := hbal
  stack := by rw [ArgumentStack.pass_nil]
  retains := .refl _
  object := fun _ _ ho => ho

theorem Carried.trans {held' : Held} (hfirst : Carried held' w₀ i hs w w₁)
    (hnext : Carried held w₀ i hs' w₁ w₂) : Carried held w₀ i (hs ++ hs') w w₂ where
  balanced := hnext.balanced
  stack := by rw [hnext.stack, hfirst.stack, ArgumentStack.pass_pass]
  retains := hfirst.retains.trans hnext.retains

/-- The world before counts by its interpreter alone. -/
theorem Carried.of_interpreter {w' : World} (hcarried : Carried held w₀ i hs w w₁)
    (hsame : w.interpreter i = w'.interpreter i) : Carried held w₀ i hs w' w₁ where
  balanced := hcarried.balanced
  stack := by rw [hcarried.stack, hsame]
  retains := hsame ▸ hcarried.retains

theorem Passed.trans {held' : Held} (hfirst : Passed held' w₀ i hs w w₁)
    (hnext : Passed held w₀ i hs' w₁ w₂) : Passed held w₀ i (hs ++ hs') w w₂ where
  toCarried := hfirst.toCarried.trans hnext.toCarried
  object := fun id o ho => hfirst.object id o (hnext.object id o ho)

theorem Recedes.get? (hrec : Recedes w w₁) (id : ObjectId) (o : HostObject)
    (ho : w₁.store.get? id = some o) : w.store.get? id = some o := by
  obtain ⟨h₁, hh₁, rfl⟩ := Option.map_eq_some_iff.1 ho
  obtain ⟨h, hh, hobject⟩ := hrec.object id h₁ hh₁
  exact Option.map_eq_some_iff.2 ⟨h, hh, hobject⟩

/-- Letting go of something takes no temporary along. -/
theorem Carried.recedes (hcarried : Carried held w₀ i hs w w₁) (hrec : Recedes w₁ w₂)
    (hbal : Balanced held w₀ w₂) (hhost : w₀.holds.get i.number ≠ 0) :
    Carried held w₀ i hs w w₂ where
  balanced := hbal
  stack := (hrec.stack i).trans hcarried.stack
  retains := hcarried.retains.trans (hbal.retains (hbal.isHeld_of_holds hhost) hrec)

theorem Passed.recedes (hpassed : Passed held w₀ i hs w w₁) (hrec : Recedes w₁ w₂)
    (hbal : Balanced held w₀ w₂) (hhost : w₀.holds.get i.number ≠ 0) :
    Passed held w₀ i hs w w₂ where
  toCarried := hpassed.toCarried.recedes hrec hbal hhost
  object := fun id o ho => hpassed.object id o (hrec.get? id o ho)

/-- An operation on the interpreter that passes scalars and leaves its temporaries alone. -/
theorem Balanced.passed_guest {f : Interpreter → α × Interpreter}
    (hbal : Balanced held w₀ (w.guest i f).2) (hhost : w₀.holds.get i.number ≠ 0)
    (hstack : (f (w.interpreter i)).2.stack = (w.interpreter i).stack.pass hs)
    (hretains : (w.interpreter i).Retains (f (w.interpreter i)).2) :
    Passed held w₀ i hs w (w.guest i f).2 where
  balanced := hbal
  stack := by rw [stack_guest, hstack]
  retains := by
    have hsettled := hbal.retains (hbal.isHeld_of_holds hhost) (w.recedes_guest i f)
    rw [interpreter_setInterpreter, if_pos rfl] at hsettled
    exact hretains.trans hsettled
  object := (w.recedes_guest i f).get?

theorem pushTemporary_snd (w : World) (i : InterpreterId) (h : Handle) :
    (w.pushTemporary i h).2 = (w.guest i (·.pushTemporary h)).2 := by
  unfold World.pushTemporary
  split <;> (rename_i heq; rw [heq])

/-- A share that the caller owns is passed, and the scalar keeps its body. -/
theorem Balanced.passed_pushTemporary {h : Handle} (hbal : Balanced (Held.of i [h] ++ held) w₀ w)
    (hhost : w₀.holds.get i.number ≠ 0) :
    ∃ w₁, w.pushTemporary i h = (.ok (), w₁) ∧ Passed held w₀ i [h] w w₁ ∧
      ∀ body, (w.interpreter i).heap.body h = .ok body →
        (w₁.interpreter i).heap.body h = .ok body := by
  obtain ⟨hok, hafter⟩ := hbal.pushTemporary hhost
  obtain ⟨c, hc⟩ := hbal.exists_cell (hbal.isHeld_of_holds hhost)
  have hsnd := w.pushTemporary_snd i h
  have hpush : ((w.interpreter i).pushTemporary h).2
      = { w.interpreter i with stack := (w.interpreter i).stack.pass [h] } := by
    rw [Interpreter.pushTemporary, Interpreter.ifLive, if_pos (Heap.contains_iff.2 ⟨c, hc⟩),
      ArgumentStack.push_addTemporary]
  rw [hsnd] at hafter
  refine ⟨(w.pushTemporary i h).2, Prod.ext hok rfl, ?_, ?_⟩
  · rw [hsnd]
    refine hafter.passed_guest hhost (by rw [hpush]) ?_
    rw [hpush]
    exact fun k hmem => ⟨by simp [ArgumentStack.pass, hmem], fun body hbody => hbody⟩
  · -- the scalar is a temporary by the time that anything is let go of
    have hsettled := hafter.retains (hafter.isHeld_of_holds hhost)
      (w.recedes_guest i (·.pushTemporary h))
    rw [interpreter_setInterpreter, if_pos rfl, hpush] at hsettled
    rw [hsnd]
    exact (hsettled h (by simp [ArgumentStack.pass])).2

/-! ## Values -/

/-- Values converted one after the other. Each scalar is pushed, and its value let go of, before the
next one is converted. -/
inductive Passes (i : InterpreterId) (config : Config) :
    World → List Value → List Handle → World → Prop where
  | nil {w : World} : Passes i config w [] [] w
  | cons {w w₁ w' : World} {v h rest hs} : w.convert i config v = (.ok h, w₁) →
      Passes i config ((w₁.pushTemporary i h).2.drop v) rest hs w' →
      Passes i config w (v :: rest) (h :: hs) w'

/-- The same of named values. A string with the key goes in front of each. -/
inductive PassesNamed (i : InterpreterId) (config : Config) :
    World → List (String × Value) → List (Handle × Handle) → World → Prop where
  | nil {w : World} : PassesNamed i config w [] [] w
  | cons {w w₁ w₂ w' : World} {key k v h rest pairs} :
      w.guest i (·.create (.str (config.stringPolicy.apply (Utf8.encode key)))) = (k, w₁) →
      (w₁.pushTemporary i k).2.convert i config v = (.ok h, w₂) →
      PassesNamed i config ((w₂.pushTemporary i h).2.drop v) rest pairs w' →
      PassesNamed i config w ((key, v) :: rest) ((k, h) :: pairs) w'

/-- What is pushed for named values: each key and then its value. -/
def flatten (pairs : List (Handle × Handle)) : List Handle := pairs.flatMap fun e => [e.1, e.2]

/-- The scalars in front of named values are strings with the keys. -/
def Spells (config : Config) (it : Interpreter) (pairs : List (Handle × Handle))
    (es : List (String × Value)) : Prop :=
  pairs.map (fun pair => it.heap.body pair.1) =
    es.map fun e => .ok (.str (config.stringPolicy.apply (Utf8.encode e.1)))

/-- A conversion does not touch the temporaries. -/
theorem Balanced.passed_conversion {v : Value} {h : Handle} (hbal : Balanced held w₀ w)
    (hhost : w₀.holds.get i.number ≠ 0) (hconvert : w.convert i config v = (.ok h, w₁)) :
    Passed (Held.of i [h] ++ held) w₀ i [] w w₁ := by
  have howned := hbal.convert config hhost v
  have hpassed : Passed (Held.of i (handed (w.convert i config v).1) ++ held) w₀ i [] w
      (w.convert i config v).2 := by
    refine Balanced.passed_guest howned hhost (by rw [ArgumentStack.pass_nil]; rfl) ?_
    intro k hmem
    refine ⟨hmem, ?_⟩
    intro body hbody
    obtain ⟨c, hc, rfl⟩ := Heap.body_eq_ok_iff.1 hbody
    have hheap := hbal.ledger i (hbal.isHeld_of_holds hhost)
    have hyields := Passage.convert_keepsLedger
      { config, store := w.store, target := i } (config.maxDepth + 1) v _ _ hheap
    have hpos := List.count_pos_iff.2 hmem
    obtain ⟨c', hc', hsame⟩ := hyields.kept k c (by rw [ArgumentStack.tempCount]; omega) hc
    exact Heap.body_eq_ok_iff.2 ⟨c', hc', hsame⟩
  rw [hconvert] at hpassed
  exact hpassed

/-- A value that is converted is passed, and then let go of. -/
theorem Balanced.passed_convert {v : Value} {h : Handle} (hbal : Balanced held w₀ w)
    (hhost : w₀.holds.get i.number ≠ 0) (hconvert : w.convert i config v = (.ok h, w₁)) :
    w.pushConverted i config v = (.ok (), (w₁.pushTemporary i h).2) ∧
      Passed held w₀ i [h] w (w₁.pushTemporary i h).2 ∧
      Passed held w₀ i [h] w ((w₁.pushTemporary i h).2.drop v) := by
  have hconverted := hbal.passed_conversion hhost hconvert
  obtain ⟨w₂, hpush, hpassed, -⟩ := Balanced.passed_pushTemporary hconverted.balanced hhost
  have hall : Passed held w₀ i [h] w w₂ := hconverted.trans hpassed
  rw [hpush]
  refine ⟨?_, hall, hall.recedes (recedes_release _ _) (hall.balanced.drop v) hhost⟩
  rw [World.pushConverted, hconvert]
  exact hpush

/-- Values whose conversions succeed are passed, in order. -/
theorem Passes.passed {vs : List Value} (hpasses : Passes i config w vs hs w₁)
    (hhost : w₀.holds.get i.number ≠ 0) (hbal : Balanced held w₀ w) :
    pushPositional i config vs w = (.ok vs.length, w₁) ∧ Passed held w₀ i hs w w₁ := by
  induction hpasses with
  | nil => exact ⟨rfl, .refl hbal⟩
  | cons hconvert _ ih =>
    obtain ⟨hpush, -, hfirst⟩ := hbal.passed_convert hhost hconvert
    obtain ⟨hrest, hnext⟩ := ih hfirst.balanced
    refine ⟨?_, hfirst.trans hnext⟩
    rw [World.pushPositional, hpush]
    dsimp only
    rw [hrest]
    rfl

/-- A new scalar without children is the caller's, and has the body that it was given. -/
theorem Balanced.passed_create {body : Body} {k : Handle} (hbal : Balanced held w₀ w)
    (hhost : w₀.holds.get i.number ≠ 0) (hchildren : body.children = [])
    (hcreate : w.guest i (·.create body) = (k, w₁)) :
    Passed (Held.of i [k] ++ held) w₀ i [] w w₁ ∧ (w₁.interpreter i).heap.body k = .ok body := by
  have hi := hbal.isHeld_of_holds hhost
  have hwf := (hbal.ledger i hi).wellFormed
  have hk := w.guest_fst i (·.create body)
  have htrades : (w.interpreter i).Trades (·.create body) body.children
      [((w.interpreter i).create body).1] := Interpreter.trades_create body
  rw [hchildren] at htrades
  have howned := hbal.guestGain hi htrades
  have hpassed : Passed (Held.of i [((w.interpreter i).create body).1] ++ held) w₀ i [] w
      (w.guest i (·.create body)).2 := by
    refine howned.passed_guest hhost (by rw [ArgumentStack.pass_nil]; rfl) ?_
    intro k' hmem
    refine ⟨hmem, ?_⟩
    intro body' hbody'
    exact hwf.body_allocate hbody' body
  have hrec := w.recedes_guest i (·.create body)
  rw [hcreate] at hk hpassed hrec
  dsimp only at hk
  rw [← hk] at hpassed
  refine ⟨hpassed, ?_⟩
  have hbal₁ := hpassed.balanced
  -- the caller owns it, so what was let go of after the operation has not freed it
  obtain ⟨c₁, hc₁⟩ := hbal₁.exists_cell (hbal₁.isHeld_of_holds hhost)
  obtain ⟨c, hc, hsame⟩ := (hrec.heap i).cell k c₁ hc₁
  rw [interpreter_setInterpreter, if_pos rfl, hk] at hc
  have hnew := hwf.body_allocate_fst body
  obtain ⟨c', hc', rfl⟩ := Heap.body_eq_ok_iff.1 hnew
  obtain rfl := Option.some.inj (hc.symm.trans hc')
  exact Heap.body_eq_ok_iff.2 ⟨c₁, hc₁, hsame.symm⟩

/-- A key becomes a string, which is passed. -/
theorem Balanced.passed_key {key : String} {k : Handle} (hbal : Balanced held w₀ w)
    (hhost : w₀.holds.get i.number ≠ 0)
    (hcreate : w.guest i (·.create (.str (config.stringPolicy.apply (Utf8.encode key))))
      = (k, w₁)) :
    w.pushKey i config key = (.ok (), (w₁.pushTemporary i k).2) ∧
      Passed held w₀ i [k] w (w₁.pushTemporary i k).2 ∧
      ((w₁.pushTemporary i k).2.interpreter i).heap.body k
        = .ok (.str (config.stringPolicy.apply (Utf8.encode key))) := by
  obtain ⟨hcreated, hbody⟩ := hbal.passed_create hhost rfl hcreate
  obtain ⟨w₂, hpush, hpassed, hkept⟩ := Balanced.passed_pushTemporary hcreated.balanced hhost
  rw [hpush]
  refine ⟨?_, hcreated.trans hpassed, hkept _ hbody⟩
  rw [World.pushKey]
  dsimp only
  rw [hcreate]
  exact hpush

/-- Named values whose conversions succeed are passed, each behind its key. -/
theorem PassesNamed.passed {es : List (String × Value)} {pairs : List (Handle × Handle)}
    (hpasses : PassesNamed i config w es pairs w₁) (hhost : w₀.holds.get i.number ≠ 0)
    (hbal : Balanced held w₀ w) :
    pushNamed i config es w = (.ok (2 * es.length), w₁) ∧
      Passed held w₀ i (flatten pairs) w w₁ ∧ Spells config (w₁.interpreter i) pairs es := by
  induction hpasses with
  | nil => exact ⟨rfl, .refl hbal, rfl⟩
  | @cons _ _ _ _ _ k _ _ _ _ hcreate hconvert _ ih =>
    obtain ⟨hkey, hfirst, hbody⟩ := hbal.passed_key hhost hcreate
    obtain ⟨hpush, -, hsecond⟩ := hfirst.balanced.passed_convert hhost hconvert
    obtain ⟨hrest, hnext, hbodies⟩ := ih hsecond.balanced
    refine ⟨?_, (hfirst.trans hsecond).trans hnext, ?_⟩
    · rw [World.pushNamed, hkey]
      dsimp only
      rw [hpush]
      dsimp only
      rw [hrest]
      rfl
    · -- the key is a temporary from the start, so it is the same string in the end
      obtain ⟨-, hkept⟩ := (hsecond.retains.trans hnext.retains) k
        (by rw [hfirst.stack]; simp [ArgumentStack.pass])
      rw [Spells, List.map_cons, List.map_cons, hbodies, hkept _ hbody]

/-- Strings that are temporaries stay what they are. -/
theorem Spells.retains {it it₁ : Interpreter} {pairs : List (Handle × Handle)}
    {es : List (String × Value)} (hspells : Spells config it pairs es) (hret : it.Retains it₁)
    (hmem : ∀ k ∈ flatten pairs, k ∈ it.stack.temps.toList) : Spells config it₁ pairs es := by
  refine Eq.trans (List.map_congr_left ?_) hspells
  intro pair hpair
  have hbody := List.mem_map_of_mem (f := fun pair => it.heap.body pair.1) hpair
  rw [hspells] at hbody
  obtain ⟨e, -, he⟩ := List.mem_map.1 hbody
  have htemp := hmem pair.1 (List.mem_flatMap.2 ⟨pair, hpair, List.mem_cons_self⟩)
  rw [← he]
  exact (hret pair.1 htemp).2 _ he.symm

/-! ## Collections -/

/-- The positional array and the named hash of a call, with these elements, are emptied onto the
stack and let go of. -/
inductive HandsOver (b : Bridge) (positional named : ObjectId) (w : World) (vs : List Value)
    (es : List (String × Value)) (hs : List Handle) (pairs : List (Handle × Handle)) :
    World → Prop where
  | intro {w₁ w₂ : World} : w.store.get? positional = some (.array vs) →
      Passes b.interpreter b.config (w.setItems positional []) vs hs w₁ →
      w₁.store.get? named = some (.hash es) →
      PassesNamed b.interpreter b.config (w₁.setEntries named []) es pairs w₂ →
      HandsOver b positional named w vs es hs pairs (w₂.dropObjects [named, positional])

theorem get?_modify (st : Store) (id : ObjectId) (f : HostObject → HostObject) (j : ObjectId) :
    (st.modify id f).get? j = if j = id then (st.get? j).map f else st.get? j := by
  unfold Store.modify
  cases hh : st.holding? id with
  | none =>
    dsimp only
    split
    · rename_i hj
      simp [Store.get?, hj, hh]
    · rfl
  | some h =>
    dsimp only
    rw [Store.get?, Store.holding?_put hh]
    split
    · rename_i hj
      simp [Store.get?, hj, hh]
    · rfl

theorem get?_setItems (w : World) (id : ObjectId) (items : List Value) (j : ObjectId) :
    (w.setItems id items).store.get? j =
      if j = id then (w.store.get? j).map (·.withItems items) else w.store.get? j :=
  get?_modify w.store id _ j

theorem get?_setEntries (w : World) (id : ObjectId) (entries : List (String × Value))
    (j : ObjectId) :
    (w.setEntries id entries).store.get? j =
      if j = id then (w.store.get? j).map (·.withEntries entries) else w.store.get? j :=
  get?_modify w.store id _ j

theorem get?_of_setItems_array {id : ObjectId} {items vs : List Value}
    (hvs : (w.setItems id items).store.get? id = some (.array vs)) :
    vs = items ∧ ∃ before, w.store.get? id = some (.array before) := by
  rw [get?_setItems, if_pos rfl] at hvs
  obtain ⟨o, ho, hwith⟩ := Option.map_eq_some_iff.1 hvs
  cases o with
  | array before => exact ⟨(HostObject.array.inj hwith).symm, before, ho⟩
  | hash | boundary | object | closure => simp [HostObject.withItems] at hwith

/-- A write to an array makes no hash of it, and changes no hash. -/
theorem get?_of_setItems_hash {id j : ObjectId} {items : List Value}
    {es : List (String × Value)} (hes : (w.setItems id items).store.get? j = some (.hash es)) :
    w.store.get? j = some (.hash es) := by
  rw [get?_setItems] at hes
  split at hes
  · obtain ⟨o, ho, hwith⟩ := Option.map_eq_some_iff.1 hes
    cases o with
    | array => simp [HostObject.withItems] at hwith
    | hash | boundary | object | closure => exact hwith ▸ ho
  · exact hes

/-- The elements of both collections are passed. The named ones were in their hash from the
start. -/
theorem HandsOver.carried {b : Bridge} {positional named : ObjectId} {vs : List Value}
    {es : List (String × Value)} {pairs : List (Handle × Handle)}
    (hhands : HandsOver b positional named w vs es hs pairs w₁)
    (hhost : w₀.holds.get b.interpreter.number ≠ 0) (hbal : Balanced held w₀ w) :
    prepareSub b positional named w = ((.ok (), []), w₁) ∧
      Carried held w₀ b.interpreter (hs ++ flatten pairs) w w₁ ∧
      Spells b.config (w₁.interpreter b.interpreter) pairs es ∧
      w.store.get? positional = some (.array vs) ∧ w.store.get? named = some (.hash es) := by
  obtain ⟨hvs, hpasses, hes, hnamed⟩ := hhands
  rename_i w₂ w₃
  obtain ⟨hpush, hfirst⟩ := hpasses.passed hhost (hbal.setItems positional [])
  obtain ⟨hpush', hnext, hspells⟩ := hnamed.passed hhost (hfirst.balanced.setEntries named [])
  -- both collections go in the end, and the scalars on the stack outlive them
  have hdropped := hnext.balanced.dropObjects [named, positional]
  have hdrained : Carried held w₀ b.interpreter hs w w₂ := hfirst.of_interpreter rfl
  have hcarried := hdrained.trans (hnext.of_interpreter rfl)
  have hrec : Recedes w₃ (w₃.dropObjects [named, positional]) := recedes_release _ _
  refine ⟨?_, hcarried.recedes hrec hdropped hhost, ?_, hvs, ?_⟩
  · have hitems : w.store.items positional = vs := by rw [Store.items, hvs]
    have hentries : w₂.store.entries named = es := by rw [Store.entries, hes]
    rw [prepareSub, pushAll, arrayDrain, hitems]
    dsimp only
    rw [hpush]
    dsimp only
    rw [hashDrain, hentries]
    dsimp only
    rw [hpush']
    rfl
  · refine hspells.retains (hdropped.retains (hdropped.isHeld_of_holds hhost) hrec) ?_
    intro k hk
    rw [hnext.stack]
    simp [ArgumentStack.pass, hk]
  · exact get?_of_setItems_hash (hfirst.object named _ hes)

/-! ## The receiver -/

/-- The receiver of a method call is pushed: a scalar that is there, or the name of a package. -/
inductive Receives (b : Bridge) (w : World) : Invocant → Handle → World → Prop where
  | scalar {h : Handle} : (w.interpreter b.interpreter).heap.contains h = true →
      Receives b w (.scalar h) h
        ((w.guest b.interpreter (·.share h)).2.pushTemporary b.interpreter h).2
  | package {name : String} {h : Handle} {w₁ : World} :
      w.convert b.interpreter b.config (.text name) = (.ok h, w₁) →
      Receives b w (.namespace name) h (w₁.pushTemporary b.interpreter h).2

/-- A new share of a scalar is the caller's. -/
theorem Balanced.passed_share {h : Handle} (hbal : Balanced held w₀ w)
    (hhost : w₀.holds.get i.number ≠ 0)
    (hlive : (w.interpreter i).heap.contains h = true) :
    ∃ n w₁, w.guest i (·.share h) = (.ok n, w₁) ∧
      Passed (Held.of i [h] ++ held) w₀ i [] w w₁ := by
  obtain ⟨c, hc⟩ := Heap.contains_iff.1 hlive
  rcases hbal.guestShare hhost h with ⟨n, w₁, heq, hshared⟩ | ⟨w₁, heq, -⟩
  · refine ⟨n, w₁, heq, ?_⟩
    have hpassed : Passed (Held.of i [h] ++ held) w₀ i [] w (w.guest i (·.share h)).2 := by
      refine Balanced.passed_guest (heq ▸ hshared) hhost (by rw [ArgumentStack.pass_nil]; rfl)
        fun k hmem => ⟨hmem, ?_⟩
      intro body hbody
      exact Heap.body_share hbody h
    rw [heq] at hpassed
    exact hpassed
  · have hfst := w.guest_fst i (·.share h)
    rw [heq, Interpreter.share, Interpreter.onHeap, Heap.share_eq_of_cell? hc] at hfst
    simp at hfst

theorem Receives.passed {b : Bridge} {invocant : Invocant} {h : Handle}
    (hreceives : Receives b w invocant h w₁) (hhost : w₀.holds.get b.interpreter.number ≠ 0)
    (hbal : Balanced held w₀ w) :
    w.pushInvocant b.interpreter b.config invocant = (.ok (), w₁) ∧
      Passed held w₀ b.interpreter [h] w w₁ := by
  cases hreceives with
  | scalar hlive =>
    obtain ⟨n, w₂, hshare, hshared⟩ := hbal.passed_share hhost hlive
    obtain ⟨w₃, hpush, hpassed, -⟩ := Balanced.passed_pushTemporary hshared.balanced hhost
    rw [hshare, hpush]
    refine ⟨?_, hshared.trans hpassed⟩
    rw [pushInvocant]
    dsimp only
    rw [hshare]
    exact hpush
  | package hconvert =>
    obtain ⟨hpush, hpassed, -⟩ := hbal.passed_convert hhost hconvert
    exact ⟨hpush, hpassed⟩

/-- Taking out the slot of the receiver leaves the other positional values. -/
theorem Balanced.carried_takeInvocantSlot {positional : ObjectId} (hbal : Balanced held w₀ w)
    (hhost : w₀.holds.get i.number ≠ 0)
    (hslot : w.takeInvocantSlot config positional = (.ok (), w₁)) :
    Carried held w₀ i [] w w₁ ∧
      (∀ vs, w₁.store.get? positional = some (.array vs) →
        ∃ items, w.store.get? positional = some (.array items) ∧ vs = items.drop 1) ∧
      ∀ id es, w₁.store.get? id = some (.hash es) → w.store.get? id = some (.hash es) := by
  have howned := hbal.takeInvocantSlot config positional
  rw [hslot] at howned
  unfold World.takeInvocantSlot World.arrayShift at hslot
  cases hitems : w.store.items positional with
  | nil =>
    rw [hitems] at hslot
    obtain rfl := (Prod.mk.inj hslot).2
    refine ⟨(Passed.refl hbal).toCarried, ?_, fun _ _ hes => hes⟩
    intro vs hvs
    refine ⟨vs, hvs, ?_⟩
    rw [Store.items, hvs] at hitems
    rw [show vs = [] from hitems, List.drop_nil]
  | cons v rest =>
    rw [hitems] at hslot
    obtain rfl := (Prod.mk.inj hslot).2
    have hrec : Recedes (w.setItems positional rest) ((w.setItems positional rest).drop v) :=
      recedes_release _ _
    have hstart := Passed.refl (i := i) (hbal.setItems positional rest)
    refine ⟨(hstart.toCarried.recedes hrec howned hhost).of_interpreter rfl, ?_, ?_⟩
    · intro vs hvs
      obtain ⟨rfl, items, hbefore⟩ := get?_of_setItems_array (hrec.get? positional _ hvs)
      rw [Store.items, hbefore] at hitems
      obtain rfl : items = v :: vs := hitems
      exact ⟨_, hbefore, rfl⟩
    · exact fun id es hes => get?_of_setItems_hash (hrec.get? id _ hes)

end World

end GuestBridge
