import DalvikHorn.Proofs.KeptInstructions

/-!
# What library methods store

The rules of library methods write arguments to the global heap: extras of intents, contents of
parcels, entries of maps, messages and hints.  An argument that refers to the local heap escapes
there, so the rule has to lift, as every instruction does that stores a reference
(`Proofs/Escapes.lean`).

Most rules do (`stored_references_are_lifted`).  Those of `unliftedEffects` store an argument and
go on with the local heap as it was, so a formatter that a method has just allocated is in its
buffer on the global heap and at the same time a local object (`formatter_stays_local`).

## Strategy

* **Stores.**  Which register a clause stores is seen at the variable in the value column of
  its head (`Clause.Stores`).  The clauses of a lift store slots of the heap and no registers.
* **Rules.**  A rule `Secures` what it stores when it lifts the same register, with a change of
  the state that keeps references (`KeepsReferences`).
* **Lifts.**  What a lift derives is known for sites with fields from `Proofs/Lifting.lean`.  The
  fact of a site without fields is about any field, so its variables are given all values
  (`fieldValuation`).
* **Rules that do not lift.**  Their steps keep the state but for the result (`Idle`), so the
  states that agree with one up to the result are closed under their clauses (`IdleFact`).
-/

namespace DalvikHorn

/-! ## Stored values -/

namespace Names

theorem value_injective {i j : Nat} (h : value i = value j) : i = j := by
  have hdigits := congrArg String.toList h
  rw [toList_value, toList_value] at hdigits
  exact toDigits_injective (List.cons.inj hdigits).2

/-- An auxiliary name that starts like a value goes on with a letter. -/
theorem auxiliaryValue_ne_value (name : String) [hname : AuxiliaryValue name] (i : Nat) :
    name ≠ value i := by
  have hletter : ∀ name ∈ auxiliaryValues,
      name.toList.head? ≠ some 'v' ∨ (name.toList.drop 1).any (!·.isDigit) = true := by decide
  rintro rfl
  rcases hletter _ hname.mem with hother | hother
  · exact hother (by rw [toList_value]; rfl)
  · rw [toList_value, List.drop_one, List.tail_cons, List.any_eq_true] at hother
    obtain ⟨c, hc, hdigit⟩ := hother
    rw [Nat.isDigit_of_mem_toDigits (by decide) (by decide) hc] at hdigit
    cases hdigit

theorem slotValue_ne_value (k i : Nat) : slotValue ownHeap k ≠ value i := by
  intro h
  have hletters := congrArg String.toList h
  simp [toList_value, slotValue, ownHeap, toString] at hletters

end Names

/-- The name of a term that is a variable. -/
def Term.variableName? : Term → Option String
  | .bv (.var name _) => some name
  | _ => none

/-- The variable in the value column of a fact about an object or an extra, if there is one. -/
def Atom.storedName? (head : Atom) : Option String :=
  if head.relation = GlobalHeap.objectRelation then head.args[3]?.bind Term.variableName?
  else if head.relation = GlobalHeap.extraRelation then head.args[2]?.bind Term.variableName?
  else none

namespace Clause

/-- A clause stores the value of a register on the global heap. -/
def Stores (clause : Clause) (r : Nat) : Prop :=
  clause.head.storedName? = some (Names.value r)

instance (clause : Clause) (r : Nat) : Decidable (clause.Stores r) :=
  inferInstanceAs (Decidable (_ = _))

/-- A clause stores no register. -/
def Silent (clause : Clause) : Prop :=
  ∀ r, ¬ clause.Stores r

end Clause

namespace StepContext

variable {cx : StepContext} {call : CallSite} {before : StateValue} {guards : List Formula}

section Silent

variable {key id field value : BvExpr} {high blocked : Formula}

theorem silent_step (post : State) : (cx.step guards post).Silent := by
  have hobject : ∀ point, Relation.object ≠ .point point := nofun
  have hextra : ∀ point, Relation.extra ≠ .point point := nofun
  have hnone : (cx.step guards post).head.storedName? = none :=
    (if_neg (Relation.name_ne_point hobject _).symm).trans
      (if_neg (Relation.name_ne_point hextra _).symm)
  intro r hstores
  cases hnone.symm.trans hstores

/-- A fact is silent when its value is not that of a register, but a literal, an auxiliary variable
or a slot of the heap. -/
theorem silent_object (h : ∀ r, (Term.bv value).variableName? ≠ some (Names.value r)) :
    (cx.derive guards (GlobalHeap.object key id field value high blocked)).Silent :=
  h

theorem silent_extra (h : ∀ r, (Term.bv value).variableName? ≠ some (Names.value r)) :
    (cx.derive guards (GlobalHeap.extra key id value high blocked)).Silent :=
  h

theorem ne_value_of_variable (name : String) [Names.AuxiliaryValue name] (r : Nat) :
    (Term.bv (cx.variable_ name)).variableName? ≠ some (Names.value r) :=
  fun h => Names.auxiliaryValue_ne_value name r (Option.some.inj h)

theorem ne_value_of_slot (k r : Nat) :
    (Term.bv (HeapSlot.canonical Names.ownHeap k cx.width).cell.value).variableName? ≠
      some (Names.value r) :=
  fun h => Names.slotValue_ne_value k r (Option.some.inj h)

end Silent

/-! ## Parts that store nothing -/

/-- Every result of a handler is silent. -/
def Silences (outcome : Except Error (List Clause)) : Prop :=
  Ensures outcome fun clauses => ∀ clause ∈ clauses, clause.Silent

theorem silences_assign (r : UInt32) (cell : Cell) : Silences (cx.assign r guards cell) :=
  .skip fun _ => .pure (List.forall_mem_singleton.mpr (silent_step _))

theorem silences_returns (cell : Cell) : Silences (cx.returns guards cell) :=
  .skip fun _ => .pure (List.forall_mem_singleton.mpr (silent_step _))

theorem silences_initIntent (key : BvExpr) : Silences (cx.initIntent call key) := by
  refine .skip fun receiver => .skip fun intent => ?_
  refine .bind (silences_assign receiver _) fun steps hsteps => .pure ?_
  exact List.forall_mem_cons.mpr ⟨silent_extra nofun, hsteps⟩

/-- A site stores slots of the local heap, or zero. -/
theorem silences_flushSite (site : AllocationSite) :
    Silences (flushSite cx.width site (cx.body guards) cx.pre) := by
  refine .skip fun header => ?_
  have hfact : ∀ {key id field value : BvExpr} {high blocked : Formula},
      (∀ r, (Term.bv value).variableName? ≠ some (Names.value r)) →
        (cx.derive (guards ++ [header.free.negate])
          (GlobalHeap.object key id field value high blocked)).Silent := silent_object
  dsimp only
  split
  · refine fun facts hfacts => (Ensures.mapM ?_ facts hfacts).2
    rintro ⟨⟨field, primitive⟩, k⟩ -
    refine .bind (State.slot_yields cx.pre k).result fun slot hslot => .pure (hfact ?_)
    obtain ⟨j, -, rfl⟩ := List.mem_map.mp (List.mem_of_getElem? hslot)
    exact ne_value_of_slot j
  · exact .pure (List.forall_mem_singleton.mpr (hfact nofun))

theorem silences_liftIfLocal (r : UInt32) (update : State → Except Error State) :
    Silences (cx.liftIfLocal r guards update) := by
  refine .skip fun cell => ?_
  have hflushed : Silences (flushAll cx.layout cx.width (cx.body (guards ++ [cell.isLocal]))
      cx.pre) :=
    .bind (.mapM_flatten fun site _ => silences_flushSite site) fun _ hfacts => .pure hfacts
  refine .bind hflushed fun facts hfacts => .skip fun post => .pure ?_
  exact List.forall_mem_append.mpr ⟨hfacts, List.forall_mem_singleton.mpr (silent_step _)⟩

/-! ## Stores that are lifted -/

/-- A change of a state that keeps the references of all registers and the local heap.  It may
raise labels and leave a result. -/
def KeepsReferences (cx : StepContext) (before : StateValue)
    (update : State → Except Error State) : Prop :=
  ∀ (state post : State) (value : StateValue), state.Denotes (stateValuation before) value →
    update state = .ok post →
      ∃ after, post.Denotes (stateValuation before) after ∧ after.heap = value.heap ∧
        ∀ r < cx.shape.numRegisters, ∀ old, value.registers[r]? = some old →
          ∃ high, after.registers[r]? = some { old with high := high }

theorem keepsReferences_ok : cx.KeepsReferences before .ok := by
  rintro state post value hstate ⟨⟩
  exact ⟨value, hstate, rfl, fun r _ old hold => ⟨old.high, hold⟩⟩

/-- A result is left in a slot that is no register. -/
theorem keepsReferences_set {cell : Cell} {result : CellValue} {state post : State}
    {value : StateValue} (hstate : state.Denotes (stateValuation before) value)
    (hcell : cell.eval (stateValuation before) = some result)
    (hpost : state.set cx.shape.returnSlot cell = .ok post) :
    ∃ after, post.Denotes (stateValuation before) after ∧ after.heap = value.heap ∧
      ∀ r < cx.shape.numRegisters, after.registers[r]? = value.registers[r]? := by
  have hslot : cx.shape.returnSlot < value.registers.length := by
    rw [length_eq_of_map_eq hstate.registers]
    by_contra hout
    rw [State.set, if_neg hout] at hpost
    cases hpost
  obtain ⟨other, hother, hdenotes⟩ := hstate.set hslot hcell
  cases hother.symm.trans hpost
  refine ⟨_, hdenotes, rfl, fun r hr => ?_⟩
  have hne : cx.shape.returnSlot ≠ r := by
    rw [FrameShape.returnSlot]
    omega
  exact List.getElem?_set_ne hne

/-- The state with zero as the result. -/
theorem keepsReferences_zero :
    cx.KeepsReferences before fun post => post.set cx.shape.returnSlot (.zero cx.width) := by
  intro state post value hstate hpost
  have hzero : (Cell.zero cx.width).eval (stateValuation before) = some ⟨0, false, false, false⟩ :=
    rfl
  obtain ⟨after, hafter, hheap, hregisters⟩ := keepsReferences_set hstate hzero hpost
  exact ⟨after, hafter, hheap, fun r hr old hold => ⟨old.high, (hregisters r hr).trans hold⟩⟩

/-- The receiver covers a label and is the result. -/
theorem keepsReferences_taint (hfits : cx.Fits before) (receiver : Nat) {source : Nat}
    (hsource : source < cx.shape.slotCount) :
    cx.KeepsReferences before (fun post => do
      let tainted ← post.taint receiver (Cell.register source cx.width).high
      tainted.set cx.shape.returnSlot (← tainted.register receiver)) := by
  intro state post value hstate hpost
  obtain ⟨tainted, htainted, hpost⟩ := bind_eq_ok_iff.mp hpost
  obtain ⟨cell, hcell, hpost⟩ := bind_eq_ok_iff.mp hpost
  have hreceiver : receiver < value.registers.length := by
    obtain ⟨old, hold, -⟩ := bind_eq_ok_iff.mp htainted
    rw [length_eq_of_map_eq hstate.registers]
    exact (List.getElem?_eq_some_iff.mp ((State.register_yields _ _).result _ hold)).1
  obtain ⟨other, hother, hdenotes⟩ := hstate.taint hreceiver (hfits.eval_flags hsource).1
  cases hother.symm.trans htainted
  obtain ⟨result, -, hresult⟩ :=
    getElem?_of_map_eq hdenotes.registers ((State.register_yields _ _).result _ hcell)
  obtain ⟨after, hafter, hheap, hregisters⟩ := keepsReferences_set hdenotes hresult hpost
  have hraises := value.raises_raise receiver (before.flagged (·.high) source)
  refine ⟨after, hafter, hheap.trans hraises.heap, fun r hr old hold => ?_⟩
  exact ⟨_, by rw [hregisters r hr, hraises.registers, hold, Option.map_some]⟩

/-- Whatever register some clauses store, they also lift when it refers to the local heap. -/
def Secures (cx : StepContext) (before : StateValue) (clauses : List Clause) : Prop :=
  ∀ clause ∈ clauses, ∀ r, clause.Stores r → ∃ source update lifted, source.toNat = r ∧
    cx.KeepsReferences before update ∧ cx.liftIfLocal source [] update = .ok lifted ∧
    ∀ other ∈ lifted, other ∈ clauses

theorem Silences.secures {outcome : Except Error (List Clause)} (h : Silences outcome) :
    Ensures outcome (cx.Secures before) :=
  fun clauses hclauses clause hclause r hstores =>
    absurd hstores (h clauses hclauses clause hclause r)

theorem secures_updateAndLift {fact : Clause} {source : UInt32}
    (hfact : ∀ r, fact.Stores r → source.toNat = r) {update : State → Except Error State}
    (hupdate : cx.KeepsReferences before update) :
    Ensures (cx.updateAndLift source update) fun steps => cx.Secures before (fact :: steps) := by
  refine .skip fun plain => ?_
  refine .bind .self fun lifted hlifted => .pure fun clause hclause r hstores => ?_
  have hsub : ∀ other ∈ lifted, other ∈ fact :: cx.step [] plain :: lifted := fun other hother =>
    List.mem_cons_of_mem _ (List.mem_cons_of_mem _ hother)
  rcases List.mem_cons.mp hclause with rfl | hrest
  · exact ⟨source, update, lifted, hfact r hstores, hupdate, hlifted, hsub⟩
  · rcases List.mem_cons.mp hrest with rfl | hlift
    · exact absurd hstores (silent_step _ r)
    · exact absurd hstores (silences_liftIfLocal source update _ hlifted clause hlift r)

theorem secures_store {fact : Clause} {source : UInt32}
    (hfact : ∀ r, fact.Stores r → source.toNat = r) :
    Ensures (cx.store fact source) (cx.Secures before) := by
  have hupdated : Ensures (cx.updateAndLift source .ok) fun steps =>
      cx.Secures before (fact :: steps) := secures_updateAndLift hfact keepsReferences_ok
  intro clauses hclauses
  obtain ⟨lifted, hlifted, hclauses⟩ := bind_eq_ok_iff.mp hclauses
  cases hclauses
  exact hupdated _ (by rw [updateAndLift, hlifted]; rfl)

/-! ## Rules -/

theorem eq_of_stores_holding {key id field : BvExpr} {source r : Nat}
    (h : (cx.derive guards
      (GlobalHeap.holding key id field (.register source cx.width))).Stores r) : source = r :=
  Names.value_injective (Option.some.inj h)

theorem eq_of_stores_extra {intent key : BvExpr} {high blocked : Formula} {source r : Nat}
    (h : (cx.derive guards (GlobalHeap.extra intent key (Cell.register source cx.width).value high
      blocked)).Stores r) : source = r :=
  Names.value_injective (Option.some.inj h)

theorem silences_recorded {fact : Clause} (hfact : fact.Silent) :
    Silences (pure [fact, cx.identity]) :=
  .pure (List.forall_mem_cons.mpr ⟨hfact, List.forall_mem_singleton.mpr (silent_step _)⟩)

/-- The effects whose rules store an argument without a lift. -/
def unliftedEffects : List LibraryEffect :=
  [.startActivity, .setResult, .newPoint, .newFormatter, .format]

/-- All other rules secure what they store. -/
theorem secures_libraryEffect (hfits : cx.Fits before) {effect : LibraryEffect}
    (heffect : effect ∉ unliftedEffects) :
    Ensures (effect.compile cx call) (cx.Secures before) := by
  -- the effects that store a value lift it; the others store nothing of a register
  cases effect with
  | startActivity => simp [unliftedEffects] at heffect
  | setResult => simp [unliftedEffects] at heffect
  | newPoint => simp [unliftedEffects] at heffect
  | newFormatter => simp [unliftedEffects] at heffect
  | format => simp [unliftedEffects] at heffect
  | putExtra =>
      -- the value is the register that is lifted, and the update keeps the references
      refine .skip fun receiver => .skip fun _ => .skip fun source => .skip fun _ =>
        .skip fun _ => .bind (ensures_register_eq source) ?_
      rintro value ⟨hsource, rfl⟩
      exact .bind (secures_updateAndLift (fun _ => eq_of_stores_extra)
        (keepsReferences_taint hfits receiver.toNat hsource)) fun _ hsteps => .pure hsteps
  | putEntry =>
      refine .skip fun _ => .skip fun _ => .skip fun source => .skip fun _ => .skip fun _ =>
        .bind (ensures_register_eq source) ?_
      rintro value ⟨hsource, rfl⟩
      exact .bind (secures_updateAndLift (fun _ => eq_of_stores_holding) keepsReferences_zero)
        fun _ hsteps => .pure hsteps
  | writeParcel =>
      refine .skip fun _ => .skip fun source => .skip fun _ => .bind (ensures_register_eq source) ?_
      rintro value ⟨-, rfl⟩
      exact secures_store fun _ => eq_of_stores_holding
  | newException =>
      refine .skip fun _ => .skip fun source => .skip fun _ => .bind (ensures_register_eq source) ?_
      rintro message ⟨-, rfl⟩
      exact secures_store fun _ => eq_of_stores_holding
  | setHint =>
      refine .skip fun _ => .skip fun source => .skip fun _ => .bind (ensures_register_eq source) ?_
      rintro hint ⟨-, rfl⟩
      exact secures_store fun _ => eq_of_stores_holding
  | newIntentForAction => exact .skip fun _ => (silences_initIntent _).secures
  | newIntentForComponent => exact .skip fun _ => (silences_initIntent _).secures
  | newIntent => exact (silences_initIntent _).secures
  | getAction => exact .skip fun _ => (silences_returns _).secures
  | getExtra => exact .skip fun _ => (silences_returns _).secures
  | retargetIntent =>
      -- the value it records is a variable of the clause and no register
      refine .skip fun _ => .skip fun _ => .skip fun _ => .skip fun _ => Silences.secures ?_
      refine .bind (silences_returns _) fun _ hsteps => .pure ?_
      exact List.forall_mem_cons.mpr ⟨silent_extra (ne_value_of_variable Names.read), hsteps⟩
  | getIntent => exact (silences_returns _).secures
  | marshallParcel => exact .skip fun _ => (silences_returns _).secures
  | unmarshallParcel => exact .skip fun _ => .skip fun _ => (silences_assign _ _).secures
  | readParcel => exact .skip fun _ => (silences_returns _).secures
  | getMessage => exact .skip fun _ => (silences_returns _).secures
  | systemObject =>
      refine Silences.secures (.bind (silences_returns _) fun _ hsteps => .pure ?_)
      exact List.forall_mem_cons.mpr ⟨silent_object (ne_value_of_variable Names.anyValue), hsteps⟩
  | getEntry => exact .skip fun _ => .skip fun _ => (silences_returns _).secures
  | copyChars =>
      exact .skip fun _ => .skip fun _ =>
        (silences_recorded (silent_object (ne_value_of_variable Names.anyField))).secures
  | bufferText =>
      refine .skip fun _ => Silences.secures (.bind (silences_returns _) fun _ hformatted => ?_)
      exact .bind (silences_returns _) fun _ hplain =>
        .pure (List.forall_mem_append.mpr ⟨hformatted, hplain⟩)
  | copyArray =>
      exact .skip fun _ => .skip fun _ =>
        (silences_recorded (silent_object (ne_value_of_variable Names.read))).secures
  | getHint =>
      refine .skip fun _ => Silences.secures (.bind (silences_returns _) fun _ hstored => ?_)
      exact .bind (silences_returns _) fun _ hunset =>
        .pure (List.forall_mem_append.mpr ⟨hstored, hunset⟩)

end StepContext

/-! ## Sites without fields -/

/-- The fact that an object on the global heap has zero in a field. -/
def unknownFact (width : Nat) (classId : ClassId) (id : InstanceId) (field : Nat)
    (blocked : Bool) : Fact where
  relation := GlobalHeap.objectRelation
  args := [.bits (twosComplement classId.toInt width), .bits (twosComplement id.toInt width),
    .bits field, .bits 0, .bool false, .bool blocked]

/-- The valuation of a state, with any field and any location for what it holds. -/
def fieldValuation (before : StateValue) (field : Nat) (blocked : Bool) : Valuation := fun name =>
  if name = Names.field then some (.bits field)
  else if name = Names.fieldBlocked then some (.bool blocked)
  else stateValuation before name

section Valuation

variable {before : StateValue} {field : Nat} {blocked : Bool}

/-- The two names start with letters that no component of a state starts with. -/
theorem fieldValuation_eq {name : String} {c : Char} {rest : List Char}
    (hname : name.toList = c :: rest) (hfield : c ≠ 'f') (hblocked : c ≠ 'b') :
    fieldValuation before field blocked name = stateValuation before name := by
  have hfirst : name ≠ Names.field := by
    rintro rfl
    exact hfield (List.cons.inj hname).1.symm
  have hsecond : name ≠ Names.fieldBlocked := by
    rintro rfl
    exact hblocked (List.cons.inj hname).1.symm
  rw [fieldValuation, if_neg hfirst, if_neg hsecond]

theorem eval_register_fieldValuation (i width : Nat) :
    (Cell.register i width).eval (fieldValuation before field blocked) =
      (Cell.register i width).eval (stateValuation before) := by
  simp only [Cell.register, Cell.eval, BvExpr.eval, Formula.eval, Valuation.bits?, Valuation.bool?,
    fieldValuation_eq (Names.toList_value i) (by decide) (by decide),
    fieldValuation_eq (Names.toList_high i) (by decide) (by decide),
    fieldValuation_eq (Names.toList_isLocal i) (by decide) (by decide),
    fieldValuation_eq (Names.toList_isGlobal i) (by decide) (by decide)]

theorem eval_slot_fieldValuation (k width : Nat) :
    (HeapSlot.canonical Names.ownHeap k width).eval (fieldValuation before field blocked) =
      (HeapSlot.canonical Names.ownHeap k width).eval (stateValuation before) := by
  have hname : ∀ {name : String}, name.toList.head? = some 'l' →
      fieldValuation before field blocked name = stateValuation before name := by
    intro name hhead
    obtain ⟨rest, hrest⟩ := List.head?_eq_some_iff.mp hhead
    exact fieldValuation_eq hrest (by decide) (by decide)
  simp only [HeapSlot.canonical, HeapSlot.eval, Cell.eval, BvExpr.eval, Formula.eval,
    Valuation.bits?, Valuation.bool?]
  rw [hname (by simp [Names.slotValue, Names.ownHeap, toString]),
    hname (by simp [Names.slotHigh, Names.ownHeap, toString]),
    hname (by simp [Names.slotLocal, Names.ownHeap, toString]),
    hname (by simp [Names.slotGlobal, Names.ownHeap, toString]),
    hname (by simp [Names.slotFree, Names.ownHeap, toString])]

theorem complete_fieldValuation {width : Nat} (hrange : before.InRange width)
    (hfield : field < valueCount width) :
    (fieldValuation before field blocked).Complete width := by
  intro name
  by_cases hname : name = Names.field
  · refine ⟨.bits field, by rw [fieldValuation, if_pos hname], ?_⟩
    rw [hname, Names.sort_auxiliaryValue]
    exact hfield
  · by_cases hflag : name = Names.fieldBlocked
    · refine ⟨.bool blocked, by rw [fieldValuation, if_neg hname, if_pos hflag], ?_⟩
      rw [hflag, Names.sort_auxiliaryFlag]
      trivial
    · rw [fieldValuation, if_neg hname, if_neg hflag]
      exact hrange.complete name

theorem admits_fieldValuation {width : Nat} (hrange : before.InRange width)
    (hfield : field < valueCount width) {vars : List (String × TermSort)}
    (hvars : Names.Respected width vars) :
    (fieldValuation before field blocked).Admits vars :=
  (complete_fieldValuation hrange hfield).admits hvars

end Valuation

namespace StepContext

variable {cx : StepContext} {call : CallSite} {before : StateValue}

theorem Fits.denotes_pre_field (hfits : cx.Fits before) (field : Nat) (blocked : Bool) :
    cx.pre.Denotes (fieldValuation before field blocked) before :=
  hfits.denotes_pre_of_eval (fun r => eval_register_fieldValuation r cx.width)
    fun k => eval_slot_fieldValuation k cx.width

/-- The clause that writes a site without fields to the global heap. -/
def unknownClause (cx : StepContext) (guards : List Formula) (site : AllocationSite) : Clause :=
  cx.derive (guards ++ [(HeapSlot.canonical Names.ownHeap site.headerSlot cx.width).free.negate])
    (GlobalHeap.object (cx.idLiteral site.classId) (cx.idLiteral site.id)
      (cx.variable_ Names.field) (.zero cx.width) .ff (.var Names.fieldBlocked))

theorem unknownClause_mem_lift (hlayout : cx.layout.Registered) {guards : List Formula}
    {update : State → Except Error State} {lifted : List Clause}
    (hlifted : cx.lift guards update = .ok lifted) {site : AllocationSite}
    (hsite : site ∈ cx.layout.sites) (hfields : site.fields = []) :
    cx.unknownClause guards site ∈ lifted := by
  obtain ⟨facts, hfacts, hlifted⟩ := bind_eq_ok_iff.mp hlifted
  obtain ⟨post, -, hlifted⟩ := bind_eq_ok_iff.mp hlifted
  obtain ⟨parts, hparts, hflatten⟩ := bind_eq_ok_iff.mp hfacts
  cases hflatten
  cases hlifted
  have hflushed : flushSite cx.width site (cx.body guards) cx.pre =
      .ok [cx.unknownClause guards site] := by
    have hnone : ¬ site.hasLayout = true := by simp [AllocationSite.hasLayout, hfields]
    simp only [flushSite, slot_eq (hlayout.headerSlot_lt hsite), Bind.bind, Except.bind,
      if_neg hnone]
    rfl
  rw [mapM_eq_ok_iff] at hparts
  have hmem : Except.ok [cx.unknownClause guards site] ∈ parts.map Except.ok :=
    hparts ▸ List.mem_map.mpr ⟨site, hsite, hflushed⟩
  obtain ⟨part, hpart, heq⟩ := List.mem_map.mp hmem
  cases heq
  exact List.mem_append_left _ (List.mem_flatten.mpr ⟨_, hpart, List.mem_singleton_self _⟩)

/-- What was in the occupied sites of a state is on the global heap: every field of a site with
what it held, and any field of a site whose fields are not known. -/
structure Flushed (cx : StepContext) (before : StateValue) (facts : Fact → Prop) : Prop where
  fields : ∀ site ∈ cx.layout.sites, ∀ header, before.heap[site.headerSlot]? = some header →
    header.free = false → ∀ i field primitive, site.fields[i]? = some (field, primitive) →
      ∃ slot, before.heap[site.offset + i]? = some slot ∧
        facts (objectFact cx.width site.classId site.id field slot.cell)
  unknown : ∀ site ∈ cx.layout.sites, ∀ header, before.heap[site.headerSlot]? = some header →
    header.free = false → site.fields = [] → ∀ field < valueCount cx.width, ∀ blocked,
      facts (unknownFact cx.width site.classId site.id field blocked)

section Lift

variable (hlayout : cx.layout.Registered) (hfits : cx.Fits before) {clauses : List Clause}
  {facts : Fact → Prop}
  (hemitted : ∀ clause ∈ (Emission.ofClauses clauses).clauses, cx.Emitted clause)
  (hmodels : Models (Emission.ofClauses clauses).clauses facts)
  (hbefore : facts (pointFact cx.point before))

include hfits hemitted hmodels hbefore

/-- The clause of a site without fields derives its fact for every field. -/
theorem Fits.derives_unknown {source : Nat} {old : CellValue}
    (hold : before.registers[source]? = some old) (hlocal : old.isLocal = true)
    {site : AllocationSite} {header : SlotValue}
    (hheader : before.heap[site.headerSlot]? = some header) (hfree : header.free = false)
    (hclause : cx.unknownClause [(Cell.register source cx.width).isLocal] site ∈ clauses)
    {field : Nat} (hfield : field < valueCount cx.width) (blocked : Bool) :
    facts (unknownFact cx.width site.classId site.id field blocked) := by
  have hsource : (Cell.register source cx.width).isLocal.eval
      (fieldValuation before field blocked) = some true := by
    have hcell := eval_register_stateValuation hold cx.width
    rw [← @eval_register_fieldValuation before field blocked] at hcell
    rw [(Cell.eval_eq_some_iff.mp hcell).2.2.1, hlocal]
  have hoccupied : (HeapSlot.canonical Names.ownHeap site.headerSlot cx.width).free.negate.eval
      (fieldValuation before field blocked) = some true := by
    have hslot := eval_slot_stateValuation hheader cx.width
    rw [← @eval_slot_fieldValuation before field blocked] at hslot
    rw [Formula.eval_negate, (HeapSlot.eval_eq_some_iff.mp hslot).2, hfree]
    rfl
  refine derives_of_denotes (hfits.denotes_pre_field field blocked)
    (admits_fieldValuation hfits.inRange hfield) hemitted hmodels hbefore hclause ?_ ⟨rfl, rfl⟩
  exact List.forall_mem_cons.mpr ⟨⟨(Cell.sorted_register source).isLocal, hsource⟩,
    List.forall_mem_singleton.mpr
      ⟨(HeapSlot.sorted_canonical Names.isHeap_ownHeap _).free.negate, hoccupied⟩⟩

include hlayout

/-- A register that is lifted with what it refers to. -/
theorem Fits.derives_lift {source : UInt32} {update : State → Except Error State}
    {lifted : List Clause} (hupdate : cx.KeepsReferences before update)
    (hlifted : cx.liftIfLocal source [] update = .ok lifted)
    (hsub : ∀ clause ∈ lifted, clause ∈ clauses) (hsource : source.toNat < cx.shape.numRegisters)
    {old : CellValue} (hold : before.registers[source.toNat]? = some old)
    (hlocal : old.isLocal = true) :
    (∃ after new, facts (pointFact (cx.pointAt cx.nextPc) after) ∧
      after.heap = List.replicate cx.layout.size ⟨⟨0, false, false, false⟩, true⟩ ∧
      after.registers[source.toNat]? = some new ∧ new.value = old.value ∧ new.isLocal = false ∧
      new.isGlobal = true) ∧
    cx.Flushed before facts := by
  have hslot : source.toNat < cx.shape.slotCount := by
    rw [FrameShape.slotCount]
    omega
  -- the register lies in the frame, so the lift is that of its flag
  have hlift : cx.lift [(Cell.register source.toNat cx.width).isLocal] update = .ok lifted := by
    rw [liftIfLocal, register_eq hslot] at hlifted
    exact hlifted
  obtain ⟨_, _, hrest⟩ := bind_eq_ok_iff.mp hlift
  obtain ⟨post, hpost, -⟩ := bind_eq_ok_iff.mp hrest
  obtain ⟨after, hafter, hheap, hregisters⟩ :=
    hupdate _ post _ hfits.denotes_promoted hpost
  -- the guard of the lift is the local flag, which is set
  have hguard : cx.Enables before [(Cell.register source.toNat cx.width).isLocal] := by
    refine enables_nil.concat (Cell.sorted_register source.toNat).isLocal ?_
    rw [(hfits.eval_flags hslot).2.1, StateValue.flagged, hold, Option.any_some, hlocal]
  obtain ⟨listed, hlisted, hlifts⟩ := exists_lift hlayout hpost
  cases hlisted.symm.trans hlift
  have hliftsTo : cx.LiftsTo before after clauses :=
    ⟨_, post, hlifts.mono hsub, hguard, hafter⟩
  obtain ⟨hnext, hfields⟩ := hliftsTo.derives hlayout hfits hemitted hmodels hbefore
  refine ⟨?_, hfields, fun site hsite header hheader hfree hnone field hfield blocked => ?_⟩
  · -- the registers of the method are raised, and their references made global
    have hescaped : (before.escaped cx.shape.numRegisters).registers[source.toNat]? =
        some { old with isLocal := false, isGlobal := old.isGlobal || old.isLocal } := by
      rw [StateValue.getElem?_escaped, hold, Option.map_some, if_pos (by omega)]
    obtain ⟨high, hnew⟩ := hregisters source.toNat hsource _ hescaped
    refine ⟨after, _, hnext, ?_, hnew, rfl, rfl, ?_⟩
    · rw [hheap, StateValue.escaped, ← hfits.heap_length]
      exact List.map_const'
    · rw [hlocal, Bool.or_true]
  · exact hfits.derives_unknown hemitted hmodels hbefore hold hlocal hheader hfree
      (hsub _ (unknownClause_mem_lift hlayout hlift hsite hnone)) hfield blocked

end Lift

/-! ## Calls of library methods -/

/-- What a call of a library method contributes comes from the rule of the method. -/
theorem exists_of_library {effect : LibraryEffect} (hcall : cx.instruction.Calls call)
    (hlinkage : call.linkage cx.oracle cx.env.config.intentSummaries = .library effect)
    {emission : Emission} (hemission : cx.compileOrSkip = .ok emission) :
    (∃ clauses, effect.compile cx call = .ok clauses ∧
      emission.clauses = (Emission.ofClauses clauses).clauses) ∨
    emission = .ofClauses [cx.identity] := by
  obtain ⟨kind, range, hopcode, hsite⟩ := hcall
  unfold compileOrSkip at hemission
  split at hemission
  · rename_i compiled hcompile
    cases hemission
    rw [compile, hopcode] at hcompile
    obtain ⟨other, hother, hcompile⟩ := bind_eq_ok_iff.mp hcompile
    cases hsite.symm.trans hother
    obtain ⟨queries, -, hcompile⟩ := bind_eq_ok_iff.mp hcompile
    obtain ⟨clauses, hclauses, hcompile⟩ := bind_eq_ok_iff.mp hcompile
    cases hcompile
    rw [compileCall, hlinkage] at hclauses
    exact .inl ⟨clauses, hclauses, rfl⟩
  · split at hemission
    · cases hemission
    · cases hemission
      exact .inr rfl

/-- A library method that stores a register which refers to the local heap lifts, unless its rule
is one of `unliftedEffects`: the call goes on with the register referring to the global heap and
with an empty local heap, and the contents of all occupied sites are on the global heap. -/
theorem stored_references_are_lifted (hlayout : cx.layout.Registered) {effect : LibraryEffect}
    (hcall : cx.instruction.Calls call)
    (hlinkage : call.linkage cx.oracle cx.env.config.intentSummaries = .library effect)
    (heffect : effect ∉ unliftedEffects) {emission : Emission}
    (hemission : cx.compileOrSkip = .ok emission) (hfits : cx.Fits before) {clause : Clause}
    (hclause : clause ∈ emission.clauses) {r : Nat} (hstores : clause.Stores r)
    (hr : r < cx.shape.numRegisters) {old : CellValue} (hold : before.registers[r]? = some old)
    (hlocal : old.isLocal = true) {facts : Fact → Prop} (hmodels : Models emission.clauses facts)
    (hbefore : facts (pointFact cx.point before)) :
    (∃ after new, facts (pointFact (cx.pointAt cx.nextPc) after) ∧
      after.heap = List.replicate cx.layout.size ⟨⟨0, false, false, false⟩, true⟩ ∧
      after.registers[r]? = some new ∧ new.value = old.value ∧ new.isLocal = false ∧
      new.isGlobal = true) ∧
    cx.Flushed before facts := by
  rcases exists_of_library hcall hlinkage hemission with ⟨clauses, hcompile, hclauses⟩ | rfl
  · have hcontributes : cx.Contributes emission := by
      obtain ⟨kind, range, hopcode, -⟩ := hcall
      obtain ⟨other, hother, hcontributes⟩ :=
        compileOrSkip_contributes (hasSite_of_opcode_ne (by rw [hopcode]; simp))
      cases hother.symm.trans hemission
      exact hcontributes
    have hemitted := hcontributes.clauses
    rw [hclauses] at hclause hmodels hemitted
    obtain ⟨source, update, lifted, rfl, hupdate, hlifted, hsub⟩ :=
      secures_libraryEffect hfits heffect clauses hcompile clause
        (Emission.mem_of_mem_ofClauses hclause) r hstores
    exact hfits.derives_lift hlayout hemitted hmodels hbefore hupdate hlifted hsub hr hold hlocal
  · -- a call that cannot be compiled stores nothing
    cases List.mem_singleton.mp (Emission.mem_of_mem_ofClauses hclause)
    exact absurd hstores (silent_step _ r)

/-- A parcel gets register 1. -/
def sampleWrite : CallSite where
  kind := .virtual
  target :=
    { owner := parcelClass, name := "writeValue", parameters := ["Ljava/lang/Object;"],
      returnType := "V" }
  arguments := [0, 1]

def sampleParcel : StepContext :=
  { sampleEscape with
    instruction :=
      { pc := 2, mnemonic := "invoke-virtual", registers := [0, 1],
        reference := some "Landroid/os/Parcel;->writeValue(Ljava/lang/Object;)V" } }

theorem stored_references_are_lifted_parcel :
    sampleParcel.instruction.Calls sampleWrite ∧ sampleParcel.Fits sampleLocals ∧
      ∃ emission clause, sampleParcel.compileOrSkip = .ok emission ∧ clause ∈ emission.clauses ∧
        clause.Stores 1 ∧ ∀ facts : Fact → Prop, Models emission.clauses facts →
          facts (pointFact sampleParcel.point sampleLocals) →
            (∃ after high, facts (pointFact (sampleParcel.pointAt 5) after) ∧
              after.registers[1]? = some ⟨9, high, false, true⟩ ∧
              after.heap = List.replicate 2 ⟨⟨0, false, false, false⟩, true⟩) ∧
            sampleParcel.Flushed sampleLocals facts := by
  have hlayout : sampleParcel.layout.Registered := Program.registered_heapLayout _ _
  have hsize : sampleParcel.layout.size = 2 := by decide +kernel
  have hfits : sampleParcel.Fits sampleLocals :=
    ⟨by decide, hsize.symm, by decide +kernel, by decide +kernel⟩
  have hcall : sampleParcel.instruction.Calls sampleWrite :=
    ⟨.virtual, false, by decide +kernel, rfl⟩
  have hlinkage : sampleWrite.linkage sampleParcel.oracle
      sampleParcel.env.config.intentSummaries = .library .writeParcel := rfl
  -- one clause of the instruction stores the argument
  have hstores : ∃ clause ∈ sampleParcel.emission.clauses, clause.Stores 1 := by decide +kernel
  have hopcode : sampleParcel.instruction.opcode ≠ .newInstance := by decide +kernel
  obtain ⟨emission, hcompile, -⟩ := compileOrSkip_contributes (hasSite_of_opcode_ne hopcode)
  have hemission : sampleParcel.emission = emission := by rw [StepContext.emission, hcompile]
  rw [hemission] at hstores
  obtain ⟨clause, hclause, hstores⟩ := hstores
  refine ⟨hcall, hfits, emission, clause, hcompile, hclause, hstores, ?_⟩
  intro facts hmodels hbefore
  obtain ⟨⟨after, new, hnext, hheap, hnew, hvalue, hnotLocal, hglobal⟩, hflushed⟩ :=
    stored_references_are_lifted hlayout hcall hlinkage (by decide) hcompile hfits hclause hstores
      (by decide) rfl rfl hmodels hbefore
  refine ⟨⟨after, new.high, hnext, ?_, hsize ▸ hheap⟩, hflushed⟩
  rw [hnew]
  exact congrArg some (CellValue.ext hvalue rfl hnotLocal hglobal)

/-! ## Rules that do not lift -/

/-- A state differs from the one before the instruction in its result at most. -/
structure Idle (cx : StepContext) (post : State) : Prop where
  heap_eq : post.heap = cx.pre.heap
  length_eq : post.registers.length = cx.shape.slotCount
  registers_eq : ∀ r < cx.shape.numRegisters, post.registers[r]? = cx.pre.registers[r]?

/-- Clauses that are facts of the program as a whole or steps to idle states. -/
def Idles (cx : StepContext) (clauses : List Clause) : Prop :=
  ∀ clause ∈ clauses, (∃ post, clause = cx.step [] post ∧ cx.Idle post) ∨
    ∃ relation : Relation, relation.isGlobal ∧ clause.head.relation = relation.name

theorem idle_pre : cx.Idle cx.pre :=
  ⟨rfl, cx.sorted_pre.registers_length, fun _ _ => rfl⟩

theorem idles_identity : cx.Idles [cx.identity] :=
  List.forall_mem_singleton.mpr (.inl ⟨_, rfl, idle_pre⟩)

theorem Idles.cons {clauses : List Clause} (h : cx.Idles clauses) {fact : Clause}
    (relation : Relation) (hglobal : relation.isGlobal)
    (hname : fact.head.relation = relation.name) : cx.Idles (fact :: clauses) :=
  List.forall_mem_cons.mpr ⟨.inr ⟨relation, hglobal, hname⟩, h⟩

theorem idles_returns (cell : Cell) : Ensures (cx.returns [] cell) cx.Idles := by
  intro clauses hclauses
  obtain ⟨post, hpost, hclauses⟩ := bind_eq_ok_iff.mp hclauses
  cases hclauses
  have hslot : cx.shape.returnSlot < cx.pre.registers.length :=
    cx.sorted_pre.registers_length ▸ returnSlot_lt
  rw [State.set, if_pos hslot] at hpost
  cases hpost
  refine List.forall_mem_singleton.mpr (.inl ⟨_, rfl, rfl, ?_, fun r hr => ?_⟩)
  · rw [List.length_set, cx.sorted_pre.registers_length]
  · refine List.getElem?_set_ne ?_
    rw [FrameShape.returnSlot]
    omega

theorem idles_libraryEffect {effect : LibraryEffect} (heffect : effect ∈ unliftedEffects) :
    Ensures (effect.compile cx call) cx.Idles := by
  simp only [unliftedEffects, List.mem_cons, List.not_mem_nil, or_false] at heffect
  rcases heffect with rfl | rfl | rfl | rfl | rfl
  · exact .skip fun _ => .pure (((idles_identity.cons .object rfl rfl).cons .object rfl rfl).cons
      .launch rfl rfl)
  · exact .skip fun _ => .pure (idles_identity.cons .object rfl rfl)
  · exact .skip fun _ => .skip fun _ => .skip fun _ =>
      .pure ((idles_identity.cons .object rfl rfl).cons .object rfl rfl)
  · exact .skip fun _ => .skip fun _ => .pure (idles_identity.cons .object rfl rfl)
  · exact .skip fun _ => .skip fun _ => .skip fun _ => .bind (idles_returns _) fun _ hsteps =>
      .pure (hsteps.cons .object rfl rfl)

/-- The facts of the program as a whole, and all states that differ from one in the result. -/
def IdleFact (cx : StepContext) (before : StateValue) (fact : Fact) : Prop :=
  (∃ relation : Relation, relation.isGlobal ∧ fact.relation = relation.name) ∨
    ∃ point after, fact = pointFact point after ∧
      after.registers.length = cx.shape.slotCount ∧ after.heap = before.heap ∧
      ∀ r < cx.shape.numRegisters, after.registers[r]? = before.registers[r]?

theorem idleFact_pointFact_iff {point : ProgramPoint} {after : StateValue}
    (hlength : after.registers.length = cx.shape.slotCount) :
    cx.IdleFact before (pointFact point after) ↔ after.heap = before.heap ∧
      ∀ r < cx.shape.numRegisters, after.registers[r]? = before.registers[r]? := by
  constructor
  · rintro (⟨relation, hglobal, hname⟩ | ⟨point', after', hfact, hlength', hsame⟩)
    · refine absurd hname.symm (Relation.name_ne_point ?_ point)
      rintro other rfl
      cases hglobal
    · obtain ⟨-, rfl⟩ := pointFact_injective (hlength.trans hlength'.symm) hfact
      exact hsame
  · exact fun hsame => .inr ⟨point, after, rfl, hlength, hsame⟩

/-- Idle clauses lead from idle facts to idle facts. -/
theorem Idles.models {clauses : List Clause} (h : cx.Idles clauses) :
    Models clauses (cx.IdleFact before) := by
  intro clause hclause env fact _ hbody hhead
  rcases h clause hclause with ⟨post, rfl, hidle⟩ | ⟨relation, hglobal, hname⟩
  · obtain ⟨premise, hpremise, hdenotes⟩ := Formula.holds_atom.mp (hbody _ List.mem_cons_self)
    obtain ⟨value, hvalue, rfl⟩ := denotes_pointAtom_iff.mp hdenotes
    obtain ⟨after, hafter, rfl⟩ := denotes_pointAtom_iff.mp hhead
    have hlength : value.registers.length = cx.shape.slotCount := by
      rw [length_eq_of_map_eq hvalue.registers, cx.sorted_pre.registers_length]
    have hlength' : after.registers.length = cx.shape.slotCount := by
      rw [length_eq_of_map_eq hafter.registers, hidle.length_eq]
    obtain ⟨hheap, hregisters⟩ := (idleFact_pointFact_iff hlength).mp hpremise
    refine (idleFact_pointFact_iff hlength').mpr ⟨?_, fun r hr => ?_⟩
    · refine Eq.trans (map_some_injective ?_) hheap
      rw [← hafter.heap, ← hvalue.heap, hidle.heap_eq]
    · refine Eq.trans (Option.map_injective (Option.some_injective _) ?_) (hregisters r hr)
      rw [← List.getElem?_map, ← List.getElem?_map, ← hafter.registers, ← hvalue.registers,
        List.getElem?_map, List.getElem?_map, hidle.registers_eq r hr]
  · exact .inl ⟨relation, hglobal, hhead.relation_eq ▸ hname⟩

/-- A call with one of `unliftedEffects` keeps the local heap and the flags of all registers, also
of the one that it stores: nothing else follows from its clauses. -/
theorem unlifted_effects_keep_locals {effect : LibraryEffect} (hcall : cx.instruction.Calls call)
    (hlinkage : call.linkage cx.oracle cx.env.config.intentSummaries = .library effect)
    (heffect : effect ∈ unliftedEffects) {emission : Emission}
    (hemission : cx.compileOrSkip = .ok emission) (hfits : cx.Fits before) :
    ∃ facts : Fact → Prop, Models emission.clauses facts ∧ facts (pointFact cx.point before) ∧
      ∀ point after, after.registers.length = cx.shape.slotCount →
        facts (pointFact point after) → after.heap = before.heap ∧
          ∀ r < cx.shape.numRegisters, after.registers[r]? = before.registers[r]? := by
  have hidles : cx.Idles emission.clauses := by
    rcases exists_of_library hcall hlinkage hemission with ⟨clauses, hcompile, hclauses⟩ | rfl
    · rw [hclauses]
      exact fun clause hclause => idles_libraryEffect heffect clauses hcompile clause
        (Emission.mem_of_mem_ofClauses hclause)
    · exact fun clause hclause => idles_identity clause (Emission.mem_of_mem_ofClauses hclause)
  refine ⟨cx.IdleFact before, hidles.models, ?_, fun point after hlength hfact => ?_⟩
  · exact (idleFact_pointFact_iff hfits.registers_length).mpr ⟨rfl, fun _ _ => rfl⟩
  · exact (idleFact_pointFact_iff hlength).mp hfact

/-- A method that makes a formatter for a buffer, both of which it has allocated. -/
def formatting : Program where
  classes :=
    [{ name := "La;"
       methods :=
         [{ name := "start()V", numRegisters := 2, numArguments := 0, isStatic := true,
            entryPoint := true
            instructions :=
              [{ pc := 0, mnemonic := "new-instance", registers := [0],
                 reference := some "Ljava/util/Formatter;" },
                { pc := 2, mnemonic := "new-instance", registers := [1],
                  reference := some "Ljava/lang/StringBuffer;" },
                { pc := 4, mnemonic := "invoke-direct", registers := [0, 1],
                  reference := some "Ljava/util/Formatter;-><init>(Ljava/lang/Appendable;)V" },
                { pc := 7, mnemonic := "return-void" }] }] }]

def formatterCall : CallSite where
  kind := .direct
  target :=
    { owner := formatterClass, name := "<init>", parameters := ["Ljava/lang/Appendable;"],
      returnType := "V" }
  arguments := [0, 1]

def formatterContext : StepContext where
  env := formatting.environment Program.sampleConfig {}
  owner := { name := "La;" }
  method := { name := "start()V", numRegisters := 2, numArguments := 0, isStatic := true }
  instruction :=
    { pc := 4, mnemonic := "invoke-direct", registers := [0, 1],
      reference := some "Ljava/util/Formatter;-><init>(Ljava/lang/Appendable;)V" }
  nextPc := 7
  allocation := 0

/-- The state after both allocations: the registers hold the identifiers of two occupied sites. -/
def formatterLocals : StateValue where
  registers :=
    [⟨2237463218, false, true, false⟩, ⟨2237463220, false, true, false⟩, ⟨0, false, false, false⟩]
  heap := [⟨⟨0, false, false, false⟩, false⟩, ⟨⟨0, false, false, false⟩, false⟩]

/-- The formatter is stored in its buffer, and it stays on the local heap. -/
theorem formatter_stays_local :
    formatterContext.instruction.Calls formatterCall ∧
      formatterCall.linkage formatterContext.oracle
        formatterContext.env.config.intentSummaries = .library .newFormatter ∧
      formatterContext.Fits formatterLocals ∧
      formatterLocals.registers[0]? = some ⟨2237463218, false, true, false⟩ ∧
      ∃ emission clause, formatterContext.compileOrSkip = .ok emission ∧
        clause ∈ emission.clauses ∧ clause.Stores 0 ∧
        ∃ facts : Fact → Prop, Models emission.clauses facts ∧
          facts (pointFact formatterContext.point formatterLocals) ∧
          ∀ after, after.registers.length = formatterContext.shape.slotCount →
            facts (pointFact (formatterContext.pointAt 7) after) →
              after.heap ≠ List.replicate 2 ⟨⟨0, false, false, false⟩, true⟩ ∧
              after.registers[0]? = some ⟨2237463218, false, true, false⟩ := by
  have hcall : formatterContext.instruction.Calls formatterCall :=
    ⟨.direct, false, by decide +kernel, rfl⟩
  have hlinkage : formatterCall.linkage formatterContext.oracle
      formatterContext.env.config.intentSummaries = .library .newFormatter := rfl
  have hfits : formatterContext.Fits formatterLocals :=
    ⟨by decide, by decide +kernel, by decide +kernel, by decide +kernel⟩
  -- one clause stores the argument, and no clause lifts it
  have hstores : ∃ clause ∈ formatterContext.emission.clauses, clause.Stores 0 := by
    decide +kernel
  have hopcode : formatterContext.instruction.opcode ≠ .newInstance := by decide +kernel
  obtain ⟨emission, hcompile, -⟩ := compileOrSkip_contributes (hasSite_of_opcode_ne hopcode)
  have hemission : formatterContext.emission = emission := by rw [StepContext.emission, hcompile]
  rw [hemission] at hstores
  obtain ⟨clause, hclause, hstores⟩ := hstores
  obtain ⟨facts, hmodels, hbefore, hafter⟩ :=
    unlifted_effects_keep_locals hcall hlinkage (by decide) hcompile hfits
  refine ⟨hcall, hlinkage, hfits, rfl, emission, clause, hcompile, hclause, hstores, facts, hmodels,
    hbefore, fun after hlength hfact => ?_⟩
  obtain ⟨hheap, hregisters⟩ := hafter _ after hlength hfact
  refine ⟨?_, hregisters 0 (by decide)⟩
  rw [hheap]
  decide

end StepContext

end DalvikHorn
