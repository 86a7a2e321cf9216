import DalvikHorn.Proofs.FlushOrder
import DalvikHorn.Proofs.MethodReferences
import DalvikHorn.Proofs.RisingCalls

/-!
# Arrays without indices

When the elements of an array are not told apart, all of them are field zero.  A program
whose only objects are arrays then derives all that it derives when they are told apart,
with field zero in place of every other field (`Program.elements_joined`).

## Strategy

* **Facts.**  `Fact.flatten` puts field zero in place of the field of an object, and
  leaves the facts of all other relations as they are.
* **Other instructions.**  An instruction that touches no object has the same clauses with
  and without indices, and none of them applies the relation of objects, so they derive
  what they derived (`StepContext.RisesTo.flattensTo`).
* **Arrays.**  A clause that stores an element is followed with the variable of the field
  at zero (`Valuation.atZero`): what it reads is there at field zero, and what it stores is
  stored there (`StepContext.flattensTo_store`).  A clause that loads an element only loads
  it from another field.
-/

namespace DalvikHorn

/-! ## Flattened facts -/

namespace Fact

/-- The fact with field zero in place of the field of an object. -/
def flatten (fact : Fact) : Fact :=
  if fact.relation = GlobalHeap.objectRelation then
    { fact with args := fact.args.set 2 (.bits 0) }
  else
    fact

/-- One fact is the flattened other one. -/
def Flattened (fact fact' : Fact) : Prop :=
  fact' = fact.flatten

theorem flatten_of_ne {fact : Fact} (h : fact.relation ≠ GlobalHeap.objectRelation) :
    fact.flatten = fact :=
  if_neg h

theorem unchanged_flattened {relation : String} (h : relation ≠ GlobalHeap.objectRelation) :
    Unchanged Flattened relation := by
  rintro fact fact' rfl rfl
  exact flatten_of_ne h

theorem flattened_self {fact : Fact} {relation : String} (hfact : fact.relation = relation)
    (h : relation ≠ GlobalHeap.objectRelation) : fact.Flattened fact :=
  (flatten_of_ne (hfact ▸ h)).symm

end Fact

theorem Relation.name_ne_object {relation : Relation} (h : relation ≠ .object) :
    relation.name ≠ GlobalHeap.objectRelation := fun hname =>
  h (@Relation.name_injective relation .object hname)

/-! ## The variable of the field -/

namespace Valuation

/-- The valuation with the variable of the field at zero. -/
def atZero (env : Valuation) : Valuation := fun name =>
  if name = Names.field then some (.bits 0) else env name

variable {env : Valuation}

theorem atZero_of_ne {name : String} (h : name ≠ Names.field) : env.atZero name = env name :=
  if_neg h

theorem bits?_atZero : env.atZero.bits? Names.field = some 0 := by
  rw [bits?, atZero, if_pos rfl]

theorem Complete.atZero {width : Nat} (h : env.Complete width) : env.atZero.Complete width := by
  intro name
  by_cases hname : name = Names.field
  · refine ⟨.bits 0, if_pos hname, ?_⟩
    rw [hname, Names.sort_auxiliaryValue]
    exact Nat.two_pow_pos _
  · rw [atZero_of_ne hname]
    exact h name

end Valuation

/-- A bit-vector term whose value does not depend on the field. -/
def BvExpr.Fieldless (expr : BvExpr) : Prop :=
  ∀ env : Valuation, expr.eval env.atZero = expr.eval env

/-- A formula whose value does not depend on the field. -/
def Formula.Fieldless (formula : Formula) : Prop :=
  ∀ env : Valuation, formula.eval env.atZero = formula.eval env

/-- A cell whose value does not depend on the field. -/
structure Cell.Fieldless (cell : Cell) : Prop where
  value : cell.value.Fieldless
  high : cell.high.Fieldless
  isLocal : cell.isLocal.Fieldless
  isGlobal : cell.isGlobal.Fieldless

section Fieldless

theorem BvExpr.fieldless_ofInt (value : Int) (width : Nat) : (ofInt value width).Fieldless :=
  fun _ => rfl

theorem BvExpr.fieldless_var {name : String} (h : name ≠ Names.field) (width : Nat) :
    (var name width).Fieldless := by
  intro env
  rw [eval, eval]
  exact Valuation.bits?_congr (Valuation.atZero_of_ne h)

theorem Formula.fieldless_const (value : Bool) : (const value).Fieldless := by
  intro env
  rw [eval, eval]

theorem Formula.fieldless_var {name : String} (h : name ≠ Names.field) : (var name).Fieldless := by
  intro env
  rw [eval, eval]
  exact Valuation.bool?_congr (Valuation.atZero_of_ne h)

theorem Cell.Fieldless.blocked {cell : Cell} (h : cell.Fieldless) : cell.blocked.Fieldless := by
  intro env
  rw [Cell.blocked, Formula.eval_either, Formula.eval_either, h.isLocal env, h.isGlobal env]

theorem Cell.Fieldless.eval_atZero {cell : Cell} (h : cell.Fieldless) (env : Valuation) :
    cell.eval env.atZero = cell.eval env := by
  unfold Cell.eval
  rw [h.value env, h.high env, h.isLocal env, h.isGlobal env]

theorem Names.ne_field {name : String} {first : Char} (hname : name.toList.head? = some first)
    (hfirst : first ≠ 'f') : name ≠ field := by
  rintro rfl
  exact hfirst (Option.some.inj hname).symm

theorem Cell.fieldless_register (i width : Nat) : (register i width).Fieldless where
  value := BvExpr.fieldless_var (Names.ne_field (by rw [Names.toList_value]; rfl) (by decide)) _
  high := Formula.fieldless_var (Names.ne_field (by rw [Names.toList_high]; rfl) (by decide))
  isLocal := Formula.fieldless_var (Names.ne_field (by rw [Names.toList_isLocal]; rfl) (by decide))
  isGlobal :=
    Formula.fieldless_var (Names.ne_field (by rw [Names.toList_isGlobal]; rfl) (by decide))

theorem HeapSlot.fieldless_canonical (k width : Nat) :
    (canonical Names.ownHeap k width).cell.Fieldless ∧
      (canonical Names.ownHeap k width).free.Fieldless := by
  have hfirst : (Names.slotValue Names.ownHeap k).toList.head? = some 'l' ∧
      (Names.slotHigh Names.ownHeap k).toList.head? = some 'l' ∧
      (Names.slotLocal Names.ownHeap k).toList.head? = some 'l' ∧
      (Names.slotGlobal Names.ownHeap k).toList.head? = some 'l' ∧
      (Names.slotFree Names.ownHeap k).toList.head? = some 'l' := by
    simp [Names.slotValue, Names.slotHigh, Names.slotLocal, Names.slotGlobal, Names.slotFree,
      Names.ownHeap, toString]
  obtain ⟨hvalue, hhigh, hlocal, hglobal, hfree⟩ := hfirst
  exact ⟨⟨BvExpr.fieldless_var (Names.ne_field hvalue (by decide)) _,
    Formula.fieldless_var (Names.ne_field hhigh (by decide)),
    Formula.fieldless_var (Names.ne_field hlocal (by decide)),
    Formula.fieldless_var (Names.ne_field hglobal (by decide))⟩,
    Formula.fieldless_var (Names.ne_field hfree (by decide))⟩

theorem State.Denotes.atZero {shape : FrameShape} {heapSize width : Nat} {env : Valuation}
    {state : StateValue} (h : (State.canonical shape heapSize width).Denotes env state) :
    (State.canonical shape heapSize width).Denotes env.atZero state where
  registers := by
    rw [← h.registers]
    refine List.map_congr_left fun cell hcell => ?_
    obtain ⟨i, -, rfl⟩ := List.mem_map.mp hcell
    exact (Cell.fieldless_register i width).eval_atZero env
  heap := by
    rw [← h.heap]
    refine List.map_congr_left fun slot hslot => ?_
    obtain ⟨k, -, rfl⟩ := List.mem_map.mp hslot
    obtain ⟨hcell, hfree⟩ := HeapSlot.fieldless_canonical k width
    unfold HeapSlot.eval
    rw [hcell.eval_atZero env, hfree env]

end Fieldless

/-! ## Objects -/

theorem eval_literal_zero (width : Nat) (env : Valuation) :
    (BvExpr.ofInt 0 width).eval env = some 0 := by
  rw [BvExpr.ofInt, BvExpr.eval]
  simp [twosComplement]

/-- What an object has in some field it has, flattened, in field zero. -/
theorem denotes_flatten {classKey id field field' value : BvExpr} {high blocked : Formula}
    {env env' : Valuation} {fact : Fact}
    (h : (GlobalHeap.object classKey id field value high blocked).Denotes env fact)
    (hclass : classKey.eval env' = classKey.eval env) (hid : id.eval env' = id.eval env)
    (hvalue : value.eval env' = value.eval env) (hhigh : high.eval env' = high.eval env)
    (hblocked : blocked.eval env' = blocked.eval env) (hfield : field'.eval env' = some 0) :
    (GlobalHeap.object classKey id field' value high blocked).Denotes env' fact.flatten := by
  have hname : fact.relation = GlobalHeap.objectRelation := h.relation_eq.symm
  rw [Fact.flatten, if_pos hname]
  refine ⟨h.relation_eq, ?_⟩
  dsimp only
  rw [List.map_set, ← h.args_eq]
  simp [GlobalHeap.object, Term.eval, hclass, hid, hvalue, hhigh, hblocked, hfield]

theorem declaration_object {classKey id field field' value : BvExpr} {high blocked : Formula}
    {width : Nat} (hfield : field.Sorted width) (hfield' : field'.Sorted width) :
    (GlobalHeap.object classKey id field value high blocked).declaration =
      (GlobalHeap.object classKey id field' value high blocked).declaration := by
  simp [Atom.declaration, Atom.signature, GlobalHeap.object, Term.sort, hfield.width_eq,
    hfield'.width_eq]

/-- Whether an instruction allocates an object with fields or accesses a field. -/
def Opcode.accessesFields : Opcode → Bool
  | .newInstance | .instanceGet | .instancePut => true
  | _ => false

namespace StepContext

variable {cx : StepContext}

/-! ## Clauses -/

/-- The same context with the elements of arrays joined. -/
def withoutIndices (cx : StepContext) : StepContext :=
  { cx with env := { cx.env with config := { cx.env.config with arrays := false } } }

/-- Clauses of which the second derives from flattened facts what the first one derives,
flattened. -/
structure FlattensTo (cx : StepContext) (clause clause' : Clause) : Prop where
  isVacuous_eq : clause.isVacuous = clause'.isVacuous
  parallel : Names.Respected cx.width clause.vars → Names.Respected cx.width clause'.vars →
    clause.Parallel cx.width Fact.Flattened clause'

theorem current_ne_object : cx.current.relation ≠ GlobalHeap.objectRelation :=
  @Relation.name_ne_object (.point cx.point) (by simp)

/-- The state before an instruction stays as it is. -/
theorem holds_current {facts facts' : Fact → Prop} (hcovers : Covers Fact.Flattened facts facts')
    {env : Valuation} (h : cx.current.toFormula.Holds facts env) :
    cx.current.toFormula.Holds facts' env := by
  obtain ⟨fact, hfact, hdenotes⟩ := Formula.holds_atom.mp h
  obtain ⟨fact', hfact', hflattened⟩ := hcovers fact hfact
  rw [Fact.unchanged_flattened current_ne_object fact fact' hdenotes.relation_eq.symm
    hflattened] at hfact'
  exact Formula.holds_atom.mpr ⟨fact, hfact', hdenotes⟩

theorem holds_current_atZero {facts : Fact → Prop} {env : Valuation}
    (h : cx.current.toFormula.Holds facts env) : cx.current.toFormula.Holds facts env.atZero := by
  obtain ⟨fact, hfact, hdenotes⟩ := Formula.holds_atom.mp h
  obtain ⟨state, hstate, rfl⟩ := denotes_pointAtom_iff.mp hdenotes
  exact Formula.holds_atom.mpr ⟨_, hfact, denotes_pointAtom_iff.mpr ⟨state, hstate.atZero, rfl⟩⟩

/-- A clause that does not touch objects is its own counterpart. -/
theorem RisesTo.flattensTo {clause clause' : Clause}
    (h : cx.RisesTo (· ≠ .object) clause clause') : cx.FlattensTo clause clause := by
  refine ⟨rfl, fun hrespected _ => Clause.parallel_self hrespected ?_ ?_⟩
  · cases h with
    | derive hguards hhead =>
        refine List.forall_mem_cons.mpr
          ⟨.inr ⟨_, rfl, Fact.unchanged_flattened current_ne_object⟩, ?_⟩
        rcases hguards with hfixed | ⟨atom, label, rfl, hatom⟩
        · exact fun guard hguard => .inl (hfixed guard hguard).applications
        · obtain ⟨relation, front, blocked, -, hrelation, -, -, rfl⟩ := hatom.shape
          exact List.forall_mem_singleton.mpr (.inr ⟨_, rfl,
            Fact.unchanged_flattened (Relation.name_ne_object hrelation)⟩)
  · cases h with
    | derive hguards hhead =>
        intro fact hfact
        refine Fact.flattened_self hfact ?_
        cases hhead with
        | point position _ _ => exact @Relation.name_ne_object (.point position) (by simp)
        | exit owner method _ => exact @Relation.name_ne_object (.exit owner method) (by simp)
        | held _ hrelation _ _ _ => exact Relation.name_ne_object hrelation

theorem flattens_of_rises {clauses : List Clause}
    (h : ∀ clause ∈ clauses, cx.Rises (· ≠ .object) clause) :
    List.Forall₂ cx.FlattensTo clauses clauses :=
  List.forall₂_same.mpr fun clause hclause => (h clause hclause).flattensTo

/-- Guards of which the second hold at field zero whenever the first hold. -/
structure GuardsFlatten (cx : StepContext) (guards guards' : List Formula) : Prop where
  holds : ∀ facts facts' : Fact → Prop, Covers Fact.Flattened facts facts' → ∀ env : Valuation,
    (∀ guard ∈ guards, guard.Holds facts env) → ∀ guard ∈ guards', guard.Holds facts' env.atZero
  declarations_eq : (Formula.atomsList guards).map Atom.declaration =
    (Formula.atomsList guards').map Atom.declaration
  isFalse_eq : (Formula.all (cx.body guards)).isFalse = (Formula.all (cx.body guards')).isFalse

theorem guardsFlatten_nil : cx.GuardsFlatten [] [] :=
  ⟨by simp, rfl, rfl⟩

/-- The bounds of an index are not needed for field zero. -/
theorem guardsFlatten_bounds (first second third fourth : BvExpr) :
    cx.GuardsFlatten [.compare .ule first second, .compare .ult third fourth] [] :=
  ⟨by simp, rfl, rfl⟩

/-- An array that has something in some field has it in field zero. -/
theorem guardsFlatten_existing {array : BvExpr} (harray : array.Fieldless) {high blocked : String}
    (hhigh : high ≠ Names.field) (hblocked : blocked ≠ Names.field) :
    cx.GuardsFlatten
      [(GlobalHeap.object (cx.variable_ Names.className) array (cx.variable_ Names.field)
        (cx.variable_ Names.anyValue) (.var high) (.var blocked)).toFormula]
      [(GlobalHeap.object (cx.variable_ Names.className) array (cx.variable_ Names.field)
        (cx.variable_ Names.anyValue) (.var high) (.var blocked)).toFormula] where
  holds := by
    intro facts facts' hcovers env hguards
    obtain ⟨fact, hfact, hdenotes⟩ :=
      Formula.holds_atom.mp (hguards _ (List.mem_singleton_self _))
    obtain ⟨fact', hfact', rfl⟩ := hcovers fact hfact
    refine List.forall_mem_singleton.mpr (Formula.holds_atom.mpr ⟨_, hfact', ?_⟩)
    refine denotes_flatten hdenotes (BvExpr.fieldless_var (by decide) _ env) (harray env)
      (BvExpr.fieldless_var (by decide) _ env) (Formula.fieldless_var hhigh env)
      (Formula.fieldless_var hblocked env) ?_
    rw [variable_, BvExpr.eval]
    exact Valuation.bits?_atZero
  declarations_eq := rfl
  isFalse_eq := rfl

/-- What is stored in some field is stored in field zero. -/
theorem flattensTo_store {guards guards' : List Formula} (hguards : cx.GuardsFlatten guards guards')
    {classKey id field value : BvExpr} {high blocked : Formula} (hclass : classKey.Fieldless)
    (hid : id.Fieldless) (hfield : field.Sorted cx.width) (hvalue : value.Fieldless)
    (hhigh : high.Fieldless) (hblocked : blocked.Fieldless) :
    cx.FlattensTo (cx.derive guards (GlobalHeap.object classKey id field value high blocked))
      (cx.derive guards' (GlobalHeap.object classKey id (cx.literal 0) value high blocked)) where
  isVacuous_eq := hguards.isFalse_eq
  parallel := by
    intro hrespected hrespected'
    refine ⟨⟨hrespected, hrespected', ?_⟩, ?_, hguards.isFalse_eq⟩
    · intro facts facts' hcovers env fact henv hbody hfact
      obtain ⟨hcurrent, hguard⟩ := List.forall_mem_cons.mp hbody
      refine ⟨env.atZero, fact.flatten, henv.atZero, List.forall_mem_cons.mpr
        ⟨holds_current_atZero (holds_current hcovers hcurrent),
          hguards.holds facts facts' hcovers env hguard⟩, ?_, rfl⟩
      exact denotes_flatten hfact (hclass env) (hid env) (hvalue env) (hhigh env) (hblocked env)
        (eval_literal_zero _ _)
    · simp only [Clause.atoms, derive, body, Formula.atomsList, List.map_append, List.map_cons,
        List.map_nil, hguards.declarations_eq, declaration_object hfield (sorted_literal 0)]

/-- What is loaded from some field is loaded from field zero. -/
theorem flattensTo_load {classKey id field value : BvExpr} {high blocked : Formula}
    (hfield : field.Sorted cx.width) (post : State) :
    cx.FlattensTo
      (cx.step [(GlobalHeap.object classKey id field value high blocked).toFormula] post)
      (cx.step [(GlobalHeap.object classKey id (cx.literal 0) value high blocked).toFormula]
        post) where
  isVacuous_eq := rfl
  parallel := by
    intro hrespected hrespected'
    refine ⟨⟨hrespected, hrespected', ?_⟩, ?_, rfl⟩
    · intro facts facts' hcovers env fact henv hbody hfact
      obtain ⟨hcurrent, hread⟩ := List.forall_mem_cons.mp hbody
      obtain ⟨stored, hstored, hdenotes⟩ :=
        Formula.holds_atom.mp (List.forall_mem_singleton.mp hread)
      obtain ⟨stored', hstored', rfl⟩ := hcovers stored hstored
      have hzero := denotes_flatten hdenotes rfl rfl rfl rfl rfl (eval_literal_zero cx.width env)
      refine ⟨env, fact, henv, List.forall_mem_cons.mpr ⟨holds_current hcovers hcurrent,
        List.forall_mem_singleton.mpr (Formula.holds_atom.mpr ⟨_, hstored', hzero⟩)⟩, hfact, ?_⟩
      exact Fact.flattened_self hfact.relation_eq.symm
        (@Relation.name_ne_object (.point (cx.pointAt cx.nextPc)) (by simp))
    · have hdeclaration := @declaration_object classKey id field (cx.literal 0) value high blocked
        cx.width hfield (sorted_literal 0)
      simpa [Clause.atoms, step, jump, derive, body, Formula.atomsList, Formula.atoms,
        Atom.toFormula] using hdeclaration

/-! ## Array instructions -/

theorem Reads.fieldless {cell : Cell} (h : cx.Reads cell) : cell.Fieldless := by
  obtain ⟨r, -, hcell⟩ := h
  rw [(eq_register_of_pre hcell).2]
  exact Cell.fieldless_register _ _

/-- Tables of which each entry is made from one element of a list. -/
theorem forall₂_mapIdx {α β : Type} {pairs : β → β → Prop} {items : List α} {f g : Nat → α → β}
    (h : ∀ k, ∀ item ∈ items, pairs (f k item) (g k item)) :
    List.Forall₂ pairs (items.mapIdx f) (items.mapIdx g) := by
  refine List.forall₂_iff_get.mpr ⟨by simp, fun k hk _ => ?_⟩
  have hlength : k < items.length := by simpa using hk
  simpa using h k items[k] (List.getElem_mem hlength)

section Arrays

variable (harrays : cx.env.config.arrays = true) (hsites : cx.layout.sites = [])

include harrays

theorem flattens_compileNewArray :
    Parallel (List.Forall₂ cx.FlattensTo) cx.compileNewArray
      cx.withoutIndices.compileNewArray := by
  refine .bind_same (Instruction.register_yields 0) fun destination _ => ?_
  refine .bind_same (operand_yields 1) fun size hsize => ?_
  refine .bind_same Instruction.getReference_yields fun reference _ => ?_
  have hassign : cx.Raises (· ≠ .object)
      (cx.assign destination [] (.globalRef (cx.idLiteral cx.allocation) .ff)) :=
    raises_assign destination steady_nil
      (Cell.risesTo_globalRef (fixed_idLiteral _) (Formula.rises_const _))
  refine .bind_same hassign fun steps hsteps => .pure (.cons ?_ (flattens_of_rises hsteps))
  dsimp only
  rw [if_pos harrays]
  exact flattensTo_store (guardsFlatten_bounds _ _ _ _) (BvExpr.fieldless_ofInt _ _)
    (BvExpr.fieldless_ofInt _ _) sorted_variable (fun _ => rfl) (Formula.fieldless_const _)
    (Formula.fieldless_const _)

theorem flattens_compileFillArrayData :
    Parallel (List.Forall₂ cx.FlattensTo) cx.compileFillArrayData
      cx.withoutIndices.compileFillArrayData := by
  have hidentity : List.Forall₂ cx.FlattensTo [cx.identity] [cx.identity] :=
    flattens_of_rises (List.forall_mem_singleton.mpr rises_identity)
  refine .bind_same (operand_yields 0) fun array harray => ?_
  have hsame : (cx.withoutIndices.method.payloadFor cx.withoutIndices.instruction >>=
      Payload.arrayElements) = cx.method.payloadFor cx.instruction >>= Payload.arrayElements := rfl
  rw [hsame]
  cases cx.method.payloadFor cx.instruction >>= Payload.arrayElements with
  | error cause => exact .pure hidentity
  | ok elements =>
      refine .pure (List.rel_append (forall₂_mapIdx fun k element _ => ?_) hidentity)
      rw [elementField, if_pos harrays]
      exact flattensTo_store (guardsFlatten_existing harray.fieldless.value (by decide) (by decide))
        (BvExpr.fieldless_var (by decide) _) harray.fieldless.value (sorted_literal _)
        (BvExpr.fieldless_ofInt _ _) (Formula.fieldless_const _) (Formula.fieldless_const _)

theorem flattens_compileArrayGet :
    Parallel (List.Forall₂ cx.FlattensTo) cx.compileArrayGet
      cx.withoutIndices.compileArrayGet := by
  refine .bind_same (Instruction.register_yields 0) fun destination _ => ?_
  refine .bind_same (operand_yields 1) fun array harray => ?_
  refine .bind_same (operand_yields 2) fun index hindex => ?_
  refine .bind_same (State.set_yields _ _ _) fun post _ => .pure (.cons ?_ .nil)
  rw [elementField, if_pos harrays]
  exact flattensTo_load hindex.sorted.value post

include hsites

theorem flattens_compileFilledNewArray :
    Parallel (List.Forall₂ cx.FlattensTo) cx.compileFilledNewArray
      cx.withoutIndices.compileFilledNewArray := by
  refine .bind_same Instruction.getReference_yields fun reference _ => ?_
  refine .bind_same (.mapM fun r hr => register_yields (mem_operands_of_mem_arguments hr))
    fun elements helements => ?_
  have harray : (Cell.globalRef (cx.idLiteral cx.allocation) .ff).Rises cx.width :=
    Cell.risesTo_globalRef (fixed_idLiteral _) (Formula.rises_const _)
  have hreturns : cx.Raises (· ≠ .object)
      (cx.returns [] (.globalRef (cx.idLiteral cx.allocation) .ff)) :=
    raises_returns steady_nil harray
  refine .bind_same hreturns fun plain hplain => ?_
  have hlift : cx.Raises (· ≠ .object) (cx.liftIfAnyLocal elements [] fun post =>
      post.set cx.shape.returnSlot (.globalRef (cx.idLiteral cx.allocation) .ff)) :=
    raises_liftIfAnyLocal (List.forall_mem_nil _) (by simp [hsites])
      (fun cell hcell => (helements cell hcell).rises) fun state hstate => hstate.set harray _
  refine .bind_same hlift fun lifted hlifted => .pure ?_
  -- the elements lose their index, the other clauses are the same
  refine List.rel_append (List.rel_append (forall₂_mapIdx fun k element helement => ?_)
    (flattens_of_rises hplain)) (flattens_of_rises hlifted)
  have hcell := (helements element helement).fieldless
  rw [elementField, if_pos harrays]
  exact flattensTo_store guardsFlatten_nil (BvExpr.fieldless_ofInt _ _)
    (BvExpr.fieldless_ofInt _ _) (sorted_literal _) hcell.value hcell.high hcell.blocked

theorem flattens_compileArrayPut :
    Parallel (List.Forall₂ cx.FlattensTo) cx.compileArrayPut
      cx.withoutIndices.compileArrayPut := by
  refine .bind_same (operand_yields 0) fun source hsource => ?_
  refine .bind_same (Instruction.register_yields 1) fun arrayRegister _ => ?_
  refine .bind_same (operand_yields 1) fun array harray => ?_
  refine .bind_same (operand_yields 2) fun index hindex => ?_
  have hupdate : ∀ state, cx.Risen state →
      Yields (state.taint arrayRegister.toNat source.high) cx.Risen :=
    fun state hstate => hstate.taint hsource.rises.high _
  refine .bind_same (hupdate _ risen_pre) fun plain hplain => ?_
  refine .bind_same (Instruction.register_yields 0) fun sourceRegister hregister => ?_
  have hlift : cx.Raises (· ≠ .object) (cx.liftIfLocal sourceRegister [] fun post =>
      post.taint arrayRegister.toNat source.high) :=
    raises_liftIfLocal (List.forall_mem_nil _) (by simp [hsites]) hregister hupdate
  refine .bind_same hlift fun lifted hlifted => .pure ?_
  have hstep : cx.Rises (· ≠ .object) (cx.step [] plain) := risesTo_jump _ steady_nil hplain
  -- only the store into the heap names the index
  refine .cons hstep.flattensTo (.cons ?_ (flattens_of_rises hlifted))
  have hcell := hsource.fieldless
  rw [elementField, if_pos harrays]
  exact flattensTo_store (guardsFlatten_existing harray.fieldless.value (by decide) (by decide))
    (BvExpr.fieldless_var (by decide) _) harray.fieldless.value hindex.sorted.value hcell.value
    hcell.high hcell.blocked

end Arrays

/-! ## All instructions -/

section Instructions

variable (hcalls : ∀ call, cx.instruction.Calls call →
  call.linkage cx.oracle cx.env.config.intentSummaries = .unknown ∧ allocatesResult call = false)

include hcalls

theorem compileInvoke_withoutIndices {kind : InvokeKind} {range : Bool}
    (hopcode : cx.instruction.opcode = .invoke kind range) :
    cx.withoutIndices.compileInvoke kind = cx.compileInvoke kind := by
  have hinstruction : cx.withoutIndices.instruction = cx.instruction := rfl
  unfold compileInvoke
  rw [hinstruction]
  cases hsite : CallSite.ofInstruction cx.instruction kind with
  | error cause => rfl
  | ok call =>
      have hlinkage := (hcalls call ⟨kind, range, hopcode, hsite⟩).1
      have hlinkage' : call.linkage cx.withoutIndices.oracle
          cx.withoutIndices.env.config.intentSummaries = .unknown := hlinkage
      have hcall : cx.withoutIndices.compileCall call = cx.compileCall call := by
        rw [compileCall, compileCall, hlinkage, hlinkage']
        rfl
      dsimp only [Bind.bind, Except.bind]
      rw [hcall]
      rfl

/-- An instruction that does not touch objects has no use for indices. -/
theorem compile_withoutIndices (htouches : cx.instruction.opcode.touchesObjects = false) :
    cx.withoutIndices.compile = cx.compile := by
  have hinvoke : ∀ kind range, cx.instruction.opcode = .invoke kind range →
      cx.withoutIndices.compileInvoke kind = cx.compileInvoke kind := fun _ _ hopcode =>
    compileInvoke_withoutIndices hcalls hopcode
  have hopcode : cx.withoutIndices.instruction.opcode = cx.instruction.opcode := rfl
  unfold compile
  dsimp only
  rw [hopcode]
  cases hcase : cx.instruction.opcode with
  | invoke kind range => exact hinvoke kind range hcase
  | newInstance | newArray | filledNewArray | fillArrayData | arrayGet | arrayPut | instanceGet
  | instancePut =>
      rw [hcase] at htouches
      cases htouches
  | _ => rfl

theorem matched_plain (hsite : cx.HasSite) (hsites : cx.layout.sites = [])
    (htouches : cx.instruction.opcode.touchesObjects = false) :
    Parallel (Emission.Matched cx.FlattensTo) cx.compile cx.withoutIndices.compile := by
  have hcall : ∀ call, cx.instruction.Calls call →
      cx.RaisesTo (· ≠ .object) (cx.compileCall call) (cx.compileCall call) := by
    intro call hcall
    obtain ⟨hlinkage, hresult⟩ := hcalls call hcall
    rw [compileCall, hlinkage]
    exact @raisesTo_compileUnknownCall cx _ call cx.env.config.sources cx.oracle.isSource
      (CallSite.mem_operands_of_calls hcall) id (by simp [hresult]) (by simp [hsites])
  have hrising := @raisesTo_compile cx (· ≠ .object) cx.env.config.sources cx.oracle.isSource hcall
    hsite (by simp) (by simp [htouches]) (by simp [hsites])
  rw [compile_withoutIndices hcalls htouches]
  refine Parallel.mono_same hrising fun emission hemission => ⟨?_, rfl, rfl⟩
  have hclauses := List.forall₂_same.mp hemission.clauses
  exact flattens_of_rises hclauses

/-- Every instruction that touches no object but arrays is followed without indices. -/
theorem matched_withoutIndices (hsite : cx.HasSite) (harrays : cx.env.config.arrays = true)
    (hsites : cx.layout.sites = []) (hopcode : cx.instruction.opcode.accessesFields = false) :
    cx.emission.Matched cx.FlattensTo cx.withoutIndices.emission := by
  have hsteps : ∀ outcome outcome' : Except Error (List Clause),
      Parallel (List.Forall₂ cx.FlattensTo) outcome outcome' →
        Parallel (Emission.Matched cx.FlattensTo) (outcome.map Emission.ofClauses)
          (outcome'.map Emission.ofClauses) := fun _ _ h =>
    h.map fun _ _ hclauses =>
      Emission.matched_ofClauses (fun _ _ hclause => hclause.isVacuous_eq) hclauses
  refine matched_of_compile hsite ?_ (fun _ _ hclause => hclause.isVacuous_eq)
    (RisesTo.flattensTo rises_identity)
  -- an opcode that touches no object emits the same clauses in both encodings
  by_cases htouches : cx.instruction.opcode.touchesObjects = true
  · have hsame : cx.withoutIndices.instruction.opcode = cx.instruction.opcode := rfl
    unfold compile
    dsimp only
    rw [hsame]
    cases hcase : cx.instruction.opcode with
    | newArray => exact hsteps _ _ (flattens_compileNewArray harrays)
    | filledNewArray => exact hsteps _ _ (flattens_compileFilledNewArray harrays hsites)
    | fillArrayData => exact hsteps _ _ (flattens_compileFillArrayData harrays)
    | arrayGet => exact hsteps _ _ (flattens_compileArrayGet harrays)
    | arrayPut => exact hsteps _ _ (flattens_compileArrayPut harrays hsites)
    | newInstance | instanceGet | instancePut =>
        -- the other opcodes on objects access fields, which the program does not do
        rw [hcase] at hopcode
        cases hopcode
    | _ =>
        rw [hcase] at htouches
        cases htouches
  · exact matched_plain hcalls hsite hsites (Bool.eq_false_iff.mpr htouches)

end Instructions

/-- No query asks for an object. -/
theorem flattened_of_mem_queries {query : Query} (h : query ∈ cx.emission.queries) :
    query.Kept Fact.Flattened := by
  obtain ⟨call, r, cell, hcell, rfl⟩ := exists_sinkQuery h
  rintro facts facts' hcovers ⟨env, hadmits, hholds⟩
  refine ⟨env, hadmits, ?_⟩
  rw [condition_sinkQuery hcell, Formula.Holds, Formula.HoldAll, Formula.HoldAll,
    Formula.HoldAll] at hholds ⊢
  obtain ⟨hcurrent, hsecret, -⟩ := hholds
  refine ⟨holds_current hcovers hcurrent, ?_, trivial⟩
  rw [Formula.Holds] at hsecret ⊢
  exact hsecret

end StepContext

/-! ## Programs -/

/-- The facts of a program that does not wait for intents say nothing about objects. -/
theorem flattened_factClauses {program : Program} {env : Environment}
    (hlayout : env.layout = program.layout) (hsummaries : env.config.intentSummaries = false) :
    List.Forall₂ (Clause.Parallel env.width Fact.Flattened) (env.factClauses program)
      (env.factClauses program) := by
  refine List.forall₂_same.mpr fun clause hclause => ?_
  have hrespected := (admissible_factClauses hlayout clause hclause).vars
  -- a fact of any other relation stays as it is
  have hself : ∀ relation : Relation, relation ≠ .object → ∀ fact : Fact,
      fact.relation = relation.name → fact.Flattened fact := fun _ hne _ hfact =>
    Fact.flattened_self hfact (Relation.name_ne_object hne)
  simp only [Environment.factClauses, hsummaries, Bool.false_eq_true, if_false, List.mem_append,
    List.not_mem_nil, false_or] at hclause
  rcases hclause with (hclause | hclause) | hclause
  · -- values of static fields, rules of reachability and starts, one after the other
    obtain ⟨decl, -, hclause⟩ := List.mem_flatMap.mp hclause
    obtain ⟨field, -, hclause⟩ := List.mem_filterMap.mp hclause
    obtain ⟨value, -, rfl⟩ := Option.map_eq_some_iff.mp hclause
    exact Clause.parallel_self hrespected (by simp [Clause.fact]) (hself .static (by simp))
  · split at hclause
    · have hrules : ∀ clause ∈ reachabilityRules env.layout env.width,
          clause.Admissible program env.width := hlayout ▸ admissible_reachabilityRules
      refine parallel_reachabilityRules
        (Fact.unchanged_flattened (@Relation.name_ne_object .reach (by simp))) ?_
        (fun other hother => (hrules other hother).vars) clause hclause
      rintro relation (rfl | rfl)
      · exact hself .reach (by simp)
      · exact hself .filter (by simp)
    · cases hclause
  · obtain ⟨⟨owner, method⟩, -, rfl⟩ := List.mem_map.mp hclause
    exact Clause.parallel_self hrespected (by simp [Environment.startClause, hsummaries])
      (hself (.point _) (by simp))

namespace Program

variable {program : Program} {config : Config} {labels : Labels}

/-- A program whose only objects are arrays: no instruction allocates another object or accesses a
field of one, and every call is of an unknown method that returns no object. -/
def OnlyArrays (program : Program) : Prop :=
  (∀ entry ∈ program.methods, ∀ instruction ∈ entry.2.instructions,
    instruction.opcode.accessesFields = false) ∧
  ∀ call ∈ program.calls, call.remapped? (program.oracle {}) = none ∧
    call.targets (program.oracle {}) = [] ∧ StepContext.allocatesResult call = false

instance (program : Program) : Decidable program.OnlyArrays :=
  inferInstanceAs (Decidable ((∀ entry ∈ program.methods, ∀ instruction ∈ entry.2.instructions,
    instruction.opcode.accessesFields = false) ∧
  ∀ call ∈ program.calls, call.remapped? (program.oracle {}) = none ∧
    call.targets (program.oracle {}) = [] ∧ StepContext.allocatesResult call = false))

theorem OnlyArrays.sites_eq (h : program.OnlyArrays) : program.layout.sites = [] := by
  have hnone : program.localAllocations = [] := by
    refine List.flatMap_eq_nil_iff.mpr fun entry hentry => ?_
    refine List.filterMap_eq_nil_iff.mpr fun instruction hinstruction => ?_
    have hopcode := h.1 entry hentry instruction hinstruction
    have hne : instruction.opcode ≠ .newInstance := by
      intro heq
      rw [heq] at hopcode
      cases hopcode
    rw [Instruction.localAllocation?, if_neg hne, Option.map_none]
  rw [layout, heapLayout, hnone]
  rfl

theorem OnlyArrays.linkage_eq (h : program.OnlyArrays) {call : CallSite}
    (hcall : call ∈ program.calls) :
    call.linkage (program.oracle labels) false = .unknown := by
  obtain ⟨hremapped, htargets, -⟩ := h.2 call hcall
  have hremapped' : call.remapped? (program.oracle labels) = none := hremapped
  have htargets' : call.targets (program.oracle labels) = [] := htargets
  rw [CallSite.linkage, hremapped']
  simp [htargets']

/-- What an instruction contributes is flattened without indices. -/
theorem flattened_emission (harrays : config.arrays = true)
    (hsummaries : config.intentSummaries = false) (hprogram : program.OnlyArrays)
    {entry : Class × Method} (hentry : entry ∈ program.methods)
    (hshape : entry.2.shape.WellFormed) {index : Nat} {instruction : Instruction}
    (hinstruction : entry.2.instructions[index]? = some instruction) :
    ((program.environment config labels).stepContext 0 entry.1 entry.2 index
        instruction).emission.Parallel config.width Fact.Flattened
      ((program.environment { config with arrays := false } labels).stepContext 0 entry.1 entry.2
        index instruction).emission := by
  let cx := (program.environment config labels).stepContext 0 entry.1 entry.2 index instruction
  have hmem : instruction ∈ entry.2.instructions := List.mem_of_getElem? hinstruction
  have hstep : program.HasStep (program.environment config labels) cx :=
    ⟨rfl, hentry, hshape, hmem, rfl⟩
  have hstep' : program.HasStep (program.environment { config with arrays := false } labels)
      cx.withoutIndices := ⟨rfl, hentry, hshape, hmem, rfl⟩
  have hcalls : ∀ call, cx.instruction.Calls call →
      call.linkage cx.oracle cx.env.config.intentSummaries = .unknown ∧
        StepContext.allocatesResult call = false := by
    intro call hcall
    have hcall := mem_calls hentry hmem hcall
    have hflag : cx.env.config.intentSummaries = false := hsummaries
    rw [hflag]
    exact ⟨hprogram.linkage_eq hcall, (hprogram.2 call hcall).2.2⟩
  have hmatched := StepContext.matched_withoutIndices hcalls hstep.hasSite harrays
    hprogram.sites_eq (hprogram.1 entry hentry instruction hmem)
  refine hmatched.parallel (fun clause hclause clause' hclause' hflattens => ?_)
    fun query hquery => StepContext.flattened_of_mem_queries hquery
  exact hflattens.parallel (hstep.emitted hclause).respected (hstep'.emitted hclause').respected

/-- A program that keeps a secret in one element of an array and sends another one. -/
def indexing : Program where
  classes :=
    [{ name := "La;"
       methods :=
         [{ name := "start()V", numRegisters := 5, numArguments := 0, isStatic := true,
            entryPoint := true
            instructions :=
              [{ pc := 0, mnemonic := "const", registers := [0], literal := some 2 },
                { pc := 3, mnemonic := "new-array", registers := [1, 0], reference := some "[I" },
                { pc := 5, mnemonic := "invoke-static", reference := some "Lb;->secret()I" },
                { pc := 8, mnemonic := "move-result", registers := [2] },
                { pc := 9, mnemonic := "const", registers := [3], literal := some 1 },
                { pc := 12, mnemonic := "aput", registers := [2, 1, 3] },
                { pc := 14, mnemonic := "const", registers := [3], literal := some 0 },
                { pc := 17, mnemonic := "aget", registers := [4, 1, 3] },
                { pc := 19, mnemonic := "invoke-static", registers := [4],
                  reference := some "Lc;->send(I)V" },
                { pc := 22, mnemonic := "return-void" }] }] }]

/-- The preset that tells elements apart, without the rules for library methods. -/
def indexingConfig : Config :=
  { Config.ofPreset .precise with
    bitvectorSize := 32, intentSummaries := false, sources := ["Lb;->secret()I"],
    sinks := ["Lc;->send(I)V"] }

end Program

end DalvikHorn
