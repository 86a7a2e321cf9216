import DalvikHorn.Proofs.Lifting

/-!
# Explicit flows

Moves, constants and arithmetic pass values from register to register, and labels
along with them.  Two states are *low-equivalent* when they have the same labels
and agree on all values that are not labelled secret.  A sequence of such
instructions keeps low equivalence: what is public in the end does not depend on
what was secret in the beginning (`low_equivalence_kept`).

## Strategy

* A cell is *covered* when its label tells whether its value may differ between
  low-equivalent states.  A register is covered, and so is every result whose label
  joins those of the operands that it is computed from (`covered_unary`,
  `covered_binary`).
* Every instruction at hand contributes a single clause, which writes a covered cell
  or keeps the state (`exists_transforms`), so one step keeps low equivalence, and by
  induction a run does.
-/

namespace DalvikHorn

/-! ## Low equivalence -/

/-- Two values with one label, which are the same unless the label is secret. -/
structure CellValue.LowEquivalent (first second : CellValue) : Prop where
  high_eq : first.high = second.high
  value_eq : first.high = false → first.value = second.value

/-- Two states of one frame whose registers are low-equivalent. -/
structure StateValue.LowEquivalent (first second : StateValue) : Prop where
  length_eq : first.registers.length = second.registers.length
  cells : ∀ (r : Nat) (cell other : CellValue), first.registers[r]? = some cell →
    second.registers[r]? = some other → cell.LowEquivalent other

theorem StateValue.LowEquivalent.set {first second : StateValue} (h : first.LowEquivalent second)
    {cell other : CellValue} (hcell : cell.LowEquivalent other) (r : Nat) :
    StateValue.LowEquivalent { first with registers := first.registers.set r cell }
      { second with registers := second.registers.set r other } where
  length_eq := by simpa using h.length_eq
  cells := by
    intro i found found' hfound hfound'
    rw [List.getElem?_set] at hfound hfound'
    by_cases hi : r = i
    · rw [if_pos hi] at hfound hfound'
      by_cases hlt : i < first.registers.length
      · have hlt' : i < second.registers.length := h.length_eq ▸ hlt
        simp only [hi, hlt, hlt', if_true, Option.some.injEq] at hfound hfound'
        exact hfound ▸ hfound' ▸ hcell
      · simp [hi, hlt] at hfound
    · rw [if_neg hi] at hfound hfound'
      exact h.cells i found found' hfound hfound'

/-- Computing with a value keeps its label. -/
theorem CellValue.LowEquivalent.map {cell other : CellValue} (h : cell.LowEquivalent other)
    (f : Nat → Nat) :
    CellValue.LowEquivalent ⟨f cell.value, cell.high, false, false⟩
      ⟨f other.value, other.high, false, false⟩ :=
  ⟨h.high_eq, fun hhigh => congrArg f (h.value_eq hhigh)⟩

/-- The result of an operation is public only if both operands are. -/
theorem CellValue.LowEquivalent.zipWith {left right left' right' : CellValue}
    (hleft : left.LowEquivalent left') (hright : right.LowEquivalent right')
    (f : Nat → Nat → Nat) :
    CellValue.LowEquivalent ⟨f left.value right.value, left.high || right.high, false, false⟩
      ⟨f left'.value right'.value, left'.high || right'.high, false, false⟩ := by
  refine ⟨congrArg₂ (· || ·) hleft.high_eq hright.high_eq, fun hhigh => ?_⟩
  obtain ⟨hlow, hlow'⟩ := Bool.or_eq_false_iff.mp hhigh
  exact congrArg₂ f (hleft.value_eq hlow) (hright.value_eq hlow')

/-! ## Ranges of values -/

theorem BvUnary.apply_lt (width value : Nat) (op : BvUnary) :
    op.apply width value < valueCount width := by
  cases op <;> exact truncate_lt _ _

theorem BvBinary.apply_lt (width left right : Nat) (op : BvBinary) :
    op.apply width left right < valueCount width :=
  truncate_lt _ _

/-! ## Covered cells -/

namespace StepContext

variable {cx : StepContext}

/-- A cell has a value in every state before the instruction, and its label tells whether the
value may depend on what is secret there. -/
structure CoveredBy (cx : StepContext) (cell : Cell) (read : StateValue → CellValue) : Prop where
  eval_eq : ∀ (env : Valuation) (before : StateValue), cx.Fits before →
    cx.pre.Denotes env before → cell.eval env = some (read before)
  bounded : ∀ before, cx.Fits before → (read before).value < valueCount cx.width
  lowEquivalent : ∀ first second, cx.Fits first → cx.Fits second → first.LowEquivalent second →
    (read first).LowEquivalent (read second)

/-- A cell is covered by what some function reads. -/
def Covered (cx : StepContext) (cell : Cell) : Prop :=
  ∃ read, cx.CoveredBy cell read

theorem covered_register {r : Nat} {cell : Cell} (hcell : cx.pre.registers[r]? = some cell) :
    cx.Covered cell := by
  have hlength : r < cx.shape.slotCount := by
    rw [← cx.sorted_pre.registers_length]
    exact (List.getElem?_eq_some_iff.mp hcell).1
  have hread : ∀ before : StateValue, cx.Fits before →
      before.registers[r]? = some (before.registers.getD r ⟨0, false, false, false⟩) := by
    intro before hfits
    have hr : r < before.registers.length := hfits.registers_length ▸ hlength
    rw [List.getD_eq_getElem?_getD, List.getElem?_eq_getElem hr, Option.getD_some]
  refine ⟨fun before => before.registers.getD r ⟨0, false, false, false⟩, ⟨?_, ?_, ?_⟩⟩
  · intro env before hfits hbefore
    obtain ⟨value, hvalue, heval⟩ := getElem?_of_map_eq hbefore.registers hcell
    rw [heval, ← hvalue, hread before hfits]
  · intro before hfits
    exact hfits.inRange.registers _ (List.mem_of_getElem? (hread before hfits))
  · intro first second hfirst hsecond hlow
    exact hlow.cells r _ _ (hread first hfirst) (hread second hsecond)

theorem Reads.covered {cell : Cell} (h : cx.Reads cell) : cx.Covered cell := by
  obtain ⟨r, -, hcell⟩ := h
  exact covered_register hcell

theorem eval_scalar_of_eval {env : Valuation} {value : BvExpr} {high : Formula} {word : Nat}
    {secret : Bool} (hvalue : value.eval env = some word) (hhigh : high.eval env = some secret) :
    (Cell.scalar value high).eval env = some ⟨word, secret, false, false⟩ :=
  Cell.eval_eq_some_iff.mpr ⟨hvalue, hhigh, rfl, rfl⟩

/-- A public constant. -/
theorem covered_literal (value : Int) : cx.Covered (.scalar (cx.literal value) .ff) := by
  refine ⟨fun _ => ⟨twosComplement value cx.width, false, false, false⟩, ⟨?_, ?_, ?_⟩⟩
  · intro env before _ _
    refine eval_scalar_of_eval ?_ (by rw [Formula.eval])
    rw [literal, BvExpr.ofInt, BvExpr.eval]
  · intro before _
    exact twosComplement_lt value cx.width
  · intro first second _ _ _
    exact ⟨rfl, fun _ => rfl⟩

/-- A value that is computed from one cell, with the label of the cell. -/
theorem covered_unary {source : Cell} (hsource : cx.Covered source) {value : BvExpr}
    {f : Nat → Nat}
    (hvalue : ∀ env word, source.value.eval env = some word → value.eval env = some (f word))
    (hbound : ∀ word, word < valueCount cx.width → f word < valueCount cx.width) :
    cx.Covered (.scalar value source.high) := by
  obtain ⟨read, hread⟩ := hsource
  refine ⟨fun before => ⟨f (read before).value, (read before).high, false, false⟩, ⟨?_, ?_, ?_⟩⟩
  · intro env before hfits hbefore
    obtain ⟨hword, hhigh, -⟩ := Cell.eval_eq_some_iff.mp (hread.eval_eq env before hfits hbefore)
    exact eval_scalar_of_eval (hvalue env _ hword) hhigh
  · intro before hfits
    exact hbound _ (hread.bounded before hfits)
  · intro first second hfirst hsecond hlow
    exact (hread.lowEquivalent first second hfirst hsecond hlow).map f

/-- A value that is computed from two cells, with both of their labels. -/
theorem covered_binary {left right : Cell} (hleft : cx.Covered left) (hright : cx.Covered right)
    {value : BvExpr} {f : Nat → Nat → Nat}
    (hvalue : ∀ env a b, left.value.eval env = some a → right.value.eval env = some b →
      value.eval env = some (f a b))
    (hbound : ∀ a b, f a b < valueCount cx.width) :
    cx.Covered (.scalar value (left.high.either right.high)) := by
  obtain ⟨read, hread⟩ := hleft
  obtain ⟨read', hread'⟩ := hright
  refine ⟨fun before => ⟨f (read before).value (read' before).value,
    (read before).high || (read' before).high, false, false⟩, ⟨?_, ?_, ?_⟩⟩
  · intro env before hfits hbefore
    obtain ⟨hword, hhigh, -⟩ := Cell.eval_eq_some_iff.mp (hread.eval_eq env before hfits hbefore)
    obtain ⟨hword', hhigh', -⟩ :=
      Cell.eval_eq_some_iff.mp (hread'.eval_eq env before hfits hbefore)
    exact eval_scalar_of_eval (hvalue env _ _ hword hword') (eval_joined hhigh hhigh')
  · intro before _
    exact hbound _ _
  · intro first second hfirst hsecond hlow
    exact (hread.lowEquivalent first second hfirst hsecond hlow).zipWith
      (hread'.lowEquivalent first second hfirst hsecond hlow) f

/-! ## Results of instructions -/

theorem Reads.covered_operation {left right : Cell} (hleft : cx.Reads left)
    (hright : cx.Reads right) (op : BvBinary) :
    cx.Covered
      (.scalar (.binary op left.value right.value) (left.high.either right.high)) := by
  refine covered_binary hleft.covered hright.covered ?_ fun a b => op.apply_lt cx.width a b
  intro env a b ha hb
  rw [BvExpr.eval, ha, hb, hleft.sorted.value.width_eq]
  rfl

/-- The literal has no label, on whichever side it stands. -/
theorem Reads.covered_literalOperation {operand : Cell} (hoperand : cx.Reads operand)
    (op : BvBinary) (literal : Int) (reversed : Prop) [Decidable reversed] :
    cx.Covered
      (.scalar (if reversed then .binary op (cx.literal literal) operand.value
        else .binary op operand.value (cx.literal literal)) operand.high) := by
  have hliteral : ∀ env, (cx.literal literal).eval env = some (twosComplement literal cx.width) :=
    fun env => by rw [StepContext.literal, BvExpr.ofInt, BvExpr.eval]
  have hsorted : (cx.literal literal).Sorted cx.width := sorted_literal literal
  by_cases hreversed : reversed
  · rw [if_pos hreversed]
    refine covered_unary hoperand.covered ?_ fun word _ =>
      op.apply_lt cx.width (twosComplement literal cx.width) word
    intro env word hword
    rw [BvExpr.eval, hword, hliteral, hsorted.width_eq]
    rfl
  · rw [if_neg hreversed]
    refine covered_unary hoperand.covered ?_ fun word _ =>
      op.apply_lt cx.width word (twosComplement literal cx.width)
    intro env word hword
    rw [BvExpr.eval, hword, hliteral, hoperand.sorted.value.width_eq]
    rfl

theorem Reads.covered_negation {source : Cell} (hsource : cx.Reads source) (op : BvUnary) :
    cx.Covered (.scalar (.unary op source.value) source.high) := by
  refine covered_unary hsource.covered ?_ fun word _ => op.apply_lt cx.width word
  intro env word hword
  rw [BvExpr.eval, hword, hsource.sorted.value.width_eq]
  rfl

theorem Reads.covered_comparison {left right : Cell} (hleft : cx.Reads left)
    (hright : cx.Reads right) :
    cx.Covered
      (.scalar
        (.select (left.value.eqTo right.value) (cx.literal 0)
          (.select (.compare .ugt left.value right.value) (cx.literal 1) (cx.literal (-1))))
        (left.high.either right.high)) := by
  -- the result depends on the order of the operands and on nothing else
  let order : Nat → Nat → Int := fun a b => if a == b then 0 else if b < a then 1 else -1
  refine covered_binary hleft.covered hright.covered ?_ fun a b =>
    twosComplement_lt (order a b) cx.width
  intro env a b ha hb
  have hequal : (left.value.eqTo right.value).eval env = some (a == b) := by
    rw [BvExpr.eqTo, Formula.eval, ha, hb]
    rfl
  have hgreater : (Formula.compare .ugt left.value right.value).eval env =
      some (decide (b < a)) := by
    rw [Formula.eval, ha, hb]
    rfl
  rw [BvExpr.eval_select, BvExpr.eval, hequal]
  -- equal operands give zero, and the order of the others decides the sign
  by_cases hsame : a = b
  · simp [order, hsame, literal, BvExpr.ofInt, BvExpr.eval]
  · have hne : (a == b) = false := beq_eq_false_iff_ne.mpr hsame
    rw [hne]
    dsimp only
    rw [BvExpr.eval_select, BvExpr.eval, hgreater]
    by_cases hlt : b < a
    · simp [order, hsame, hlt, literal, BvExpr.ofInt, BvExpr.eval]
    · simp [order, hsame, hlt, literal, BvExpr.ofInt, BvExpr.eval]

/-! ## Single steps -/

/-- A state over the canonical variables is a function of the state before the instruction, which
keeps low equivalence. -/
structure TransformedBy (cx : StepContext) (post : State) (update : StateValue → StateValue) :
    Prop where
  denotes : ∀ (env : Valuation) (before : StateValue), cx.Fits before →
    cx.pre.Denotes env before → post.Denotes env (update before)
  fits : ∀ before, cx.Fits before → cx.Fits (update before)
  lowEquivalent : ∀ first second, cx.Fits first → cx.Fits second → first.LowEquivalent second →
    (update first).LowEquivalent (update second)

/-- Some clauses are a single step, which keeps low equivalence. -/
def Transforms (cx : StepContext) (clauses : List Clause) : Prop :=
  ∃ post update, clauses = [cx.step [] post] ∧ cx.TransformedBy post update

theorem transforms_identity : cx.Transforms [cx.identity] :=
  ⟨cx.pre, id, rfl, fun _ _ _ hbefore => hbefore, fun _ hfits => hfits, fun _ _ _ _ hlow => hlow⟩

theorem transforms_assign {cell : Cell} (hcell : cx.Covered cell) (destination : UInt32) :
    Yields (cx.assign destination [] cell) cx.Transforms := by
  obtain ⟨read, hread⟩ := hcell
  refine .bind (State.set_yields _ _ _) fun post hpost => .pure ?_
  obtain ⟨-, rfl⟩ := hpost
  refine ⟨_, fun before => { before with
    registers := before.registers.set destination.toNat (read before) }, rfl, ?_, ?_, ?_⟩
  · intro env before hfits hbefore
    refine ⟨?_, hbefore.heap⟩
    rw [List.map_set, List.map_set, hbefore.registers, hread.eval_eq env before hfits hbefore]
  · intro before hfits
    refine ⟨by simpa using hfits.registers_length, hfits.heap_length, ⟨?_, hfits.inRange.heap⟩⟩
    intro found hfound
    rcases List.mem_or_eq_of_mem_set hfound with hold | rfl
    · exact hfits.inRange.registers found hold
    · exact hread.bounded before hfits
  · intro first second hfirst hsecond hlow
    exact hlow.set (hread.lowEquivalent first second hfirst hsecond hlow) _

theorem transforms_compileMove : Yields cx.compileMove cx.Transforms := by
  refine .bind (Instruction.register_yields 0) fun destination _ => ?_
  refine .bind (operand_yields 1) fun source hsource => ?_
  exact transforms_assign hsource.covered destination

theorem transforms_compileMoveResult : Yields cx.compileMoveResult cx.Transforms := by
  refine .bind (Instruction.register_yields 0) fun destination _ => ?_
  refine .bind (State.register_yields _ _) fun result hresult => ?_
  exact transforms_assign (covered_register hresult) destination

theorem transforms_compileConst (kind : ConstKind) :
    Yields (cx.compileConst kind) cx.Transforms := by
  refine .bind (Instruction.register_yields 0) fun destination _ => ?_
  have hassign : ∀ value : BvExpr, (∃ constant, value = cx.literal constant) →
      Yields (cx.assign destination [] (.scalar value .ff)) cx.Transforms := by
    rintro value ⟨constant, rfl⟩
    exact transforms_assign (covered_literal constant) destination
  cases kind with
  | literal =>
      exact .bind Instruction.getLiteral_yields fun _ _ => .bind (.pure ⟨_, rfl⟩) hassign
  | string =>
      exact .bind Instruction.getReference_yields fun _ _ => .bind (.pure ⟨_, rfl⟩) hassign
  | class_ =>
      exact .bind Instruction.getReference_yields fun _ _ => .bind (.pure ⟨_, rfl⟩) hassign

theorem transforms_compileUnary (op : UnaryOp) : Yields (cx.compileUnary op) cx.Transforms := by
  refine .bind (Instruction.register_yields 0) fun destination _ => ?_
  refine .bind (operand_yields 1) fun source hsource => transforms_assign ?_ destination
  cases op with
  | neg => exact hsource.covered_negation .neg
  | not => exact hsource.covered_negation .not
  | convert => exact covered_unary hsource.covered (fun _ _ hword => hword) fun _ hlt => hlt

theorem transforms_compileBinary (op : BinaryOp) (form : OperandForm) :
    Yields (cx.compileBinary op form) cx.Transforms := by
  refine .bind (Instruction.register_yields 0) fun destination _ => ?_
  have hassign : ∀ result, cx.Covered result →
      Yields (cx.assign destination [] result) cx.Transforms :=
    fun _ hresult => transforms_assign hresult destination
  cases form with
  | three =>
      refine .bind (operand_yields 1) fun left hleft => ?_
      refine .bind (operand_yields 2) fun right hright => ?_
      exact .bind (.pure (hleft.covered_operation hright _)) hassign
  | twoAddress =>
      refine .bind (operand_yields 0) fun left hleft => ?_
      refine .bind (operand_yields 1) fun right hright => ?_
      exact .bind (.pure (hleft.covered_operation hright _)) hassign
  | literal =>
      refine .bind (operand_yields 1) fun operand hoperand => ?_
      refine .bind Instruction.getLiteral_yields fun literal _ => ?_
      exact .bind (.pure (hoperand.covered_literalOperation _ _ _)) hassign

theorem transforms_compileCompare : Yields cx.compileCompare cx.Transforms := by
  refine .bind (Instruction.register_yields 0) fun destination _ => ?_
  refine .bind (operand_yields 1) fun left hleft => ?_
  refine .bind (operand_yields 2) fun right hright => ?_
  exact transforms_assign (hleft.covered_comparison hright) destination

end StepContext

/-- Whether an instruction only passes values from register to register. -/
def Opcode.isExplicitFlow : Opcode → Bool
  | .move | .moveResult | .const _ | .unary _ | .binary _ _ | .compare => true
  | _ => false

namespace StepContext

variable {cx : StepContext}

/-- What such an instruction contributes is one step, also when it cannot be compiled. -/
theorem exists_transforms (hflow : cx.instruction.opcode.isExplicitFlow) :
    ∃ emission, cx.compileOrSkip = .ok emission ∧ cx.Transforms emission.clauses := by
  have hkept : ∀ clauses, cx.Transforms clauses →
      cx.Transforms (Emission.ofClauses clauses).clauses := by
    rintro clauses ⟨post, update, rfl, htransformed⟩
    -- the step has no guard, so it is kept
    have hone : (cx.step [] post).isVacuous = false := by
      refine Clause.isVacuous_eq_false (fun _ => none) (List.forall_mem_singleton.mpr ?_)
      rw [Atom.toFormula, Formula.eval]
      decide
    exact ⟨post, update, by simp [Emission.ofClauses, hone], htransformed⟩
  have hhandler : ∀ outcome : Except Error (List Clause), Yields outcome cx.Transforms →
      cx.compile = outcome.map Emission.ofClauses →
        ∃ emission, cx.compileOrSkip = .ok emission ∧ cx.Transforms emission.clauses := by
    intro outcome houtcome hcompile
    cases hresult : outcome with
    | ok clauses =>
        refine ⟨.ofClauses clauses, ?_, hkept clauses (houtcome.result clauses hresult)⟩
        rw [compileOrSkip, hcompile, hresult]
        rfl
    | error cause =>
        -- an instruction without its operands is compiled to the identity
        refine ⟨.ofClauses [cx.identity], ?_, hkept _ transforms_identity⟩
        rw [compileOrSkip, hcompile, hresult]
        exact if_neg (by rw [houtcome.recovers cause hresult]; decide)
  cases hopcode : cx.instruction.opcode with
  | move => exact hhandler _ transforms_compileMove (by rw [compile, hopcode])
  | moveResult => exact hhandler _ transforms_compileMoveResult (by rw [compile, hopcode])
  | const kind => exact hhandler _ (transforms_compileConst kind) (by rw [compile, hopcode])
  | unary op => exact hhandler _ (transforms_compileUnary op) (by rw [compile, hopcode])
  | binary op form =>
      exact hhandler _ (transforms_compileBinary op form) (by rw [compile, hopcode])
  | compare => exact hhandler _ transforms_compileCompare (by rw [compile, hopcode])
  | _ => simp [hopcode, Opcode.isExplicitFlow] at hflow

theorem hasSite_of_flow (hflow : cx.instruction.opcode.isExplicitFlow) : cx.HasSite := by
  intro typeName hallocation
  rw [Instruction.localAllocation?] at hallocation
  split at hallocation
  · rename_i hopcode
    rw [hopcode] at hflow
    cases hflow
  · cases hallocation

/-- A clause that an instruction contributes leads from one state to another at the next
position. -/
def Passes (cx : StepContext) (before after : StateValue) : Prop :=
  cx.Fits before ∧ cx.Fits after ∧
    ∃ emission, cx.compileOrSkip = .ok emission ∧ ∃ clause ∈ emission.clauses, ∃ env : Valuation,
      env.Admits clause.vars ∧
        (∀ part ∈ clause.body, part.Holds (· = pointFact cx.point before) env) ∧
        clause.head.Denotes env (pointFact (cx.pointAt cx.nextPc) after)

/-- An instruction of an explicit flow is a function on the states of its frame. -/
theorem exists_passes_iff (hflow : cx.instruction.opcode.isExplicitFlow) :
    ∃ update : StateValue → StateValue,
      (∀ before, cx.Fits before → cx.Fits (update before)) ∧
      (∀ first second, cx.Fits first → cx.Fits second → first.LowEquivalent second →
        (update first).LowEquivalent (update second)) ∧
      ∀ before after, cx.Fits before → (cx.Passes before after ↔ after = update before) := by
  obtain ⟨emission, hemission, post, update, hclauses, htransformed⟩ := exists_transforms hflow
  refine ⟨update, htransformed.fits, htransformed.lowEquivalent, fun before after hfits => ?_⟩
  constructor
  · rintro ⟨-, hafter, emission', hemission', clause, hclause, env, -, hbody, hhead⟩
    cases Except.ok.inj (hemission.symm.trans hemission')
    rw [hclauses] at hclause
    cases List.mem_singleton.mp hclause
    obtain ⟨fact, rfl, hfact⟩ := Formula.holds_atom.mp (hbody _ List.mem_cons_self)
    obtain ⟨state, hstate, heq⟩ := denotes_pointAtom_iff.mp hfact
    obtain ⟨next, hnext, heq'⟩ := denotes_pointAtom_iff.mp hhead
    -- the frame of the instruction tells the registers from the heap in both facts
    have hlength := length_eq_of_map_eq hstate.registers
    rw [cx.sorted_pre.registers_length, ← hfits.registers_length] at hlength
    obtain ⟨-, rfl⟩ := pointFact_injective hlength.symm heq
    have hnext' := htransformed.denotes env before hfits hstate
    cases hnext.unique hnext'
    have hlength' := hafter.registers_length.trans
      (htransformed.fits before hfits).registers_length.symm
    exact (pointFact_injective hlength' heq').2
  · rintro rfl
    have hmem : cx.step [] post ∈ emission.clauses := hclauses ▸ List.mem_singleton_self _
    refine ⟨hfits, htransformed.fits before hfits, emission, hemission, _, hmem,
      stateValuation before, ?_, ?_, ?_⟩
    · obtain ⟨emission', hemission', hcontributes⟩ :=
        compileOrSkip_contributes (hasSite_of_flow hflow)
      cases Except.ok.inj (hemission.symm.trans hemission')
      exact hfits.inRange.admits (hcontributes.clauses _ hmem).respected
    · refine List.forall_mem_singleton.mpr (Formula.holds_atom.mpr ⟨_, rfl, ?_⟩)
      exact denotes_pointAtom_iff.mpr ⟨before, hfits.denotes_pre, rfl⟩
    · exact denotes_pointAtom_iff.mpr
        ⟨_, htransformed.denotes _ before hfits hfits.denotes_pre, rfl⟩

/-! ## Runs -/

/-- The states that some instructions lead to one after the other. -/
inductive Runs : List StepContext → StateValue → StateValue → Prop
  | nil (state : StateValue) : Runs [] state state
  | cons {cx : StepContext} {rest : List StepContext} {before middle after : StateValue}
      (hstep : cx.Passes before middle) (hrest : Runs rest middle after) :
      Runs (cx :: rest) before after

/-- Instructions of one method of a program have the same frames. -/
theorem Fits.congr {other : StepContext} {state : StateValue} (h : cx.Fits state)
    (henv : cx.env = other.env) (hmethod : cx.method = other.method) : other.Fits state where
  registers_length := h.registers_length.trans (congrArg (·.shape.slotCount) hmethod)
  heap_length := h.heap_length.trans (congrArg (·.layout.size) henv)
  inRange := by
    have hwidth : cx.width = other.width := congrArg Environment.width henv
    exact hwidth ▸ h.inRange

/-- Moves, constants and arithmetic keep low equivalence: from two states with the same labels
that agree on what is public, a sequence of such instructions always leads to states with the same
labels that agree on what is public then. -/
theorem low_equivalence_kept {env : Environment} {method : Method} {contexts : List StepContext}
    (hcontexts : ∀ cx ∈ contexts, cx.env = env ∧ cx.method = method ∧
      cx.instruction.opcode.isExplicitFlow)
    {first second : StateValue} (hfirst : ∀ cx ∈ contexts, cx.Fits first)
    (hsecond : ∀ cx ∈ contexts, cx.Fits second) (hlow : first.LowEquivalent second) :
    (∃ after, Runs contexts first after) ∧ (∃ after, Runs contexts second after) ∧
      ∀ after after', Runs contexts first after → Runs contexts second after' →
        after.LowEquivalent after' := by
  -- low equivalence of the states at hand is the invariant of the two runs
  induction contexts generalizing first second with
  | nil =>
      refine ⟨⟨first, .nil first⟩, ⟨second, .nil second⟩, fun after after' hrun hrun' => ?_⟩
      cases hrun
      cases hrun'
      exact hlow
  | cons cx rest ih =>
      obtain ⟨henv, hmethod, hflow⟩ := hcontexts cx List.mem_cons_self
      obtain ⟨update, hfits, hkept, hpasses⟩ := exists_passes_iff hflow
      have hfits₁ := hfirst cx List.mem_cons_self
      have hfits₂ := hsecond cx List.mem_cons_self
      have hrest : ∀ state, cx.Fits state → ∀ other ∈ rest, other.Fits (update state) := by
        intro state hstate other hother
        obtain ⟨henv', hmethod', -⟩ := hcontexts other (List.mem_cons_of_mem _ hother)
        exact (hfits state hstate).congr (henv.trans henv'.symm) (hmethod.trans hmethod'.symm)
      obtain ⟨⟨after, hafter⟩, ⟨after', hafter'⟩, hruns⟩ :=
        ih (fun other hother => hcontexts other (List.mem_cons_of_mem _ hother))
          (hrest first hfits₁) (hrest second hfits₂) (hkept first second hfits₁ hfits₂ hlow)
      refine ⟨⟨after, .cons ((hpasses _ _ hfits₁).mpr rfl) hafter⟩,
        ⟨after', .cons ((hpasses _ _ hfits₂).mpr rfl) hafter'⟩, ?_⟩
      rintro final final' (_ | ⟨hstep, hrun⟩) (_ | ⟨hstep', hrun'⟩)
      cases (hpasses _ _ hfits₁).mp hstep
      cases (hpasses _ _ hfits₂).mp hstep'
      exact hruns final final' hrun hrun'

/-- A method that overwrites a sum of a secret and a public value. -/
def sumMethod : Method where
  name := "sum()V"
  numRegisters := 3
  numArguments := 0
  isStatic := true
  instructions :=
    [{ pc := 0, mnemonic := "add-int", registers := [2, 0, 1] },
      { pc := 2, mnemonic := "move", registers := [0, 2] },
      { pc := 3, mnemonic := "const/4", registers := [2], literal := some 7 },
      { pc := 4, mnemonic := "cmp-long", registers := [1, 1, 2] }]

/-- The contexts of its instructions. -/
def sumContexts : List StepContext :=
  Program.methodContexts (Program.sample.environment Program.sampleConfig {})
    { name := "La;", methods := [sumMethod] } sumMethod

/-- A frame of the method with a secret in its first register, and an empty local heap. -/
def sumState (secret : Nat) : StateValue where
  registers := [⟨secret, true, false, false⟩, ⟨3, false, false, false⟩, ⟨0, false, false, false⟩,
    ⟨0, false, false, false⟩]
  heap := List.replicate 2 ⟨⟨0, false, false, false⟩, true⟩

theorem low_equivalence_kept_sum :
    sumContexts.length = 4 ∧ (∃ after, Runs sumContexts (sumState 5) after) ∧
      (∃ after, Runs sumContexts (sumState 9) after) ∧
        ∀ after after', Runs sumContexts (sumState 5) after → Runs sumContexts (sumState 9) after' →
          after.LowEquivalent after' := by
  have hopcodes : ∀ instruction ∈ sumMethod.instructions,
      instruction.opcode.isExplicitFlow = true := by decide +kernel
  have hcontexts : ∀ cx ∈ sumContexts,
      cx.env = Program.sample.environment Program.sampleConfig {} ∧ cx.method = sumMethod ∧
        cx.instruction.opcode.isExplicitFlow := by
    intro cx hcx
    obtain ⟨index, hindex, rfl⟩ := List.mem_mapIdx.mp hcx
    exact ⟨rfl, rfl, hopcodes _ (List.getElem_mem hindex)⟩
  have hfits : ∀ secret < 16, ∀ cx ∈ sumContexts, cx.Fits (sumState secret) := by
    intro secret hsecret cx hcx
    obtain ⟨index, hindex, rfl⟩ := List.mem_mapIdx.mp hcx
    have hsize : 2 = (Program.sample.environment Program.sampleConfig {}).layout.size := by
      decide +kernel
    have hcount : 16 ≤ valueCount 32 := by decide
    refine ⟨rfl, hsize, ⟨fun cell hcell => ?_, fun slot hslot => ?_⟩⟩
    · -- the four registers hold small numbers or the secret
      change cell.value < valueCount 32
      simp only [sumState, List.mem_cons, List.not_mem_nil, or_false] at hcell
      rcases hcell with rfl | rfl | rfl | rfl
      all_goals
        dsimp only
        omega
    · rw [List.eq_of_mem_replicate hslot]
      exact valueCount_pos _
  have hlow : (sumState 5).LowEquivalent (sumState 9) := by
    refine ⟨rfl, fun r cell other hcell hother => ?_⟩
    -- only the first register differs, and it is labelled
    match r with
    | 0 =>
        cases hcell
        cases hother
        exact ⟨rfl, by simp⟩
    | r + 1 =>
        cases Option.some.inj (hcell.symm.trans hother)
        exact ⟨rfl, fun _ => rfl⟩
  exact ⟨rfl, low_equivalence_kept hcontexts (hfits 5 (by decide)) (hfits 9 (by decide)) hlow⟩

end StepContext

end DalvikHorn
