import DalvikHorn.Proofs.Consistency
import DalvikHorn.Proofs.Invariants
import DalvikHorn.Proofs.ScalarSteps
import DalvikHorn.Proofs.Simulation

/-!
# Adequacy of scalar code

For a program with one entry method of scalar instructions, the states that can
be derived at a position are exactly the frames that the machine reaches there.

## Strategy

Both directions go along one step at a time and use `realizes_compile`, which
describes the clauses of an instruction by what the machine does.

* **Soundness** is an induction over derivations.  A derived fact gives a
  valuation; the clause that derived it is the start of the entry method, or an
  edge whose guards hold, and then the machine takes it.
* **Completeness** is an induction over runs.  A frame of the machine is turned
  into a valuation of the canonical variables (`frameValuation`), under which the
  edge that the machine takes derives the next frame.
-/

namespace DalvikHorn

/-! ## The valuation of a frame -/

/-- The register whose number stands at the end of a name. -/
def numberedCell (registers : List CellValue) (digits : List Char) : CellValue :=
  registers.getD (Nat.ofDigitChars 10 digits 0) ⟨0, false, false, false⟩

/-- The valuation under which the canonical registers have the values of a frame.  All other
names have some value of their sort. -/
def frameValuation (registers : List CellValue) : Valuation := fun name =>
  if Names.holdsValue name.toList then
    match name.toList with
    | 'v' :: digits => some (.bits (numberedCell registers digits).value)
    | _ => some (.bits 0)
  else
    match name.toList with
    | 'h' :: digits => some (.bool (numberedCell registers digits).high)
    | 'l' :: digits => some (.bool (numberedCell registers digits).isLocal)
    | 'g' :: digits => some (.bool (numberedCell registers digits).isGlobal)
    | _ => some (.bool false)

variable {registers : List CellValue}

theorem numberedCell_toDigits {i : Nat} {cell : CellValue} (hcell : registers[i]? = some cell) :
    numberedCell registers (Nat.toDigits 10 i) = cell := by
  rw [numberedCell, Nat.ofDigitChars_toDigits (by decide) (by decide), List.getD_eq_getElem?_getD,
    hcell]
  rfl

/-- A canonical register has the value of the frame. -/
theorem eval_register_frameValuation {i : Nat} {cell : CellValue}
    (hcell : registers[i]? = some cell) (width : Nat) :
    (Cell.register i width).eval (frameValuation registers) = some cell := by
  have hnumber := numberedCell_toDigits hcell
  refine Cell.eval_eq_some_iff.mpr ⟨?_, ?_, ?_, ?_⟩
  · simp [Cell.register, BvExpr.eval, Valuation.bits?, frameValuation, Names.toList_value,
      Names.holdsValue, hnumber]
  · simp [Cell.register, Formula.eval, Valuation.bool?, frameValuation, Names.toList_high,
      Names.holdsValue, hnumber]
  · simp [Cell.register, Formula.eval, Valuation.bool?, frameValuation, Names.toList_isLocal,
      Names.holdsValue_cons_toDigits, hnumber]
  · simp [Cell.register, Formula.eval, Valuation.bool?, frameValuation, Names.toList_isGlobal,
      Names.holdsValue, hnumber]

/-- Every name has a value of its sort. -/
theorem complete_frameValuation {width : Nat}
    (hvalues : ∀ cell ∈ registers, cell.value < valueCount width) :
    (frameValuation registers).Complete width := by
  intro name
  have hpositive : 0 < valueCount width := Nat.two_pow_pos _
  have hnumbered : ∀ digits, (numberedCell registers digits).value < valueCount width := by
    intro digits
    rw [numberedCell, List.getD_eq_getElem?_getD]
    cases hcell : registers[Nat.ofDigitChars 10 digits 0]? with
    | none => exact hpositive
    | some cell => exact hvalues cell (List.mem_of_getElem? hcell)
  unfold frameValuation
  rw [Names.sort]
  split
  · split
    · exact ⟨_, rfl, hnumbered _⟩
    · exact ⟨_, rfl, hpositive⟩
  · split <;> exact ⟨_, rfl, trivial⟩

theorem admits_frameValuation {width : Nat}
    (hvalues : ∀ cell ∈ registers, cell.value < valueCount width)
    {vars : List (String × TermSort)} (hvars : Names.Respected width vars) :
    (frameValuation registers).Admits vars :=
  (complete_frameValuation hvalues).admits hvars

/-- The values of a frame fit into its width. -/
theorem value_lt_frameState {w : Nat} (hwidth : w ≤ wordBits) (frame : List (Register w)) :
    ∀ cell ∈ (frameState frame).registers, cell.value < valueCount w := by
  intro cell hcell
  obtain ⟨register, -, rfl⟩ := List.mem_map.mp hcell
  rw [valueCount_of_le hwidth]
  exact register.value.isLt

theorem eval_register_frameState {w : Nat} {frame : List (Register w)} {i : Nat}
    {register : Register w} (hregister : frame[i]? = some register) (width : Nat) :
    (Cell.register i width).eval (frameValuation (frameState frame).registers) =
      some register.cellValue := by
  refine eval_register_frameValuation ?_ width
  rw [frameState, List.getElem?_map, hregister]
  rfl

/-- The current state of an instruction has the value of a frame under its valuation. -/
theorem StepContext.denotes_pre (cx : StepContext) (hlayout : cx.layout.size = 0) {w : Nat}
    {frame : List (Register w)} (hlength : frame.length = cx.shape.slotCount) :
    cx.pre.Denotes (frameValuation (frameState frame).registers) (frameState frame) where
  registers := by
    refine List.ext_getElem? fun slot => ?_
    rw [pre, State.canonical, List.map_map, frameState, List.map_map, List.getElem?_map,
      List.getElem?_map]
    cases hregister : frame[slot]? with
    | none =>
        have hout : cx.shape.slotCount ≤ slot := hlength ▸ List.getElem?_eq_none_iff.mp hregister
        rw [List.getElem?_eq_none (by simpa using hout)]
        rfl
    | some register =>
        obtain ⟨hslot, -⟩ := List.getElem?_eq_some_iff.mp hregister
        rw [List.getElem?_range (hlength ▸ hslot)]
        exact congrArg some (eval_register_frameState hregister cx.width)
  heap := by
    rw [pre, hlayout]
    rfl

/-! ## Successors -/

theorem Method.follows_iff {method : Method} {instruction : Instruction} {next : UInt32} :
    method.Follows instruction next ↔
      ∃ index, method.instructions[index]? = some instruction ∧ method.nextPc index = next := by
  constructor
  · intro h
    cases h with
    | @next before after _ successor heq =>
        have hhere : method.instructions[before.length]? = some instruction := by simp [heq]
        have hnext : method.instructions[before.length + 1]? = some successor := by simp [heq]
        exact ⟨before.length, hhere, by rw [nextPc, hnext]⟩
    | @last before _ heq =>
        have hhere : method.instructions[before.length]? = some instruction := by simp [heq]
        have hnext : method.instructions[before.length + 1]? = none := by simp [heq]
        exact ⟨before.length, hhere, by rw [nextPc, hnext, hhere]⟩
  · rintro ⟨index, hhere, rfl⟩
    obtain ⟨hlt, hget⟩ := List.getElem?_eq_some_iff.mp hhere
    have hsplit : method.instructions =
        method.instructions.take index ++ instruction :: method.instructions.drop (index + 1) := by
      rw [← hget, List.getElem_cons_drop, List.take_append_drop]
    unfold nextPc
    -- what follows the instruction decides which rule applies
    cases hrest : method.instructions.drop (index + 1) with
    | nil =>
        have hnext : method.instructions[index + 1]? = none := by
          rw [← Nat.add_zero (index + 1), ← List.getElem?_drop, hrest]
          rfl
        rw [hnext, hhere]
        rw [hrest] at hsplit
        exact .last hsplit
    | cons successor after =>
        have hnext : method.instructions[index + 1]? = some successor := by
          rw [← Nat.add_zero (index + 1), ← List.getElem?_drop, hrest]
          rfl
        rw [hnext]
        rw [hrest] at hsplit
        exact .next hsplit

/-! ## Start frames -/

section Start

variable {w : Nat} {arguments : List (Register w)}

theorem FrameShape.length_entryFrame {shape : FrameShape} (hshape : shape.WellFormed)
    (hlength : arguments.length = shape.numArguments) :
    (shape.entryFrame arguments).length = shape.slotCount := by
  have hfits : shape.numArguments ≤ shape.numRegisters := hshape
  simp only [entryFrame, List.length_append, List.length_replicate, List.length_singleton, hlength,
    slotCount]
  omega

theorem FrameShape.getElem?_entryFrame {shape : FrameShape} (hshape : shape.WellFormed)
    (hlength : arguments.length = shape.numArguments) {slot : Nat} (hslot : slot < shape.slotCount) :
    (shape.entryFrame arguments)[slot]? =
      match shape.parameterAt? slot with
      | some i => arguments[i]?
      | none => some .zero := by
  have hfits : shape.numArguments ≤ shape.numRegisters := hshape
  have hbound : slot < shape.numRegisters + shape.numArguments + 1 := hslot
  have hfront : (List.replicate (shape.numRegisters - shape.numArguments) (Register.zero (w := w)) ++
      arguments).length = shape.numRegisters := by
    rw [List.length_append, List.length_replicate, hlength]
    omega
  unfold entryFrame parameterAt?
  -- a slot is a register, the return slot or an argument copy
  by_cases hregister : slot < shape.numRegisters
  · rw [if_pos hregister, List.getElem?_append_left (by rw [List.length_append, hfront]; omega),
      List.getElem?_append_left (by omega)]
    by_cases hparameter : shape.numRegisters - shape.numArguments ≤ slot
    · rw [if_pos hparameter, List.getElem?_append_right (by rw [List.length_replicate]; omega),
        List.length_replicate]
    · rw [if_neg hparameter, List.getElem?_append_left (by rw [List.length_replicate]; omega),
        List.getElem?_replicate, if_pos (by omega)]
  · rw [if_neg hregister]
    by_cases hreturn : slot = shape.numRegisters
    · rw [if_pos hreturn, List.getElem?_append_left
          (by rw [List.length_append, hfront, List.length_singleton]; omega),
        List.getElem?_append_right (by omega), hfront, hreturn, Nat.sub_self]
      rfl
    · rw [if_neg hreturn, List.getElem?_append_right
          (by rw [List.length_append, hfront, List.length_singleton]; omega),
        List.length_append, hfront, List.length_singleton]

/-- An argument is in its parameter register. -/
theorem FrameShape.getElem?_entryFrame_of_argument {shape : FrameShape} (hshape : shape.WellFormed)
    (hlength : arguments.length = shape.numArguments) {i : Nat} {argument : Register w}
    (hargument : arguments[i]? = some argument) :
    (shape.entryFrame arguments)[shape.numRegisters - shape.numArguments + i]? = some argument := by
  have hfits : shape.numArguments ≤ shape.numRegisters := hshape
  obtain ⟨hi, -⟩ := List.getElem?_eq_some_iff.mp hargument
  rw [hlength] at hi
  have hslot : shape.numRegisters - shape.numArguments + i < shape.slotCount := by
    rw [slotCount]
    omega
  rw [getElem?_entryFrame hshape hlength hslot,
    (parameterAt?_eq_some_iff hshape hslot).mpr ⟨hi, .inr rfl⟩]
  exact hargument

end Start

namespace Environment

variable {env : Environment} {method : Method}

/-- A parameter of a static entry point is a variable in its register. -/
theorem startCell_of_parameter (hstatic : method.isStatic = true) (receiver : InstanceId)
    {slot i : Nat} (hslot : method.shape.parameterAt? slot = some i)
    (hi : i < method.shape.numArguments) :
    env.startCell receiver method method.shape.numArguments slot =
      { value := .var (Names.value (method.shape.numRegisters - method.shape.numArguments + i)) env.width
        high := .ff
        isLocal := .ff
        isGlobal :=
          .var (Names.isGlobal (method.shape.numRegisters - method.shape.numArguments + i)) } := by
  rw [startCell, hslot]
  dsimp only
  rw [if_pos hi, parameterCell, hstatic]
  simp

theorem startCell_of_none (receiver : InstanceId) {slot : Nat}
    (hslot : method.shape.parameterAt? slot = none) :
    env.startCell receiver method method.shape.numArguments slot = .zero env.width := by
  rw [startCell, hslot]

/-- The start of a static entry point has the value of the entry frame over the values of the
parameter variables. -/
theorem denotes_startFrame (hshape : method.shape.WellFormed) (hstatic : method.isStatic = true)
    (hlayout : env.layout.size = 0) {valuation : Valuation} {w : Nat} {arguments : List (Register w)}
    (hlength : arguments.length = method.shape.numArguments)
    (harguments : ∀ i argument, arguments[i]? = some argument → ∃ value isGlobal,
      argument = .argument value isGlobal ∧
      valuation.bits? (Names.value (method.shape.numRegisters - method.shape.numArguments + i)) =
        some value.toNat ∧
      valuation.bool? (Names.isGlobal (method.shape.numRegisters - method.shape.numArguments + i)) =
        some isGlobal)
    (receiver : InstanceId) :
    (env.startFrame receiver method).Denotes valuation
      (frameState (method.shape.entryFrame arguments)) where
  registers := by
    refine List.ext_getElem? fun slot => ?_
    rw [startFrame, frameState, List.map_map, List.getElem?_map, List.getElem?_map,
      List.getElem?_map]
    -- a slot of a parameter holds the argument, every other slot is zero
    by_cases hslot : slot < method.shape.slotCount
    · rw [List.getElem?_range hslot, FrameShape.getElem?_entryFrame hshape hlength hslot]
      cases hparameter : method.shape.parameterAt? slot with
      | none =>
          rw [Option.map_some, Function.comp_apply, startCell_of_none receiver hparameter]
          rfl
      | some i =>
          have hi : i < method.shape.numArguments :=
            ((FrameShape.parameterAt?_eq_some_iff hshape hslot).mp hparameter).1
          have hargument := List.getElem?_eq_getElem (hlength ▸ hi : i < arguments.length)
          obtain ⟨value, isGlobal, heq, hbits, hbool⟩ := harguments i _ hargument
          rw [Option.map_some, Function.comp_apply, startCell_of_parameter hstatic receiver hparameter hi]
          dsimp only
          rw [hargument, heq]
          refine congrArg some (Cell.eval_eq_some_iff.mpr ⟨hbits, rfl, rfl, hbool⟩)
    · -- behind the frame there is no slot on either side
      have hout : method.shape.slotCount ≤ slot := Nat.le_of_not_lt hslot
      rw [List.getElem?_eq_none (by simpa using hout), List.getElem?_eq_none]
      · rfl
      · rw [FrameShape.length_entryFrame hshape hlength]
        exact hout
  heap := by
    rw [startFrame, hlayout]
    rfl

/-- The variables of the parameters occur in the clause that starts an entry point. -/
theorem parameter_mem_vars (hshape : method.shape.WellFormed) (hstatic : method.isStatic = true)
    (owner : Class) {i : Nat} (hi : i < method.shape.numArguments) :
    (Names.value (method.shape.numRegisters - method.shape.numArguments + i),
        TermSort.bitVec env.width) ∈ (env.startClause owner method).vars ∧
      (Names.isGlobal (method.shape.numRegisters - method.shape.numArguments + i),
        TermSort.bool) ∈ (env.startClause owner method).vars := by
  have hfits : method.shape.numArguments ≤ method.shape.numRegisters := hshape
  have hslot : method.shape.numRegisters - method.shape.numArguments + i < method.shape.slotCount := by
    rw [FrameShape.slotCount]
    omega
  -- the slot is that of the parameter, so its columns are variables
  have hparameter := (FrameShape.parameterAt?_eq_some_iff hshape hslot).mpr ⟨hi, .inr rfl⟩
  have hmem : env.startCell (siteHash owner.id 0 0) method method.shape.numArguments
      (method.shape.numRegisters - method.shape.numArguments + i) ∈
        (env.startFrame (siteHash owner.id 0 0) method).registers :=
    List.mem_map_of_mem (List.mem_range.mpr hslot)
  rw [startCell_of_parameter hstatic _ hparameter hi] at hmem
  have hcolumns : ∀ column ∈ frameColumns (env.startFrame (siteHash owner.id 0 0) method).registers,
      ∀ v ∈ column.vars, v ∈ (env.startClause owner method).vars := by
    intro column hcolumn v hv
    exact List.mem_append_right _ (Term.mem_varsList.mpr ⟨column, List.mem_append_left _ hcolumn, hv⟩)
  constructor
  · refine hcolumns (.bv (.var _ env.width)) ?_ _ (List.mem_singleton_self _)
    exact List.mem_append_left _ (List.mem_append_left _ (List.mem_append_left _
      (List.mem_map.mpr ⟨_, hmem, rfl⟩)))
  · refine hcolumns (.bool (.var _)) ?_ _ (List.mem_singleton_self _)
    exact List.mem_append_right _ (List.mem_map.mpr ⟨_, hmem, rfl⟩)

/-- Every state in which the clause of an entry point starts is a start of the machine. -/
theorem exists_starts (env : Environment) (hshape : method.shape.WellFormed) (hstatic : method.isStatic = true)
    (hlayout : env.layout.size = 0) (hwidth : env.width ≤ wordBits) {owner : Class}
    {valuation : Valuation} (hadmits : valuation.Admits (env.startClause owner method).vars)
    {state : StateValue}
    (hstate : (env.startFrame (siteHash owner.id 0 0) method).Denotes valuation state) :
    ∃ frame : List (Register env.width), method.Starts frame ∧ state = frameState frame := by
  -- the arguments are read off the valuation
  let base := method.shape.numRegisters - method.shape.numArguments
  let argument := fun i : Nat => Register.argument
    (BitVec.ofNat env.width ((valuation.bits? (Names.value (base + i))).getD 0))
    ((valuation.bool? (Names.isGlobal (base + i))).getD false)
  let arguments := (List.range method.shape.numArguments).map argument
  have hlength : arguments.length = method.shape.numArguments := by
    rw [List.length_map, List.length_range]
  refine ⟨_, ⟨arguments, hlength, ?_, rfl⟩, hstate.unique
    (denotes_startFrame hshape hstatic hlayout hlength ?_ _)⟩
  · intro register hregister
    obtain ⟨i, -, rfl⟩ := List.mem_map.mp hregister
    exact ⟨_, _, rfl⟩
  · intro i register hregister
    rw [List.getElem?_map] at hregister
    obtain ⟨j, hj, rfl⟩ := Option.map_eq_some_iff.mp hregister
    obtain ⟨hi, rfl⟩ := List.getElem?_eq_some_iff.mp hj
    rw [List.length_range] at hi
    -- both variables occur in the clause, so they have values of their sorts
    obtain ⟨hvalue, hglobal⟩ := parameter_mem_vars hshape hstatic owner hi
    obtain ⟨word, hword, hlt⟩ := hadmits.exists_bits hvalue
    obtain ⟨flag, hflag⟩ := hadmits.exists_bool hglobal
    rw [valueCount_of_le hwidth] at hlt
    refine ⟨_, _, rfl, ?_, ?_⟩
    · rw [List.getElem_range, hword, Option.getD_some, BitVec.toNat_ofNat, Nat.mod_eq_of_lt hlt]
    · rw [List.getElem_range, hflag, Option.getD_some]

end Environment

/-! ## Frames of runs -/

theorem Instruction.Executes.length_eq {w : Nat} {instruction : Instruction} {next pc : UInt32}
    {frame after : List (Register w)} (h : instruction.Executes frame next pc after) :
    after.length = frame.length := by
  cases h with
  | assign => exact List.length_set
  | _ => rfl

theorem Method.Reaches.length_eq {w : Nat} {method : Method} (hshape : method.shape.WellFormed)
    {pc : UInt32} {frame : List (Register w)} (h : method.Reaches pc frame) :
    frame.length = method.shape.slotCount := by
  induction h with
  | start hframe =>
      obtain ⟨arguments, hlength, -, rfl⟩ := hframe
      exact FrameShape.length_entryFrame hshape hlength
  | step _ _ hexecutes ih => rw [hexecutes.length_eq, ih]

/-- A clause derives something when no part of its body is false. -/
theorem Clause.isVacuous_eq_false {clause : Clause} (valuation : Valuation)
    (h : ∀ part ∈ clause.body, part.eval valuation ≠ some false) : clause.isVacuous = false := by
  cases hvacuous : clause.isVacuous with
  | false => rfl
  | true =>
      have hfolded : (Formula.all clause.body).eval valuation = some false :=
        Formula.eval_of_isFalse _ hvacuous
      rw [Formula.eval_all, Formula.evalAll_eq_false_iff] at hfolded
      obtain ⟨part, hpart, hfalse⟩ := hfolded
      exact absurd hfalse (h part hpart)

theorem Config.width_le_of_validate {config : Config} (hvalid : config.validate = .ok ()) :
    config.width ≤ wordBits := by
  refine Nat.le_of_not_lt fun hwide => ?_
  have hout : config.width < minWidth ∨ maxWidth < config.width := .inr hwide
  rw [validate, if_pos hout] at hvalid
  cases hvalid

/-! ## Scalar programs -/

namespace Program

/-- A program with one launcher class, whose only method is a static entry point made of
scalar instructions over its own registers. -/
structure IsScalar (program : Program) (owner : Class) (method : Method) : Prop where
  classes : program.classes = [owner]
  methods : owner.methods = [method]
  launcher : owner.launcher = true
  isStatic : method.isStatic = true
  entryPoint : method.entryPoint = true
  wellFormed : method.shape.WellFormed
  scalar : ∀ instruction ∈ method.instructions, instruction.isScalar = true
  registers : ∀ instruction ∈ method.instructions, ∀ r ∈ instruction.registers,
    r.toNat < method.shape.numRegisters

namespace IsScalar

variable {program : Program} {owner : Class} {method : Method} {config : Config} {labels : Labels}

theorem methods_eq (h : program.IsScalar owner method) : program.methods = [(owner, method)] := by
  rw [Program.methods, h.classes]
  simp [h.methods]

theorem shapesAgree (h : program.IsScalar owner method) : program.ShapesAgree := by
  intro first hfirst second hsecond _ _
  rw [h.methods_eq] at hfirst hsecond
  rw [List.mem_singleton.mp hfirst, List.mem_singleton.mp hsecond]

theorem entryPoints_eq (h : program.IsScalar owner method) :
    program.entryPoints = [(owner, method)] := by
  rw [entryPoints, h.methods_eq]
  simp [h.entryPoint, h.wellFormed]

/-- Scalar code allocates nothing. -/
theorem layout_size (h : program.IsScalar owner method) : program.layout.size = 0 := by
  have hnone : ∀ instruction ∈ method.instructions, instruction.localAllocation? = none := by
    intro instruction hmem
    have hscalar := h.scalar instruction hmem
    rw [Instruction.localAllocation?, if_neg]
    intro hopcode
    simp [Instruction.isScalar, hopcode] at hscalar
  have hallocations : program.localAllocations = [] := by
    rw [localAllocations, h.methods_eq]
    simpa using hnone
  rw [layout, heapLayout, hallocations]
  rfl

theorem mem_contexts_iff (h : program.IsScalar owner method) {env : Environment}
    {cx : StepContext} :
    cx ∈ program.contexts env ↔ ∃ index instruction,
      method.instructions[index]? = some instruction ∧
        cx = env.stepContext 0 owner method index instruction := by
  rw [contexts, h.methods_eq, List.flatMap_singleton, methodContexts, if_pos h.wellFormed,
    List.mem_iff_getElem?]
  constructor
  · rintro ⟨index, hindex⟩
    rw [List.getElem?_mapIdx] at hindex
    obtain ⟨instruction, hinstruction, rfl⟩ := Option.map_eq_some_iff.mp hindex
    exact ⟨index, instruction, hinstruction, rfl⟩
  · rintro ⟨index, instruction, hinstruction, rfl⟩
    exact ⟨index, by rw [List.getElem?_mapIdx, hinstruction]; rfl⟩

/-- The clauses of an instruction are those that realize it, without the vacuous ones. -/
theorem exists_realizes (h : program.IsScalar owner method) (hwidth : config.width ≤ wordBits)
    (labels : Labels) {index : Nat} {instruction : Instruction}
    (hinstruction : method.instructions[index]? = some instruction) :
    let cx := (program.environment config labels).stepContext 0 owner method index instruction
    ∃ clauses, cx.emission = .ofClauses clauses ∧ cx.Realizes clauses := by
  intro cx
  have hmem := List.mem_of_getElem? hinstruction
  have hcompiled : ∃ clauses, cx.compile = .ok (.ofClauses clauses) ∧ cx.Realizes clauses :=
    StepContext.realizes_compile hwidth (h.registers instruction hmem) (h.scalar instruction hmem)
  obtain ⟨clauses, hcompile, hrealizes⟩ := hcompiled
  refine ⟨clauses, ?_, hrealizes⟩
  rw [StepContext.emission, StepContext.compileOrSkip, hcompile]

/-! ## Soundness -/

/-- A fact at a position of the method is a frame that the machine reaches there. -/
def Reached (owner : Class) (method : Method) (w : Nat) (fact : Fact) : Prop :=
  ∀ pc, fact.relation = ProgramPoint.relationName ⟨owner.id, method.id, pc⟩ →
    ∃ frame : List (Register w), method.Reaches pc frame ∧
      fact = pointFact ⟨owner.id, method.id, pc⟩ (frameState frame)

theorem reached_of_fact (h : program.IsScalar owner method) (hwidth : config.width ≤ wordBits)
    {clause : Clause} (hclause : clause ∈ (program.environment config labels).factClauses program)
    {valuation : Valuation} (hadmits : valuation.Admits clause.vars) {fact : Fact}
    (hhead : clause.head.Denotes valuation fact) : Reached owner method config.width fact := by
  intro pc hname
  rcases Environment.factClause_cases hclause with ⟨relation, hglobal, hrelation⟩ |
    ⟨entry, hentry, rfl⟩
  · have hsame : relation = .point ⟨owner.id, method.id, pc⟩ :=
      Relation.name_injective (by rw [← hrelation, hhead.relation_eq, hname]; rfl)
    rw [hsame] at hglobal
    cases hglobal
  · rw [h.entryPoints_eq] at hentry
    cases List.mem_singleton.mp hentry
    obtain ⟨state, hstate, rfl⟩ := denotes_pointAtom_iff.mp hhead
    have hpoint := ProgramPoint.relationName_injective hname
    cases hpoint
    obtain ⟨frame, hframe, rfl⟩ :=
      (program.environment config labels).exists_starts h.wellFormed h.isStatic h.layout_size hwidth
        hadmits hstate
    exact ⟨frame, .start hframe, rfl⟩

theorem reached_of_emission (h : program.IsScalar owner method) (hwidth : config.width ≤ wordBits)
    {index : Nat} {instruction : Instruction}
    (hinstruction : method.instructions[index]? = some instruction) {clause : Clause}
    (hclause : clause ∈ ((program.environment config labels).stepContext 0 owner method index
      instruction).emission.clauses)
    {premises : Fact → Prop} (hpremises : ∀ premise, premises premise →
      Reached owner method config.width premise)
    {valuation : Valuation} (hbody : ∀ part ∈ clause.body, part.Holds premises valuation)
    {fact : Fact} (hhead : clause.head.Denotes valuation fact) :
    Reached owner method config.width fact := by
  intro pc hname
  obtain ⟨clauses, hemission, edges, exits, rfl, himplements, hexits⟩ :=
    h.exists_realizes hwidth labels hinstruction
  rw [hemission] at hclause
  rcases List.mem_append.mp (Emission.mem_of_mem_ofClauses hclause) with hedge | hexit
  · obtain ⟨edge, hmem, rfl⟩ := List.mem_map.mp hedge
    -- the frame before the instruction
    obtain ⟨premise, hpremise, hdenotes⟩ := Formula.holds_atom.mp (hbody _ List.mem_cons_self)
    obtain ⟨before, hbefore, rfl⟩ := denotes_pointAtom_iff.mp hdenotes
    obtain ⟨frame, hreaches, hfact⟩ := hpremises _ hpremise instruction.pc rfl
    have hlength : before.registers.length = (frameState frame).registers.length := by
      rw [hbefore.registers_length, StepContext.sorted_pre _ |>.registers_length, frameState,
        List.length_map, hreaches.length_eq h.wellFormed]
      rfl
    obtain ⟨-, rfl⟩ := pointFact_injective hlength hfact
    -- the frame after it
    obtain ⟨state, hstate, rfl⟩ := denotes_pointAtom_iff.mp hhead
    cases ProgramPoint.relationName_injective hname
    have hguards : ∀ guard ∈ edge.guards, guard.eval valuation = some true := by
      intro guard hguard
      have hholds := hbody guard (List.mem_cons_of_mem _ hguard)
      exact (Formula.holds_iff_eval guard (himplements.sorted edge hmem guard hguard).applications).mp
        hholds
    obtain ⟨after, rfl, hexecutes⟩ :=
      (himplements.executes_iff valuation frame hbefore edge.pc state).mpr
        ⟨edge, hmem, rfl, hguards, hstate⟩
    have hfollows := Method.follows_iff.mpr ⟨index, hinstruction, rfl⟩
    exact ⟨after, .step hreaches hfollows hexecutes, rfl⟩
  · -- an exit is no state of the method
    have hrelation := hexits clause hexit
    rw [hhead.relation_eq, hname] at hrelation
    have hsame : Relation.point ⟨owner.id, method.id, pc⟩ = .exit owner.id method.id :=
      Relation.name_injective hrelation
    cases hsame

theorem reached_of_derivable (h : program.IsScalar owner method) (hwidth : config.width ≤ wordBits)
    {fact : Fact} (hfact : Derivable (program.clauses (program.environment config labels)) fact) :
    Reached owner method config.width fact := by
  refine hfact.induct (motive := Reached owner method config.width) ?_
  intro clause hclause valuation fact hadmits hbody hhead
  rcases List.mem_append.mp hclause with hmem | hmem
  · exact h.reached_of_fact hwidth hmem hadmits hhead
  · obtain ⟨cx, hcx, hmem⟩ := List.mem_flatMap.mp hmem
    obtain ⟨index, instruction, hinstruction, rfl⟩ := h.mem_contexts_iff.mp hcx
    exact h.reached_of_emission hwidth hinstruction hmem (fun _ hpremise => hpremise.2) hbody hhead

/-! ## Completeness -/

section Completeness

variable (h : program.IsScalar owner method) (hwidth : config.width ≤ wordBits)
  (hrespected : ∀ clause ∈ program.clauses (program.environment config labels),
    Names.Respected config.width clause.vars)

include h hwidth hrespected

theorem derivable_start {frame : List (Register config.width)} (hframe : method.Starts frame) :
    Derivable (program.clauses (program.environment config labels))
      (pointFact ⟨owner.id, method.id, 0⟩ (frameState frame)) := by
  obtain ⟨arguments, hlength, hpublic, rfl⟩ := hframe
  -- the method is the only entry point of the program
  have hclause : (program.environment config labels).startClause owner method ∈
      program.clauses (program.environment config labels) := by
    refine List.mem_append_left _ (List.mem_append_right _ ?_)
    rw [h.entryPoints_eq]
    exact List.mem_singleton_self _
  refine derivable_models _ _ hclause
    (frameValuation (frameState (method.shape.entryFrame arguments)).registers) _
    (admits_frameValuation (value_lt_frameState hwidth _) (hrespected _ hclause)) ?_
    (denotes_pointAtom_iff.mpr ⟨_, Environment.denotes_startFrame h.wellFormed h.isStatic
      h.layout_size hlength ?_ _, rfl⟩)
  · -- a launcher starts without a launch
    intro part hpart
    simp [Environment.startClause, h.launcher] at hpart
  · intro i argument hargument
    obtain ⟨value, isGlobal, rfl⟩ := hpublic argument (List.mem_of_getElem? hargument)
    obtain ⟨hvalue, -, -, hglobal⟩ := Cell.eval_eq_some_iff.mp
      (eval_register_frameState (FrameShape.getElem?_entryFrame_of_argument h.wellFormed hlength hargument)
        config.width)
    exact ⟨value, isGlobal, rfl, hvalue, hglobal⟩

theorem derivable_step {instruction : Instruction} {next pc : UInt32}
    {frame after : List (Register config.width)} (hlength : frame.length = method.shape.slotCount)
    (hderivable : Derivable (program.clauses (program.environment config labels))
      (pointFact ⟨owner.id, method.id, instruction.pc⟩ (frameState frame)))
    (hnext : method.Follows instruction next) (hexecutes : instruction.Executes frame next pc after) :
    Derivable (program.clauses (program.environment config labels))
      (pointFact ⟨owner.id, method.id, pc⟩ (frameState after)) := by
  obtain ⟨index, hinstruction, rfl⟩ := Method.follows_iff.mp hnext
  obtain ⟨clauses, hemission, edges, exits, rfl, himplements, -⟩ :=
    h.exists_realizes hwidth labels hinstruction
  let cx := (program.environment config labels).stepContext 0 owner method index instruction
  have hbefore : cx.pre.Denotes (frameValuation (frameState frame).registers) (frameState frame) :=
    cx.denotes_pre h.layout_size hlength
  -- the edge that the machine takes
  obtain ⟨edge, hmem, rfl, hguards, hafter⟩ :=
    (himplements.executes_iff _ frame hbefore pc _).mp ⟨after, rfl, hexecutes⟩
  -- its clause is not dropped: the applied relation is undecided and the guards are true
  have hkept : (cx.edgeClause edge).isVacuous = false := by
    refine Clause.isVacuous_eq_false (frameValuation (frameState frame).registers)
      (List.forall_mem_cons.mpr ⟨?_, fun guard hguard => ?_⟩)
    · rw [Atom.toFormula, Formula.eval]
      decide
    · rw [hguards guard hguard]
      decide
  have hclause : cx.edgeClause edge ∈ program.clauses (program.environment config labels) := by
    refine List.mem_append_right _ (List.mem_flatMap.mpr
      ⟨cx, h.mem_contexts_iff.mpr ⟨index, instruction, hinstruction, rfl⟩, ?_⟩)
    rw [hemission]
    exact List.mem_filter.mpr
      ⟨List.mem_append_left _ (List.mem_map_of_mem hmem), by rw [hkept]; rfl⟩
  refine derivable_models _ _ hclause _ _
    (admits_frameValuation (value_lt_frameState hwidth frame) (hrespected _ hclause))
    (List.forall_mem_cons.mpr ⟨?_, fun guard hguard => ?_⟩)
    (denotes_pointAtom_iff.mpr ⟨_, hafter, rfl⟩)
  · exact Formula.holds_atom.mpr ⟨_, hderivable, denotes_pointAtom_iff.mpr ⟨_, hbefore, rfl⟩⟩
  · exact (Formula.holds_iff_eval guard
      (himplements.sorted edge hmem guard hguard).applications).mpr (hguards guard hguard)

theorem derivable_of_reaches {pc : UInt32} {frame : List (Register config.width)}
    (hreaches : method.Reaches pc frame) :
    Derivable (program.clauses (program.environment config labels))
      (pointFact ⟨owner.id, method.id, pc⟩ (frameState frame)) := by
  induction hreaches with
  | start hframe => exact h.derivable_start hwidth hrespected hframe
  | step hreaches hnext hexecutes ih =>
      exact h.derivable_step hwidth hrespected (hreaches.length_eq h.wellFormed) ih hnext hexecutes

end Completeness

end IsScalar

/-- A method that adds up the numbers from its argument down to one. -/
def summingMethod : Method where
  name := "sum(I)I"
  numRegisters := 2
  numArguments := 1
  isStatic := true
  entryPoint := true
  instructions :=
    [{ pc := 0, mnemonic := "const/4", registers := [0], literal := some 0 },
      { pc := 1, mnemonic := "if-eqz", registers := [1], target := some 6 },
      { pc := 3, mnemonic := "add-int/2addr", registers := [0, 1] },
      { pc := 4, mnemonic := "add-int/lit8", registers := [1, 1], literal := some (-1) },
      { pc := 6, mnemonic := "goto", target := some (-5) },
      { pc := 7, mnemonic := "return", registers := [0] }]

def summingClass : Class where
  name := "La;"
  methods := [summingMethod]
  launcher := true

end Program

end DalvikHorn
