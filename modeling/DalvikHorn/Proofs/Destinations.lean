import DalvikHorn.Proofs.AllocationSites
import DalvikHorn.Proofs.Bystanders
import DalvikHorn.Proofs.KeptInstructions
import DalvikHorn.Proofs.Successors

/-!
# Destinations

An instruction that writes its first operand is compiled against all slots of the frame:
the registers, the return slot and the copies of the arguments.  A destination behind the
last slot is no destination, and the instruction goes on with the state as it is.  Every
other destination is written, whichever part of the frame it is in, so an operand that is
no register of the method reaches the return slot or an argument copy.  No other slot is
written along with it.

## Strategy

* **States.**  A state spares all slots but `d` (`StepContext.Spares`) when it starts from
  the state before the instruction, has its references moved to the global heap at most,
  and only has slot `d` set.  It delivers to `d` (`Delivers`) when `d` then holds a result.
* **Handlers.**  A handler that succeeds has found `d` in the frame, has a clause that
  delivers to `d`, and goes on in the method in no other way (`Overwrites`).  This is
  followed along each handler once.
* **Failures.**  For a destination outside the frame no handler succeeds, and no error of
  theirs ends the run, because every allocation of a program has a site.
-/

namespace DalvikHorn.StepContext

/-! ## What a destination holds -/

/-- The cells that an instruction may leave in its destination: the register or the return slot
that it copies, or a cell for which it is settled whether it refers to the local heap. -/
inductive Result (cx : StepContext) : Cell → Prop
  | copy {source : UInt32} (hopcode : cx.instruction.opcode = .move)
      (hsource : cx.instruction.registers[1]? = some source) :
      Result cx (.register source.toNat cx.width)
  | returned (hopcode : cx.instruction.opcode = .moveResult) :
      Result cx (.register cx.shape.returnSlot cx.width)
  | nonLocal {cell : Cell} (hcell : cell.isLocal = .ff) : Result cx cell
  | allocated (id : BvExpr) : Result cx (.localRef id)

/-- A state in which all slots but one are as they were, apart from references that have moved to
the global heap.  The argument copies among them are untouched. -/
structure Spares (cx : StepContext) (d : Nat) (post : State) : Prop where
  length_eq : post.registers.length = cx.shape.slotCount
  others : ∀ r < cx.shape.slotCount, r ≠ d →
    ∃ cell, post.registers[r]? = some cell ∧ KeepsRegister cx.width r cell
  copies : ∀ r < cx.shape.slotCount, cx.shape.numRegisters < r → r ≠ d →
    post.registers[r]? = some (.register r cx.width)

/-- A state that spares all slots but one, which holds a result. -/
structure Delivers (cx : StepContext) (d : Nat) (post : State) : Prop extends
    Spares cx d post where
  result : ∃ cell, post.registers[d]? = some cell ∧ cx.Result cell

/-- A clause that goes on in the method, if it does, with a result in a slot. -/
def Confined (cx : StepContext) (d : Nat) (clause : Clause) : Prop :=
  ∀ pc, clause.head.relation = (cx.pointAt pc).relationName →
    cx.Enters clause ∨ ∃ guards post, clause = cx.step guards post ∧ cx.Delivers d post

/-- Clauses that write a slot of the frame: one of them does whatever the state before is, and
none goes on in the method without. -/
structure Overwrites (cx : StepContext) (d : Nat) (clauses : List Clause) : Prop where
  written : ∃ guards post, Undecided guards ∧ cx.step guards post ∈ clauses ∧ cx.Delivers d post
  confined : ∀ clause ∈ clauses, cx.Confined d clause

variable {cx : StepContext} {d : Nat}

/-! ## States -/

theorem spares_mapRegisters {change : Nat → Cell → Cell}
    (hchange : ∀ r, KeepsRegister cx.width r (change r (.register r cx.width))) :
    cx.Spares d (cx.pre.mapRegisters (cx.shape.numRegisters + 1) change) where
  length_eq := by simp [State.mapRegisters, cx.sorted_pre.registers_length]
  others := by
    intro r hr _
    rw [State.getElem?_mapRegisters, getElem?_pre hr, Option.map_some]
    refine ⟨_, rfl, ?_⟩
    split
    · exact hchange r
    · exact keepsRegister_register _ _
  copies := by
    intro r hr hcopy _
    rw [State.getElem?_mapRegisters, getElem?_pre hr, Option.map_some, if_neg (by omega)]

theorem spares_pre : cx.Spares d cx.pre where
  length_eq := cx.sorted_pre.registers_length
  others := fun _ hr _ => ⟨_, getElem?_pre hr, keepsRegister_register _ _⟩
  copies := fun _ hr _ _ => getElem?_pre hr

theorem Spares.of_registers_eq {post other : State} (h : cx.Spares d post)
    (heq : other.registers = post.registers) : cx.Spares d other :=
  ⟨heq ▸ h.length_eq, heq ▸ h.others, heq ▸ h.copies⟩

theorem spares_promote : cx.Spares d (cx.pre.promote cx.layout cx.width cx.shape.numRegisters) :=
  (spares_mapRegisters fun r => keepsRegister_promote cx.width r).of_registers_eq rfl

theorem Spares.set {state : State} (h : cx.Spares d state) {cell : Cell} (hcell : cx.Result cell) :
    Ensures (state.set d cell) (cx.Delivers d) := by
  intro post hpost
  obtain ⟨hlt, rfl⟩ := (State.set_yields state d cell).result post hpost
  refine ⟨⟨?_, fun r hr hne => ?_, fun r hr hcopy hne => ?_⟩, cell, ?_, hcell⟩
  · rw [List.length_set, h.length_eq]
  · rw [List.getElem?_set_ne hne.symm]
    exact h.others r hr hne
  · rw [List.getElem?_set_ne hne.symm]
    exact h.copies r hr hcopy hne
  · exact List.getElem?_set_self hlt

/-- Results are delivered inside the frame. -/
theorem Delivers.inFrame {post : State} (h : cx.Delivers d post) : d < cx.shape.slotCount := by
  obtain ⟨cell, hcell, -⟩ := h.result
  rw [← h.length_eq]
  exact (List.getElem?_eq_some_iff.mp hcell).1

theorem Delivers.of_registers_eq {post other : State} (h : cx.Delivers d post)
    (heq : other.registers = post.registers) : cx.Delivers d other :=
  ⟨h.toSpares.of_registers_eq heq, heq ▸ h.result⟩

/-! ## Clauses -/

theorem confined_of_relation {clause : Clause} (relation : Relation)
    (hname : clause.head.relation = relation.name) (hpoint : ∀ point, relation ≠ .point point) :
    cx.Confined d clause :=
  fun _ hhead => absurd (hname.symm.trans hhead) (Relation.name_ne_point hpoint _)

theorem confined_object {guards : List Formula} {classKey id field value : BvExpr}
    {high blocked : Formula} :
    cx.Confined d (cx.derive guards (GlobalHeap.object classKey id field value high blocked)) :=
  confined_of_relation .object rfl nofun

theorem confined_step {guards : List Formula} {post : State} (h : cx.Delivers d post) :
    cx.Confined d (cx.step guards post) :=
  fun _ _ => .inr ⟨guards, post, rfl, h⟩

theorem Overwrites.inFrame {clauses : List Clause} (h : cx.Overwrites d clauses) :
    d < cx.shape.slotCount := by
  obtain ⟨guards, post, -, -, hpost⟩ := h.written
  exact hpost.inFrame

theorem overwrites_step {guards : List Formula} {post : State} (hguards : Undecided guards)
    (h : cx.Delivers d post) : cx.Overwrites d [cx.step guards post] where
  written := ⟨guards, post, hguards, List.mem_singleton_self _, h⟩
  confined := List.forall_mem_singleton.mpr (confined_step h)

/-- Facts may stand around the clauses that write. -/
theorem Overwrites.mono {clauses all : List Clause} (h : cx.Overwrites d clauses)
    (hsub : ∀ clause ∈ clauses, clause ∈ all) (hall : ∀ clause ∈ all, cx.Confined d clause) :
    cx.Overwrites d all := by
  obtain ⟨guards, post, hguards, hmem, hpost⟩ := h.written
  exact ⟨⟨guards, post, hguards, hsub _ hmem, hpost⟩, hall⟩

theorem Overwrites.append {clauses after : List Clause} (h : cx.Overwrites d clauses)
    (hafter : ∀ clause ∈ after, cx.Confined d clause) : cx.Overwrites d (clauses ++ after) :=
  h.mono (fun _ => List.mem_append_left _) (List.forall_mem_append.mpr ⟨h.confined, hafter⟩)

theorem Overwrites.cons {clause : Clause} {clauses : List Clause} (h : cx.Overwrites d clauses)
    (hclause : cx.Confined d clause) : cx.Overwrites d (clause :: clauses) :=
  h.mono (fun _ => List.mem_cons_of_mem _) (List.forall_mem_cons.mpr ⟨hclause, h.confined⟩)

/-- A clause that is always open is not dropped. -/
theorem Overwrites.ofClauses {clauses : List Clause} (h : cx.Overwrites d clauses) :
    cx.Overwrites d (Emission.ofClauses clauses).clauses := by
  obtain ⟨guards, post, hguards, hmem, hpost⟩ := h.written
  have hkept : (cx.step guards post).isVacuous = false := isVacuous_derive hguards _
  refine ⟨⟨guards, post, hguards, List.mem_filter.mpr ⟨hmem, ?_⟩, hpost⟩, ?_⟩
  · rw [hkept, Bool.not_false]
  · exact fun clause hclause => h.confined clause (Emission.mem_of_mem_ofClauses hclause)

/-- What is on the local heap leaves facts about objects. -/
theorem confined_flushSite (guards : List Formula) (site : AllocationSite) :
    Ensures (flushSite cx.width site (cx.body guards) cx.pre) fun facts =>
      ∀ fact ∈ facts, cx.Confined d fact := by
  refine .skip fun header => ?_
  have hfact : ∀ {classKey id field value : BvExpr} {high blocked : Formula},
      cx.Confined d (cx.derive (guards ++ [header.free.negate])
        (GlobalHeap.object classKey id field value high blocked)) := confined_object
  dsimp only
  split
  · refine fun facts hfacts => (Ensures.mapM ?_ facts hfacts).2
    rintro ⟨⟨field, primitive⟩, k⟩ -
    exact .skip fun slot => .pure hfact
  · exact .pure (List.forall_mem_singleton.mpr hfact)

/-- A lift starts from the state in which all references have moved. -/
theorem confined_liftIfAnyLocal {cells : List Cell} {guards : List Formula}
    {update : State → Except Error State}
    (hupdate : Ensures (update (cx.pre.promote cx.layout cx.width cx.shape.numRegisters))
      (cx.Delivers d)) :
    Ensures (cx.liftIfAnyLocal cells guards update) fun clauses =>
      ∀ clause ∈ clauses, cx.Confined d clause := by
  unfold liftIfAnyLocal
  dsimp only
  split
  · exact .ok nofun
  · have hflushed (guards : List Formula) :
        Ensures (flushAll cx.layout cx.width (cx.body guards) cx.pre) fun facts =>
          ∀ fact ∈ facts, cx.Confined d fact :=
      .bind (.mapM_flatten fun site _ => confined_flushSite guards site) fun _ hfacts =>
        .pure hfacts
    refine .bind (hflushed _) fun facts hfacts => .bind hupdate fun post hpost => .pure ?_
    exact List.forall_mem_append.mpr
      ⟨hfacts, List.forall_mem_singleton.mpr (confined_step hpost)⟩

/-! ## Handlers -/

theorem ensures_named (index : Nat) :
    Ensures (cx.instruction.register index) (cx.instruction.registers[index]? = some ·) := by
  unfold Instruction.register
  split
  · exact .ok (by assumption)
  · exact .error

section Handlers

variable {destination : UInt32} (hdestination : cx.instruction.registers[0]? = some destination)

/-- A handler that succeeds writes its destination. -/
def Delivered (cx : StepContext) (destination : UInt32) (outcome : Except Error (List Clause)) :
    Prop :=
  Ensures outcome (cx.Overwrites destination.toNat)

theorem delivered_assign {guards : List Formula} {cell : Cell} (hguards : Undecided guards)
    (hcell : cx.Result cell) :
    cx.Delivered destination (cx.assign destination guards cell) :=
  .bind (spares_pre.set hcell) fun _ hpost => .pure (overwrites_step hguards hpost)

theorem confined_assign {guards : List Formula} {cell : Cell} (hcell : cx.Result cell) :
    Ensures (cx.assign destination guards cell) fun clauses =>
      ∀ clause ∈ clauses, cx.Confined destination.toNat clause :=
  .bind (spares_pre.set hcell) fun _ hpost =>
    .pure (List.forall_mem_singleton.mpr (confined_step hpost))

include hdestination

theorem ensures_destination : Ensures (cx.instruction.register 0) (destination = ·) :=
  fun _ hother => Option.some.inj (hdestination.symm.trans (ensures_named 0 _ hother))

/-- A handler reads its destination first. -/
theorem delivered_bind {next : UInt32 → Except Error (List Clause)}
    (h : cx.Delivered destination (next destination)) :
    cx.Delivered destination (cx.instruction.register 0 >>= next) := by
  refine .bind (ensures_destination hdestination) ?_
  rintro _ rfl
  exact h

theorem delivered_compileMove (hopcode : cx.instruction.opcode = .move) :
    cx.Delivered destination cx.compileMove := by
  apply delivered_bind hdestination
  have hcopied : Ensures (cx.operand 1) cx.Result := by
    refine .bind (ensures_named 1) fun source hsource cell hcell => ?_
    obtain ⟨-, rfl⟩ := ensures_register_eq source cell hcell
    exact .copy hopcode hsource
  exact .bind hcopied fun cell hcell => delivered_assign undecided_nil hcell

theorem delivered_compileMoveResult (hopcode : cx.instruction.opcode = .moveResult) :
    cx.Delivered destination cx.compileMoveResult := by
  apply delivered_bind hdestination
  refine .bind .self fun cell hcell => delivered_assign undecided_nil ?_
  obtain ⟨-, rfl⟩ := eq_register_of_pre ((State.register_yields _ _).result cell hcell)
  exact .returned hopcode

theorem delivered_compileConst (kind : ConstKind) :
    cx.Delivered destination (cx.compileConst kind) := by
  apply delivered_bind hdestination
  have hassign : ∀ value : BvExpr,
      cx.Delivered destination (cx.assign destination [] (.scalar value .ff)) :=
    fun value => delivered_assign undecided_nil (.nonLocal rfl)
  cases kind with
  | literal => exact .skip fun _ => .skip hassign
  | string => exact .skip fun _ => .skip hassign
  | class_ => exact .skip fun _ => .skip hassign

theorem delivered_compileUnary (op : UnaryOp) :
    cx.Delivered destination (cx.compileUnary op) := by
  apply delivered_bind hdestination
  exact .skip fun source => delivered_assign undecided_nil (.nonLocal rfl)

theorem delivered_compileBinary (op : BinaryOp) (form : OperandForm) :
    cx.Delivered destination (cx.compileBinary op form) := by
  apply delivered_bind hdestination
  have hassign : ∀ result : Cell, result.isLocal = .ff →
      cx.Delivered destination (cx.assign destination [] result) :=
    fun result hresult => delivered_assign undecided_nil (.nonLocal hresult)
  have hscalar : ∀ (value : BvExpr) (high : Formula),
      Ensures (pure (.scalar value high)) fun result : Cell => result.isLocal = .ff :=
    fun _ _ => .pure rfl
  cases form with
  | three => exact .skip fun _ => .skip fun _ => .bind (hscalar _ _) hassign
  | twoAddress => exact .skip fun _ => .skip fun _ => .bind (hscalar _ _) hassign
  | literal => exact .skip fun _ => .skip fun _ => .bind (hscalar _ _) hassign

theorem delivered_compileCompare : cx.Delivered destination cx.compileCompare := by
  apply delivered_bind hdestination
  exact .skip fun _ => .skip fun _ => delivered_assign undecided_nil (.nonLocal rfl)

theorem delivered_compileInstanceOf : cx.Delivered destination cx.compileInstanceOf := by
  apply delivered_bind hdestination
  refine .bind (delivered_assign undecided_nil (.nonLocal rfl)) fun no hno => ?_
  exact .bind (confined_assign (.nonLocal rfl)) fun yes hyes => .pure (hno.append hyes)

theorem delivered_compileArrayLength : cx.Delivered destination cx.compileArrayLength := by
  apply delivered_bind hdestination
  exact delivered_assign undecided_nil (.nonLocal rfl)

theorem delivered_compileNewArray : cx.Delivered destination cx.compileNewArray := by
  apply delivered_bind hdestination
  refine .skip fun size => .skip fun reference => ?_
  refine .bind (delivered_assign undecided_nil (.nonLocal rfl)) fun steps hsteps => .pure ?_
  apply hsteps.cons
  dsimp only
  split
  · exact confined_object
  · exact confined_object

theorem delivered_compileArrayGet : cx.Delivered destination cx.compileArrayGet := by
  apply delivered_bind hdestination
  exact .skip fun _ => .skip fun _ => delivered_assign (undecided_atom _) (.nonLocal rfl)

/-- What is loaded from the local heap is no local reference either. -/
theorem delivered_compileInstanceGet : cx.Delivered destination cx.compileInstanceGet := by
  apply delivered_bind hdestination
  refine .skip fun object => .skip fun reference => ?_
  refine .bind (delivered_assign (undecided_atom _) (.nonLocal rfl)) fun fromGlobal hglobal => ?_
  refine .bind (.mapM_flatten ?_) fun fromLocal hlocal => .pure (hglobal.append hlocal)
  rintro ⟨site, k⟩ -
  exact .skip fun slot => confined_assign (.nonLocal rfl)

theorem delivered_compileStaticGet : cx.Delivered destination cx.compileStaticGet := by
  apply delivered_bind hdestination
  refine .skip fun reference => ?_
  refine .bind (delivered_assign undecided_nil (.nonLocal rfl)) fun unset hunset => ?_
  exact .bind (confined_assign (.nonLocal rfl)) fun loaded hloaded => .pure (hunset.append hloaded)

/-- Whether an instruction allocates an intent, for which there is nothing to do. -/
def AllocatesIntent (cx : StepContext) : Prop :=
  cx.instruction.opcode = .newInstance ∧ cx.instruction.reference = some intentClass

theorem delivered_compileNewInstance (hopcode : cx.instruction.opcode = .newInstance) :
    Ensures cx.compileNewInstance fun clauses =>
      cx.AllocatesIntent ∧ clauses = [cx.identity] ∨ cx.Overwrites destination.toNat clauses := by
  refine .bind Instruction.getReference_yields.result fun typeName hreference => ?_
  dsimp only
  split
  · rename_i hintent
    exact .pure (.inl ⟨⟨hopcode, hintent ▸ hreference⟩, rfl⟩)
  refine .bind (ensures_destination hdestination) ?_
  rintro _ rfl
  split
  · exact .error
  rename_i site hsite
  -- the step and the lift allocate alike, the one after a release and the other after a promotion
  have hallocate : ∀ state, cx.Spares destination.toNat state → Ensures
      (do
        let assigned ← state.set destination.toNat (.localRef (cx.idLiteral cx.allocation))
        assigned.clearSite cx.width site) (cx.Delivers destination.toNat) := by
    intro state hstate
    refine .bind (hstate.set (.allocated _)) fun assigned hassigned post hpost => ?_
    have hcleared := (State.clearSite_yields cx.width site assigned).result post hpost
    exact hassigned.of_registers_eq hcleared.registers_eq
  have hreleased : cx.Spares destination.toNat
      (cx.pre.mapRegisters (cx.shape.numRegisters + 1) fun _ cell =>
        cell.release (cx.idLiteral cx.allocation)) :=
    spares_mapRegisters fun r => keepsRegister_release cx.width r _
  refine .bind (hallocate _ hreleased) fun plain hplain => .skip fun header => ?_
  refine .bind (confined_flushSite (d := destination.toNat) [] site) fun flushed hflushed => ?_
  refine .skip fun fields => ?_
  refine .bind (confined_liftIfAnyLocal (hallocate _ spares_promote)) fun lifted hlifted =>
    .pure (.inr ?_)
  have hstep := overwrites_step undecided_nil hplain
  exact ((hstep.append hflushed).append hlifted).append fun clause hclause pc _ =>
    .inl (.initializer hopcode hreference hclause)

/-! ## Instructions -/

variable (hwrites : cx.instruction.opcode.writesOperand = true)

include hwrites

/-- What is compiled writes the destination, unless it allocates an intent. -/
theorem overwrites_compile :
    Ensures cx.compile fun emission => cx.AllocatesIntent ∧ emission = .ofClauses [cx.identity] ∨
      cx.Overwrites destination.toNat emission.clauses := by
  have hsteps : ∀ {outcome : Except Error (List Clause)}, cx.Delivered destination outcome →
      Ensures (outcome.map Emission.ofClauses) fun emission =>
        cx.AllocatesIntent ∧ emission = .ofClauses [cx.identity] ∨
          cx.Overwrites destination.toNat emission.clauses :=
    fun houtcome => .map houtcome fun clauses hclauses => .inr hclauses.ofClauses
  unfold compile
  dsimp only
  cases hopcode : cx.instruction.opcode with
  | move => exact hsteps (delivered_compileMove hdestination hopcode)
  | moveResult => exact hsteps (delivered_compileMoveResult hdestination hopcode)
  | const kind => exact hsteps (delivered_compileConst hdestination kind)
  | instanceOf => exact hsteps (delivered_compileInstanceOf hdestination)
  | arrayLength => exact hsteps (delivered_compileArrayLength hdestination)
  | newArray => exact hsteps (delivered_compileNewArray hdestination)
  | compare => exact hsteps (delivered_compileCompare hdestination)
  | arrayGet => exact hsteps (delivered_compileArrayGet hdestination)
  | instanceGet => exact hsteps (delivered_compileInstanceGet hdestination)
  | staticGet => exact hsteps (delivered_compileStaticGet hdestination)
  | unary op => exact hsteps (delivered_compileUnary hdestination op)
  | binary op form => exact hsteps (delivered_compileBinary hdestination op form)
  | newInstance =>
      -- an intent is allocated by its constructor, and the instruction does nothing
      refine .map (delivered_compileNewInstance hdestination hopcode) fun clauses hclauses => ?_
      rcases hclauses with ⟨hintent, rfl⟩ | hoverwrites
      · exact .inl ⟨hintent, rfl⟩
      · exact .inr hoverwrites.ofClauses
  | _ =>
      rw [hopcode] at hwrites
      exact absurd hwrites Bool.false_ne_true

end Handlers

/-- What an instruction does to its destination. -/
structure Settles (cx : StepContext) (d : Nat) (emission : Emission) : Prop where
  /-- Nothing is behind the last slot, and the instruction goes on with the state as it is. -/
  outside : cx.shape.slotCount ≤ d → emission = .ofClauses [cx.identity]
  /-- In the frame there is nothing else to do either, or the slot is overwritten. -/
  inside : emission = .ofClauses [cx.identity] ∨ cx.Overwrites d emission.clauses
  /-- An instruction that can be compiled overwrites the slot, wherever it is. -/
  compiled : ∀ compiled, cx.compile = .ok compiled → ¬ cx.AllocatesIntent →
    cx.Overwrites d emission.clauses

theorem settles_compileOrSkip {destination : UInt32}
    (hdestination : cx.instruction.registers[0]? = some destination)
    (hwrites : cx.instruction.opcode.writesOperand = true) {emission : Emission}
    (hemission : cx.compileOrSkip = .ok emission) : cx.Settles destination.toNat emission := by
  have hcompiled := overwrites_compile hdestination hwrites
  have hinside : emission = .ofClauses [cx.identity] ∨
      cx.Overwrites destination.toNat emission.clauses := by
    unfold compileOrSkip at hemission
    split at hemission
    · rename_i hcompile
      cases hemission
      exact (hcompiled _ hcompile).imp_left And.right
    · split at hemission
      · cases hemission
      · cases hemission
        exact .inl rfl
  refine ⟨fun houtside => ?_, hinside, fun compiled hcompile hintent => ?_⟩
  · exact hinside.resolve_right fun hoverwrites => absurd hoverwrites.inFrame (by omega)
  · rw [compileOrSkip, hcompile] at hemission
    obtain rfl : compiled = emission := Except.ok.inj hemission
    exact (hcompiled compiled hcompile).resolve_left fun hallocates => hintent hallocates.1

end DalvikHorn.StepContext

namespace DalvikHorn.Program

variable {program : Program}

/-! ## Methods -/

/-- In every method whose arguments fit, an instruction that writes its first operand goes on with
the state as it is when this operand lies behind the frame.  Otherwise it overwrites the slot that
the operand names and no other, and the return slot and the argument copies are slots like all
others. -/
theorem destinations_are_slots (config : Config) (labels : Labels) (requests : Nat) {owner : Class}
    {method : Method} (hmem : (owner, method) ∈ program.methods)
    (hshape : method.shape.WellFormed) :
    ∃ contributions : List Emission,
      (program.environment config labels).compileMethod requests owner method =
        .ok (.join contributions) ∧
      contributions.length = method.instructions.length ∧
      ∀ index instruction emission destination, method.instructions[index]? = some instruction →
        contributions[index]? = some emission → instruction.opcode.writesOperand = true →
        instruction.registers[0]? = some destination →
        ((program.environment config labels).stepContext requests owner method index
          instruction).Settles destination.toNat emission := by
  obtain ⟨contributions, hcompile, hlength, hparts⟩ :=
    exists_contributions config labels requests hmem hshape
  refine ⟨contributions, hcompile, hlength, ?_⟩
  intro index instruction emission destination hinstruction hemission hwrites hdestination
  obtain ⟨-, hpart⟩ := hparts index instruction emission hinstruction hemission
  exact StepContext.settles_compileOrSkip hdestination hwrites hpart

/-- A constant for slot `r` of a frame. -/
def loading (r : UInt32) : Instruction where
  pc := 0
  mnemonic := "const/4"
  registers := [r]
  literal := some 7

/-- A method with one register and one argument that loads a constant behind its register. -/
def forgetfulMethod (r : UInt32) : Method where
  name := "f(I)V"
  numRegisters := 1
  numArguments := 1
  isStatic := true
  instructions := [loading r, { pc := 1, mnemonic := "return-void" }]

def forgetfulClass (r : UInt32) : Class where
  name := "La;"
  methods := [forgetfulMethod r]

def forgetful (r : UInt32) : Program where
  classes := [forgetfulClass r]

def forgetfulContext (r : UInt32) : StepContext :=
  ((forgetful r).environment sampleConfig {}).stepContext 0 (forgetfulClass r) (forgetfulMethod r) 0
    (loading r)

/-- Nothing is loaded behind the frame. -/
theorem destinations_are_slots_forgetful :
    (forgetfulClass 3, forgetfulMethod 3) ∈ (forgetful 3).methods ∧
      (forgetfulMethod 3).shape.WellFormed ∧ (forgetfulMethod 3).shape.slotCount = 3 ∧
      ∃ contributions : List Emission,
        ((forgetful 3).environment sampleConfig {}).compileMethod 0 (forgetfulClass 3)
          (forgetfulMethod 3) = .ok (.join contributions) ∧
        contributions[0]? = some (.ofClauses [(forgetfulContext 3).identity]) := by
  have hmem : (forgetfulClass 3, forgetfulMethod 3) ∈ (forgetful 3).methods :=
    List.mem_singleton_self _
  have hshape : (forgetfulMethod 3).shape.WellFormed := by decide
  obtain ⟨contributions, hcompile, hlength, hsettles⟩ :=
    destinations_are_slots sampleConfig {} 0 hmem hshape
  have hlength : contributions.length = 2 := hlength
  have hfirst := List.getElem?_eq_getElem (l := contributions) (i := 0) (by omega)
  have hloads := hsettles 0 (loading 3) _ 3 rfl hfirst (by decide +kernel) rfl
  exact ⟨hmem, hshape, rfl, contributions, hcompile, hloads.outside (by decide) ▸ hfirst⟩

/-- A state in which the argument, and with it its copy, is a secret. -/
def forgetfulState : StateValue where
  registers := [⟨5, true, false, false⟩, ⟨0, false, false, false⟩, ⟨5, true, false, false⟩]
  heap := []

/-- The instruction goes on with a public constant in the copy of the argument. -/
theorem argument_copy_is_overwritten :
    (forgetfulClass 2, forgetfulMethod 2) ∈ (forgetful 2).methods ∧
      (forgetfulMethod 2).shape.WellFormed ∧ (forgetfulMethod 2).shape.argumentCopy 0 = 2 ∧
      ∃ contributions clause env after,
        ((forgetful 2).environment sampleConfig {}).compileMethod 0 (forgetfulClass 2)
          (forgetfulMethod 2) = .ok (.join contributions) ∧
        contributions[0]? = some (.ofClauses [clause]) ∧
        clause ≠ (forgetfulContext 2).identity ∧ env.Complete (forgetfulContext 2).width ∧
        (forgetfulContext 2).pre.Denotes env forgetfulState ∧ clause.Enabled env ∧
        clause.head.Denotes env (pointFact ((forgetfulContext 2).pointAt 1) after) ∧
        forgetfulState.registers[2]? = some ⟨5, true, false, false⟩ ∧
        after.registers[2]? = some ⟨7, false, false, false⟩ := by
  have hmem : (forgetfulClass 2, forgetfulMethod 2) ∈ (forgetful 2).methods :=
    List.mem_singleton_self _
  have hshape : (forgetfulMethod 2).shape.WellFormed := by decide
  have hfits : (forgetfulContext 2).Fits forgetfulState :=
    ⟨rfl, by decide +kernel, by decide +kernel, by decide +kernel⟩
  obtain ⟨env, hcomplete, hpre, -⟩ := hfits.exists_complete (valueCount_pos _) false
  -- the constant is the value that overwrites the copy
  have hconstant : (Cell.scalar ((forgetfulContext 2).literal (7 : Int64).toInt) .ff).eval env =
      some ⟨7, false, false, false⟩ := rfl
  obtain ⟨post, hset, hpost⟩ := hpre.set (r := 2) (by decide) hconstant
  have hhandler : (forgetfulContext 2).compileConst .literal =
      .ok [(forgetfulContext 2).step [] post] := by
    show (do return [(forgetfulContext 2).step [] (← (forgetfulContext 2).pre.set 2 _)]) = _
    rw [hset]
    rfl
  have hopcode : (forgetfulContext 2).instruction.opcode = .const .literal := by decide +kernel
  have hcompile : (forgetfulContext 2).compileOrSkip =
      .ok (.ofClauses [(forgetfulContext 2).step [] post]) := by
    rw [StepContext.compileOrSkip, StepContext.compile, hopcode]
    dsimp only
    rw [hhandler]
    rfl
  -- no instruction of the method is skipped with an error
  have hstep : ∀ cx ∈ methodContexts ((forgetful 2).environment sampleConfig {}) (forgetfulClass 2)
      (forgetfulMethod 2), cx.compileOrSkip = .ok cx.emission :=
    fun cx hcx => (hasStep_of_mem_methodContexts hmem hcx).compileOrSkip_eq.1
  have hemission : (forgetfulContext 2).emission =
      .ofClauses [(forgetfulContext 2).step [] post] :=
    Except.ok.inj ((hstep _ List.mem_cons_self).symm.trans hcompile)
  refine ⟨hmem, hshape, rfl, _, (forgetfulContext 2).step [] post, env,
    { forgetfulState with registers := forgetfulState.registers.set 2 ⟨7, false, false, false⟩ },
    Environment.compileMethod_eq (fun _ => rfl) hshape hstep 0, ?_, ?_, hcomplete, hpre,
    (StepContext.enabled_derive_iff (by simp)).mpr (by simp), ?_, rfl, rfl⟩
  · exact congrArg some hemission
  · obtain ⟨-, rfl⟩ := (State.set_yields _ _ _).result post hset
    intro heq
    cases congrArg (·.head.args[2]?) heq
  · exact denotes_pointAtom_iff.mpr ⟨_, hpost, rfl⟩

end DalvikHorn.Program
