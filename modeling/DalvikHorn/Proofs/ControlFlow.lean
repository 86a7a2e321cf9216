import DalvikHorn.Proofs.DispatchTargets

/-!
# The control flow of instructions

An instruction is not lost: whatever it is, and whether or not it can be compiled, one of
its clauses is kept.  Every clause starts at the instruction, and a clause that goes on in
the same method goes to the next instruction, to the target of a branch, to a case of a
switch, or to the start of a method that the instruction enters.  This file shows it for the
handlers of all instructions but calls.

## Strategy

* **Heads.**  `Routed` says where a clause may lead, and with `Successor` and `Invokes` why.
* **Guards.**  A clause is dropped when its guards fold to `false`.  That cannot happen to
  guards that are undecided before anything is known (`Undecided`), so it is enough that
  every handler has a clause with such guards: a comparison of a register, a fact of the
  heap, or no guard at all.
* **Handlers.**  Both are said about a list of clauses by `Continues`.  A handler is
  followed along its `do` block; what its operands are matters only where they are
  compared, so most steps are passed over (`Ensures.skip`).
-/

namespace DalvikHorn

/-! ## Results of computations -/

variable {α β : Type}

/-- Every result of a computation has a property. -/
def Ensures (outcome : Except Error α) (property : α → Prop) : Prop :=
  ∀ result, outcome = .ok result → property result

namespace Ensures

variable {property : α → Prop} {outcome : Except Error α} {after : β → Prop}
  {next : α → Except Error β}

theorem ok {result : α} (h : property result) : Ensures (.ok result) property := by
  rintro other ⟨⟩
  exact h

theorem pure {result : α} (h : property result) :
    Ensures (Pure.pure result : Except Error α) property :=
  ok h

theorem error {cause : Error} : Ensures (.error cause : Except Error α) property := by
  rintro other ⟨⟩

theorem self : Ensures outcome (outcome = .ok ·) :=
  fun _ hresult => hresult

theorem bind (h : Ensures outcome property)
    (hnext : ∀ result, property result → Ensures (next result) after) :
    Ensures (outcome >>= next) after := by
  intro result hresult
  obtain ⟨first, hfirst, hlast⟩ := bind_eq_ok_iff.mp hresult
  exact hnext first (h first hfirst) result hlast

/-- The result of a part may not matter. -/
theorem skip (hnext : ∀ result, Ensures (next result) after) : Ensures (outcome >>= next) after :=
  bind (fun _ _ => trivial : Ensures outcome fun _ => True) fun result _ => hnext result

theorem map {change : α → β} (h : Ensures outcome property)
    (hchange : ∀ result, property result → after (change result)) :
    Ensures (outcome.map change) after := by
  intro result hresult
  cases houtcome : outcome with
  | error cause =>
      rw [houtcome] at hresult
      cases hresult
  | ok first =>
      rw [houtcome] at hresult
      cases hresult
      exact hchange first (h first houtcome)

theorem mapM {element : β → Prop} {f : α → Except Error β} {items : List α}
    (h : ∀ item ∈ items, Ensures (f item) element) :
    Ensures (items.mapM f) fun results =>
      results.length = items.length ∧ ∀ result ∈ results, element result := by
  intro results hresults
  rw [mapM_eq_ok_iff] at hresults
  refine ⟨by simpa using (congrArg List.length hresults).symm, fun result hresult => ?_⟩
  have hmem : Except.ok result ∈ items.map f := hresults ▸ List.mem_map_of_mem hresult
  obtain ⟨item, hitem, heq⟩ := List.mem_map.mp hmem
  exact h item hitem result heq

theorem mapM_flatten {element : β → Prop} {f : α → Except Error (List β)} {items : List α}
    (h : ∀ item ∈ items, Ensures (f item) fun results => ∀ result ∈ results, element result) :
    Ensures (items.mapM f) fun results => ∀ result ∈ results.flatten, element result := by
  intro results hresults result hresult
  obtain ⟨inner, hinner, hmem⟩ := List.mem_flatten.mp hresult
  exact (mapM h results hresults).2 inner hinner result hmem

end Ensures

namespace StepContext

variable {cx : StepContext}

/-! ## Where clauses lead -/

/-- The positions of its method that an instruction can go on at. -/
inductive Successor (cx : StepContext) : UInt32 → Prop
  | next : Successor cx cx.nextPc
  | branch {target : UInt32}
      (hopcode : cx.instruction.opcode = .goto ∨
        ∃ condition againstZero, cx.instruction.opcode = .branch condition againstZero)
      (htarget : cx.instruction.branchTarget = .ok target) : Successor cx target
  | case {kind : SwitchKind} {entries : List (Int32 × Int32)} {entry : Int32 × Int32}
      {target : UInt32} (hopcode : cx.instruction.opcode = .switch kind)
      (hentries : (cx.method.payloadFor cx.instruction >>= Payload.switchEntries) = .ok entries)
      (hentry : entry ∈ entries)
      (htarget : relativePc cx.instruction.pc entry.2 = .ok target) : Successor cx target

/-- The methods that an instruction enters: those that it calls, those that it starts on another
thread, and the static initialiser of the class that it allocates an object of. -/
inductive Invokes (cx : StepContext) : ClassId → MethodId → Prop
  | call {call : CallSite} {target : CallTarget} (hcall : cx.instruction.Calls call)
      (htarget : target ∈ call.targets cx.oracle) : Invokes cx target.owner target.method
  | thread {call : CallSite} {arguments : List UInt32} {implementations : List Implementation}
      {implementation : Implementation} (hcall : cx.instruction.Calls call)
      (hremapped : call.remapped? cx.oracle = some (arguments, implementations))
      (hmem : implementation ∈ implementations) :
      Invokes cx implementation.owner implementation.method
  | initializer {typeName : String} (hopcode : cx.instruction.opcode = .newInstance)
      (hreference : cx.instruction.reference = some typeName)
      (hinitializer : cx.oracle.hasStaticInitializer (textHash typeName)) :
      Invokes cx (textHash typeName) (textHash staticInitializer)

/-- A clause that starts at an instruction and leads to a successor, to the start of a method that
the instruction enters, or to no point at all. -/
inductive Routed (cx : StepContext) : Clause → Prop
  | step {pc : UInt32} {guards : List Formula} {post : State} (hpc : cx.Successor pc) :
      Routed cx (cx.jump pc guards post)
  | enter {owner : ClassId} {method : MethodId} {guards : List Formula} {entry : State}
      (henters : cx.Invokes owner method) :
      Routed cx (cx.derive guards (pointAtom ⟨owner, method, 0⟩ entry))
  | fact {guards : List Formula} {head : Atom}
      (hhead : ∀ point : ProgramPoint, head.relation ≠ point.relationName) :
      Routed cx (cx.derive guards head)

theorem Routed.head?_body {clause : Clause} (h : cx.Routed clause) :
    clause.body.head? = some cx.current.toFormula := by
  cases h <;> rfl

/-- A point that a clause leads to is a successor in the same method, or the start of a method that
the instruction enters. -/
theorem Routed.leads {clause : Clause} (h : cx.Routed clause) {point : ProgramPoint}
    (hpoint : clause.head.relation = point.relationName) :
    (∃ pc, point = cx.pointAt pc ∧ cx.Successor pc) ∨
      point.pc = 0 ∧ cx.Invokes point.owner point.method := by
  cases h with
  | @step pc guards post hpc =>
      have hsame : cx.pointAt pc = point := ProgramPoint.relationName_injective hpoint
      exact .inl ⟨pc, hsame.symm, hpc⟩
  | @enter owner method guards entry henters =>
      have hsame : (⟨owner, method, 0⟩ : ProgramPoint) = point :=
        ProgramPoint.relationName_injective hpoint
      exact .inr (hsame ▸ ⟨rfl, henters⟩)
  | fact hhead => exact absurd hpoint (hhead point)

section Facts

variable {guards : List Formula}

theorem routed_of_relation {head : Atom} (relation : Relation) (hglobal : relation.isGlobal)
    (hname : head.relation = relation.name) : cx.Routed (cx.derive guards head) :=
  .fact fun point => relation.not_point_of_isGlobal hglobal hname point

theorem routed_object {classKey id field value : BvExpr} {high blocked : Formula} :
    cx.Routed (cx.derive guards (GlobalHeap.object classKey id field value high blocked)) :=
  routed_of_relation .object rfl rfl

theorem routed_extra {intent key value : BvExpr} {high blocked : Formula} :
    cx.Routed (cx.derive guards (GlobalHeap.extra intent key value high blocked)) :=
  routed_of_relation .extra rfl rfl

theorem routed_launch {component caller value : BvExpr} {high blocked : Formula} :
    cx.Routed (cx.derive guards (GlobalHeap.launch component caller value high blocked)) :=
  routed_of_relation .launch rfl rfl

theorem routed_static {classKey field : IntExpr} {value : BvExpr} {high blocked : Formula} :
    cx.Routed (cx.derive guards (GlobalHeap.static classKey field value high blocked)) :=
  routed_of_relation .static rfl rfl

theorem routed_step {post : State} : cx.Routed (cx.step guards post) :=
  .step .next

end Facts

/-! ## Clauses of handlers -/

/-- Clauses that lead where they may, of which one is kept. -/
structure Continues (cx : StepContext) (clauses : List Clause) : Prop where
  routed : ∀ clause ∈ clauses, cx.Routed clause
  anchored : cx.Anchored clauses

/-- Every result of a handler leads where it may. -/
def Routes (cx : StepContext) (outcome : Except Error (List Clause)) : Prop :=
  Ensures outcome fun clauses => ∀ clause ∈ clauses, cx.Routed clause

/-- Every result of a handler leads where it may and keeps a clause. -/
def Proceeds (cx : StepContext) (outcome : Except Error (List Clause)) : Prop :=
  Ensures outcome cx.Continues

section Clauses

variable {guards : List Formula} {post : State} {clauses more : List Clause} {clause : Clause}

theorem continues_step (hguards : Undecided guards)
    (hrest : ∀ clause ∈ clauses, cx.Routed clause) :
    cx.Continues (cx.step guards post :: clauses) where
  routed := List.forall_mem_cons.mpr ⟨routed_step, hrest⟩
  anchored := anchored_cons hguards clauses

theorem continues_identity : cx.Continues [cx.identity] :=
  continues_step undecided_nil (by simp)

theorem Continues.cons (h : cx.Continues clauses) (hclause : cx.Routed clause) :
    cx.Continues (clause :: clauses) where
  routed := List.forall_mem_cons.mpr ⟨hclause, h.routed⟩
  anchored := anchored_cons_of_fact clause h.anchored

theorem Continues.append (h : cx.Continues clauses) (hmore : ∀ clause ∈ more, cx.Routed clause) :
    cx.Continues (clauses ++ more) where
  routed := List.forall_mem_append.mpr ⟨h.routed, hmore⟩
  anchored := h.anchored.mono fun _ => List.mem_append_left _

theorem Continues.after (h : cx.Continues clauses) (hmore : ∀ clause ∈ more, cx.Routed clause) :
    cx.Continues (more ++ clauses) where
  routed := List.forall_mem_append.mpr ⟨hmore, h.routed⟩
  anchored := h.anchored.mono fun _ => List.mem_append_right _

theorem proceeds_identity : cx.Proceeds (.ok [cx.identity]) :=
  .ok continues_identity

theorem proceeds_assign (hguards : Undecided guards) (r : UInt32) (cell : Cell) :
    cx.Proceeds (cx.assign r guards cell) :=
  .skip fun _ => .pure (continues_step hguards (by simp))

theorem proceeds_returns (hguards : Undecided guards) (cell : Cell) :
    cx.Proceeds (cx.returns guards cell) :=
  .skip fun _ => .pure (continues_step hguards (by simp))

/-! ### Lifts -/

theorem routes_flushSite (guards : List Formula) (site : AllocationSite) :
    cx.Routes (flushSite cx.width site (cx.body guards) cx.pre) := by
  refine .skip fun header => ?_
  have hfact : ∀ {classKey id field value : BvExpr} {high blocked : Formula},
      cx.Routed (cx.derive (guards ++ [header.free.negate])
        (GlobalHeap.object classKey id field value high blocked)) := routed_object
  dsimp only
  split
  · refine fun facts hfacts => (Ensures.mapM ?_ facts hfacts).2
    rintro ⟨⟨field, primitive⟩, k⟩ -
    exact .skip fun slot => .pure hfact
  · exact .pure (List.forall_mem_singleton.mpr hfact)

theorem routes_lift (guards : List Formula) (update : State → Except Error State) :
    cx.Routes (cx.lift guards update) := by
  have hflushed : cx.Routes (flushAll cx.layout cx.width (cx.body guards) cx.pre) :=
    .bind (.mapM_flatten fun site _ => routes_flushSite guards site) fun _ hfacts => .pure hfacts
  refine .bind hflushed fun facts hfacts => .skip fun post => .pure ?_
  exact List.forall_mem_append.mpr ⟨hfacts, List.forall_mem_singleton.mpr routed_step⟩

theorem routes_liftIfLocal (r : UInt32) (guards : List Formula)
    (update : State → Except Error State) : cx.Routes (cx.liftIfLocal r guards update) :=
  .skip fun _ => routes_lift _ update

theorem routes_liftIfAnyLocal (cells : List Cell) (guards : List Formula)
    (update : State → Except Error State) : cx.Routes (cx.liftIfAnyLocal cells guards update) := by
  unfold liftIfAnyLocal
  dsimp only
  split
  · exact .ok (by simp)
  · exact routes_lift _ update

end Clauses

/-! ## Undecided guards -/

section Guards

/-- A register that is read stands at its value. -/
theorem ensures_register_eq (r : UInt32) :
    Ensures (cx.register r) fun cell =>
      r.toNat < cx.shape.slotCount ∧ cell = .register r.toNat cx.width :=
  fun cell hcell => eq_register_of_pre ((State.register_yields _ _).result cell hcell)

theorem ensures_register (r : UInt32) :
    Ensures (cx.register r) fun cell => ∃ i, cell = .register i cx.width :=
  fun cell hcell => ⟨_, (ensures_register_eq r cell hcell).2⟩

theorem ensures_operand (index : Nat) :
    Ensures (cx.operand index) fun cell => ∃ i, cell = .register i cx.width :=
  .skip fun r => ensures_register r

/-- A comparison of a register is open before anything is known. -/
theorem eval_compare_register (i width : Nat) (op : BvCompare) (right : BvExpr) :
    (Formula.compare op (Cell.register i width).value right).eval .empty = none := by
  have hvalue : (Cell.register i width).value.eval .empty = none := rfl
  rw [Formula.eval, hvalue, Option.bind_none]

theorem undecided_of_eval {guard : Formula} (h : guard.eval .empty = none) :
    Undecided [guard] := by
  simp [Undecided, h]

/-- A disjunction of open formulas is not true. -/
theorem evalAny_ne_true {parts : List Formula}
    (h : ∀ part ∈ parts, part.eval .empty = none) :
    Formula.evalAny .empty parts ≠ some true := by
  induction parts with
  | nil => simp [Formula.evalAny]
  | cons part rest ih =>
      rw [Formula.evalAny, ne_eq, kleeneOr_eq_true_iff, h part List.mem_cons_self]
      simpa using ih fun other hother => h other (List.mem_cons_of_mem _ hother)

end Guards

/-! ## Moves, constants and returns -/

theorem proceeds_compileMove : cx.Proceeds cx.compileMove :=
  .skip fun _ => .skip fun _ => proceeds_assign undecided_nil _ _

theorem proceeds_compileMoveResult : cx.Proceeds cx.compileMoveResult :=
  .skip fun _ => .skip fun _ => proceeds_assign undecided_nil _ _

theorem proceeds_compileConst (kind : ConstKind) : cx.Proceeds (cx.compileConst kind) := by
  refine .skip fun destination => ?_
  cases kind <;> exact .skip fun _ => .skip fun _ => proceeds_assign undecided_nil _ _

/-- The clause that leaves the method with a result. -/
def exitClause (cx : StepContext) (result : Cell) : Clause :=
  cx.derive [] (exitAtom cx.owner.id cx.method.id
    (cx.pre.registers.drop (cx.shape.numRegisters + 1)) result cx.pre.heap)

theorem continues_exitClause (result : Cell) : cx.Continues [cx.exitClause result] where
  routed := by
    have hexit : ∀ point, Relation.exit cx.owner.id cx.method.id ≠ .point point := nofun
    exact List.forall_mem_singleton.mpr (.fact fun point => Relation.name_ne_point hexit point)
  anchored := anchored_cons undecided_nil []

theorem proceeds_compileReturn (void : Bool) : cx.Proceeds (cx.compileReturn void) := by
  refine .bind argumentCopies_yields.result ?_
  rintro arguments rfl
  cases void with
  | true => exact .pure (continues_exitClause cx.resultCell)
  | false => exact .skip fun result => .pure (continues_exitClause result)

/-! ## Arithmetic -/

theorem proceeds_compileUnary (op : UnaryOp) : cx.Proceeds (cx.compileUnary op) :=
  .skip fun _ => .skip fun _ => proceeds_assign undecided_nil _ _

theorem proceeds_compileBinary (op : BinaryOp) (form : OperandForm) :
    cx.Proceeds (cx.compileBinary op form) := by
  refine .skip fun destination => ?_
  cases form <;>
    exact .skip fun _ => .skip fun _ => .skip fun _ => proceeds_assign undecided_nil _ _

theorem proceeds_compileCompare : cx.Proceeds cx.compileCompare :=
  .skip fun _ => .skip fun _ => .skip fun _ => proceeds_assign undecided_nil _ _

/-! ## Branches -/

theorem proceeds_compileGoto (hopcode : cx.instruction.opcode = .goto) :
    cx.Proceeds cx.compileGoto := by
  intro clauses hclauses
  obtain ⟨target, htarget, hclauses⟩ := bind_eq_ok_iff.mp hclauses
  cases hclauses
  exact ⟨List.forall_mem_singleton.mpr (.step (.branch (.inl hopcode) htarget)),
    anchored_cons undecided_nil []⟩

/-- Both edges of a branch, whatever a register is compared with. -/
theorem continues_branchEdges {target : UInt32} (hpc : cx.Successor target) (i : Nat)
    (comparison : BvCompare) (negated : Bool) (right : BvExpr) :
    cx.Continues
      (let holds := Formula.compare comparison (Cell.register i cx.width).value right
       let guard := if negated then holds.negate else holds
       [cx.jump target [guard] cx.pre, cx.step [guard.negate] cx.pre]) := by
  have hopen := eval_compare_register i cx.width comparison right
  refine ⟨List.forall_mem_cons.mpr ⟨.step hpc, List.forall_mem_singleton.mpr routed_step⟩, ?_⟩
  refine anchored_cons (undecided_of_eval ?_) _
  cases negated with
  | false => exact hopen
  | true => rw [if_pos rfl, Formula.eval_negate, hopen, Option.map_none]

theorem proceeds_compileBranch {condition : BranchCondition} {againstZero : Bool}
    (hopcode : cx.instruction.opcode = .branch condition againstZero) :
    cx.Proceeds (cx.compileBranch condition againstZero) := by
  intro clauses hclauses
  obtain ⟨target, htarget, hclauses⟩ := bind_eq_ok_iff.mp hclauses
  have hpc : cx.Successor target := .branch (.inr ⟨condition, againstZero, hopcode⟩) htarget
  obtain ⟨left, hleft, hclauses⟩ := bind_eq_ok_iff.mp hclauses
  obtain ⟨i, rfl⟩ := ensures_operand 0 left hleft
  dsimp only at hclauses
  split at hclauses
  · obtain ⟨right, -, hclauses⟩ := bind_eq_ok_iff.mp hclauses
    cases hclauses
    exact continues_branchEdges hpc i _ _ right
  · obtain ⟨other, -, hclauses⟩ := bind_eq_ok_iff.mp hclauses
    obtain ⟨right, -, hclauses⟩ := bind_eq_ok_iff.mp hclauses
    cases hclauses
    exact continues_branchEdges hpc i _ _ right

/-- No case of a switch can be known to match, so the way past all cases stays open. -/
theorem undecided_switchDefault (i : Nat) (entries : List (Int32 × Int32)) :
    Undecided [(Formula.any ((cx.switchCases (Cell.register i cx.width).value entries).map
      (·.1))).negate] := by
  intro guard hguard
  have hopen : Formula.evalAny .empty ((cx.switchCases (Cell.register i cx.width).value
      entries).map (·.1)) ≠ some true := by
    refine evalAny_ne_true fun part hpart => ?_
    obtain ⟨⟨part, target⟩, hcase, rfl⟩ := List.mem_map.mp hpart
    obtain ⟨entry, -, -, rfl⟩ := mem_switchCases.mp hcase
    exact eval_compare_register i cx.width .eq _
  rw [List.mem_singleton.mp hguard, Formula.eval_negate, Formula.eval_any]
  intro hfalse
  obtain ⟨value, hvalue, hnot⟩ := Option.map_eq_some_iff.mp hfalse
  cases value with
  | true => exact hopen hvalue
  | false => cases hnot

theorem proceeds_compileSwitch {kind : SwitchKind}
    (hopcode : cx.instruction.opcode = .switch kind) : cx.Proceeds cx.compileSwitch := by
  refine .bind (ensures_operand 0) ?_
  rintro scrutinee ⟨i, rfl⟩
  dsimp only
  split
  · exact proceeds_identity
  · rename_i entries hentries
    refine .pure ((continues_step (undecided_switchDefault i entries) (by simp)).after
      fun clause hclause => ?_)
    obtain ⟨⟨guard, target⟩, hcase, rfl⟩ := List.mem_map.mp hclause
    obtain ⟨entry, hentry, htarget, -⟩ := mem_switchCases.mp hcase
    exact .step (.case hopcode hentries hentry htarget)

/-! ## Arrays and fields -/

theorem proceeds_compileNewArray : cx.Proceeds cx.compileNewArray := by
  refine .skip fun _ => .skip fun _ => .skip fun _ => ?_
  refine .bind (proceeds_assign undecided_nil _ _) fun steps hsteps => .pure (hsteps.cons ?_)
  dsimp only
  split <;> exact routed_object

theorem proceeds_compileFilledNewArray : cx.Proceeds cx.compileFilledNewArray := by
  refine .skip fun _ => .skip fun elements => ?_
  refine .bind (proceeds_returns undecided_nil _) fun plain hplain => ?_
  refine .bind (routes_liftIfAnyLocal _ _ _) fun lifted hlifted => .pure ?_
  refine (hplain.after fun clause hclause => ?_).append hlifted
  obtain ⟨k, hk, rfl⟩ := List.mem_mapIdx.mp hclause
  exact routed_object

theorem proceeds_compileFillArrayData : cx.Proceeds cx.compileFillArrayData := by
  refine .skip fun array => ?_
  dsimp only
  split
  · exact proceeds_identity
  · refine .pure (continues_identity.after fun clause hclause => ?_)
    obtain ⟨k, hk, rfl⟩ := List.mem_mapIdx.mp hclause
    exact routed_object

theorem proceeds_compileArrayGet : cx.Proceeds cx.compileArrayGet :=
  .skip fun _ => .skip fun _ => .skip fun _ => proceeds_assign (undecided_atom _) _ _

theorem proceeds_compileArrayPut : cx.Proceeds cx.compileArrayPut := by
  refine .skip fun _ => .skip fun _ => .skip fun _ => .skip fun _ => .skip fun _ =>
    .skip fun _ => ?_
  refine .bind (routes_liftIfLocal _ _ _) fun lifted hlifted => .pure ?_
  exact continues_step undecided_nil (List.forall_mem_cons.mpr ⟨routed_object, hlifted⟩)

theorem proceeds_compileArrayLength : cx.Proceeds cx.compileArrayLength :=
  .skip fun _ => proceeds_assign undecided_nil _ _

theorem routes_assign (r : UInt32) (guards : List Formula) (cell : Cell) :
    cx.Routes (cx.assign r guards cell) :=
  .skip fun _ => .pure (List.forall_mem_singleton.mpr routed_step)

theorem proceeds_compileInstanceGet : cx.Proceeds cx.compileInstanceGet := by
  refine .skip fun _ => .skip fun _ => .skip fun _ => ?_
  refine .bind (proceeds_assign (undecided_atom _) _ _) fun fromGlobal hglobal => ?_
  refine .bind (.mapM_flatten ?_) fun fromLocal hlocal => .pure (hglobal.append hlocal)
  rintro ⟨site, k⟩ -
  exact .skip fun slot => routes_assign _ _ _

theorem proceeds_compileInstancePut : cx.Proceeds cx.compileInstancePut := by
  refine .skip fun _ => .skip fun _ => .skip fun _ => .skip fun _ => .skip fun _ =>
    .skip fun _ => ?_
  refine .bind (routes_liftIfLocal _ _ _) fun lifted hlifted => ?_
  refine .bind (.mapM ?_) fun toLocal htoLocal => .pure (continues_step undecided_nil
    (List.forall_mem_append.mpr
      ⟨List.forall_mem_cons.mpr ⟨routed_object, hlifted⟩, htoLocal.2⟩))
  rintro ⟨site, k⟩ -
  exact .skip fun _ => .skip fun _ => .pure routed_step

theorem proceeds_compileStaticGet : cx.Proceeds cx.compileStaticGet := by
  refine .skip fun _ => .skip fun _ => ?_
  refine .bind (proceeds_assign undecided_nil _ _) fun unset hunset => ?_
  exact .bind (routes_assign _ _ _) fun loaded hloaded => .pure (hunset.append hloaded)

theorem proceeds_compileStaticPut : cx.Proceeds cx.compileStaticPut := by
  refine .skip fun _ => .skip fun _ => .skip fun _ => ?_
  refine .bind (routes_liftIfLocal _ _ _) fun lifted hlifted => .pure ?_
  exact continues_step undecided_nil (List.forall_mem_cons.mpr ⟨routed_static, hlifted⟩)

/-! ## Objects -/

theorem routed_initializerEntry {typeName : String}
    (hopcode : cx.instruction.opcode = .newInstance)
    (hreference : cx.instruction.reference = some typeName) :
    ∀ clause ∈ cx.initializerEntry (textHash typeName), cx.Routed clause := by
  unfold initializerEntry
  split
  · dsimp only
    split
    · exact List.forall_mem_singleton.mpr (.enter (.initializer hopcode hreference (by assumption)))
    · simp
  · simp

theorem proceeds_compileNewInstance (hopcode : cx.instruction.opcode = .newInstance) :
    cx.Proceeds cx.compileNewInstance := by
  refine .bind Instruction.getReference_yields.result fun typeName hreference => ?_
  dsimp only
  split
  · exact proceeds_identity
  refine .skip fun destination => ?_
  split
  · exact .error
  refine .skip fun plain => .skip fun header => ?_
  refine .bind (routes_flushSite [] _) fun flushed hflushed => .skip fun fields => ?_
  refine .bind (routes_liftIfAnyLocal _ _ _) fun lifted hlifted => .pure ?_
  exact continues_step undecided_nil (List.forall_mem_append.mpr
    ⟨List.forall_mem_append.mpr ⟨hflushed, hlifted⟩, routed_initializerEntry hopcode hreference⟩)

theorem proceeds_compileCheckCast : cx.Proceeds cx.compileCheckCast := by
  refine .bind (ensures_operand 0) ?_
  rintro object ⟨i, rfl⟩
  have hopen := eval_compare_register i cx.width .ugt (cx.literal 0)
  have hglobal : (Cell.register i cx.width).isGlobal.eval .empty = none := rfl
  refine .pure (continues_step (List.forall_mem_cons.mpr ⟨?_, undecided_of_eval hopen⟩)
    (List.forall_mem_singleton.mpr routed_step))
  simp [hglobal]

theorem proceeds_compileInstanceOf : cx.Proceeds cx.compileInstanceOf := by
  refine .skip fun _ => ?_
  refine .bind (proceeds_assign undecided_nil _ _) fun no hno => ?_
  exact .bind (routes_assign _ _ _) fun yes hyes => .pure (hno.append hyes)

end StepContext

end DalvikHorn
