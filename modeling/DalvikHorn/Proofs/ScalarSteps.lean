import DalvikHorn.Proofs.Handlers
import DalvikHorn.Proofs.Machine

/-!
# Scalar instructions as steps of the machine

Every handler of a scalar instruction goes on with states whose cells evaluate to
what the machine computes, under guards that hold exactly when the machine takes
that way.  `Tracks` says this of cells, `Implements` of the clauses of an
instruction, and `realizes_compile` says it of every scalar instruction.
-/

namespace DalvikHorn

/-- A clause that goes on in the method of an instruction. -/
structure Edge where
  pc : UInt32
  guards : List Formula
  post : State

namespace StepContext

variable (cx : StepContext)

/-- The clause of an edge. -/
def edgeClause (edge : Edge) : Clause :=
  cx.jump edge.pc edge.guards edge.post

/-- A cell has the value that the machine reads or computes in the frame at hand. -/
def Tracks (cell : Cell) (read : List (Register cx.width) → Option (Register cx.width)) : Prop :=
  ∀ (valuation : Valuation) (frame : List (Register cx.width)),
    cx.pre.Denotes valuation (frameState frame) →
      ∃ register, read frame = some register ∧ cell.eval valuation = some register.cellValue

/-- Some edges lead from a frame to what the machine reaches from it in one step. -/
structure Implements (edges : List Edge) : Prop where
  sorted : ∀ edge ∈ edges, ∀ guard ∈ edge.guards, guard.Sorted cx.width
  executes_iff : ∀ (valuation : Valuation) (frame : List (Register cx.width)),
    cx.pre.Denotes valuation (frameState frame) → ∀ pc state,
      (∃ after, state = frameState after ∧ cx.instruction.Executes frame cx.nextPc pc after) ↔
        ∃ edge ∈ edges, edge.pc = pc ∧
          (∀ guard ∈ edge.guards, guard.eval valuation = some true) ∧
          edge.post.Denotes valuation state

/-- Some clauses are the edges that implement an instruction, and exits of its method. -/
def Realizes (clauses : List Clause) : Prop :=
  ∃ edges exits, clauses = edges.map cx.edgeClause ++ exits ∧ cx.Implements edges ∧
    ∀ clause ∈ exits, clause.head.relation = exitRelationName cx.owner.id cx.method.id

variable {cx}

/-! ## Cells -/

theorem Tracks.congr {cell : Cell} {read other : List (Register cx.width) → Option (Register cx.width)}
    (h : cx.Tracks cell read) (heq : ∀ frame, read frame = other frame) : cx.Tracks cell other := by
  intro valuation frame hframe
  rw [← heq]
  exact h valuation frame hframe

theorem eval_scalar {valuation : Valuation} {value : BvExpr} {high : Formula}
    {register : Register cx.width} (hvalue : value.eval valuation = some register.value.toNat)
    (hhigh : high.eval valuation = some register.high) (hlocal : register.isLocal = false)
    (hglobal : register.isGlobal = false) :
    (Cell.scalar value high).eval valuation = some register.cellValue := by
  refine Cell.eval_eq_some_iff.mpr ⟨hvalue, hhigh, ?_, ?_⟩
  · rw [Register.cellValue, hlocal]
    rfl
  · rw [Register.cellValue, hglobal]
    rfl

section Operands

variable (hregisters : ∀ r ∈ cx.instruction.registers, r.toNat < cx.shape.numRegisters) {index : Nat}
  (hindex : index < cx.instruction.registers.length)

include hregisters hindex

theorem exists_register :
    ∃ r, cx.instruction.registers[index]? = some r ∧ cx.instruction.register index = .ok r ∧
      r.toNat < cx.shape.slotCount := by
  have hr := List.getElem?_eq_getElem hindex
  refine ⟨_, hr, by rw [Instruction.register, hr], ?_⟩
  have hfits := hregisters _ (List.getElem_mem hindex)
  rw [FrameShape.slotCount]
  omega

/-- An operand that is there is read, and its cell tracks it. -/
theorem exists_operand :
    ∃ cell, cx.operand index = .ok cell ∧ cell.Sorted cx.width ∧
      cx.Tracks cell (cx.instruction.operand? · index) := by
  obtain ⟨r, hr, hregister, hbound⟩ := exists_register hregisters hindex
  have hcell : cx.pre.registers[r.toNat]? = some (.register r.toNat cx.width) := by
    rw [pre, State.canonical, List.getElem?_map, List.getElem?_range hbound]
    rfl
  refine ⟨_, ?_, Cell.sorted_register r.toNat, ?_⟩
  · rw [operand, hregister]
    dsimp only [Bind.bind, Except.bind]
    rw [register, State.register, hcell]
  · intro valuation frame hframe
    obtain ⟨value, hvalue, heval⟩ := getElem?_of_map_eq hframe.registers hcell
    rw [frameState, List.getElem?_map] at hvalue
    obtain ⟨found, hfound, rfl⟩ := Option.map_eq_some_iff.mp hvalue
    refine ⟨found, ?_, heval⟩
    show cx.instruction.operand? frame index = some found
    rw [Instruction.operand?, hr]
    exact hfound

end Operands

theorem eval_joined {valuation : Valuation} {left right : Formula} {a b : Bool}
    (hleft : left.eval valuation = some a) (hright : right.eval valuation = some b) :
    (left.either right).eval valuation = some (a || b) := by
  rw [Formula.eval_either, hleft, hright]
  cases a <;> rfl

theorem beq_toNat {w : Nat} (a b : BitVec w) : (a.toNat == b.toNat) = decide (a = b) := by
  rw [Bool.eq_iff_iff, beq_iff_eq, decide_eq_true_iff, BitVec.toNat_inj]

/-- A scalar that is computed from one operand has its label. -/
theorem Tracks.map {operand : Cell} {read : List (Register cx.width) → Option (Register cx.width)}
    (hoperand : cx.Tracks operand read) {value : BvExpr}
    (word : BitVec cx.width → BitVec cx.width)
    (hvalue : ∀ (valuation : Valuation) (a : BitVec cx.width),
      operand.value.eval valuation = some a.toNat →
        value.eval valuation = some (word a).toNat) :
    cx.Tracks (.scalar value operand.high) fun frame =>
      (read frame).map fun a => .scalar (word a.value) a.high := by
  intro valuation frame hframe
  obtain ⟨a, ha, heval⟩ := hoperand valuation frame hframe
  obtain ⟨hvaluea, hhigh, -, -⟩ := Cell.eval_eq_some_iff.mp heval
  refine ⟨.scalar (word a.value) a.high, ?_,
    eval_scalar (hvalue valuation a.value hvaluea) hhigh rfl rfl⟩
  dsimp only
  rw [ha]
  rfl

/-- A scalar that is computed from two operands joins their labels. -/
theorem Tracks.zip {left right : Cell}
    {readLeft readRight : List (Register cx.width) → Option (Register cx.width)}
    (hleft : cx.Tracks left readLeft) (hright : cx.Tracks right readRight) {value : BvExpr}
    (word : BitVec cx.width → BitVec cx.width → BitVec cx.width)
    (hvalue : ∀ (valuation : Valuation) (a b : BitVec cx.width),
      left.value.eval valuation = some a.toNat → right.value.eval valuation = some b.toNat →
        value.eval valuation = some (word a b).toNat) :
    cx.Tracks (.scalar value (left.high.either right.high)) fun frame =>
      (readLeft frame).bind fun a => (readRight frame).map fun b =>
        .scalar (word a.value b.value) (a.high || b.high) := by
  intro valuation frame hframe
  obtain ⟨a, ha, hevala⟩ := hleft valuation frame hframe
  obtain ⟨b, hb, hevalb⟩ := hright valuation frame hframe
  obtain ⟨hvaluea, hhigha, -, -⟩ := Cell.eval_eq_some_iff.mp hevala
  obtain ⟨hvalueb, hhighb, -, -⟩ := Cell.eval_eq_some_iff.mp hevalb
  refine ⟨.scalar (word a.value b.value) (a.high || b.high), ?_,
    eval_scalar (hvalue valuation _ _ hvaluea hvalueb) (eval_joined hhigha hhighb) rfl rfl⟩
  dsimp only
  rw [ha, hb]
  rfl

section Results

variable (hwidth : cx.width ≤ wordBits)

include hwidth

theorem eval_literal (valuation : Valuation) (value : Int) :
    (cx.literal value).eval valuation = some (BitVec.ofInt cx.width value).toNat := by
  rw [literal, BvExpr.ofInt, BvExpr.eval, twosComplement_eq hwidth]

theorem eval_binary {valuation : Valuation} {left right : BvExpr} {a b : BitVec cx.width}
    (hsorted : left.Sorted cx.width) (hleft : left.eval valuation = some a.toNat)
    (hright : right.eval valuation = some b.toNat) (op : BinaryOp) :
    (BvExpr.binary op.bvOperator left right).eval valuation = some (op.word a b).toNat := by
  rw [BvExpr.eval, hleft, hright, hsorted.width_eq]
  have happly := BvBinary.apply_eq hwidth op.bvOperator a b
  cases op <;> exact congrArg some happly

theorem Tracks.binary {left right : Cell}
    {readLeft readRight : List (Register cx.width) → Option (Register cx.width)}
    (hleft : cx.Tracks left readLeft) (hsorted : left.Sorted cx.width)
    (hright : cx.Tracks right readRight) (op : BinaryOp) :
    cx.Tracks
      (.scalar (.binary op.bvOperator left.value right.value) (left.high.either right.high))
      fun frame => (readLeft frame).bind fun a => (readRight frame).map fun b =>
        .scalar (op.word a.value b.value) (a.high || b.high) :=
  hleft.zip hright op.word fun _ _ _ hvaluea hvalueb =>
    eval_binary hwidth hsorted.value hvaluea hvalueb op

/-- The literal is the second operand, unless the operation is a reversed subtraction. -/
theorem Tracks.literal {operand : Cell}
    {read : List (Register cx.width) → Option (Register cx.width)} (hoperand : cx.Tracks operand read)
    (hsorted : operand.Sorted cx.width) (op : BinaryOp) (literal : Int) :
    cx.Tracks
      (.scalar (if op = .rsub then .binary op.bvOperator (cx.literal literal) operand.value
        else .binary op.bvOperator operand.value (cx.literal literal)) operand.high)
      fun frame => (read frame).map fun a =>
        .scalar (if op = .rsub then op.word (.ofInt cx.width literal) a.value
          else op.word a.value (.ofInt cx.width literal)) a.high := by
  by_cases hreversed : op = .rsub
  · simp only [if_pos hreversed]
    exact hoperand.map (op.word (.ofInt cx.width literal)) fun valuation _ hvalue =>
      eval_binary hwidth (sorted_literal literal) (eval_literal hwidth valuation literal) hvalue op
  · simp only [if_neg hreversed]
    exact hoperand.map (op.word · (.ofInt cx.width literal)) fun valuation _ hvalue =>
      eval_binary hwidth hsorted.value hvalue (eval_literal hwidth valuation literal) op

theorem Tracks.unary {source : Cell}
    {read : List (Register cx.width) → Option (Register cx.width)} (hsource : cx.Tracks source read)
    (hsorted : source.Sorted cx.width) (op : UnaryOp) :
    cx.Tracks
      (.scalar
        (match op with
          | .neg => .unary .neg source.value
          | .not => .unary .not source.value
          | .convert => source.value)
        source.high)
      fun frame => (read frame).map fun a => .scalar (op.word a.value) a.high := by
  refine hsource.map op.word fun valuation a hvalue => ?_
  have hunary : ∀ bv : BvUnary, (BvExpr.unary bv source.value).eval valuation =
      some (bv.onWords a).toNat := by
    intro bv
    rw [BvExpr.eval, hvalue, hsorted.value.width_eq, ← BvUnary.apply_eq hwidth]
    rfl
  cases op with
  | neg => exact hunary .neg
  | not => exact hunary .not
  | convert => exact hvalue

theorem Tracks.compare {left right : Cell}
    {readLeft readRight : List (Register cx.width) → Option (Register cx.width)}
    (hleft : cx.Tracks left readLeft) (hright : cx.Tracks right readRight) :
    cx.Tracks
      (.scalar
        (.select (left.value.eqTo right.value) (cx.literal 0)
          (.select (.compare .ugt left.value right.value) (cx.literal 1) (cx.literal (-1))))
        (left.high.either right.high))
      fun frame => (readLeft frame).bind fun a => (readRight frame).map fun b =>
        .scalar (compareWords a.value b.value) (a.high || b.high) := by
  refine hleft.zip hright compareWords fun valuation a b hvaluea hvalueb => ?_
  have hequal : (left.value.eqTo right.value).eval valuation = some (decide (a = b)) := by
    rw [BvExpr.eqTo, Formula.eval, hvaluea, hvalueb]
    exact congrArg some (beq_toNat a b)
  have hgreater : (Formula.compare .ugt left.value right.value).eval valuation =
      some (b.ult a) := by
    rw [Formula.eval, hvaluea, hvalueb]
    rfl
  -- the selection asks for equality first, as the machine does
  rw [BvExpr.eval_select, BvExpr.eval, hequal, compareWords]
  by_cases hsame : a = b
  · rw [if_pos hsame, decide_eq_true hsame]
    exact eval_literal hwidth valuation 0
  · rw [if_neg hsame, decide_eq_false hsame]
    dsimp only
    rw [BvExpr.eval_select, BvExpr.eval, hgreater]
    cases b.ult a with
    | true => exact eval_literal hwidth valuation 1
    | false =>
        have hminus : BitVec.ofInt cx.width (-1) = -1 := BitVec.ofInt_neg
        rw [← hminus]
        exact eval_literal hwidth valuation (-1)

end Results

/-! ## Edges -/

theorem denotes_set {valuation : Valuation} {frame : List (Register cx.width)}
    (hframe : cx.pre.Denotes valuation (frameState frame)) {r : Nat} {cell : Cell}
    {register : Register cx.width} (hcell : cell.eval valuation = some register.cellValue) :
    State.Denotes valuation { cx.pre with registers := cx.pre.registers.set r cell }
      (frameState (frame.set r register)) where
  registers := by
    have hregisters := hframe.registers
    rw [frameState] at hregisters ⊢
    rw [List.map_set, List.map_set, List.map_set, hregisters, hcell]
  heap := hframe.heap

/-- An instruction that writes what the machine computes does what the machine does. -/
theorem realizes_assign {destination : UInt32} {cell : Cell}
    (hdestination : cx.instruction.registers[0]? = some destination)
    (hbound : destination.toNat < cx.shape.slotCount)
    (hcell : cx.Tracks cell cx.instruction.result?) :
    ∃ clauses, cx.assign destination [] cell = .ok clauses ∧ cx.Realizes clauses := by
  have hlength : destination.toNat < cx.pre.registers.length := by
    rw [cx.sorted_pre.registers_length]
    exact hbound
  -- one register changes, and the step goes on at the next instruction
  let post : State := { cx.pre with registers := cx.pre.registers.set destination.toNat cell }
  have hassign : cx.assign destination [] cell = .ok [cx.edgeClause ⟨cx.nextPc, [], post⟩] := by
    rw [assign, State.set, if_pos hlength]
    rfl
  refine ⟨_, hassign, [⟨cx.nextPc, [], post⟩], [], rfl, ⟨by simp, ?_⟩, by simp⟩
  intro valuation frame hframe pc state
  obtain ⟨register, hresult, heval⟩ := hcell valuation frame hframe
  have hpost : post.Denotes valuation (frameState (frame.set destination.toNat register)) :=
    denotes_set hframe heval
  have hexecutes : ∀ after, cx.instruction.Executes frame cx.nextPc pc after ↔
      pc = cx.nextPc ∧ after = frame.set destination.toNat register :=
    fun after => Instruction.executes_iff_of_result? hdestination hresult
  constructor
  · -- the state behind the step is the only one the clause allows
    rintro ⟨after, rfl, hafter⟩
    obtain ⟨rfl, rfl⟩ := (hexecutes after).mp hafter
    exact ⟨_, List.mem_singleton_self _, rfl, by simp, hpost⟩
  · rintro ⟨edge, hedge, rfl, -, hafter⟩
    cases List.mem_singleton.mp hedge
    exact ⟨_, hafter.unique hpost, (hexecutes _).mpr ⟨rfl, rfl⟩⟩

/-- An instruction that only chooses where to go on does what the machine does when the guards
choose what the machine chooses. -/
theorem realizes_transfer {ways : List (UInt32 × List Formula)}
    (hsorted : ∀ way ∈ ways, ∀ guard ∈ way.2, guard.Sorted cx.width)
    (hways : ∀ (valuation : Valuation) (frame : List (Register cx.width)),
      cx.pre.Denotes valuation (frameState frame) → ∀ pc after,
        cx.instruction.Executes frame cx.nextPc pc after ↔
          (∃ way ∈ ways, way.1 = pc ∧ ∀ guard ∈ way.2, guard.eval valuation = some true) ∧
            after = frame) :
    cx.Realizes (ways.map fun way => cx.jump way.1 way.2 cx.pre) := by
  refine ⟨ways.map fun way => ⟨way.1, way.2, cx.pre⟩, [], ?_, ⟨?_, ?_⟩, by simp⟩
  · rw [List.map_map, List.append_nil]
    rfl
  · intro edge hedge
    obtain ⟨way, hway, rfl⟩ := List.mem_map.mp hedge
    exact hsorted way hway
  · intro valuation frame hframe pc state
    constructor
    · rintro ⟨after, rfl, hafter⟩
      obtain ⟨⟨way, hway, hpc, hguards⟩, rfl⟩ := (hways valuation frame hframe pc after).mp hafter
      exact ⟨_, List.mem_map_of_mem hway, hpc, hguards, hframe⟩
    · rintro ⟨edge, hedge, hpc, hguards, hafter⟩
      obtain ⟨way, hway, rfl⟩ := List.mem_map.mp hedge
      exact ⟨frame, hafter.unique hframe,
        (hways valuation frame hframe pc frame).mpr ⟨⟨way, hway, hpc, hguards⟩, rfl⟩⟩

/-- A position that exists is found. -/
theorem exists_relativePc {instruction : Instruction} {offset : Int32}
    (h : instruction.hasPosition offset = true) :
    ∃ target, relativePc instruction.pc offset = .ok target ∧
      ∀ pc, instruction.AtDistance offset pc ↔ target = pc := by
  simp only [Instruction.hasPosition, Bool.and_eq_true, decide_eq_true_eq] at h
  refine ⟨UInt32.ofNat ((instruction.pc.toNat : Int) + offset.toInt).toNat, ?_, ?_⟩
  · unfold relativePc
    dsimp only
    rw [if_pos h]
  · intro pc
    have hsize : ((instruction.pc.toNat : Int) + offset.toInt).toNat < UInt32.size := by omega
    unfold Instruction.AtDistance
    rw [← UInt32.toNat_inj, UInt32.toNat_ofNat_of_lt' hsize]
    omega

/-! ## Instructions that write -/

/-- A handler succeeds with clauses that realize its instruction. -/
def Succeeds (cx : StepContext) (outcome : Except Error (List Clause)) : Prop :=
  ∃ clauses, outcome = .ok clauses ∧ cx.Realizes clauses

section Handlers

variable (hregisters : ∀ r ∈ cx.instruction.registers, r.toNat < cx.shape.numRegisters)

include hregisters

theorem succeeds_compileMove (hopcode : cx.instruction.opcode = .move)
    (hcount : 2 ≤ cx.instruction.registers.length) : cx.Succeeds cx.compileMove := by
  obtain ⟨destination, hdestination, hregister, hbound⟩ :=
    exists_register hregisters (show 0 < _ by omega)
  obtain ⟨source, hsource, -, htracks⟩ := exists_operand hregisters (show 1 < _ by omega)
  have hcompile : cx.compileMove = cx.assign destination [] source := by
    simp only [compileMove, hregister, hsource, Bind.bind, Except.bind]
  rw [hcompile]
  refine realizes_assign hdestination hbound (htracks.congr fun frame => ?_)
  rw [Instruction.result?, hopcode]

theorem succeeds_compileConst (hwidth : cx.width ≤ wordBits) {kind : ConstKind}
    (hopcode : cx.instruction.opcode = .const kind) (hcount : 1 ≤ cx.instruction.registers.length)
    (hoperand : if kind = .literal then cx.instruction.literal.isSome
      else cx.instruction.reference.isSome) : cx.Succeeds (cx.compileConst kind) := by
  obtain ⟨destination, hdestination, hregister, hbound⟩ :=
    exists_register hregisters (show 0 < _ by omega)
  have hconstant : ∀ (value : Int), (∀ frame : List (Register cx.width),
      cx.instruction.result? frame = some (.scalar (.ofInt cx.width value) false)) →
      cx.Succeeds (cx.assign destination [] (.scalar (cx.literal value) .ff)) := by
    intro value hresult
    refine realizes_assign hdestination hbound fun valuation frame _ => ?_
    exact ⟨_, hresult frame, eval_scalar (eval_literal hwidth valuation value) rfl rfl rfl⟩
  cases kind with
  | literal =>
      obtain ⟨literal, hliteral⟩ := Option.isSome_iff_exists.mp hoperand
      have hcompile := hconstant literal.toInt fun frame => by
        rw [Instruction.result?, hopcode, hliteral]
        rfl
      simpa only [Succeeds, compileConst, hregister, Instruction.getLiteral, hliteral, Bind.bind,
        Except.bind, Pure.pure, Except.pure] using hcompile
  | _ =>
      -- strings and classes are both known by the hash of their text
      obtain ⟨text, htext⟩ := Option.isSome_iff_exists.mp hoperand
      have hcompile := hconstant (textHash text).toInt fun frame => by
        rw [Instruction.result?, hopcode, htext]
        rfl
      simp only [Succeeds, compileConst, hregister, Instruction.getReference, htext, Bind.bind,
        Except.bind, Pure.pure, Except.pure]
      exact hcompile

theorem succeeds_compileUnary (hwidth : cx.width ≤ wordBits) {op : UnaryOp}
    (hopcode : cx.instruction.opcode = .unary op) (hcount : 2 ≤ cx.instruction.registers.length) :
    cx.Succeeds (cx.compileUnary op) := by
  obtain ⟨destination, hdestination, hregister, hbound⟩ :=
    exists_register hregisters (show 0 < _ by omega)
  obtain ⟨source, hsource, hsorted, htracks⟩ := exists_operand hregisters (show 1 < _ by omega)
  have hcompile := realizes_assign hdestination hbound
    ((htracks.unary hwidth hsorted op).congr fun frame => by
      rw [Instruction.result?, hopcode])
  cases op <;>
    simpa only [Succeeds, compileUnary, hregister, hsource, Bind.bind, Except.bind] using hcompile

theorem succeeds_compileCompare (hwidth : cx.width ≤ wordBits)
    (hopcode : cx.instruction.opcode = .compare) (hcount : 3 ≤ cx.instruction.registers.length) :
    cx.Succeeds cx.compileCompare := by
  obtain ⟨destination, hdestination, hregister, hbound⟩ :=
    exists_register hregisters (show 0 < _ by omega)
  obtain ⟨left, hleft, -, htracksLeft⟩ := exists_operand hregisters (show 1 < _ by omega)
  obtain ⟨right, hright, -, htracksRight⟩ := exists_operand hregisters (show 2 < _ by omega)
  have hcompile := realizes_assign hdestination hbound
    ((htracksLeft.compare hwidth htracksRight).congr fun frame => by
      rw [Instruction.result?, hopcode])
  simpa only [Succeeds, compileCompare, hregister, hleft, hright, Bind.bind, Except.bind]
    using hcompile

theorem succeeds_compileBinary (hwidth : cx.width ≤ wordBits) {op : BinaryOp} {form : OperandForm}
    (hopcode : cx.instruction.opcode = .binary op form)
    (hcount : (if form = .three then 3 else 2) ≤ cx.instruction.registers.length)
    (hliteral : form = .literal → cx.instruction.literal.isSome) :
    cx.Succeeds (cx.compileBinary op form) := by
  have htwo : 2 ≤ cx.instruction.registers.length := by
    split at hcount <;> omega
  obtain ⟨destination, hdestination, hregister, hbound⟩ :=
    exists_register hregisters (show 0 < _ by omega)
  obtain ⟨first, hfirst, hsorted, htracks⟩ := exists_operand hregisters (show 1 < _ by omega)
  have hresult : ∀ frame : List (Register cx.width), cx.instruction.result? frame =
      cx.instruction.binaryResult? frame op form := by
    intro frame
    rw [Instruction.result?, hopcode]
  cases form with
  | three =>
      obtain ⟨right, hright, -, htracksRight⟩ := exists_operand hregisters (show 2 < _ from hcount)
      have hcompile := realizes_assign hdestination hbound
        ((htracks.binary hwidth hsorted htracksRight op).congr fun frame => by
          rw [hresult, Instruction.binaryResult?])
      simpa only [Succeeds, compileBinary, hregister, hfirst, hright, Bind.bind, Except.bind,
        Pure.pure, Except.pure] using hcompile
  | twoAddress =>
      -- the destination is also the first operand
      obtain ⟨left, hleft, hsortedLeft, htracksLeft⟩ :=
        exists_operand hregisters (show 0 < _ by omega)
      have hcompile := realizes_assign hdestination hbound
        ((htracksLeft.binary hwidth hsortedLeft htracks op).congr fun frame => by
          rw [hresult, Instruction.binaryResult?])
      simpa only [Succeeds, compileBinary, hregister, hfirst, hleft, Bind.bind, Except.bind,
        Pure.pure, Except.pure] using hcompile
  | literal =>
      obtain ⟨literal, hfound⟩ := Option.isSome_iff_exists.mp (hliteral rfl)
      have hcompile := realizes_assign hdestination hbound
        ((htracks.literal hwidth hsorted op literal.toInt).congr fun frame => by
          rw [hresult, Instruction.binaryResult?, hfound]
          cases cx.instruction.operand? frame 1 <;> rfl)
      simpa only [Succeeds, compileBinary, hregister, hfirst, Instruction.getLiteral, hfound,
        Bind.bind, Except.bind, Pure.pure, Except.pure] using hcompile

end Handlers

/-! ## Instructions that choose -/

theorem realizes_identity
    (hopcode : cx.instruction.opcode = .nop ∨ cx.instruction.opcode = .monitor) :
    cx.Realizes [cx.identity] := by
  have hways : cx.Realizes ([(cx.nextPc, ([] : List Formula))].map fun way =>
      cx.jump way.1 way.2 cx.pre) := by
    refine realizes_transfer (by simp) fun valuation frame hframe pc after => ?_
    rw [Instruction.executes_iff_of_skip hopcode]
    simp [eq_comm]
  exact hways

theorem succeeds_compileGoto (hopcode : cx.instruction.opcode = .goto)
    (htarget : cx.instruction.target.any cx.instruction.hasPosition = true) :
    cx.Succeeds cx.compileGoto := by
  obtain ⟨offset, hoffset, hposition⟩ := (Option.any_eq_true _ _).mp htarget
  obtain ⟨target, hrelative, hdistance⟩ := exists_relativePc hposition
  have hways : cx.Realizes ([(target, ([] : List Formula))].map fun way =>
      cx.jump way.1 way.2 cx.pre) := by
    refine realizes_transfer (by simp) fun valuation frame hframe pc after => ?_
    rw [Instruction.executes_iff_of_goto hopcode hoffset, hdistance]
    simp
  refine ⟨_, ?_, hways⟩
  simp only [compileGoto, Instruction.branchTarget, hoffset, hrelative, Bind.bind, Except.bind,
    Pure.pure, Except.pure, List.map_cons, List.map_nil]

/-- The guard of a branch holds exactly when its condition does. -/
theorem eval_branchGuard {valuation : Valuation} {left right : BvExpr} {a b : BitVec cx.width}
    (hleft : left.eval valuation = some a.toNat) (hright : right.eval valuation = some b.toNat)
    (condition : BranchCondition) :
    (if condition.comparison.2 then (Formula.compare condition.comparison.1 left right).negate
      else .compare condition.comparison.1 left right).eval valuation =
        some (condition.holds a b) := by
  have hcompare : ∀ op : BvCompare, (Formula.compare op left right).eval valuation =
      some (op.apply a.toNat b.toNat) := by
    intro op
    rw [Formula.eval, hleft, hright]
    rfl
  cases condition with
  | eq => exact (hcompare .eq).trans (congrArg some (beq_toNat a b))
  | ne =>
      show (Formula.compare .eq left right).negate.eval valuation = some (a != b)
      rw [Formula.eval_negate, hcompare]
      exact congrArg (fun equal => some (!equal)) (beq_toNat a b)
  | lt => exact hcompare .ult
  | ge => exact hcompare .uge
  | gt => exact hcompare .ugt
  | le => exact hcompare .ule

/-- What a branch compares with is a register or the literal zero. -/
theorem exists_comparand (hwidth : cx.width ≤ wordBits)
    (hregisters : ∀ r ∈ cx.instruction.registers, r.toNat < cx.shape.numRegisters)
    {againstZero : Bool}
    (hcount : (if againstZero then 1 else 2) ≤ cx.instruction.registers.length) :
    ∃ right : BvExpr,
      (if againstZero then right = cx.literal 0
        else ∃ cell, cx.operand 1 = .ok cell ∧ right = cell.value) ∧
      right.Sorted cx.width ∧
      ∀ (valuation : Valuation) (frame : List (Register cx.width)),
        cx.pre.Denotes valuation (frameState frame) →
          ∃ word, cx.instruction.comparand? frame againstZero = some word ∧
            right.eval valuation = some word.toNat := by
  cases againstZero with
  | true =>
      refine ⟨_, rfl, sorted_literal 0, fun valuation frame _ => ⟨0, rfl, ?_⟩⟩
      exact eval_literal hwidth valuation 0
  | false =>
      obtain ⟨cell, hcell, hsorted, htracks⟩ := exists_operand hregisters (show 1 < _ from hcount)
      refine ⟨cell.value, ⟨cell, hcell, rfl⟩, hsorted.value, fun valuation frame hframe => ?_⟩
      obtain ⟨register, hregister, heval⟩ := htracks valuation frame hframe
      refine ⟨register.value, ?_, (Cell.eval_eq_some_iff.mp heval).1⟩
      simp only [Instruction.comparand?, Bool.false_eq_true, if_false, hregister, Option.map_some]

theorem succeeds_compileBranch (hwidth : cx.width ≤ wordBits)
    (hregisters : ∀ r ∈ cx.instruction.registers, r.toNat < cx.shape.numRegisters)
    {condition : BranchCondition} {againstZero : Bool}
    (hopcode : cx.instruction.opcode = .branch condition againstZero)
    (hcount : (if againstZero then 1 else 2) ≤ cx.instruction.registers.length)
    (htarget : cx.instruction.target.any cx.instruction.hasPosition = true) :
    cx.Succeeds (cx.compileBranch condition againstZero) := by
  obtain ⟨offset, hoffset, hposition⟩ := (Option.any_eq_true _ _).mp htarget
  obtain ⟨target, hrelative, hdistance⟩ := exists_relativePc hposition
  have hone : 0 < cx.instruction.registers.length := by
    split at hcount <;> omega
  obtain ⟨left, hleft, hsorted, htracks⟩ := exists_operand hregisters hone
  obtain ⟨right, hright, hsortedRight, htracksRight⟩ := exists_comparand hwidth hregisters hcount
  let guard : Formula :=
    if condition.comparison.2 then (Formula.compare condition.comparison.1 left.value right).negate
    else .compare condition.comparison.1 left.value right
  have hguard : guard.Sorted cx.width := by
    have hcompare : (Formula.compare condition.comparison.1 left.value right).Sorted cx.width :=
      hsorted.value.compare hsortedRight
    dsimp only [guard]
    split
    · exact hcompare.negate
    · exact hcompare
  have hways : cx.Realizes ([(target, [guard]), (cx.nextPc, [guard.negate])].map fun way =>
      cx.jump way.1 way.2 cx.pre) := by
    refine realizes_transfer ?_ fun valuation frame hframe pc after => ?_
    · simp [hguard, hguard.negate]
    · obtain ⟨register, hregister, heval⟩ := htracks valuation frame hframe
      obtain ⟨word, hword, hevalRight⟩ := htracksRight valuation frame hframe
      have htaken : guard.eval valuation = some (condition.holds register.value word) :=
        eval_branchGuard (Cell.eval_eq_some_iff.mp heval).1 hevalRight condition
      have hskipped : guard.negate.eval valuation = some (!condition.holds register.value word) := by
        rw [Formula.eval_negate, htaken]
        rfl
      rw [Instruction.executes_iff_of_branch hopcode hoffset hregister hword, hdistance]
      -- the two guards are complementary, so one way is open whatever the condition gives
      cases hholds : condition.holds register.value word <;>
        simp [htaken, hskipped, hholds, eq_comm]
  refine ⟨_, ?_, hways⟩
  -- the handler makes exactly these two clauses
  cases againstZero with
  | true =>
      have hvalue : right = cx.literal 0 := hright
      simp only [compileBranch, Instruction.branchTarget, hoffset, hrelative, hleft, Bind.bind,
        Except.bind, Pure.pure, Except.pure, if_true, List.map_cons, List.map_nil, guard, hvalue]
      rfl
  | false =>
      obtain ⟨cell, hcell, hvalue⟩ := hright
      simp only [compileBranch, Instruction.branchTarget, hoffset, hrelative, hleft, hcell, Bind.bind,
        Except.bind, Pure.pure, Except.pure, Bool.false_eq_true, if_false, List.map_cons,
        List.map_nil, guard, hvalue]
      rfl

theorem switchEntries_of_switchTable? {instruction : Instruction} {method : Method}
    {entries : List (Int32 × Int32)} (h : instruction.switchTable? = some entries) :
    (method.payloadFor instruction >>= Payload.switchEntries) = .ok entries := by
  unfold Instruction.switchTable? at h
  unfold Method.payloadFor
  split at h
  · rename_i firstKey targets hpayload
    cases h
    rw [hpayload]
    rfl
  · rename_i found hpayload
    cases h
    rw [hpayload]
    rfl
  · cases h

section Switch

variable {valuation : Valuation} {scrutinee : BvExpr} {word : BitVec cx.width}
  {entries : List (Int32 × Int32)}

theorem eval_switchGuard (hwidth : cx.width ≤ wordBits)
    (hvalue : scrutinee.eval valuation = some word.toNat) (key : Int32) :
    (scrutinee.eqTo (cx.literal key.toInt)).eval valuation =
      some (decide (word = .ofInt cx.width key.toInt)) := by
  rw [BvExpr.eqTo, Formula.eval, hvalue, eval_literal hwidth]
  exact congrArg some (beq_toNat _ _)

/-- A case of the switch is taken exactly when its key is the scrutinee. -/
theorem exists_case_iff (hwidth : cx.width ≤ wordBits)
    (hvalue : scrutinee.eval valuation = some word.toNat)
    (hpositions : ∀ entry ∈ entries, cx.instruction.hasPosition entry.2 = true) (pc : UInt32) :
    (∃ case ∈ cx.switchCases scrutinee entries, case.2 = pc ∧ case.1.eval valuation = some true) ↔
      ∃ entry ∈ entries, word = .ofInt cx.width entry.1.toInt ∧
        cx.instruction.AtDistance entry.2 pc := by
  constructor
  · rintro ⟨⟨guard, target⟩, hcase, rfl, hguard⟩
    obtain ⟨entry, hentry, hrelative, rfl⟩ := mem_switchCases.mp hcase
    obtain ⟨found, hfound, hposition⟩ := exists_relativePc (hpositions entry hentry)
    cases hfound.symm.trans hrelative
    rw [eval_switchGuard hwidth hvalue, Option.some.injEq, decide_eq_true_iff] at hguard
    exact ⟨entry, hentry, hguard, (hposition _).mpr rfl⟩
  · rintro ⟨entry, hentry, hmatch, hdistance⟩
    obtain ⟨target, hrelative, hposition⟩ := exists_relativePc (hpositions entry hentry)
    refine ⟨_, mem_switchCases.mpr ⟨entry, hentry, hrelative, rfl⟩, (hposition pc).mp hdistance, ?_⟩
    rw [eval_switchGuard hwidth hvalue, decide_eq_true hmatch]

/-- The switch goes on exactly when no key is the scrutinee. -/
theorem eval_unmatched_iff (hwidth : cx.width ≤ wordBits)
    (hvalue : scrutinee.eval valuation = some word.toNat)
    (hpositions : ∀ entry ∈ entries, cx.instruction.hasPosition entry.2 = true) :
    (Formula.any ((cx.switchCases scrutinee entries).map (·.1))).negate.eval valuation = some true ↔
      ∀ entry ∈ entries, word ≠ .ofInt cx.width entry.1.toInt := by
  have hnegate : ∀ formula : Formula, formula.negate.eval valuation = some true ↔
      formula.eval valuation = some false := by
    intro formula
    rw [Formula.eval_negate]
    cases formula.eval valuation with
    | none => simp
    | some value => cases value <;> simp
  rw [hnegate, Formula.eval_any, Formula.evalAny_eq_false_iff, List.forall_mem_map]
  constructor
  · intro hcases entry hentry
    obtain ⟨target, hrelative, -⟩ := exists_relativePc (hpositions entry hentry)
    have hguard := hcases _ (mem_switchCases.mpr ⟨entry, hentry, hrelative, rfl⟩)
    rwa [eval_switchGuard hwidth hvalue, Option.some.injEq, decide_eq_false_iff_not] at hguard
  · rintro hnone ⟨guard, target⟩ hcase
    obtain ⟨entry, hentry, -, rfl⟩ := mem_switchCases.mp hcase
    rw [eval_switchGuard hwidth hvalue, decide_eq_false (hnone entry hentry)]

end Switch

theorem succeeds_compileSwitch (hwidth : cx.width ≤ wordBits)
    (hregisters : ∀ r ∈ cx.instruction.registers, r.toNat < cx.shape.numRegisters)
    {kind : SwitchKind} (hopcode : cx.instruction.opcode = .switch kind)
    (hcount : 1 ≤ cx.instruction.registers.length) {entries : List (Int32 × Int32)}
    (htable : cx.instruction.switchTable? = some entries)
    (hpositions : ∀ entry ∈ entries, cx.instruction.hasPosition entry.2 = true) :
    cx.Succeeds cx.compileSwitch := by
  obtain ⟨scrutinee, hscrutinee, hsorted, htracks⟩ := exists_operand hregisters hcount
  let guarded := cx.switchCases scrutinee.value entries
  let otherwise := (Formula.any (guarded.map (·.1))).negate
  have hguarded : ∀ case ∈ guarded, case.1.Sorted cx.width := by
    rintro ⟨guard, target⟩ hcase
    obtain ⟨entry, -, -, rfl⟩ := mem_switchCases.mp hcase
    exact hsorted.value.eqTo (sorted_literal _)
  have hotherwise : otherwise.Sorted cx.width :=
    Formula.Sorted.negate (Formula.sorted_any (List.forall_mem_map.mpr hguarded))
  have hways : cx.Realizes ((guarded.map (fun case => (case.2, [case.1])) ++
      [(cx.nextPc, [otherwise])]).map fun way => cx.jump way.1 way.2 cx.pre) := by
    refine realizes_transfer ?_ fun valuation frame hframe pc after => ?_
    · refine List.forall_mem_append.mpr ⟨List.forall_mem_map.mpr fun case hcase => ?_, ?_⟩
      · exact List.forall_mem_singleton.mpr (hguarded case hcase)
      · exact List.forall_mem_singleton.mpr (List.forall_mem_singleton.mpr hotherwise)
    · obtain ⟨register, hregister, heval⟩ := htracks valuation frame hframe
      have hvalue := (Cell.eval_eq_some_iff.mp heval).1
      rw [Instruction.executes_iff_of_switch hopcode hregister htable,
        ← exists_case_iff hwidth hvalue hpositions, ← eval_unmatched_iff hwidth hvalue hpositions]
      -- the ways are the cases of the table and the way on
      refine and_congr_left fun _ => ⟨?_, ?_⟩
      · rintro (⟨case, hcase, hpc, hguard⟩ | ⟨hnone, rfl⟩)
        · exact ⟨_, List.mem_append_left _ (List.mem_map_of_mem hcase), hpc,
            List.forall_mem_singleton.mpr hguard⟩
        · exact ⟨_, List.mem_append_right _ (List.mem_singleton_self _), rfl,
            List.forall_mem_singleton.mpr hnone⟩
      · rintro ⟨way, hway, hpc, hguards⟩
        rcases List.mem_append.mp hway with hcase | hlast
        · obtain ⟨case, hmem, rfl⟩ := List.mem_map.mp hcase
          exact .inl ⟨case, hmem, hpc, hguards _ (List.mem_singleton_self _)⟩
        · cases List.mem_singleton.mp hlast
          exact .inr ⟨hguards _ (List.mem_singleton_self _), hpc.symm⟩
  refine ⟨_, ?_, hways⟩
  unfold compileSwitch
  rw [hscrutinee, switchEntries_of_switchTable? htable]
  simp only [Bind.bind, Except.bind, Pure.pure, Except.pure, List.map_append, List.map_map,
    List.map_cons, List.map_nil]
  rfl

theorem succeeds_compileReturn
    (hregisters : ∀ r ∈ cx.instruction.registers, r.toNat < cx.shape.numRegisters) {void : Bool}
    (hopcode : cx.instruction.opcode = .return_ ∨ cx.instruction.opcode = .returnVoid)
    (hcount : void = false → 1 ≤ cx.instruction.registers.length) :
    cx.Succeeds (cx.compileReturn void) := by
  have harguments : ((List.range cx.shape.numArguments).mapM fun i =>
      cx.pre.register (cx.shape.argumentCopy i)) = .ok ((List.range cx.shape.numArguments).map
        fun i => .register (cx.shape.argumentCopy i) cx.width) := by
    rw [mapM_eq_ok_iff, List.map_map]
    refine List.map_congr_left fun i hi => ?_
    have hbound : cx.shape.argumentCopy i < cx.shape.slotCount := by
      have hi := List.mem_range.mp hi
      rw [FrameShape.argumentCopy, FrameShape.slotCount]
      omega
    rw [State.register, pre, State.canonical, List.getElem?_map, List.getElem?_range hbound]
    rfl
  -- a return only exits: it has no edge, and the machine has no step
  have hexit : ∀ result, cx.Realizes [cx.derive [] (exitAtom cx.owner.id cx.method.id
      ((List.range cx.shape.numArguments).map fun i => .register (cx.shape.argumentCopy i) cx.width)
      result cx.pre.heap)] := by
    intro result
    refine ⟨[], _, rfl, ⟨by simp, fun valuation frame _ pc state => ?_⟩, ?_⟩
    · simp [Instruction.not_executes_of_return hopcode]
    · exact List.forall_mem_singleton.mpr rfl
  cases void with
  | true =>
      refine ⟨_, ?_, hexit cx.resultCell⟩
      rw [compileReturn, harguments]
      rfl
  | false =>
      obtain ⟨result, hresult, -, -⟩ := exists_operand hregisters (hcount rfl)
      refine ⟨_, ?_, hexit result⟩
      rw [compileReturn, harguments]
      simp only [Bind.bind, Except.bind, Bool.false_eq_true, if_false, hresult]
      rfl

/-! ## All scalar instructions -/

/-- A scalar instruction whose registers exist is compiled to clauses that realize it. -/
theorem realizes_compile (hwidth : cx.width ≤ wordBits)
    (hregisters : ∀ r ∈ cx.instruction.registers, r.toNat < cx.shape.numRegisters)
    (hscalar : cx.instruction.isScalar = true) :
    ∃ clauses, cx.compile = .ok (.ofClauses clauses) ∧ cx.Realizes clauses := by
  have hsteps : ∀ {outcome : Except Error (List Clause)}, cx.Succeeds outcome →
      ∃ clauses, outcome.map Emission.ofClauses = .ok (.ofClauses clauses) ∧
        cx.Realizes clauses := by
    rintro outcome ⟨clauses, rfl, hclauses⟩
    exact ⟨clauses, rfl, hclauses⟩
  unfold Instruction.isScalar at hscalar
  unfold compile
  -- one case for each opcode of the scalar fragment
  cases hopcode : cx.instruction.opcode with
  | nop => exact hsteps ⟨_, rfl, realizes_identity (.inl hopcode)⟩
  | monitor => exact hsteps ⟨_, rfl, realizes_identity (.inr hopcode)⟩
  | move =>
      rw [hopcode] at hscalar
      exact hsteps (succeeds_compileMove hregisters hopcode (by simpa using hscalar))
  | return_ =>
      rw [hopcode] at hscalar
      exact hsteps (succeeds_compileReturn hregisters (.inl hopcode) fun _ => by simpa using hscalar)
  | returnVoid => exact hsteps (succeeds_compileReturn hregisters (.inr hopcode) (by simp))
  | const kind =>
      rw [hopcode] at hscalar
      -- a literal is written into the register, and must be one of the fragment
      cases kind <;> simp at hscalar <;>
        exact hsteps (succeeds_compileConst hregisters hwidth hopcode hscalar.1 (by simp [hscalar.2]))
  | goto =>
      rw [hopcode] at hscalar
      exact hsteps (succeeds_compileGoto hopcode hscalar)
  | switch kind =>
      rw [hopcode] at hscalar
      simp only [Bool.and_eq_true, decide_eq_true_eq] at hscalar
      obtain ⟨entries, htable, hpositions⟩ := (Option.any_eq_true _ _).mp hscalar.2
      exact hsteps (succeeds_compileSwitch hwidth hregisters hopcode hscalar.1 htable
        (List.all_eq_true.mp hpositions))
  | compare =>
      rw [hopcode] at hscalar
      exact hsteps (succeeds_compileCompare hregisters hwidth hopcode (by simpa using hscalar))
  | branch condition againstZero =>
      rw [hopcode] at hscalar
      simp only [Bool.and_eq_true, decide_eq_true_eq] at hscalar
      exact hsteps (succeeds_compileBranch hwidth hregisters hopcode hscalar.1 hscalar.2)
  | unary op =>
      rw [hopcode] at hscalar
      exact hsteps (succeeds_compileUnary hregisters hwidth hopcode (by simpa using hscalar))
  | binary op form =>
      rw [hopcode] at hscalar
      cases form <;> simp at hscalar
      · exact hsteps (succeeds_compileBinary hregisters hwidth hopcode hscalar (by simp))
      · exact hsteps (succeeds_compileBinary hregisters hwidth hopcode hscalar (by simp))
      · exact hsteps (succeeds_compileBinary hregisters hwidth hopcode hscalar.1
          fun _ => hscalar.2)
  | _ =>
      rw [hopcode] at hscalar
      cases hscalar

end StepContext

end DalvikHorn
