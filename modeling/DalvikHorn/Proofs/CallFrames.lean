import DalvikHorn.Proofs.ArgumentCopies
import DalvikHorn.Proofs.LinkedCalls
import DalvikHorn.Proofs.Successors

/-!
# Call frames

A call enters each of its targets in a frame that holds what the call passes, and it goes
on at those exits of the target whose arguments are the ones that it has passed.  Entry
and exit are two clauses with the same guards.  The columns that the exit is looked up by
are the argument copies of the entry, so no call waits for an exit that no run of its
target can have.

## Strategy

* **Frames.**  A frame is tabulated by what its slots hold (`FrameShape.passedFrame`), over
  cells as well as over their values.  Passing one argument after the other builds it
  (`StepContext.entryState_eq`), also when there are too few or too many of them.
* **Exits.**  The body of the second clause has two states in it, the one before the call
  and the one at the exit.  Their variables have different names, so one valuation can have
  the values of both (`returnValuation`).
-/

namespace DalvikHorn

/-! ## Passing arguments -/

/-- An argument of a call that passes registers of a frame.  Missing arguments are zero. -/
def passedArgument {α : Type} (zero : α) (frame : List α) (arguments : List UInt32) (i : Nat) :
    α :=
  match arguments[i]? with
  | some r => frame.getD r.toNat zero
  | none => zero

theorem map_passedArgument {α β : Type} (f : α → β) (zero : α) (frame : List α)
    (arguments : List UInt32) (i : Nat) :
    f (passedArgument zero frame arguments i) =
      passedArgument (f zero) (frame.map f) arguments i := by
  unfold passedArgument
  split
  · simp only [List.getD_eq_getElem?_getD, List.getElem?_map, Option.getD_map]
  · rfl

/-- A fold over numbered items, when its state is known at each of them. -/
theorem foldlM_zipIdx_eq {σ α : Type} {f : σ → α × Nat → Except Error σ} (state : Nat → σ)
    {items : List α}
    (h : ∀ i item, items[i]? = some item → f (state i) (item, i) = .ok (state (i + 1))) :
    items.zipIdx.foldlM f (state 0) = .ok (state items.length) := by
  induction items using List.reverseRecOn with
  | nil => rfl
  | append_singleton items last ih =>
      have hlast := h items.length last (List.getElem?_concat_length ..)
      have hfirst : items.zipIdx.foldlM f (state 0) = .ok (state items.length) := by
        refine ih fun i item hitem => h i item ?_
        rwa [List.getElem?_append_left (List.getElem?_eq_some_iff.mp hitem).1]
      rw [List.zipIdx_append, List.foldlM_append, hfirst, List.length_append]
      change [(last, 0 + items.length)].foldlM f (state items.length) = _
      rw [Nat.zero_add, List.foldlM_cons, hlast]
      rfl

namespace FrameShape

variable {α β : Type} {shape : FrameShape} {zero : α} {argument : Nat → α}

/-- A frame in which a method is entered with some arguments: they are in the parameter registers
and in the argument copies, and every other slot is zero. -/
structure Enters (shape : FrameShape) (zero : α) (argument : Nat → α) (frame : List α) :
    Prop where
  length_eq : frame.length = shape.slotCount
  parameter_eq : ∀ i < shape.numArguments,
    ∃ r, shape.parameterRegister? i = some r ∧ frame[r]? = some (argument i)
  copy_eq : ∀ i < shape.numArguments, frame[shape.argumentCopy i]? = some (argument i)
  returnSlot_eq : frame[shape.returnSlot]? = some zero
  others_eq : ∀ slot < shape.slotCount,
    (∀ i < shape.numArguments,
      shape.parameterRegister? i ≠ some slot ∧ slot ≠ shape.argumentCopy i) →
    frame[slot]? = some zero

theorem getElem?_passedFrame {count slot : Nat} (hslot : slot < shape.slotCount) :
    (shape.passedFrame zero argument count)[slot]? =
      some (shape.passedCell zero argument count slot) := by
  rw [passedFrame, List.getElem?_map, List.getElem?_range hslot, Option.map_some]

/-- A slot of a parameter holds it when it has been passed. -/
theorem passedCell_of_parameter (hshape : shape.WellFormed) {slot i : Nat}
    (hslot : slot < shape.slotCount) (hi : i < shape.numArguments)
    (h : slot = shape.argumentCopy i ∨ slot = shape.numRegisters - shape.numArguments + i) :
    shape.passedCell zero argument shape.numArguments slot = argument i := by
  rw [passedCell, (parameterAt?_eq_some_iff hshape hslot).mpr ⟨hi, h⟩]
  exact if_pos hi

theorem enters_passedFrame (hshape : shape.WellFormed) :
    shape.Enters zero argument (shape.passedFrame zero argument shape.numArguments) where
  length_eq := length_passedFrame _ _ _
  parameter_eq := by
    intro i hi
    have hslot : shape.numRegisters - shape.numArguments + i < shape.slotCount := by
      have hfits : shape.numArguments ≤ shape.numRegisters := hshape
      unfold slotCount
      omega
    refine ⟨_, if_pos hshape, ?_⟩
    rw [getElem?_passedFrame hslot, passedCell_of_parameter hshape hslot hi (.inr rfl)]
  copy_eq := by
    intro i hi
    have hslot : shape.argumentCopy i < shape.slotCount := by
      unfold slotCount argumentCopy
      omega
    rw [getElem?_passedFrame hslot, passedCell_of_parameter hshape hslot hi (.inl rfl)]
  returnSlot_eq := by
    have hslot : shape.returnSlot < shape.slotCount := by
      unfold slotCount returnSlot
      omega
    have hnone : shape.parameterAt? shape.returnSlot = none := by
      rw [parameterAt?, returnSlot, if_neg (Nat.lt_irrefl _), if_pos rfl]
    rw [getElem?_passedFrame hslot, passedCell, hnone]
  others_eq := by
    intro slot hslot hother
    rw [getElem?_passedFrame hslot, passedCell]
    cases hparameter : shape.parameterAt? slot with
    | none => rfl
    | some i =>
        -- such a slot would be the copy or the register of its parameter, and it is neither
        obtain ⟨hi, hcopy | hregister⟩ := (parameterAt?_eq_some_iff hshape hslot).mp hparameter
        · exact absurd hcopy (hother i hi).2
        · exact absurd ((if_pos hshape).trans (congrArg some hregister.symm)) (hother i hi).1

/-- The copies of a frame are the arguments that it has been entered with. -/
theorem Enters.drop_eq {frame : List α} (h : shape.Enters zero argument frame) :
    frame.drop (shape.numRegisters + 1) = (List.range shape.numArguments).map argument := by
  refine List.ext_getElem? fun i => ?_
  rw [List.getElem?_drop, List.getElem?_map]
  by_cases hi : i < shape.numArguments
  · rw [List.getElem?_range hi]
    exact h.copy_eq i hi
  · have hout : frame.length ≤ shape.numRegisters + 1 + i := by
      rw [h.length_eq, slotCount]
      omega
    rw [List.getElem?_eq_none hout, List.getElem?_eq_none (by simpa using hi)]
    rfl

theorem map_passedFrame (f : α → β) (count : Nat) :
    (shape.passedFrame zero argument count).map f =
      shape.passedFrame (f zero) (fun i => f (argument i)) count := by
  rw [passedFrame, passedFrame, List.map_map]
  refine List.map_congr_left fun slot _ => ?_
  unfold Function.comp passedCell
  split
  · exact apply_ite f _ _ _
  · rfl

/-- Arguments that are zero need not be passed. -/
theorem passedFrame_min {length : Nat} (h : ∀ i, length ≤ i → argument i = zero) (count : Nat) :
    shape.passedFrame zero argument (min count length) =
      shape.passedFrame zero argument count := by
  refine List.map_congr_left fun slot _ => ?_
  unfold passedCell
  split
  · rename_i i _
    by_cases hpassed : i < length
    · exact if_congr (by omega) rfl rfl
    · rw [h i (Nat.le_of_not_lt hpassed), ite_self, ite_self]
  · rfl

end FrameShape

/-! ## Entered states -/

/-- The public zero. -/
def CellValue.zero : CellValue :=
  ⟨0, false, false, false⟩

/-- The state in which a method is entered from a state of its caller. -/
def StateValue.entered (shape : FrameShape) (arguments : List UInt32) (before : StateValue) :
    StateValue where
  registers := shape.passedFrame .zero (passedArgument .zero before.registers arguments)
    shape.numArguments
  heap := before.heap

namespace StepContext

variable {cx : StepContext} {call : CallSite} {target : CallTarget} {before : StateValue}

/-- The symbolic state in which a method is entered. -/
def enteredState (cx : StepContext) (shape : FrameShape) (arguments : List UInt32) : State where
  registers := shape.passedFrame (.zero cx.width)
    (passedArgument (.zero cx.width) cx.pre.registers arguments) shape.numArguments
  heap := cx.pre.heap

theorem register_eq_passedArgument {arguments : List UInt32} {i : Nat} {r : UInt32}
    (hr : arguments[i]? = some r) (hlt : r.toNat < cx.shape.slotCount) :
    cx.register r = .ok (passedArgument (.zero cx.width) cx.pre.registers arguments i) := by
  rw [register_eq hlt, passedArgument, hr]
  dsimp only
  rw [List.getD_eq_getElem?_getD, getElem?_pre hlt, Option.getD_some]

theorem entryState_eq {shape : FrameShape} (hshape : shape.WellFormed) {arguments : List UInt32}
    (harguments : ∀ r ∈ arguments, r.toNat < cx.shape.slotCount) :
    cx.entryState shape arguments = .ok (cx.enteredState shape arguments) := by
  let argument := passedArgument (.zero cx.width) cx.pre.registers arguments
  let frame := fun count => State.mk (shape.passedFrame (.zero cx.width) argument count)
    cx.pre.heap
  have hzero : State.zeroed shape cx.pre.heap cx.width = frame 0 :=
    congrArg (State.mk · _) (FrameShape.passedFrame_zero _ _).symm
  have hmissing : ∀ i, arguments.length ≤ i → argument i = .zero cx.width := by
    intro i hi
    simp only [argument, passedArgument, List.getElem?_eq_none hi]
  -- arguments behind the last parameter are not passed
  have hpassed : ∀ i r, (arguments.take shape.numArguments)[i]? = some r →
      i < shape.numArguments ∧ cx.register r = .ok (argument i) := by
    intro i r hr
    rw [List.getElem?_take] at hr
    split at hr
    · rename_i hi
      exact ⟨hi, register_eq_passedArgument hr (harguments r (List.mem_of_getElem? hr))⟩
    · cases hr
  calc cx.entryState shape arguments
      = .ok (frame (arguments.take shape.numArguments).length) := by
        rw [entryState, hzero]
        refine foldlM_zipIdx_eq frame fun i r hr => ?_
        obtain ⟨hi, hargument⟩ := hpassed i r hr
        obtain ⟨parameter, hparameter, entered, hregister, hcopy⟩ :=
          FrameShape.passedFrame_succ argument (.zero cx.width) hshape hi cx.pre.heap
        simp only [hargument, hparameter, Bind.bind, Except.bind]
        rw [show (frame i).set parameter (argument i) = .ok entered from hregister]
        exact hcopy
    _ = .ok (cx.enteredState shape arguments) := by
        rw [List.length_take]
        exact congrArg (fun registers => Except.ok (State.mk registers cx.pre.heap))
          (FrameShape.passedFrame_min hmissing _)

/-- The arguments that an exit is looked up by. -/
theorem exitArguments_eq (hcall : ∀ r ∈ call.arguments, r.toNat < cx.shape.slotCount)
    (count : Nat) :
    ((List.range count).mapM fun i =>
      match call.arguments[i]? with
      | some r => cx.register r
      | none => .ok (.zero cx.width)) =
      .ok ((List.range count).map
        (passedArgument (.zero cx.width) cx.pre.registers call.arguments)) := by
  rw [mapM_eq_ok_iff, List.map_map]
  refine List.map_congr_left fun i _ => ?_
  split
  · rename_i r hr
    exact register_eq_passedArgument hr (hcall r (List.mem_of_getElem? hr))
  · rename_i hnone
    rw [Function.comp_apply, passedArgument, hnone]

/-- The entered state has the values of the state before the call. -/
theorem denotes_enteredState {env : Valuation} (hstate : cx.pre.Denotes env before)
    (shape : FrameShape) (arguments : List UInt32) :
    (cx.enteredState shape arguments).Denotes env (before.entered shape arguments) where
  registers := by
    have hzero : (Cell.zero cx.width).eval env = some CellValue.zero := rfl
    rw [enteredState, StateValue.entered, FrameShape.map_passedFrame, FrameShape.map_passedFrame]
    simp only [map_passedArgument, hzero, hstate.registers]
  heap := hstate.heap

end StepContext

/-! ## Receivers -/

/-- The receivers that a call enters a target for.  When none is asked for, it is entered once. -/
def CallSite.enteredFor (call : CallSite) (target : CallTarget) : List (Option InstanceId) :=
  match call.receiver?, target.receivers with
  | some _, some ids => ids.map some
  | _, _ => [none]

namespace StepContext

variable {cx : StepContext} {call : CallSite} {target : CallTarget} {before : StateValue}

/-- The guards of the clauses for a receiver. -/
def receiverGuard (cx : StepContext) (call : CallSite) : Option InstanceId → List Formula
  | none => []
  | some id => call.receiver?.toList.map fun r =>
      (Cell.register r.toNat cx.width).value.eqTo (cx.idLiteral id)

/-- In a state a call is made on a receiver. -/
def Receives (cx : StepContext) (call : CallSite) (before : StateValue) :
    Option InstanceId → Prop
  | none => True
  | some id => ∀ r ∈ call.receiver?, ∃ object, before.registers[r.toNat]? = some object ∧
      object.value = twosComplement id.toInt cx.width

section Registers

variable (hcall : ∀ r ∈ call.arguments, r.toNat < cx.shape.slotCount)

include hcall

theorem receiverGuards_eq (target : CallTarget) :
    cx.receiverGuards call.receiver? target.receivers =
      .ok ((call.enteredFor target).map (cx.receiverGuard call)) := by
  cases hreceiver : call.receiver? with
  | none => simp [receiverGuards, CallSite.enteredFor, receiverGuard, hreceiver]
  | some r =>
      have hr : r.toNat < cx.shape.slotCount :=
        hcall r (CallSite.mem_arguments_of_receiver? hreceiver)
      cases hids : target.receivers with
      | none => simp [receiverGuards, CallSite.enteredFor, receiverGuard, hreceiver, hids]
      | some ids =>
          simp only [receiverGuards, register_eq hr, Bind.bind, Except.bind, CallSite.enteredFor,
            hreceiver, hids, List.map_map]
          refine congrArg Except.ok (List.map_congr_left fun id _ => ?_)
          rw [Function.comp_apply, receiverGuard, hreceiver]
          rfl

/-- Whether a call is made on a receiver depends on the state alone. -/
theorem Fits.decides_receiverGuard (hfits : cx.Fits before) (receiver : Option InstanceId) :
    cx.Decides before (cx.receiverGuard call receiver) (cx.Receives call before receiver) := by
  cases receiver with
  | none => exact decides_nil
  | some id =>
      cases hreceiver : call.receiver? with
      | none => simpa [receiverGuard, Receives, hreceiver] using decides_nil
      | some r =>
          have hr : r.toNat < before.registers.length :=
            hfits.registers_length ▸ hcall r (CallSite.mem_arguments_of_receiver? hreceiver)
          have hobject := List.getElem?_eq_getElem hr
          rw [receiverGuard, hreceiver]
          refine (decides_nil.concat
            fun env hstate => eval_hasId_of_denotes hstate hobject id).congr ?_
          simp [Receives, hreceiver, hobject]

/-! ## Clauses -/

/-- The state in which control goes on after a call. -/
def returnedState (cx : StepContext) (call : CallSite) : State :=
  cx.afterReturn (if call.returnKind.returnsValue then
    some (cx.resultCell.withHigh (if cx.callsSource call then .tt else .var Names.resultHigh))
  else none)

/-- The exits that a call waits for. -/
def awaited (cx : StepContext) (call : CallSite) (target : CallTarget) : Atom :=
  exitAtom target.owner target.method
    ((List.range target.shape.numArguments).map
      (passedArgument (.zero cx.width) cx.pre.registers call.arguments))
    cx.resultCell cx.returnedHeap

/-- The clause that enters a target for a receiver. -/
def enterClause (cx : StepContext) (call : CallSite) (target : CallTarget)
    (receiver : Option InstanceId) : Clause :=
  cx.derive (cx.receiverGuard call receiver)
    (pointAtom ⟨target.owner, target.method, 0⟩ (cx.enteredState target.shape call.arguments))

/-- The clause that goes on at the exits of a target for a receiver. -/
def leaveClause (cx : StepContext) (call : CallSite) (target : CallTarget)
    (receiver : Option InstanceId) : Clause :=
  cx.step ((cx.awaited call target).toFormula :: cx.receiverGuard call receiver)
    (cx.returnedState call)

theorem leave_eq (target : CallTarget) (receiver : Option InstanceId) :
    cx.leave call target (cx.receiverGuard call receiver) =
      .ok (cx.leaveClause call target receiver) := by
  have hlength : cx.shape.returnSlot < (cx.pre.mapRegisters (cx.shape.numRegisters + 1) fun _ =>
      afterCall cx.occupiedSites).registers.length := by
    rw [sized_pre.mapRegisters]
    exact returnSlot_lt
  refine bind_eq_ok_iff.mpr ⟨_, exitArguments_eq hcall _, ?_⟩
  simp only [Bind.bind, Except.bind, leaveClause, awaited, returnedState, afterReturn]
  cases call.returnKind.returnsValue with
  | false => rfl
  | true =>
      cases cx.callsSource call with
      | false => simp only [State.set, if_pos hlength]; rfl
      | true => simp only [State.set, if_pos hlength]; rfl

theorem linkTarget_eq (hshape : target.shape.WellFormed) :
    cx.linkTarget call target = .ok ((call.enteredFor target).flatMap fun receiver =>
      [cx.enterClause call target receiver, cx.leaveClause call target receiver]) := by
  have hclauses : ((call.enteredFor target).map (cx.receiverGuard call)).mapM (fun guards => do
      let entry ← cx.enter call.arguments target.owner target.method target.shape guards
      let exit ← cx.leave call target guards
      return [entry, exit]) = .ok ((call.enteredFor target).map fun receiver =>
        [cx.enterClause call target receiver, cx.leaveClause call target receiver]) := by
    rw [mapM_eq_ok_iff, List.map_map, List.map_map]
    refine List.map_congr_left fun receiver _ => ?_
    rw [Function.comp_apply, enter, entryState_eq hshape hcall, leave_eq hcall]
    rfl
  rw [linkTarget, receiverGuards_eq hcall]
  simp only [Bind.bind, Except.bind] at hclauses ⊢
  rw [hclauses, List.flatMap_def]
  rfl

end Registers

end StepContext

/-! ## States of a call and of an exit -/

/-- The component of a heap slot that the end of its name stands for. -/
def slotComponent (heap : List SlotValue) : List Char → Value
  | 'v' :: digits => .bits (numberedSlot heap digits).cell.value
  | 'h' :: digits => .bool (numberedSlot heap digits).cell.high
  | 'l' :: digits => .bool (numberedSlot heap digits).cell.isLocal
  | 'g' :: digits => .bool (numberedSlot heap digits).cell.isGlobal
  | 'f' :: digits => .bool (numberedSlot heap digits).free
  | _ => .bool false

/-- The valuation under which the canonical variables have the values of a state, and the variables
of a returned heap and of a result those of an exit. -/
def returnValuation (before : StateValue) (result : CellValue) (heap : List SlotValue) :
    Valuation := fun name =>
  match name.toList with
  | 'r' :: _ => some (.bits result.value)
  | 'h' :: 'r' :: _ => some (.bool result.high)
  | 'l' :: 'r' :: _ => some (.bool result.isLocal)
  | 'g' :: 'r' :: _ => some (.bool result.isGlobal)
  | 'l' :: 'h' :: 'c' :: rest => some (slotComponent heap rest)
  | _ => stateValuation before name

section Valuation

variable {before : StateValue} {result : CellValue} {heap : List SlotValue}

/-- A number does not start with a letter, so no register is taken for a part of an exit. -/
theorem returnValuation_numbered {name : String} {c : Char} {i : Nat}
    (hname : name.toList = c :: Nat.toDigits 10 i) (hc : c ≠ 'r') :
    returnValuation before result heap name = stateValuation before name := by
  have hletters : ∀ letter ∈ ['r', 'h'], letter.isDigit = false :=
    List.forall_mem_cons.mpr ⟨rfl, List.forall_mem_singleton.mpr rfl⟩
  have hletter : ∀ letter ∈ ['r', 'h'], ∀ rest, Nat.toDigits 10 i ≠ letter :: rest := by
    intro letter hmem rest hdigits
    have hdigit : letter.isDigit = true :=
      Nat.isDigit_of_mem_toDigits (by decide) (by decide) (hdigits ▸ List.mem_cons_self)
    rw [hletters letter hmem] at hdigit
    cases hdigit
  unfold returnValuation
  rw [hname]
  -- every other name goes on with a letter where this one has a digit
  split
  · rename_i heq
    exact absurd (List.cons.inj heq).1 hc
  · rename_i heq
    exact absurd (List.cons.inj heq).2 (hletter 'r' List.mem_cons_self _)
  · rename_i heq
    exact absurd (List.cons.inj heq).2 (hletter 'r' List.mem_cons_self _)
  · rename_i heq
    exact absurd (List.cons.inj heq).2 (hletter 'r' List.mem_cons_self _)
  · rename_i heq
    exact absurd (List.cons.inj heq).2 (hletter 'h' (List.mem_cons_of_mem _ List.mem_cons_self) _)
  · rfl

theorem eval_register_returnValuation (i width : Nat) :
    (Cell.register i width).eval (returnValuation before result heap) =
      (Cell.register i width).eval (stateValuation before) := by
  simp only [Cell.register, Cell.eval, BvExpr.eval, Formula.eval, Valuation.bits?, Valuation.bool?,
    returnValuation_numbered (Names.toList_value i) (by decide),
    returnValuation_numbered (Names.toList_high i) (by decide),
    returnValuation_numbered (Names.toList_isLocal i) (by decide),
    returnValuation_numbered (Names.toList_isGlobal i) (by decide)]

theorem eval_ownSlot_returnValuation (k width : Nat) :
    (HeapSlot.canonical Names.ownHeap k width).eval (returnValuation before result heap) =
      (HeapSlot.canonical Names.ownHeap k width).eval (stateValuation before) := by
  have hname : ∀ {name : String} (letter : Char), name.toList.take 3 = ['l', 'h', letter] →
      letter ≠ 'c' → returnValuation before result heap name = stateValuation before name := by
    intro name letter hfront hletter
    have htext : name.toList = 'l' :: 'h' :: letter :: name.toList.drop 3 := by
      conv_lhs => rw [← List.take_append_drop 3 name.toList, hfront]
      rfl
    unfold returnValuation
    rw [htext]
    simp [hletter]
  simp only [HeapSlot.canonical, HeapSlot.eval, Cell.eval, BvExpr.eval, Formula.eval,
    Valuation.bits?, Valuation.bool?]
  rw [hname 'v' (by simp [Names.slotValue, Names.ownHeap, toString]) (by decide),
    hname 'h' (by simp [Names.slotHigh, Names.ownHeap, toString]) (by decide),
    hname 'l' (by simp [Names.slotLocal, Names.ownHeap, toString]) (by decide),
    hname 'g' (by simp [Names.slotGlobal, Names.ownHeap, toString]) (by decide),
    hname 'f' (by simp [Names.slotFree, Names.ownHeap, toString]) (by decide)]

theorem eval_returnedSlot_returnValuation {k : Nat} {slot : SlotValue}
    (hslot : heap[k]? = some slot) (width : Nat) :
    (HeapSlot.canonical Names.returnedHeap k width).eval (returnValuation before result heap) =
      some slot := by
  have hnumber := numberedSlot_toDigits hslot
  refine HeapSlot.eval_eq_some_iff.mpr ⟨Cell.eval_eq_some_iff.mpr ⟨?_, ?_, ?_, ?_⟩, ?_⟩
  · simp [HeapSlot.canonical, BvExpr.eval, Valuation.bits?, returnValuation, slotComponent,
      Names.slotValue, Names.returnedHeap, toString, hnumber]
  · simp [HeapSlot.canonical, Formula.eval, Valuation.bool?, returnValuation, slotComponent,
      Names.slotHigh, Names.returnedHeap, toString, hnumber]
  · simp [HeapSlot.canonical, Formula.eval, Valuation.bool?, returnValuation, slotComponent,
      Names.slotLocal, Names.returnedHeap, toString, hnumber]
  · simp [HeapSlot.canonical, Formula.eval, Valuation.bool?, returnValuation, slotComponent,
      Names.slotGlobal, Names.returnedHeap, toString, hnumber]
  · simp [HeapSlot.canonical, Formula.eval, Valuation.bool?, returnValuation, slotComponent,
      Names.slotFree, Names.returnedHeap, toString, hnumber]

/-- Every name has a value of its sort. -/
theorem complete_returnValuation {width : Nat} (hbefore : before.InRange width)
    (hexit : (StateValue.mk [result] heap).InRange width) :
    (returnValuation before result heap).Complete width := by
  intro name
  unfold returnValuation
  -- the letters of a name tell which part of the call it belongs to
  split
  · rename_i heq
    exact ⟨_, rfl, by rw [Names.sort, heq]; exact hexit.registers result List.mem_cons_self⟩
  · rename_i heq
    exact ⟨_, rfl, by rw [Names.sort, heq]; trivial⟩
  · rename_i heq
    exact ⟨_, rfl, by rw [Names.sort, heq]; trivial⟩
  · rename_i heq
    exact ⟨_, rfl, by rw [Names.sort, heq]; trivial⟩
  · rename_i rest heq
    refine ⟨_, rfl, ?_⟩
    rw [Names.sort, heq]
    unfold slotComponent
    split
    · exact numberedSlot_lt hexit.heap _
    · trivial
    · trivial
    · trivial
    · trivial
    · rename_i hother _ _ _ _
      -- a name that starts like a heap value but has no index has no value
      have hflag : Names.holdsValue ('l' :: 'h' :: 'c' :: rest) = false := by
        cases rest with
        | nil => rfl
        | cons c digits =>
            have hne : c ≠ 'v' := by
              rintro rfl
              exact hother digits rfl
            simp [Names.holdsValue, hne]
      rw [hflag]
      trivial
  · exact hbefore.complete name

end Valuation

namespace StepContext

variable {cx : StepContext} {call : CallSite} {target : CallTarget} {before : StateValue}

/-- A result and a heap that a method may exit with. -/
structure Returns (cx : StepContext) (result : CellValue) (heap : List SlotValue) : Prop where
  heap_length : heap.length = cx.layout.size
  inRange : (StateValue.mk [result] heap).InRange cx.width

theorem Fits.denotes_pre_return (hfits : cx.Fits before) (result : CellValue)
    (heap : List SlotValue) : cx.pre.Denotes (returnValuation before result heap) before :=
  hfits.denotes_pre_of_eval (fun r => eval_register_returnValuation r cx.width)
    fun k => eval_ownSlot_returnValuation k cx.width

theorem Returns.eval_returnedHeap {result : CellValue} {heap : List SlotValue}
    (h : cx.Returns result heap) :
    cx.returnedHeap.map (HeapSlot.eval (returnValuation before result heap)) = heap.map some := by
  refine List.ext_getElem? fun k => ?_
  rw [returnedHeap, canonicalHeap, List.map_map, List.getElem?_map, List.getElem?_map]
  by_cases hk : k < cx.layout.size
  · have hslot := List.getElem?_eq_getElem (h.heap_length.symm ▸ hk : k < heap.length)
    rw [List.getElem?_range hk, hslot]
    exact congrArg some (eval_returnedSlot_returnValuation hslot cx.width)
  · rw [List.getElem?_eq_none (by simpa using hk),
      List.getElem?_eq_none (by rw [h.heap_length]; omega)]
    rfl

/-- An exit that has values under a complete valuation is one that a method may have. -/
theorem Returns.of_eval {env : Valuation} (hcomplete : env.Complete cx.width) {result : CellValue}
    {heap : List SlotValue} (hresult : cx.resultCell.eval env = some result)
    (hheap : cx.returnedHeap.map (HeapSlot.eval env) = heap.map some) :
    cx.Returns result heap where
  heap_length := by
    rw [length_eq_of_map_eq hheap]
    simp [returnedHeap, canonicalHeap]
  inRange :=
    { registers := List.forall_mem_singleton.mpr <| hcomplete.value_lt
        (Cell.eval_eq_some_iff.mp hresult).1 (Names.sort_auxiliaryValue _ Names.result)
      heap := hcomplete.value_lt_of_mem_heap Names.isHeap_returnedHeap hheap }

/-! ## Exits of a call -/

/-- The exits that a call waits for have the arguments of the entered state. -/
theorem holds_awaited_iff (hshape : target.shape.WellFormed) {facts : Set Fact} {env : Valuation}
    (hstate : cx.pre.Denotes env before) :
    (cx.awaited call target).toFormula.Holds (· ∈ facts) env ↔
      ∃ result heap, cx.resultCell.eval env = some result ∧
        cx.returnedHeap.map (HeapSlot.eval env) = heap.map some ∧
        exitFact target.owner target.method
          ((before.entered target.shape call.arguments).argumentCopies target.shape) result heap ∈
            facts := by
  have hcopies : ((List.range target.shape.numArguments).map
      (passedArgument (.zero cx.width) cx.pre.registers call.arguments)).map (Cell.eval env) =
      ((before.entered target.shape call.arguments).argumentCopies target.shape).map some := by
    calc _ = ((cx.enteredState target.shape call.arguments).registers.drop
          (target.shape.numRegisters + 1)).map (Cell.eval env) := by
          rw [enteredState, (FrameShape.enters_passedFrame hshape).drop_eq]
      _ = _ := by
          rw [List.map_drop, (denotes_enteredState hstate _ _).registers,
            StateValue.argumentCopies, List.map_drop]
  rw [Formula.holds_atom]
  constructor
  · rintro ⟨fact, hfact, hdenotes⟩
    obtain ⟨arguments, result, heap, harguments, hresult, hheap, rfl⟩ :=
      denotes_exitAtom_iff.mp hdenotes
    cases map_some_injective (harguments.symm.trans hcopies)
    exact ⟨result, heap, hresult, hheap, hfact⟩
  · rintro ⟨result, heap, hresult, hheap, hfact⟩
    exact ⟨_, hfact, denotes_exitAtom_iff.mpr ⟨_, result, heap, hcopies, hresult, hheap, rfl⟩⟩

section Calls

variable (hcall : cx.instruction.Calls call) (htarget : target ∈ call.targets cx.oracle)
  (harguments : ∀ r ∈ call.arguments, r.toNat < cx.shape.slotCount)

include hcall htarget harguments

theorem emitted_linkTarget {receiver : Option InstanceId}
    (hreceiver : receiver ∈ call.enteredFor target) :
    cx.Emitted (cx.enterClause call target receiver) ∧
      cx.Emitted (cx.leaveClause call target receiver) := by
  have hshape := (CallSite.targets_of_mem_targets htarget).2
  have hemitted := (emits_linkTarget hcall htarget).result _ (linkTarget_eq harguments hshape)
  constructor
  · exact hemitted _ (List.mem_flatMap.mpr ⟨receiver, hreceiver, List.mem_cons_self⟩)
  · exact hemitted _ (List.mem_flatMap.mpr
      ⟨receiver, hreceiver, List.mem_cons_of_mem _ List.mem_cons_self⟩)

/-- A call enters a target from each of its states that is made on the receiver. -/
theorem mem_consequences_enterClause {receiver : Option InstanceId}
    (hreceiver : receiver ∈ call.enteredFor target) {facts : Set Fact} {fact : Fact} :
    fact ∈ consequences [cx.enterClause call target receiver] facts ↔
      ∃ before, cx.Fits before ∧ pointFact cx.point before ∈ facts ∧
        cx.Receives call before receiver ∧
        fact = pointFact ⟨target.owner, target.method, 0⟩
          (before.entered target.shape call.arguments) :=
  mem_consequences_derive
    (fun _ hfits => hfits.decides_receiverGuard harguments receiver)
    (emitted_linkTarget hcall htarget harguments hreceiver).1
    fun _ _ hstate => denotes_pointAtom_iff.mpr ⟨_, denotes_enteredState hstate _ _, rfl⟩

/-- A call goes on from each of its states that is made on the receiver, at each exit with the
arguments that it has entered the target with. -/
theorem exists_mem_consequences_leaveClause {receiver : Option InstanceId}
    (hreceiver : receiver ∈ call.enteredFor target) {facts : Set Fact} :
    (∃ fact, fact ∈ consequences [cx.leaveClause call target receiver] facts) ↔
      ∃ before, cx.Fits before ∧ pointFact cx.point before ∈ facts ∧
        cx.Receives call before receiver ∧ ∃ result heap, cx.Returns result heap ∧
          exitFact target.owner target.method
            ((before.entered target.shape call.arguments).argumentCopies target.shape)
            result heap ∈ facts := by
  have hshape := (CallSite.targets_of_mem_targets htarget).2
  have hemitted := (emitted_linkTarget hcall htarget harguments hreceiver).2
  simp only [mem_consequences_iff_exists (List.forall_mem_singleton.mpr hemitted)]
  constructor
  · rintro ⟨fact, clause, hclause, env, hcomplete, hderives⟩
    rw [List.mem_singleton.mp hclause] at hderives
    -- the body is the caller's point, the awaited exit and the guards, in this order
    obtain ⟨hcurrent, hrest⟩ := List.forall_mem_cons.mp hderives.body
    obtain ⟨hexit, hguards⟩ := List.forall_mem_cons.mp hrest
    obtain ⟨before, hfact, hstate⟩ := holds_current_iff.mp hcurrent
    have hfits := Fits.of_denotes hcomplete hstate
    obtain ⟨result, heap, hresult, hheap, hmem⟩ := (holds_awaited_iff hshape hstate).mp hexit
    exact ⟨before, hfits, hfact,
      (hfits.decides_receiverGuard harguments receiver _ env hstate).mp hguards, result, heap,
      .of_eval hcomplete hresult hheap, hmem⟩
  · rintro ⟨before, hfits, hfact, hreceives, result, heap, hreturns, hmem⟩
    -- one valuation names both the state of the caller and what is returned
    have hcomplete := complete_returnValuation hfits.inRange hreturns.inRange
    have hstate := hfits.denotes_pre_return result heap
    have hexit := (holds_awaited_iff hshape hstate).mpr
      ⟨result, heap, rfl, hreturns.eval_returnedHeap, hmem⟩
    have hguards :=
      (hfits.decides_receiverGuard harguments receiver (· ∈ facts) _ hstate).mpr hreceives
    obtain ⟨fact, hhead⟩ := Atom.exists_denotes hemitted.sorted_head
      (hcomplete.admits hemitted.respected).append.2
    refine ⟨fact, _, List.mem_singleton_self _, _, hcomplete, ?_, hhead⟩
    exact List.forall_mem_cons.mpr ⟨holds_current_iff.mpr ⟨before, hfact, hstate⟩,
      List.forall_mem_cons.mpr ⟨hexit, hguards⟩⟩

end Calls

/-! ### A square

The area of a figure is asked for with one argument too many.  When the figure is a square, its
method is entered with the square alone, and the call waits for an exit with the square. -/

def areaCall : StepContext where
  env := Program.figures.environment Program.sampleConfig {}
  owner := { name := "LMain;" }
  method := { name := "main()V", numRegisters := 2, numArguments := 1 }
  instruction :=
    { pc := 4, mnemonic := "invoke-virtual", registers := [1, 0],
      reference := some "LFigure;->area()I" }
  nextPc := 7
  allocation := 0

def areaSite : CallSite where
  kind := .virtual
  target := { owner := "LFigure;", name := "area", parameters := [], returnType := "I" }
  arguments := [1, 0]

def squareTarget : CallTarget where
  owner := textHash "LSquare;"
  method := textHash "area()I"
  shape := { numRegisters := 3, numArguments := 1 }
  receivers := some [1795458041]

def square : CellValue :=
  ⟨1795458041, true, true, false⟩

/-- A state before the call in which register 1 holds the square. -/
def squareState : StateValue where
  registers := [.zero, square, .zero, .zero]
  heap := [⟨.zero, false⟩, ⟨.zero, true⟩]

end StepContext

end DalvikHorn
