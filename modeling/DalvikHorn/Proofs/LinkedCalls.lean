import DalvikHorn.Proofs.Escapes
import DalvikHorn.Proofs.VirtualDispatch

/-!
# Calls that pass registers of their frame are linked

A call is linked in one of four ways, and each of them reads registers, writes registers
and moves the local heap.  None of this can fail when every argument is a slot of the
frame: `gives_compileCall`.  A library rule reads no argument beyond the number that it
asks for, an entry is written into a frame that has room for its parameters, and all
slots of a registered layout are in the heap.

A linked call also leaves a clause that starts at the call (`Anchored`).  A virtual
call has one because an answer of a program never lists an implementation without
receivers.

## Strategy

`Gives` is the total counterpart of `Yields`: a handler is followed along its `do` block,
and every part has to give a result.  What is known about a state is the size of its
frame, which no update changes.
-/

namespace DalvikHorn

/-! ## Computations that give a result -/

variable {α β : Type}

/-- A computation gives a result with a property. -/
def Gives (outcome : Except Error α) (property : α → Prop) : Prop :=
  ∃ result, outcome = .ok result ∧ property result

namespace Gives

variable {property : α → Prop} {outcome : Except Error α}

theorem ok {result : α} (h : property result) : Gives (.ok result) property :=
  ⟨result, rfl, h⟩

theorem pure {result : α} (h : property result) :
    Gives (Pure.pure result : Except Error α) property :=
  ok h

theorem mono {weaker : α → Prop} (h : Gives outcome property)
    (himp : ∀ result, property result → weaker result) : Gives outcome weaker := by
  obtain ⟨result, hresult, hproperty⟩ := h
  exact ⟨result, hresult, himp result hproperty⟩

/-- It may be enough to know that there is a result. -/
theorem any (h : Gives outcome property) : Gives outcome fun _ => True :=
  h.mono fun _ _ => trivial

theorem bind {after : β → Prop} {next : α → Except Error β} (h : Gives outcome property)
    (hnext : ∀ result, property result → Gives (next result) after) :
    Gives (outcome >>= next) after := by
  obtain ⟨result, rfl, hproperty⟩ := h
  exact hnext result hproperty

theorem mapM {element : β → Prop} {f : α → Except Error β} {items : List α}
    (h : ∀ item ∈ items, Gives (f item) element) :
    Gives (items.mapM f) fun results =>
      results.length = items.length ∧ ∀ result ∈ results, element result := by
  induction items with
  | nil => exact pure ⟨rfl, by simp⟩
  | cons item rest ih =>
      rw [List.mapM_cons]
      refine bind (h item List.mem_cons_self) fun first hfirst => ?_
      refine bind (ih fun other hother => h other (List.mem_cons_of_mem _ hother)) ?_
      rintro others ⟨hlength, hothers⟩
      exact pure ⟨congrArg (· + 1) hlength, List.forall_mem_cons.mpr ⟨hfirst, hothers⟩⟩

/-- An invariant of every step is one of the whole run. -/
theorem foldlM {invariant : β → Prop} {f : β → α → Except Error β} {items : List α} {start : β}
    (hstart : invariant start)
    (hstep : ∀ item ∈ items, ∀ state, invariant state → Gives (f state item) invariant) :
    Gives (items.foldlM f start) invariant := by
  induction items generalizing start with
  | nil => exact pure hstart
  | cons item rest ih =>
      rw [List.foldlM_cons]
      refine bind (hstep item List.mem_cons_self start hstart) fun next hnext => ?_
      exact ih hnext fun other hother => hstep other (List.mem_cons_of_mem _ hother)

end Gives

/-! ## States of a size -/

namespace State

/-- A state whose frame has a number of slots. -/
def Sized (size : Nat) (state : State) : Prop :=
  state.registers.length = size

variable {state : State} {size : Nat}

theorem Sized.register (h : state.Sized size) {r : Nat} (hr : r < size) :
    Gives (state.register r) fun _ => True := by
  have hlt : r < state.registers.length := h.symm ▸ hr
  refine ⟨state.registers[r], ?_, trivial⟩
  rw [State.register, List.getElem?_eq_getElem hlt]

theorem Sized.set (h : state.Sized size) {r : Nat} (hr : r < size) (cell : Cell) :
    Gives (state.set r cell) (Sized size) := by
  have hlt : r < state.registers.length := h.symm ▸ hr
  refine ⟨_, if_pos hlt, ?_⟩
  rw [Sized, List.length_set]
  exact h

theorem Sized.taint (h : state.Sized size) {r : Nat} (hr : r < size) (taint : Formula) :
    Gives (state.taint r taint) (Sized size) :=
  .bind (h.register hr) fun cell _ => h.set hr (cell.taint taint)

theorem Sized.mapRegisters (h : state.Sized size) (count : Nat) (change : Nat → Cell → Cell) :
    (state.mapRegisters count change).Sized size := by
  rw [Sized, State.mapRegisters, List.length_mapIdx]
  exact h

theorem sized_zeroed (shape : FrameShape) (heap : List HeapSlot) (width : Nat) :
    (zeroed shape heap width).Sized shape.slotCount :=
  List.length_replicate

end State

/-! ## Clauses that start at an instruction -/

/-- No guard of a list is false before anything is known. -/
def Undecided (guards : List Formula) : Prop :=
  ∀ guard ∈ guards, guard.eval .empty ≠ some false

theorem undecided_nil : Undecided [] := by
  simp [Undecided]

theorem undecided_atom (atom : Atom) : Undecided [atom.toFormula] := by
  simp [Undecided, Atom.toFormula, Formula.eval]

theorem undecided_register (r width : Nat) (id : BvExpr) :
    Undecided [(Cell.register r width).value.eqTo id] := by
  have hvar : (Cell.register r width).value.eval .empty = none := rfl
  simp [Undecided, BvExpr.eqTo, Formula.eval, hvar]

namespace StepContext

variable {cx : StepContext} {clauses more : List Clause}

theorem isVacuous_derive {guards : List Formula} (hguards : Undecided guards) (head : Atom) :
    (cx.derive guards head).isVacuous = false := by
  apply Clause.isVacuous_eq_false .empty
  exact List.forall_mem_cons.mpr
    ⟨undecided_atom cx.current _ (List.mem_singleton_self _), hguards⟩

/-- Some clauses have one that starts at the instruction and is not dropped. -/
def Anchored (cx : StepContext) (clauses : List Clause) : Prop :=
  ∃ clause ∈ clauses, clause.isVacuous = false ∧ cx.current ∈ clause.atoms

theorem Anchored.mono (h : cx.Anchored clauses) (hsub : ∀ clause ∈ clauses, clause ∈ more) :
    cx.Anchored more := by
  obtain ⟨clause, hmem, hanchored⟩ := h
  exact ⟨clause, hsub clause hmem, hanchored⟩

theorem anchored_of_mem {guards : List Formula} {head : Atom} (hguards : Undecided guards)
    (hmem : cx.derive guards head ∈ clauses) : cx.Anchored clauses := by
  refine ⟨_, hmem, isVacuous_derive hguards head, ?_⟩
  simp [Clause.atoms, derive, body, Formula.atomsList, Atom.toFormula, Formula.atoms]

theorem anchored_cons {guards : List Formula} {head : Atom} (hguards : Undecided guards)
    (rest : List Clause) : cx.Anchored (cx.derive guards head :: rest) :=
  anchored_of_mem hguards List.mem_cons_self

theorem anchored_cons_of_fact (fact : Clause) {rest : List Clause} (h : cx.Anchored rest) :
    cx.Anchored (fact :: rest) :=
  h.mono fun _ => List.mem_cons_of_mem _

/-- The clauses of several parts, each of which starts at the instruction. -/
theorem anchored_flatten {parts : List (List Clause)} {items : List α} (hsome : items ≠ [])
    (hlength : parts.length = items.length) (hparts : ∀ part ∈ parts, cx.Anchored part) :
    cx.Anchored parts.flatten := by
  cases parts with
  | nil => exact absurd (List.length_eq_zero_iff.mp hlength.symm) hsome
  | cons first rest =>
      exact (hparts first List.mem_cons_self).mono fun _ => List.mem_append_left _

/-! ## Parts of handlers -/

theorem sized_pre : cx.pre.Sized cx.shape.slotCount := by
  simp [State.Sized, pre, State.canonical]

theorem sized_promoted :
    (cx.pre.promote cx.layout cx.width cx.shape.numRegisters).Sized cx.shape.slotCount :=
  sized_pre.mapRegisters _ _

theorem gives_register {r : UInt32} (hr : r.toNat < cx.shape.slotCount) :
    Gives (cx.register r) fun cell => cell = .register r.toNat cx.width :=
  ⟨_, register_eq hr, rfl⟩

theorem gives_returns {guards : List Formula} (hguards : Undecided guards) (cell : Cell) :
    Gives (cx.returns guards cell) cx.Anchored :=
  .bind (sized_pre.set returnSlot_lt cell) fun _ _ => .pure (anchored_cons hguards [])

theorem gives_assign {r : UInt32} (hr : r.toNat < cx.shape.slotCount) {guards : List Formula}
    (hguards : Undecided guards) (cell : Cell) : Gives (cx.assign r guards cell) cx.Anchored :=
  .bind (sized_pre.set hr cell) fun _ _ => .pure (anchored_cons hguards [])

section Lifts

variable (hlayout : cx.layout.Registered) {update : State → Except Error State}
  (hupdate : ∀ state : State, state.Sized cx.shape.slotCount →
    Gives (update state) (State.Sized cx.shape.slotCount))

include hlayout hupdate

theorem gives_lift (guards : List Formula) : Gives (cx.lift guards update) fun _ => True := by
  obtain ⟨post, hpost, -⟩ := hupdate _ sized_promoted
  obtain ⟨clauses, hclauses, -⟩ := exists_lift hlayout hpost
  exact ⟨clauses, hclauses, trivial⟩

theorem gives_liftIfLocal {r : UInt32} (hr : r.toNat < cx.shape.slotCount)
    (guards : List Formula) : Gives (cx.liftIfLocal r guards update) fun _ => True :=
  .bind (gives_register hr) fun _ _ => gives_lift hlayout hupdate _

theorem gives_liftIfAnyLocal (cells : List Cell) (guards : List Formula) :
    Gives (cx.liftIfAnyLocal cells guards update) fun _ => True := by
  unfold liftIfAnyLocal
  dsimp only
  split
  · exact .ok trivial
  · exact gives_lift hlayout hupdate _

theorem gives_updateAndLift {r : UInt32} (hr : r.toNat < cx.shape.slotCount) :
    Gives (cx.updateAndLift r update) cx.Anchored :=
  .bind (hupdate _ sized_pre) fun _ _ =>
    .bind (gives_liftIfLocal hlayout hupdate hr []) fun lifted _ =>
      .pure (anchored_cons undecided_nil lifted)

end Lifts

theorem gives_store (hlayout : cx.layout.Registered) (fact : Clause) {r : UInt32}
    (hr : r.toNat < cx.shape.slotCount) : Gives (cx.store fact r) cx.Anchored :=
  .bind (gives_liftIfLocal hlayout (fun _ hstate => .ok hstate) hr []) fun lifted _ =>
    .pure (anchored_cons_of_fact fact (anchored_cons undecided_nil lifted))

end StepContext

/-! ## Library methods -/

/-- The number of arguments that the rule of an effect relies on. -/
def LibraryEffect.arity : LibraryEffect → Nat
  | .getIntent | .systemObject => 0
  | .newIntent | .getAction | .getExtra | .retargetIntent | .marshallParcel | .readParcel
  | .getMessage | .bufferText | .getHint => 1
  | .newIntentForAction | .startActivity | .unmarshallParcel | .writeParcel | .newException
  | .getEntry | .newFormatter | .setHint => 2
  | .newIntentForComponent | .putExtra | .setResult | .newPoint | .putEntry | .format
  | .copyArray => 3
  | .copyChars => 4

theorem arity_le_minArguments : ∀ rule ∈ libraryRules, rule.effect.arity ≤ rule.minArguments := by
  decide

/-- A rule applies only to calls that pass enough arguments. -/
theorem CallSite.arity_le_length {call : CallSite} {effect : LibraryEffect}
    (h : call.libraryEffect? = some effect) : effect.arity ≤ call.arguments.length := by
  obtain ⟨rule, hrule, happlies⟩ := Option.bind_eq_some_iff.mp h
  split at happlies
  · cases happlies
  · rename_i henough
    cases happlies
    exact Nat.le_trans (arity_le_minArguments rule (List.mem_of_find?_eq_some hrule))
      (Nat.le_of_not_lt henough)

namespace StepContext

variable {cx : StepContext} {call : CallSite}

section Calls

variable (hlayout : cx.layout.Registered)
  (hcall : ∀ r ∈ call.arguments, r.toNat < cx.shape.slotCount)

include hcall

theorem gives_argument {index : Nat} (hindex : index < call.arguments.length) :
    Gives (call.argument index) fun r => r.toNat < cx.shape.slotCount := by
  refine ⟨call.arguments[index], ?_, hcall _ (List.getElem_mem hindex)⟩
  rw [CallSite.argument, List.getElem?_eq_getElem hindex]

theorem gives_argumentCell {index : Nat} (hindex : index < call.arguments.length) :
    Gives (cx.argumentCell call index) fun _ => True :=
  .bind (gives_argument hcall hindex) fun _ hr => (gives_register hr).any

theorem gives_initIntent (hindex : 0 < call.arguments.length) (key : BvExpr) :
    Gives (cx.initIntent call key) cx.Anchored :=
  .bind (gives_argument hcall hindex) fun _ hreceiver =>
    .bind (gives_register hreceiver) fun _ _ =>
      .bind (gives_assign hreceiver undecided_nil _) fun steps _ =>
        .pure (anchored_cons undecided_nil steps)

include hlayout

theorem gives_putExtra (harity : 3 ≤ call.arguments.length) :
    Gives (LibraryEffect.putExtra.compile cx call) cx.Anchored := by
  refine .bind (gives_argument hcall (by omega)) fun receiver hreceiver => ?_
  refine .bind (gives_argument hcall (by omega)) fun keyRegister hkey => ?_
  refine .bind (gives_argument hcall (by omega)) fun valueRegister hvalue => ?_
  refine .bind (gives_register hreceiver) fun intent _ => ?_
  refine .bind (gives_register hkey) fun key _ => ?_
  refine .bind (gives_register hvalue) fun value _ => ?_
  refine .bind (gives_updateAndLift hlayout (fun state hstate => ?_) hvalue) fun steps hsteps =>
    .pure (anchored_cons_of_fact _ hsteps)
  refine .bind (hstate.taint hreceiver value.high) fun tainted htainted => ?_
  exact .bind (htainted.register hreceiver) fun cell _ => htainted.set returnSlot_lt cell

theorem gives_putEntry (harity : 3 ≤ call.arguments.length) :
    Gives (LibraryEffect.putEntry.compile cx call) cx.Anchored := by
  refine .bind (gives_argument hcall (by omega)) fun mapRegister hmap => ?_
  refine .bind (gives_argument hcall (by omega)) fun keyRegister hkey => ?_
  refine .bind (gives_argument hcall (by omega)) fun valueRegister hvalue => ?_
  refine .bind (gives_register hmap) fun map _ => ?_
  refine .bind (gives_register hkey) fun key _ => ?_
  refine .bind (gives_register hvalue) fun value _ => ?_
  exact .bind (gives_updateAndLift hlayout (fun state hstate => hstate.set returnSlot_lt _) hvalue)
    fun steps hsteps => .pure (anchored_cons_of_fact _ hsteps)

/-- The effects that store their second argument into their first one. -/
theorem gives_storeArgument (harity : 2 ≤ call.arguments.length)
    (fact : Cell → Cell → Clause) :
    Gives (do
      let holderRegister ← call.argument 0
      let valueRegister ← call.argument 1
      let holder ← cx.register holderRegister
      let value ← cx.register valueRegister
      cx.store (fact holder value) valueRegister) cx.Anchored := by
  refine .bind (gives_argument hcall (by omega)) fun holderRegister hholder => ?_
  refine .bind (gives_argument hcall (by omega)) fun valueRegister hvalue => ?_
  refine .bind (gives_register hholder) fun holder _ => ?_
  refine .bind (gives_register hvalue) fun value _ => ?_
  exact gives_store hlayout _ hvalue

/-- The rule of a library method applies to every call that passes enough registers. -/
theorem gives_libraryEffect {effect : LibraryEffect}
    (harity : effect.arity ≤ call.arguments.length) :
    Gives (effect.compile cx call) cx.Anchored := by
  have hcell : ∀ {index}, index < call.arguments.length →
      Gives (cx.argumentCell call index) fun _ => True := fun hindex =>
    gives_argumentCell hcall hindex
  -- the last argument that a rule reads has the index before its arity, where `harity` applies
  cases effect with
  | newIntentForAction =>
      exact .bind (hcell harity) fun action _ =>
        gives_initIntent hcall (Nat.lt_of_lt_of_le (by decide) harity) action.value
  | newIntentForComponent =>
      exact .bind (hcell harity) fun component _ =>
        gives_initIntent hcall (Nat.lt_of_lt_of_le (by decide) harity) component.value
  | newIntent => exact gives_initIntent hcall harity _
  | putExtra => exact gives_putExtra hlayout hcall harity
  | getAction => exact .bind (hcell harity) fun _ _ => gives_returns (undecided_atom _) _
  | getExtra => exact .bind (hcell harity) fun _ _ => gives_returns (undecided_atom _) _
  | retargetIntent =>
      refine .bind (gives_argument hcall harity) fun receiver hreceiver => ?_
      refine .bind (gives_argument hcall (Nat.sub_lt harity Nat.one_pos))
        fun component hcomponent => ?_
      refine .bind (gives_register hreceiver) fun intent _ => ?_
      refine .bind (gives_register hcomponent) fun target _ => ?_
      exact .bind (gives_returns undecided_nil intent) fun steps hsteps =>
        .pure (anchored_cons_of_fact _ hsteps)
  | startActivity =>
      exact .bind (hcell harity) fun _ _ => .pure (anchored_cons (undecided_atom _) _)
  | setResult => exact .bind (hcell harity) fun _ _ => .pure (anchored_cons (undecided_atom _) _)
  | getIntent => exact gives_returns (undecided_atom _) _
  | marshallParcel => exact .bind (hcell harity) fun parcel _ => gives_returns undecided_nil parcel
  | unmarshallParcel =>
      refine .bind (gives_argument hcall (Nat.lt_of_lt_of_le (by decide) harity))
        fun receiver hreceiver => ?_
      exact .bind (hcell harity) fun bytes _ => gives_assign hreceiver undecided_nil bytes
  | writeParcel => exact gives_storeArgument hlayout hcall harity _
  | readParcel => exact .bind (hcell harity) fun _ _ => gives_returns (undecided_atom _) _
  | newException => exact gives_storeArgument hlayout hcall harity _
  | getMessage => exact .bind (hcell harity) fun _ _ => gives_returns (undecided_atom _) _
  | systemObject =>
      exact .bind (gives_returns undecided_nil _) fun steps _ =>
        .pure (anchored_cons undecided_nil steps)
  | newPoint =>
      refine .bind (hcell (Nat.lt_of_lt_of_le (by decide) harity)) fun point _ => ?_
      refine .bind (hcell (Nat.lt_of_lt_of_le (by decide) harity)) fun x _ => ?_
      exact .bind (hcell harity) fun y _ => .pure (anchored_cons undecided_nil _)
  | putEntry => exact gives_putEntry hlayout hcall harity
  | getEntry =>
      refine .bind (hcell (Nat.lt_of_lt_of_le (by decide) harity)) fun map _ => ?_
      exact .bind (hcell harity) fun key _ => gives_returns (undecided_atom _) _
  | copyChars =>
      refine .bind (hcell (Nat.lt_of_lt_of_le (by decide) harity)) fun text _ => ?_
      exact .bind (hcell harity) fun chars _ => .pure (anchored_cons (undecided_atom _) _)
  | newFormatter =>
      refine .bind (hcell (Nat.lt_of_lt_of_le (by decide) harity)) fun formatter _ => ?_
      exact .bind (hcell harity) fun buffer _ => .pure (anchored_cons undecided_nil _)
  | format =>
      refine .bind (hcell (Nat.lt_of_lt_of_le (by decide) harity)) fun formatter _ => ?_
      refine .bind (hcell (Nat.lt_of_lt_of_le (by decide) harity)) fun pattern _ => ?_
      refine .bind (hcell harity) fun values _ => ?_
      exact .bind (gives_returns undecided_nil formatter) fun steps hsteps =>
        .pure (anchored_cons_of_fact _ hsteps)
  | bufferText =>
      refine .bind (hcell harity) fun buffer _ => ?_
      refine .bind (gives_returns (undecided_atom _) _) fun formatted hformatted => ?_
      exact .bind (gives_returns undecided_nil _) fun plain _ =>
        .pure (hformatted.mono fun _ => List.mem_append_left _)
  | copyArray =>
      refine .bind (hcell (Nat.lt_of_lt_of_le (by decide) harity)) fun source _ => ?_
      exact .bind (hcell harity) fun target _ => .pure (anchored_cons (undecided_atom _) _)
  | getHint =>
      refine .bind (hcell harity) fun view _ => ?_
      refine .bind (gives_returns (undecided_atom _) _) fun stored hstored => ?_
      exact .bind (gives_returns undecided_nil _) fun unset _ =>
        .pure (hstored.mono fun _ => List.mem_append_left _)
  | setHint => exact gives_storeArgument hlayout hcall harity _

/-! ## Unknown methods -/

omit hlayout in
theorem gives_shareArguments (arguments : List Cell) (result : Option Cell) {state : State}
    (hstate : state.Sized cx.shape.slotCount) :
    Gives (cx.shareArguments call arguments result state) (State.Sized cx.shape.slotCount) := by
  refine .bind (.foldlM hstate ?_) fun shared hshared => ?_
  · rintro ⟨r, index⟩ hmem post hpost
    have hr := hcall r (List.fst_mem_of_mem_zipIdx hmem)
    exact .bind (hpost.register hr) fun cell _ => hpost.taint hr _
  · cases result with
    | none => exact .ok hshared
    | some cell => exact hshared.set returnSlot_lt cell

theorem gives_compileUnknownCall : Gives (cx.compileUnknownCall call) cx.Anchored := by
  have harguments : Gives (call.arguments.mapM cx.register) fun _ => True :=
    ⟨_, registers_eq hcall, trivial⟩
  refine .bind harguments fun arguments _ => ?_
  refine .bind (gives_shareArguments hcall arguments _ sized_pre) fun plain _ => ?_
  refine .bind (gives_liftIfAnyLocal hlayout
    (fun state hstate => gives_shareArguments hcall arguments _ hstate) arguments [])
    fun lifted _ => .pure ?_
  exact (anchored_cons undecided_nil lifted).mono fun _ => List.mem_append_right _

end Calls

/-! ## Methods of the program -/

/-- A frame whose parameters fit can be entered with any registers of the caller. -/
theorem gives_entryState {shape : FrameShape} (hshape : shape.WellFormed)
    {arguments : List UInt32} (harguments : ∀ r ∈ arguments, r.toNat < cx.shape.slotCount) :
    Gives (cx.entryState shape arguments) fun _ => True := by
  refine (Gives.foldlM (State.sized_zeroed shape _ _) ?_).any
  rintro ⟨r, i⟩ hmem entry hentry
  have hr := harguments r (List.mem_of_mem_take (List.fst_mem_of_mem_zipIdx hmem))
  have hi : i < shape.numArguments := by
    have hlt := List.snd_lt_of_mem_zipIdx hmem
    rw [List.length_take] at hlt
    omega
  -- parameters are the last registers, and their copies follow the slot of the result
  have hfits : shape.numArguments ≤ shape.numRegisters := hshape
  have hparameter : shape.numRegisters - shape.numArguments + i < shape.slotCount := by
    rw [FrameShape.slotCount]
    omega
  have hcopy : shape.argumentCopy i < shape.slotCount := by
    rw [FrameShape.argumentCopy, FrameShape.slotCount]
    omega
  refine .bind (gives_register hr) fun argument _ => ?_
  simp only [FrameShape.parameterRegister?, if_pos hshape]
  exact .bind (hentry.set hparameter argument) fun entered hentered =>
    hentered.set hcopy argument

theorem gives_enter {shape : FrameShape} (hshape : shape.WellFormed) {arguments : List UInt32}
    (harguments : ∀ r ∈ arguments, r.toNat < cx.shape.slotCount) (owner : ClassId)
    (method : MethodId) (guards : List Formula) :
    Gives (cx.enter arguments owner method shape guards) fun clause =>
      ∃ head, clause = cx.derive guards head :=
  .bind (gives_entryState hshape harguments) fun _ _ => .pure ⟨_, rfl⟩

section Targets

variable (hcall : ∀ r ∈ call.arguments, r.toNat < cx.shape.slotCount)

include hcall

theorem gives_leave (target : CallTarget) (guards : List Formula) :
    Gives (cx.leave call target guards) fun _ => True := by
  unfold leave
  refine .bind (.mapM fun i _ => (?_ : Gives _ fun _ => True)) fun arguments _ => ?_
  · split
    · exact (gives_register (hcall _ (List.mem_of_getElem? (by assumption)))).any
    · exact .ok trivial
  · dsimp only
    split
    · refine .bind (State.Sized.set (sized_pre.mapRegisters _ _) returnSlot_lt _) fun _ _ => ?_
      exact .pure trivial
    · exact .pure trivial

/-- The guards of a target are alternatives, of which there is at least one when the target has a
receiver. -/
theorem gives_receiverGuards {receivers : Option (List InstanceId)} (hne : receivers ≠ some []) :
    Gives (cx.receiverGuards call.receiver? receivers) fun alternatives =>
      alternatives ≠ [] ∧ ∀ guards ∈ alternatives, Undecided guards := by
  unfold receiverGuards
  split
  · rename_i r ids hreceiver
    have hr := hcall r (CallSite.mem_arguments_of_receiver? hreceiver)
    refine .bind (gives_register hr) ?_
    rintro cell rfl
    refine .pure ⟨?_, fun guards hguards => ?_⟩
    · simpa using hne
    · obtain ⟨id, -, rfl⟩ := List.mem_map.mp hguards
      exact undecided_register _ _ _
  · exact .ok ⟨by simp, List.forall_mem_singleton.mpr undecided_nil⟩

theorem gives_linkTarget {target : CallTarget} (hshape : target.shape.WellFormed)
    (hne : target.receivers ≠ some []) : Gives (cx.linkTarget call target) cx.Anchored := by
  refine .bind (gives_receiverGuards hcall hne) ?_
  rintro alternatives ⟨hsome, hguards⟩
  have hlinked : ∀ guards ∈ alternatives, Gives (do
      let entry ← cx.enter call.arguments target.owner target.method target.shape guards
      let exit ← cx.leave call target guards
      return [entry, exit]) cx.Anchored := by
    intro guards hmem
    refine .bind (gives_enter hshape hcall _ _ guards) ?_
    rintro entry ⟨head, rfl⟩
    exact .bind (gives_leave hcall target guards) fun exit _ =>
      .pure (anchored_cons (hguards guards hmem) [exit])
  refine .bind (.mapM hlinked) ?_
  rintro clauses ⟨hlength, hclauses⟩
  exact .pure (anchored_flatten hsome hlength hclauses)

end Targets

theorem gives_startThreads {arguments : List UInt32} {implementations : List Implementation}
    (hne : arguments ≠ []) (harguments : ∀ r ∈ arguments, r.toNat < cx.shape.slotCount) :
    Gives (cx.startThreads arguments implementations) cx.Anchored := by
  have hhead : (arguments.headD 0).toNat < cx.shape.slotCount :=
    harguments _ (CallSite.headD_mem hne)
  refine .bind (gives_register hhead) fun receiver _ => ?_
  have hstarted : ∀ implementation ∈ implementations.filter (·.shape.WellFormed),
      Gives (implementation.receivers.mapM fun id =>
        cx.enter arguments implementation.owner implementation.method implementation.shape
          [receiver.value.eqTo (cx.idLiteral id)]) fun _ => True := by
    intro implementation himplementation
    have hshape : implementation.shape.WellFormed := by
      simpa using (List.mem_filter.mp himplementation).2
    exact (Gives.mapM fun id _ => (gives_enter hshape harguments implementation.owner
      implementation.method [receiver.value.eqTo (cx.idLiteral id)]).any).any
  refine .bind (.mapM hstarted) fun entries _ => .pure ?_
  exact anchored_of_mem undecided_nil (List.mem_append_right _ (List.mem_singleton_self _))

/-! ## Calls -/

/-- Every implementation that an oracle lists has a receiver. -/
def ListsReceivers (oracle : Oracle) : Prop :=
  ∀ owner method found, oracle.resolveVirtual owner method = some found →
    ∀ implementation ∈ found, implementation.receivers ≠ []

theorem receivers_of_mem_targets {oracle : Oracle} (horacle : ListsReceivers oracle)
    {target : CallTarget} (h : target ∈ call.targets oracle) : target.receivers ≠ some [] := by
  obtain ⟨found, hfound, implementation, hmem, rfl⟩ | ⟨-, -, -, -, rfl⟩ :=
    CallSite.mem_targets_cases h
  · simpa using horacle _ _ found hfound implementation hmem
  · simp

/-- The four ways in which a call is linked, with what is known in each of them. -/
theorem linkage_cases (call : CallSite) (oracle : Oracle) (libraryRulesUsed : Bool) :
    (∃ arguments implementations,
      call.linkage oracle libraryRulesUsed = .remapped arguments implementations ∧
        call.remapped? oracle = some (arguments, implementations)) ∨
    (call.linkage oracle libraryRulesUsed = .resolved (call.targets oracle) ∧
      call.targets oracle ≠ []) ∨
    (∃ effect, call.linkage oracle libraryRulesUsed = .library effect ∧
      call.libraryEffect? = some effect) ∨
    call.linkage oracle libraryRulesUsed = .unknown := by
  unfold CallSite.linkage
  cases hremapped : call.remapped? oracle with
  | some remapped => exact .inl ⟨remapped.1, remapped.2, rfl, rfl⟩
  | none =>
      dsimp only
      by_cases hnone : call.targets oracle = []
      · rw [if_pos (List.isEmpty_iff.mpr hnone)]
        cases heffect : call.libraryEffect? with
        | none => cases libraryRulesUsed <;> exact .inr (.inr (.inr rfl))
        | some effect =>
            cases libraryRulesUsed with
            | false => exact .inr (.inr (.inr rfl))
            | true => exact .inr (.inr (.inl ⟨effect, rfl, rfl⟩))
      · rw [if_neg fun hempty => hnone (List.isEmpty_iff.mp hempty)]
        exact .inr (.inl ⟨rfl, hnone⟩)

/-- A call that passes registers of its frame is linked, whichever way, and has a clause that
starts at the call. -/
theorem gives_compileCall (hlayout : cx.layout.Registered) (horacle : ListsReceivers cx.oracle)
    (hcall : ∀ r ∈ call.arguments, r.toNat < cx.shape.slotCount) :
    Gives (cx.compileCall call) cx.Anchored := by
  unfold compileCall
  rcases linkage_cases call cx.oracle cx.env.config.intentSummaries with
    ⟨arguments, implementations, hlinkage, hremapped⟩ | ⟨hlinkage, hsome⟩ |
    ⟨effect, hlinkage, heffect⟩ | hlinkage
  · rw [hlinkage]
    obtain ⟨hsub, hne, -⟩ := CallSite.remapped?_eq_some hremapped
    exact gives_startThreads hne fun r hr => hcall r (hsub r hr)
  · rw [hlinkage]
    refine .bind (.mapM fun target htarget => gives_linkTarget hcall
      (CallSite.targets_of_mem_targets htarget).2
      (receivers_of_mem_targets horacle htarget)) ?_
    rintro clauses ⟨hlength, hclauses⟩
    exact .pure (anchored_flatten hsome hlength hclauses)
  · rw [hlinkage]
    exact gives_libraryEffect hlayout hcall (CallSite.arity_le_length heffect)
  · rw [hlinkage]
    exact gives_compileUnknownCall hlayout hcall

end StepContext

end DalvikHorn
