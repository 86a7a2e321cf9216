import DalvikHorn.Proofs.Parallel
import DalvikHorn.Proofs.StateValuations

/-!
# Raised labels

The labels of a state can be raised without changing anything else: values, flags and
the heap stay, and what was secret stays secret.  `Valuation.raise` raises the values
of label variables.  A term is *fixed* when no label occurs in it, so that it keeps its
value (`Formula.Fixed.eval_raise`).  A label *rises* to another one when the second is
true under raised labels whenever the first is true.  A state whose values and flags
are fixed and whose labels rise denotes a raised state
(`State.RisesTo.exists_denotes`).

Every constructor that states are built with keeps them rising, so the proof that a
state rises follows the state.
-/

namespace DalvikHorn

/-! ## Names of labels -/

namespace Names

/-- Whether a name is that of a label of a state, by its first letters. -/
def isStateLabel (name : String) : Bool :=
  match name.toList with
  | 'h' :: _ => true
  | 'l' :: 'h' :: 'h' :: _ => true
  | _ => false

/-- The labels of what is read from a heap. -/
def readLabels : List String :=
  [fieldHigh, anyHigh, readHigh]

/-- Whether a name is that of a label. -/
def isLabel (name : String) : Bool :=
  isStateLabel name || readLabels.contains name

theorem isStateLabel_of_mem {name : String} (h : name ∈ readLabels) :
    isStateLabel name = false := by
  have hnone : ∀ name ∈ readLabels, isStateLabel name = false := by decide
  exact hnone name h

theorem isLabel_of_mem {name : String} (h : name ∈ readLabels) : isLabel name = true := by
  rw [isLabel, List.contains_iff_mem.mpr h, Bool.or_true]

theorem isLabel_of_isStateLabel {name : String} (h : isStateLabel name = true) :
    isLabel name = true := by
  rw [isLabel, h, Bool.true_or]

/-- A name is no label when its first letters are those of no label. -/
theorem isLabel_eq_false {name : String} (hstate : isStateLabel name = false)
    (hread : ∀ label ∈ readLabels, label.toList ≠ name.toList) : isLabel name = false := by
  rw [isLabel, hstate, Bool.false_or]
  refine Bool.eq_false_iff.mpr fun hmem => ?_
  exact hread name (List.contains_iff_mem.mp hmem) rfl

theorem isStateLabel_high (i : Nat) : isStateLabel (high i) = true := by
  simp [isStateLabel, toList_high]

theorem isStateLabel_slotHigh (k : Nat) : isStateLabel (slotHigh ownHeap k) = true := by
  simp [isStateLabel, slotHigh, ownHeap, toString]

theorem isLabel_value (i : Nat) : isLabel (value i) = false :=
  isLabel_eq_false (by simp [isStateLabel, toList_value])
    (by simp [readLabels, fieldHigh, anyHigh, readHigh, toList_value])

theorem isLabel_isGlobal (i : Nat) : isLabel (isGlobal i) = false :=
  isLabel_eq_false (by simp [isStateLabel, toList_isGlobal])
    (by simp [readLabels, fieldHigh, anyHigh, readHigh, toList_isGlobal])

/-- A number does not start with a letter, so `l3` is no label. -/
theorem isLabel_isLocal (i : Nat) : isLabel (isLocal i) = false := by
  have hdigit : ∀ c ∈ Nat.toDigits 10 i, c.isDigit = true := fun c hc =>
    Nat.isDigit_of_mem_toDigits (by decide) (by decide) hc
  have hletter : ∀ c rest, Nat.toDigits 10 i = c :: rest → c ≠ 'h' ∧ c ≠ 'f' ∧ c ≠ 'v' := by
    intro c rest hdigits
    have hc := hdigit c (hdigits ▸ List.mem_cons_self)
    refine ⟨?_, ?_, ?_⟩ <;>
      rintro rfl <;>
      simp at hc
  cases hdigits : Nat.toDigits 10 i with
  | nil =>
      exact isLabel_eq_false (by simp [isStateLabel, toList_isLocal, hdigits])
        (by simp [readLabels, fieldHigh, anyHigh, readHigh, toList_isLocal, hdigits])
  | cons c rest =>
      obtain ⟨hh, hf, hv⟩ := hletter c rest hdigits
      exact isLabel_eq_false (by simp [isStateLabel, toList_isLocal, hdigits, hh])
        (by simp [readLabels, fieldHigh, anyHigh, readHigh, toList_isLocal, hdigits, hf.symm,
          hv.symm])

/-- Of the names of a heap slot only one is a label. -/
theorem isLabel_slot (k : Nat) :
    isLabel (slotValue ownHeap k) = false ∧ isLabel (slotLocal ownHeap k) = false ∧
      isLabel (slotGlobal ownHeap k) = false ∧ isLabel (slotFree ownHeap k) = false := by
  refine ⟨isLabel_eq_false ?_ ?_, isLabel_eq_false ?_ ?_, isLabel_eq_false ?_ ?_,
    isLabel_eq_false ?_ ?_⟩ <;>
    simp [isStateLabel, readLabels, fieldHigh, anyHigh, readHigh, slotValue, slotLocal, slotGlobal,
      slotFree, ownHeap, toString]

theorem isLabel_auxiliaryValue (name : String) [hname : AuxiliaryValue name] :
    isLabel name = false := by
  have hnone : ∀ name ∈ auxiliaryValues, isLabel name = false := by decide
  exact hnone name hname.mem

/-- No label is among some variables. -/
def LabelFree (vars : List (String × TermSort)) : Prop :=
  ∀ v ∈ vars, isLabel v.1 = false

@[simp] theorem labelFree_nil : LabelFree [] := by
  intro v hv
  cases hv

@[simp] theorem labelFree_append {first second : List (String × TermSort)} :
    LabelFree (first ++ second) ↔ LabelFree first ∧ LabelFree second :=
  List.forall_mem_append

@[simp] theorem labelFree_singleton {name : String} {sort : TermSort} :
    LabelFree [(name, sort)] ↔ isLabel name = false := by
  simp [LabelFree]

end Names

/-! ## Raised valuations -/

/-- A value that is raised when it is a truth value. -/
def Value.raise (raised : Bool) : Value → Value
  | .bool value => .bool (value || raised)
  | other => other

theorem Value.HasSort.raise {value : Value} {sort : TermSort} (h : value.HasSort sort)
    (raised : Bool) : (value.raise raised).HasSort sort := by
  cases value <;> cases sort <;> exact h

namespace Valuation

/-- A valuation with raised labels. -/
def raise (env : Valuation) (labels : String → Bool) : Valuation := fun name =>
  if Names.isLabel name then (env name).map (Value.raise (labels name)) else env name

variable {env : Valuation} {labels : String → Bool} {name : String}

theorem raise_of_not_label (h : Names.isLabel name = false) : env.raise labels name = env name :=
  if_neg (by rw [h]; decide)

theorem bool?_raise (h : Names.isLabel name = true) {value : Bool}
    (hvalue : env.bool? name = some value) :
    (env.raise labels).bool? name = some (value || labels name) := by
  have hbound : env name = some (.bool value) := by
    unfold bool? at hvalue
    split at hvalue
    · rename_i hname
      rw [hname, Option.some.inj hvalue]
    · cases hvalue
  simp [bool?, raise, h, hbound, Value.raise]

theorem Complete.raise {width : Nat} (h : env.Complete width) (labels : String → Bool) :
    (env.raise labels).Complete width := by
  intro name
  obtain ⟨value, hvalue, hsort⟩ := h name
  unfold Valuation.raise
  split
  · exact ⟨value.raise (labels name), by rw [hvalue]; rfl, hsort.raise _⟩
  · exact ⟨value, hvalue, hsort⟩

end Valuation

/-! ## Fixed terms -/

/-- A sorted bit-vector term without labels. -/
structure BvExpr.Fixed (width : Nat) (expr : BvExpr) : Prop extends expr.Sorted width where
  labelFree : Names.LabelFree expr.vars

/-- A sorted formula without labels. -/
structure Formula.Fixed (width : Nat) (formula : Formula) : Prop extends formula.Sorted width where
  labelFree : Names.LabelFree formula.vars

/-- A sorted argument without labels. -/
structure Term.Fixed (width : Nat) (term : Term) : Prop where
  sorted : term.Sorted width
  labelFree : Names.LabelFree term.vars

section Fixed

variable {width : Nat} {env : Valuation}

theorem BvExpr.Fixed.eval_raise {expr : BvExpr} (h : expr.Fixed width) (labels : String → Bool) :
    expr.eval (env.raise labels) = expr.eval env :=
  BvExpr.eval_congr expr fun v hv => Valuation.raise_of_not_label (h.labelFree v hv)

theorem Formula.Fixed.eval_raise {formula : Formula} (h : formula.Fixed width)
    (labels : String → Bool) : formula.eval (env.raise labels) = formula.eval env :=
  Formula.eval_congr formula fun v hv => Valuation.raise_of_not_label (h.labelFree v hv)

theorem Term.Fixed.eval_raise {term : Term} (h : term.Fixed width) (labels : String → Bool) :
    term.eval (env.raise labels) = term.eval env :=
  Term.eval_congr fun v hv => Valuation.raise_of_not_label (h.labelFree v hv)

theorem BvExpr.Fixed.term {expr : BvExpr} (h : expr.Fixed width) : (Term.bv expr).Fixed width :=
  ⟨h.toSorted, by simpa using h.labelFree⟩

theorem Term.fixed_int (value : Int) : (Term.int (.lit value)).Fixed width :=
  ⟨trivial, by simp⟩

namespace BvExpr

theorem fixed_ofInt (value : Int) : (ofInt value width).Fixed width :=
  ⟨sorted_ofInt value, by simp [ofInt]⟩

theorem fixed_zero : (zero width).Fixed width :=
  ⟨sorted_zero, by simp [zero]⟩

theorem fixed_auxiliary {name : String} [Names.AuxiliaryValue name] :
    (BvExpr.var name width).Fixed width :=
  ⟨sorted_auxiliary, by simpa using Names.isLabel_auxiliaryValue name⟩

theorem Fixed.unary {op : BvUnary} {operand : BvExpr} (h : operand.Fixed width) :
    (BvExpr.unary op operand).Fixed width :=
  ⟨h.toSorted.unary, by simpa using h.labelFree⟩

theorem Fixed.binary {op : BvBinary} {left right : BvExpr} (hleft : left.Fixed width)
    (hright : right.Fixed width) : (BvExpr.binary op left right).Fixed width :=
  ⟨hleft.toSorted.binary hright.toSorted, by simpa using ⟨hleft.labelFree, hright.labelFree⟩⟩

theorem Fixed.compare {op : BvCompare} {left right : BvExpr} (hleft : left.Fixed width)
    (hright : right.Fixed width) : (Formula.compare op left right).Fixed width :=
  ⟨hleft.toSorted.compare hright.toSorted, by simpa using ⟨hleft.labelFree, hright.labelFree⟩⟩

theorem Fixed.eqTo {left right : BvExpr} (hleft : left.Fixed width) (hright : right.Fixed width) :
    (left.eqTo right).Fixed width :=
  hleft.compare hright

theorem Fixed.select {condition : Formula} {yes no : BvExpr} (hcondition : condition.Fixed width)
    (hyes : yes.Fixed width) (hno : no.Fixed width) : (select condition yes no).Fixed width := by
  refine ⟨BvExpr.Sorted.select hcondition.toSorted hyes.toSorted hno.toSorted, ?_⟩
  refine @select_of_branches (fun expr => Names.LabelFree expr.vars) condition yes no
    hyes.labelFree hno.labelFree ?_
  simpa using ⟨hcondition.labelFree, hyes.labelFree, hno.labelFree⟩

end BvExpr

namespace Formula

theorem fixed_const (value : Bool) : (Formula.const value).Fixed width :=
  ⟨sorted_const value, by simp⟩

theorem fixed_var {name : String} (hvariable : Names.IsVariable width name .bool)
    (hname : Names.isLabel name = false) : (Formula.var name).Fixed width :=
  ⟨sorted_var hvariable, by simpa using hname⟩

theorem fixed_not_iff {inner : Formula} : (Formula.not inner).Fixed width ↔ inner.Fixed width :=
  ⟨fun h => ⟨sorted_not_iff.mp h.toSorted, by simpa using h.labelFree⟩,
    fun h => ⟨sorted_not_iff.mpr h.toSorted, by simpa using h.labelFree⟩⟩

theorem labelFree_varsList {parts : List Formula} :
    Names.LabelFree (varsList parts) ↔ ∀ part ∈ parts, Names.LabelFree part.vars := by
  constructor
  · exact fun h part hpart v hv => h v (mem_varsList.mpr ⟨part, hpart, hv⟩)
  · intro h v hv
    obtain ⟨part, hpart, hmem⟩ := mem_varsList.mp hv
    exact h part hpart v hmem

theorem fixed_and_iff (parts : List Formula) :
    (Formula.and parts).Fixed width ↔ ∀ part ∈ parts, part.Fixed width := by
  constructor
  · intro h part hpart
    have hfree : Names.LabelFree (varsList parts) := by simpa using h.labelFree
    exact ⟨(sorted_and_iff parts).mp h.toSorted part hpart,
      labelFree_varsList.mp hfree part hpart⟩
  · intro h
    refine ⟨(sorted_and_iff parts).mpr fun part hpart => (h part hpart).toSorted, ?_⟩
    simpa using labelFree_varsList.mpr fun part hpart => (h part hpart).labelFree

theorem fixed_or_iff (parts : List Formula) :
    (Formula.or parts).Fixed width ↔ ∀ part ∈ parts, part.Fixed width := by
  constructor
  · intro h part hpart
    have hfree : Names.LabelFree (varsList parts) := by simpa using h.labelFree
    exact ⟨(sorted_or_iff parts).mp h.toSorted part hpart,
      labelFree_varsList.mp hfree part hpart⟩
  · intro h
    refine ⟨(sorted_or_iff parts).mpr fun part hpart => (h part hpart).toSorted, ?_⟩
    simpa using labelFree_varsList.mpr fun part hpart => (h part hpart).labelFree

theorem fixed_all {parts : List Formula} (h : ∀ part ∈ parts, part.Fixed width) :
    (all parts).Fixed width :=
  all_of_parts fixed_const fixed_and_iff h

theorem fixed_any {parts : List Formula} (h : ∀ part ∈ parts, part.Fixed width) :
    (any parts).Fixed width :=
  any_of_parts fixed_const fixed_or_iff h

theorem Fixed.negate {inner : Formula} (h : inner.Fixed width) : inner.negate.Fixed width :=
  negate_of_inner fixed_const (fun _ => fixed_not_iff) h

theorem Fixed.both {left right : Formula} (hleft : left.Fixed width) (hright : right.Fixed width) :
    (left.both right).Fixed width :=
  fixed_all (by simp [hleft, hright])

theorem Fixed.either {left right : Formula} (hleft : left.Fixed width)
    (hright : right.Fixed width) : (left.either right).Fixed width :=
  fixed_any (by simp [hleft, hright])

end Formula

end Fixed

/-! ## Rising labels -/

/-- A sorted label that, once true, another one is also true under raised labels. -/
structure Formula.RisesTo (width : Nat) (label label' : Formula) : Prop where
  sorted : label.Sorted width
  sorted' : label'.Sorted width
  raises : ∀ (env : Valuation) (labels : String → Bool), label.eval env = some true →
    label'.eval (env.raise labels) = some true

namespace Formula

variable {width : Nat}

theorem Fixed.rises {label : Formula} (h : label.Fixed width) : label.RisesTo width label :=
  ⟨h.toSorted, h.toSorted, fun _ labels htrue => (h.eval_raise labels).trans htrue⟩

theorem rises_const (value : Bool) : (Formula.const value).RisesTo width (.const value) :=
  (fixed_const value).rises

theorem Sorted.risesTo_true {label : Formula} (h : label.Sorted width) :
    label.RisesTo width .tt :=
  ⟨h, sorted_const true, fun _ _ _ => by rw [tt, eval]⟩

theorem rises_var {name : String} (hvariable : Names.IsVariable width name .bool)
    (hname : Names.isLabel name = true) : (Formula.var name).RisesTo width (.var name) := by
  refine ⟨sorted_var hvariable, sorted_var hvariable, fun env labels htrue => ?_⟩
  rw [eval] at htrue ⊢
  rw [Valuation.bool?_raise hname htrue, Bool.true_or]

theorem rises_readLabel {name : String} [Names.AuxiliaryFlag name]
    (hname : name ∈ Names.readLabels) :
    (Formula.var name).RisesTo width (.var name) :=
  rises_var (Names.isVariable_auxiliaryFlag width name) (Names.isLabel_of_mem hname)

theorem RisesTo.either {left left' right right' : Formula} (hleft : left.RisesTo width left')
    (hright : right.RisesTo width right') :
    (left.either right).RisesTo width (left'.either right') := by
  refine ⟨hleft.sorted.either hright.sorted, hleft.sorted'.either hright.sorted', ?_⟩
  intro env labels htrue
  rw [eval_either, kleeneOr_eq_true_iff] at htrue ⊢
  exact htrue.imp (hleft.raises env labels) (hright.raises env labels)

theorem RisesTo.both {left left' right right' : Formula} (hleft : left.RisesTo width left')
    (hright : right.RisesTo width right') :
    (left.both right).RisesTo width (left'.both right') := by
  refine ⟨hleft.sorted.both hright.sorted, hleft.sorted'.both hright.sorted', ?_⟩
  intro env labels htrue
  rw [eval_both, kleeneAnd_eq_true_iff] at htrue ⊢
  exact htrue.imp (hleft.raises env labels) (hright.raises env labels)

theorem evalAny_eq_true_iff {env : Valuation} (parts : List Formula) :
    evalAny env parts = some true ↔ ∃ part ∈ parts, part.eval env = some true := by
  induction parts with
  | nil => simp [evalAny]
  | cons part rest ih => rw [evalAny, kleeneOr_eq_true_iff, ih, List.exists_mem_cons_iff]

theorem rises_any {parts : List Formula} (h : ∀ part ∈ parts, part.RisesTo width part) :
    (any parts).RisesTo width (any parts) := by
  have hsorted : (any parts).Sorted width := sorted_any fun part hpart => (h part hpart).sorted
  refine ⟨hsorted, hsorted, fun env labels htrue => ?_⟩
  rw [eval_any, evalAny_eq_true_iff] at htrue ⊢
  obtain ⟨part, hpart, hvalue⟩ := htrue
  exact ⟨part, hpart, (h part hpart).raises env labels hvalue⟩

/-- Under complete valuations both labels have values, of which the second covers the first. -/
theorem RisesTo.exists_eval {label label' : Formula} (h : label.RisesTo width label')
    {env : Valuation} (henv : env.Complete width) (labels : String → Bool) {value : Bool}
    (hvalue : label.eval env = some value) :
    ∃ value', label'.eval (env.raise labels) = some value' ∧ (value = true → value' = true) := by
  obtain ⟨value', hvalue'⟩ := Formula.exists_eval label' h.sorted'.applications
    ((henv.raise labels).admits h.sorted'.vars)
  refine ⟨value', hvalue', ?_⟩
  rintro rfl
  exact Option.some.inj (hvalue'.symm.trans (h.raises env labels hvalue))

end Formula

/-! ## Raised states -/

/-- The same value with a label that covers the first one. -/
structure CellValue.Raised (cell cell' : CellValue) : Prop where
  value_eq : cell'.value = cell.value
  high_le : cell.high = true → cell'.high = true
  isLocal_eq : cell'.isLocal = cell.isLocal
  isGlobal_eq : cell'.isGlobal = cell.isGlobal

/-- The same slot with a label that covers the first one. -/
structure SlotValue.Raised (slot slot' : SlotValue) : Prop where
  cell : slot.cell.Raised slot'.cell
  free_eq : slot'.free = slot.free

/-- The same state with labels that cover the first ones. -/
structure StateValue.Raised (state state' : StateValue) : Prop where
  registers : List.Forall₂ CellValue.Raised state.registers state'.registers
  heap : List.Forall₂ SlotValue.Raised state.heap state'.heap

/-- A cell with fixed components, and the same cell with a label that covers the first one. -/
structure Cell.RisesTo (width : Nat) (cell cell' : Cell) : Prop where
  value : cell.value.Fixed width
  high : cell.high.RisesTo width cell'.high
  isLocal : cell.isLocal.Fixed width
  isGlobal : cell.isGlobal.Fixed width
  value_eq : cell'.value = cell.value
  isLocal_eq : cell'.isLocal = cell.isLocal
  isGlobal_eq : cell'.isGlobal = cell.isGlobal

/-- A cell with fixed components and a rising label. -/
def Cell.Rises (width : Nat) (cell : Cell) : Prop :=
  cell.RisesTo width cell

/-- A slot whose cell rises. -/
structure HeapSlot.Rises (width : Nat) (slot : HeapSlot) : Prop where
  cell : slot.cell.Rises width
  free : slot.free.Fixed width

/-- A state with rising labels, and the same state with registers whose labels cover the first
ones. -/
structure State.RisesTo (width : Nat) (state state' : State) : Prop where
  registers : List.Forall₂ (Cell.RisesTo width) state.registers state'.registers
  heap : ∀ slot ∈ state.heap, slot.Rises width
  heap_eq : state'.heap = state.heap

/-- A state with rising labels. -/
def State.Rises (width : Nat) (state : State) : Prop :=
  state.RisesTo width state

section States

variable {width : Nat} {env : Valuation}

namespace Cell

theorem rises_mk {cell : Cell} (hvalue : cell.value.Fixed width)
    (hhigh : cell.high.RisesTo width cell.high) (hlocal : cell.isLocal.Fixed width)
    (hglobal : cell.isGlobal.Fixed width) : cell.Rises width :=
  ⟨hvalue, hhigh, hlocal, hglobal, rfl, rfl, rfl⟩

theorem risesTo_scalar {value : BvExpr} {high high' : Formula} (hvalue : value.Fixed width)
    (hhigh : high.RisesTo width high') : (scalar value high).RisesTo width (scalar value high') :=
  ⟨hvalue, hhigh, Formula.fixed_const _, Formula.fixed_const _, rfl, rfl, rfl⟩

theorem risesTo_globalRef {object : BvExpr} {high high' : Formula} (hobject : object.Fixed width)
    (hhigh : high.RisesTo width high') :
    (globalRef object high).RisesTo width (globalRef object high') :=
  ⟨hobject, hhigh, Formula.fixed_const _, Formula.fixed_const _, rfl, rfl, rfl⟩

theorem rises_zero : (zero width).Rises width :=
  risesTo_scalar BvExpr.fixed_zero (Formula.rises_const _)

theorem rises_localRef {object : BvExpr} (hobject : object.Fixed width) :
    (localRef object).Rises width :=
  rises_mk hobject (Formula.rises_const _) (Formula.fixed_const _) (Formula.fixed_const _)

theorem rises_register (i : Nat) : (register i width).Rises width :=
  rises_mk ⟨(sorted_register i).value, by simpa [register] using Names.isLabel_value i⟩
    (Formula.rises_var (Names.isVariable_high _ _)
      (Names.isLabel_of_isStateLabel (Names.isStateLabel_high i)))
    (Formula.fixed_var (Names.isVariable_isLocal _ _) (Names.isLabel_isLocal i))
    (Formula.fixed_var (Names.isVariable_isGlobal _ _) (Names.isLabel_isGlobal i))

theorem RisesTo.withHigh {cell cell' : Cell} (h : cell.RisesTo width cell') {high high' : Formula}
    (hhigh : high.RisesTo width high') :
    (cell.withHigh high).RisesTo width (cell'.withHigh high') :=
  ⟨h.value, hhigh, h.isLocal, h.isGlobal, h.value_eq, h.isLocal_eq, h.isGlobal_eq⟩

theorem RisesTo.taint {cell cell' : Cell} (h : cell.RisesTo width cell') {taint : Formula}
    (htaint : taint.RisesTo width taint) : (cell.taint taint).RisesTo width (cell'.taint taint) :=
  h.withHigh (h.high.either htaint)

theorem RisesTo.promote {cell cell' : Cell} (h : cell.RisesTo width cell') :
    cell.promote.RisesTo width cell'.promote :=
  ⟨h.value, h.high, Formula.fixed_const _, h.isGlobal.either h.isLocal, h.value_eq, rfl,
    by rw [Cell.promote, Cell.promote, h.isGlobal_eq, h.isLocal_eq]⟩

theorem RisesTo.release {cell cell' : Cell} (h : cell.RisesTo width cell') {id : BvExpr}
    (hid : id.Fixed width) : (cell.release id).RisesTo width (cell'.release id) := by
  have hrefers : (cell.value.eqTo id).Fixed width := h.value.eqTo hid
  refine ⟨h.value, h.high, h.isLocal.both hrefers.negate,
    h.isGlobal.either (h.isLocal.both hrefers), h.value_eq, ?_, ?_⟩
  · rw [Cell.release, Cell.release, h.value_eq, h.isLocal_eq]
  · rw [Cell.release, Cell.release, h.value_eq, h.isLocal_eq, h.isGlobal_eq]

theorem RisesTo.sorted {cell cell' : Cell} (h : cell.RisesTo width cell') : cell.Sorted width :=
  ⟨h.value.toSorted, h.high.sorted, h.isLocal.toSorted, h.isGlobal.toSorted⟩

theorem RisesTo.sorted' {cell cell' : Cell} (h : cell.RisesTo width cell') : cell'.Sorted width :=
  ⟨h.value_eq ▸ h.value.toSorted, h.high.sorted', h.isLocal_eq ▸ h.isLocal.toSorted,
    h.isGlobal_eq ▸ h.isGlobal.toSorted⟩

theorem Rises.blocked {cell : Cell} (h : cell.Rises width) : cell.blocked.Fixed width :=
  h.isLocal.either h.isGlobal

theorem RisesTo.exists_eval {cell cell' : Cell} (h : cell.RisesTo width cell')
    (henv : env.Complete width) (labels : String → Bool) {value : CellValue}
    (hvalue : cell.eval env = some value) :
    ∃ value', cell'.eval (env.raise labels) = some value' ∧ value.Raised value' := by
  obtain ⟨hword, hhigh, hlocal, hglobal⟩ := eval_eq_some_iff.mp hvalue
  obtain ⟨high', hhigh', hle⟩ := h.high.exists_eval henv labels hhigh
  refine ⟨⟨value.value, high', value.isLocal, value.isGlobal⟩,
    eval_eq_some_iff.mpr ⟨?_, hhigh', ?_, ?_⟩, rfl, hle, rfl, rfl⟩
  · rw [h.value_eq, h.value.eval_raise, hword]
  · rw [h.isLocal_eq, h.isLocal.eval_raise, hlocal]
  · rw [h.isGlobal_eq, h.isGlobal.eval_raise, hglobal]

end Cell

namespace HeapSlot

theorem rises_empty : (empty width).Rises width :=
  ⟨Cell.rises_zero, Formula.fixed_const _⟩

theorem rises_allocated : (allocated width).Rises width :=
  ⟨Cell.rises_zero, Formula.fixed_const _⟩

theorem rises_canonical (k : Nat) : (canonical Names.ownHeap k width).Rises width := by
  obtain ⟨hhigh, hlocal, hglobal, hfree⟩ :=
    Names.isVariable_slotFlag width Names.isHeap_ownHeap k
  obtain ⟨hvalue', hlocal', hglobal', hfree'⟩ := Names.isLabel_slot k
  have hsorted : (canonical Names.ownHeap k width).Sorted width :=
    sorted_canonical Names.isHeap_ownHeap k
  refine ⟨Cell.rises_mk ⟨hsorted.cell.value, by simpa [canonical] using hvalue'⟩ ?_
    (Formula.fixed_var hlocal hlocal') (Formula.fixed_var hglobal hglobal'),
    Formula.fixed_var hfree hfree'⟩
  exact Formula.rises_var hhigh (Names.isLabel_of_isStateLabel (Names.isStateLabel_slotHigh k))

theorem Rises.exists_eval {slot : HeapSlot} (h : slot.Rises width) (henv : env.Complete width)
    (labels : String → Bool) {value : SlotValue} (hvalue : slot.eval env = some value) :
    ∃ value', slot.eval (env.raise labels) = some value' ∧ value.Raised value' := by
  obtain ⟨hcell, hfree⟩ := eval_eq_some_iff.mp hvalue
  obtain ⟨cell', hcell', hraised⟩ := h.cell.exists_eval henv labels hcell
  exact ⟨⟨cell', value.free⟩,
    eval_eq_some_iff.mpr ⟨hcell', by rw [h.free.eval_raise, hfree]⟩, hraised, rfl⟩

end HeapSlot

/-- What follows from the results of two elements follows for the results of two lists. -/
theorem exists_forall₂_results {α β γ : Type} {pairs : α → β → Prop} {results : γ → γ → Prop}
    {f : α → Option γ} {g : β → Option γ}
    (h : ∀ item item' result, pairs item item' → f item = some result →
      ∃ result', g item' = some result' ∧ results result result')
    {items : List α} {items' : List β} (hitems : List.Forall₂ pairs items items')
    {values : List γ} (hvalues : items.map f = values.map some) :
    ∃ values' : List γ, items'.map g = values'.map some ∧ List.Forall₂ results values values' := by
  induction hitems generalizing values with
  | nil =>
      cases values with
      | nil => exact ⟨[], rfl, .nil⟩
      | cons value rest => cases hvalues
  | @cons item item' _ _ hpair _ ih =>
      cases values with
      | nil => cases hvalues
      | cons value rest =>
          rw [List.map_cons, List.map_cons, List.cons.injEq] at hvalues
          obtain ⟨value', hvalue', hresult⟩ := h item item' value hpair hvalues.1
          obtain ⟨rest', hrest', hresults⟩ := ih hvalues.2
          exact ⟨value' :: rest', by rw [List.map_cons, List.map_cons, hvalue', hrest'],
            .cons hresult hresults⟩

namespace State

/-- A state that rises has a raised value under raised labels. -/
theorem RisesTo.exists_denotes {state state' : State} (h : state.RisesTo width state')
    (henv : env.Complete width) (labels : String → Bool) {value : StateValue}
    (hvalue : state.Denotes env value) :
    ∃ value', state'.Denotes (env.raise labels) value' ∧ value.Raised value' := by
  have hcells : ∃ registers : List CellValue,
      state'.registers.map (Cell.eval (env.raise labels)) = registers.map some ∧
        List.Forall₂ CellValue.Raised value.registers registers := by
    refine exists_forall₂_results ?_ h.registers hvalue.registers
    intro cell cell' result hcell hresult
    exact hcell.exists_eval henv labels hresult
  obtain ⟨registers, hregisters, hraised⟩ := hcells
  have hslots : List.Forall₂ (fun slot slot' => slot' = slot ∧ HeapSlot.Rises width slot)
      state.heap state'.heap := by
    rw [h.heap_eq]
    exact List.forall₂_same.mpr fun slot hslot => ⟨rfl, h.heap slot hslot⟩
  have hheap : ∃ heap : List SlotValue, state'.heap.map (HeapSlot.eval (env.raise labels)) =
      heap.map some ∧ List.Forall₂ SlotValue.Raised value.heap heap := by
    refine exists_forall₂_results ?_ hslots hvalue.heap
    rintro slot slot' result ⟨rfl, hslot⟩ hresult
    exact hslot.exists_eval henv labels hresult
  obtain ⟨heap, hheap, hraised'⟩ := hheap
  exact ⟨⟨registers, heap⟩, ⟨hregisters, hheap⟩, ⟨hraised, hraised'⟩⟩

theorem rises_canonical (shape : FrameShape) (heapSize width : Nat) :
    (canonical shape heapSize width).Rises width where
  registers := by
    refine List.forall₂_same.mpr fun cell hcell => ?_
    obtain ⟨i, -, rfl⟩ := List.mem_map.mp hcell
    exact Cell.rises_register i
  heap := by
    intro slot hslot
    obtain ⟨k, -, rfl⟩ := List.mem_map.mp hslot
    exact HeapSlot.rises_canonical k
  heap_eq := rfl

theorem RisesTo.set {state state' : State} (h : state.RisesTo width state') {cell cell' : Cell}
    (hcell : cell.RisesTo width cell') (r : Nat) :
    State.RisesTo width { state with registers := state.registers.set r cell }
      { state' with registers := state'.registers.set r cell' } where
  registers := by
    refine List.forall₂_iff_get.mpr ⟨?_, fun i hi hi' => ?_⟩
    · simpa using h.registers.length_eq
    · have hold : i < state.registers.length := by simpa using hi
      have hold' : i < state'.registers.length := by simpa using hi'
      have hget := (List.forall₂_iff_get.mp h.registers).2 i hold hold'
      simp only [List.get_eq_getElem, List.getElem_set] at hget ⊢
      split
      · exact hcell
      · exact hget
  heap := h.heap
  heap_eq := h.heap_eq

theorem Rises.register {state : State} (h : state.Rises width) {r : Nat} {cell : Cell}
    (hcell : state.registers[r]? = some cell) : cell.Rises width := by
  exact List.forall₂_same.mp h.registers cell (List.mem_of_getElem? hcell)

theorem Rises.slot {state : State} (h : state.Rises width) {k : Nat} {slot : HeapSlot}
    (hslot : state.heap[k]? = some slot) : slot.Rises width :=
  h.heap slot (List.mem_of_getElem? hslot)

theorem Rises.setSlot {state : State} (h : state.Rises width) {slot : HeapSlot}
    (hslot : slot.Rises width) (k : Nat) :
    State.Rises width { state with heap := state.heap.set k slot } where
  registers := h.registers
  heap := by
    intro other hother
    rcases List.mem_or_eq_of_mem_set hother with hold | rfl
    · exact h.heap other hold
    · exact hslot
  heap_eq := rfl

theorem Rises.mapRegisters {state : State} (h : state.Rises width) {change : Nat → Cell → Cell}
    (hchange : ∀ i cell, cell.Rises width → (change i cell).Rises width) (count : Nat) :
    (state.mapRegisters count change).Rises width where
  registers := by
    refine List.forall₂_same.mpr fun cell hcell => ?_
    obtain ⟨i, hi, rfl⟩ := List.mem_mapIdx.mp hcell
    have hold := h.register (List.getElem?_eq_getElem hi)
    split
    · exact hchange i _ hold
    · exact hold
  heap := h.heap
  heap_eq := rfl

theorem Rises.promote {state : State} (h : state.Rises width) (layout : HeapLayout)
    (numRegisters : Nat) : (state.promote layout width numRegisters).Rises width where
  registers := (h.mapRegisters (fun _ _ hcell => Cell.RisesTo.promote hcell) _).registers
  heap := by
    intro slot hslot
    rw [List.eq_of_mem_replicate hslot]
    exact HeapSlot.rises_empty
  heap_eq := rfl

end State

end States

end DalvikHorn
