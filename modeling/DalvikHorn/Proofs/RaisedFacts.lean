import DalvikHorn.Proofs.RaisedLabels

/-!
# Clauses that raise labels

A fact is *raised* to another one when only its labels differ and those of the second
cover those of the first.  A clause whose guards are fixed and whose head rises derives
raised facts from raised facts (`Clause.parallel_of_absorbs`).

## Strategy

* **Bodies.**  A body *absorbs* raised facts when raising its labels makes it hold for
  them (`Absorbs`).  No two atoms of a body share a label, so each of them can be raised
  on its own (`Absorbs.append`): a fixed guard needs nothing (`absorbs_fixed`), what is
  read from a heap has its own label (`absorbs_read`), and the state before an
  instruction has those of its registers and slots (`absorbs_current`).
* **Heads.**  A head that rises denotes a raised fact (`Atom.RisesTo.exists_denotes`).
-/

namespace DalvikHorn

/-! ## Facts -/

/-- Whether a relation keeps a value together with its label and whether it is a reference. -/
def Relation.isHeap : Relation → Bool
  | .object | .extra | .launch | .static => true
  | _ => false

/-- The same fact with labels that cover the first ones.  Nothing is said about the columns of
exits, which no clause of a call without targets asks for. -/
inductive Fact.Raised (heapSize : Nat) : Fact → Fact → Prop
  | point (position : ProgramPoint) {state state' : StateValue}
      (hsize : state.heap.length = heapSize) (hstate : state.Raised state') :
      Raised heapSize (pointFact position state) (pointFact position state')
  | exit (owner : ClassId) (method : MethodId) (args args' : List Value) :
      Raised heapSize ⟨exitRelationName owner method, args⟩ ⟨exitRelationName owner method, args'⟩
  | held {relation : Relation} (hheap : relation.isHeap) (front : List Value) {high high' : Bool}
      (hhigh : high = true → high' = true) (blocked : Bool) :
      Raised heapSize ⟨relation.name, front ++ [.bool high, .bool blocked]⟩
        ⟨relation.name, front ++ [.bool high', .bool blocked]⟩
  | reach {relation : Relation} (hreach : relation = .reach ∨ relation = .filter)
      (args : List Value) :
      Raised heapSize ⟨relation.name, args⟩ ⟨relation.name, args⟩

namespace Fact.Raised

variable {heapSize : Nat} {fact' : Fact}

theorem of_point {position : ProgramPoint} {state : StateValue}
    (h : Fact.Raised heapSize (pointFact position state) fact')
    (hsize : state.heap.length = heapSize) :
    ∃ state', fact' = pointFact position state' ∧ state.Raised state' := by
  generalize hfact : pointFact position state = fact at h
  have hname : fact.relation = (Relation.point position).name := by rw [← hfact]; rfl
  cases h with
  | @point position' other other' hsize' hstate =>
      -- both heaps have one size, so the columns of the registers are as many
      have hlength : state.registers.length = other.registers.length := by
        have hcolumns := congrArg (fun fact => fact.args.length) hfact
        simp only [pointFact, heapValues, List.length_append, length_frameValues,
          List.length_map] at hcolumns
        omega
      obtain ⟨rfl, rfl⟩ := pointFact_injective hlength hfact
      exact ⟨other', rfl, hstate⟩
  | exit owner method args args' =>
      exact absurd (@Relation.name_injective (.exit owner method) _ hname) (by simp)
  | held hheap front hhigh blocked =>
      cases Relation.name_injective hname
      cases hheap
  | reach hreach args =>
      cases Relation.name_injective hname
      rcases hreach with hreach | hreach <;> cases hreach

theorem of_held {relation : Relation} (hheap : relation.isHeap) {front : List Value}
    {high blocked : Bool}
    (h : Fact.Raised heapSize ⟨relation.name, front ++ [.bool high, .bool blocked]⟩ fact') :
    ∃ high', fact' = ⟨relation.name, front ++ [.bool high', .bool blocked]⟩ ∧
      (high = true → high' = true) := by
  generalize hfact : (⟨relation.name, front ++ [.bool high, .bool blocked]⟩ : Fact) = fact at h
  have hname : fact.relation = relation.name := by rw [← hfact]
  cases h with
  | point position hsize hstate =>
      cases @Relation.name_injective (.point position) _ hname
      cases hheap
  | exit owner method args args' =>
      cases @Relation.name_injective (.exit owner method) _ hname
      cases hheap
  | held _ front' hhigh blocked' =>
      cases Relation.name_injective hname
      simp only [Fact.mk.injEq, true_and] at hfact
      obtain ⟨rfl, hlast⟩ := List.append_inj' hfact rfl
      simp only [List.cons.injEq, Value.bool.injEq, and_true] at hlast
      obtain ⟨rfl, rfl⟩ := hlast
      exact ⟨_, rfl, hhigh⟩
  | reach hreach args =>
      cases Relation.name_injective hname
      rcases hreach with rfl | rfl <;> cases hheap

theorem of_reach {args : List Value} (h : Fact.Raised heapSize ⟨Relation.reach.name, args⟩ fact') :
    fact' = ⟨Relation.reach.name, args⟩ := by
  generalize hfact : (⟨Relation.reach.name, args⟩ : Fact) = fact at h
  have hname : fact.relation = Relation.reach.name := by rw [← hfact]
  cases h with
  | point position hsize hstate => cases @Relation.name_injective (.point position) _ hname
  | exit owner method args args' => cases @Relation.name_injective (.exit owner method) _ hname
  | held hheap front hhigh blocked =>
      cases Relation.name_injective hname
      cases hheap
  | reach hreach args => rfl

end Fact.Raised

/-! ## Heads -/

/-- An atom of a heap relation, with the label and the flag of the value at the end. -/
def heldAtom (relation : Relation) (front : List Term) (high blocked : Formula) : Atom where
  relation := relation.name
  args := front ++ [.bool high, .bool blocked]

theorem denotes_heldAtom_iff {env : Valuation} {relation : Relation} {front : List Term}
    {high blocked : Formula} {fact : Fact} :
    (heldAtom relation front high blocked).Denotes env fact ↔
      ∃ values h b, front.map (Term.eval env) = values.map some ∧ high.eval env = some h ∧
        blocked.eval env = some b ∧ fact = ⟨relation.name, values ++ [.bool h, .bool b]⟩ := by
  constructor
  · rintro ⟨hrelation, hargs⟩
    simp only [heldAtom, List.map_append] at hargs hrelation
    obtain ⟨values, last, hvalues, hfront, hlast⟩ := List.map_eq_append_iff.mp hargs.symm
    have hflags : last.map some = [(high.eval env).map .bool, (blocked.eval env).map .bool] := by
      simpa [Term.eval] using hlast
    obtain ⟨first, second, rfl⟩ : ∃ first second, last = [first, second] := by
      refine List.length_eq_two.mp ?_
      simpa using congrArg List.length hflags
    simp only [List.map_cons, List.map_nil, List.cons.injEq, and_true] at hflags
    obtain ⟨h, hh, rfl⟩ := Option.map_eq_some_iff.mp hflags.1.symm
    obtain ⟨b, hb, rfl⟩ := Option.map_eq_some_iff.mp hflags.2.symm
    refine ⟨values, h, b, hfront.symm, hh, hb, ?_⟩
    obtain ⟨name, args⟩ := fact
    simp only at hrelation hvalues
    rw [← hrelation, hvalues]
  · rintro ⟨values, h, b, hfront, hh, hb, rfl⟩
    refine ⟨rfl, ?_⟩
    simp [heldAtom, Term.eval, hfront, hh, hb]

/-- A head whose labels rise to those of another head.  Heap relations have to be among some
given ones. -/
inductive Atom.RisesTo (width heapSize : Nat) (allowed : Relation → Prop) : Atom → Atom → Prop
  | point (position : ProgramPoint) {state state' : State} (hsize : state.heap.length = heapSize)
      (hstate : state.RisesTo width state') :
      RisesTo width heapSize allowed (pointAtom position state) (pointAtom position state')
  | exit (owner : ClassId) (method : MethodId) {args : List Term}
      (hargs : ∀ arg ∈ args, arg.Sorted width) :
      RisesTo width heapSize allowed ⟨exitRelationName owner method, args⟩
        ⟨exitRelationName owner method, args⟩
  | held {relation : Relation} (hheap : relation.isHeap) (hallowed : allowed relation)
      {front : List Term} (hfront : ∀ term ∈ front, term.Fixed width) {high high' : Formula}
      (hhigh : high.RisesTo width high') {blocked : Formula} (hblocked : blocked.Fixed width) :
      RisesTo width heapSize allowed (heldAtom relation front high blocked)
        (heldAtom relation front high' blocked)

section

variable {width heapSize : Nat} {allowed : Relation → Prop} {env : Valuation}

theorem map_eval_raise {front : List Term} (h : ∀ term ∈ front, term.Fixed width)
    (labels : String → Bool) :
    front.map (Term.eval (env.raise labels)) = front.map (Term.eval env) :=
  List.map_congr_left fun term hterm => (h term hterm).eval_raise labels

namespace Atom.RisesTo

variable {head head' : Atom}

/-- A head that rises denotes a raised fact. -/
theorem exists_denotes (h : head.RisesTo width heapSize allowed head')
    (henv : env.Complete width) (labels : String → Bool) {fact : Fact}
    (hfact : head.Denotes env fact) :
    ∃ fact', head'.Denotes (env.raise labels) fact' ∧ fact.Raised heapSize fact' := by
  cases h with
  | point position hsize hstate =>
      obtain ⟨value, hvalue, rfl⟩ := denotes_pointAtom_iff.mp hfact
      obtain ⟨value', hvalue', hraised⟩ := hstate.exists_denotes henv labels hvalue
      refine ⟨pointFact position value', denotes_pointAtom_iff.mpr ⟨value', hvalue', rfl⟩,
        .point position ?_ hraised⟩
      rw [length_eq_of_map_eq hvalue.heap, hsize]
  | exit owner method hargs =>
      -- an exit has no column that may be raised, so any valuation will do
      have hvars := @Atom.respected width ⟨exitRelationName owner method, _⟩ hargs
      obtain ⟨⟨name, args'⟩, hdenotes⟩ :=
        Atom.exists_denotes hargs ((henv.raise labels).admits hvars)
      obtain ⟨name', args⟩ := fact
      cases hdenotes.relation_eq
      cases hfact.relation_eq
      exact ⟨_, hdenotes, .exit owner method args args'⟩
  | held hheap hallowed hfront hhigh hblocked =>
      obtain ⟨values, h, b, hvalues, hh, hb, rfl⟩ := denotes_heldAtom_iff.mp hfact
      obtain ⟨h', hh', hle⟩ := hhigh.exists_eval henv labels hh
      refine ⟨_, denotes_heldAtom_iff.mpr ⟨values, h', b, ?_, hh', ?_, rfl⟩,
        .held hheap values hle b⟩
      · -- only the label may be raised, the columns in front and the last one are fixed
        rw [map_eval_raise hfront, hvalues]
      · rw [hblocked.eval_raise, hb]

/-- Both heads apply a relation at the same sorts. -/
theorem declaration_eq (h : head.RisesTo width heapSize allowed head') :
    head.declaration = head'.declaration := by
  cases h with
  | @point position state state' hsize hstate =>
      -- raising a register keeps the sorts of its columns
      have hregisters : (frameColumns state'.registers).map Term.sort =
          (frameColumns state.registers).map Term.sort := by
        have hsorted : ∀ cell ∈ state.registers, cell.Sorted width := by
          intro cell hcell
          obtain ⟨i, hi, rfl⟩ := List.mem_iff_getElem.mp hcell
          have hcells := (List.forall₂_iff_get.mp hstate.registers).2 i hi
            (hstate.registers.length_eq ▸ hi)
          exact hcells.sorted
        have hsorted' : ∀ cell ∈ state'.registers, cell.Sorted width := by
          intro cell hcell
          obtain ⟨i, hi, rfl⟩ := List.mem_iff_getElem.mp hcell
          have hcells := (List.forall₂_iff_get.mp hstate.registers).2 i
            (hstate.registers.length_eq ▸ hi) hi
          exact hcells.sorted'
        rw [sort_frameColumns hsorted, sort_frameColumns hsorted', hstate.registers.length_eq]
      simp only [Atom.declaration, Atom.signature, pointAtom, List.map_append, hregisters,
        hstate.heap_eq]
  | exit owner method hargs => rfl
  | held hheap hallowed hfront hhigh hblocked =>
      simp [Atom.declaration, Atom.signature, heldAtom, Term.sort]

end Atom.RisesTo

/-! ## Bodies -/

/-- A body that holds for some facts holds for raised facts when its labels are raised.  Only some
names matter for this. -/
def Absorbs (heapSize : Nat) (owned : String → Prop) (parts : List Formula) : Prop :=
  ∀ facts facts' : Fact → Prop, Covers (Fact.Raised heapSize) facts facts' →
    ∀ env : Valuation, (∀ part ∈ parts, part.Holds facts env) →
      ∃ labels : String → Bool, ∀ raised : String → Bool,
        (∀ name, owned name → raised name = labels name) →
          ∀ part ∈ parts, part.Holds facts' (env.raise raised)

theorem absorbs_fixed {parts : List Formula} (h : ∀ part ∈ parts, part.Fixed width) :
    Absorbs heapSize (fun _ => False) parts := by
  intro facts facts' _ env hparts
  refine ⟨fun _ => false, fun raised _ part hpart => ?_⟩
  have hfixed := h part hpart
  rw [Formula.holds_iff_eval part hfixed.applications, hfixed.eval_raise,
    ← Formula.holds_iff_eval part hfixed.applications]
  exact hparts part hpart

/-- An atom that reads a value of a heap, with a label of its own. -/
structure Atom.ReadsLabel (width : Nat) (allowed : Relation → Prop) (label : String)
    (atom : Atom) : Prop where
  mem : label ∈ Names.readLabels
  shape : ∃ (relation : Relation) (front : List Term) (blocked : Formula), relation.isHeap ∧
    allowed relation ∧ (∀ term ∈ front, term.Fixed width) ∧ blocked.Fixed width ∧
    atom = heldAtom relation front (.var label) blocked

theorem absorbs_read {label : String} {atom : Atom} (h : atom.ReadsLabel width allowed label) :
    Absorbs heapSize (· = label) [atom.toFormula] := by
  obtain ⟨relation, front, blocked, hheap, -, hfront, hblocked, rfl⟩ := h.shape
  intro facts facts' hcovers env hparts
  obtain ⟨fact, hfact, hdenotes⟩ := Formula.holds_atom.mp (hparts _ (List.mem_singleton_self _))
  obtain ⟨fact', hfact', hraised⟩ := hcovers fact hfact
  obtain ⟨values, high, b, hvalues, hhigh, hb, rfl⟩ := denotes_heldAtom_iff.mp hdenotes
  obtain ⟨high', rfl, hle⟩ := hraised.of_held hheap
  refine ⟨fun _ => high', fun raised hraised => List.forall_mem_singleton.mpr ?_⟩
  refine Formula.holds_atom.mpr ⟨_, hfact', denotes_heldAtom_iff.mpr
    ⟨values, high', b, ?_, ?_, ?_, rfl⟩⟩
  · rw [map_eval_raise hfront, hvalues]
  · rw [Formula.eval] at hhigh ⊢
    rw [Valuation.bool?_raise (Names.isLabel_of_mem h.mem) hhigh, hraised label rfl]
    cases high with
    | false => rfl
    | true => rw [hle rfl]; rfl
  · rw [hblocked.eval_raise, hb]

/-- Two bodies that share no label absorb raised facts together. -/
theorem Absorbs.append {owned owned' : String → Prop} {parts parts' : List Formula}
    (h : Absorbs heapSize owned parts) (h' : Absorbs heapSize owned' parts')
    (hdisjoint : ∀ name, owned name → ¬ owned' name) :
    Absorbs heapSize (fun name => owned name ∨ owned' name) (parts ++ parts') := by
  classical
  intro facts facts' hcovers env hparts
  rw [List.forall_mem_append] at hparts
  obtain ⟨labels, hlabels⟩ := h facts facts' hcovers env hparts.1
  obtain ⟨labels', hlabels'⟩ := h' facts facts' hcovers env hparts.2
  refine ⟨fun name => if owned name then labels name else labels' name, fun raised hraised => ?_⟩
  refine List.forall_mem_append.mpr ⟨hlabels raised fun name hname => ?_,
    hlabels' raised fun name hname => ?_⟩
  · exact (hraised name (.inl hname)).trans (if_pos hname)
  · exact (hraised name (.inr hname)).trans (if_neg fun howned => hdisjoint name howned hname)

/-! ## States -/

theorem StateValue.Raised.getElem?_registers {state state' : StateValue} (h : state.Raised state')
    {i : Nat} {cell : CellValue} (hcell : state.registers[i]? = some cell) :
    ∃ cell', state'.registers[i]? = some cell' ∧ cell.Raised cell' := by
  obtain ⟨hi, rfl⟩ := List.getElem?_eq_some_iff.mp hcell
  have hi' : i < state'.registers.length := h.registers.length_eq ▸ hi
  exact ⟨_, List.getElem?_eq_getElem hi', (List.forall₂_iff_get.mp h.registers).2 i hi hi'⟩

theorem StateValue.Raised.getElem?_heap {state state' : StateValue} (h : state.Raised state')
    {k : Nat} {slot : SlotValue} (hslot : state.heap[k]? = some slot) :
    ∃ slot', state'.heap[k]? = some slot' ∧ slot.Raised slot' := by
  obtain ⟨hk, rfl⟩ := List.getElem?_eq_some_iff.mp hslot
  have hk' : k < state'.heap.length := h.heap.length_eq ▸ hk
  exact ⟨_, List.getElem?_eq_getElem hk', (List.forall₂_iff_get.mp h.heap).2 k hk hk'⟩

/-- The labels of a state by their names. -/
def stateLabels (state : StateValue) (name : String) : Bool :=
  (stateValuation state).bool? name = some true

theorem eval_label_raise {name : String} (hname : Names.isStateLabel name = true)
    {raised : String → Bool} {state' : StateValue} {high high' : Bool}
    (hraised : raised name = stateLabels state' name) (hhigh : env.bool? name = some high)
    (hhigh' : (stateValuation state').bool? name = some high')
    (hle : high = true → high' = true) : (env.raise raised).bool? name = some high' := by
  rw [Valuation.bool?_raise (Names.isLabel_of_isStateLabel hname) hhigh, hraised, stateLabels,
    hhigh']
  cases high with
  | false => cases high' <;> rfl
  | true => rw [hle rfl]; rfl

/-- A register of a state over its variables has the value of a raised state once the labels are
raised to those of the latter. -/
theorem eval_register_raise {i : Nat} {state' : StateValue} {cell cell' : CellValue}
    (hcell : (Cell.register i width).eval env = some cell)
    (hcell' : state'.registers[i]? = some cell') (hcells : cell.Raised cell')
    {raised : String → Bool}
    (hraised : ∀ name, Names.isStateLabel name = true → raised name = stateLabels state' name) :
    (Cell.register i width).eval (env.raise raised) = some cell' := by
  have hrises : (Cell.register i width).Rises width := Cell.rises_register i
  obtain ⟨hvalue, hhigh, hlocal, hglobal⟩ := Cell.eval_eq_some_iff.mp hcell
  obtain ⟨-, hhigh', -, -⟩ := Cell.eval_eq_some_iff.mp (eval_register_stateValuation hcell' width)
  refine Cell.eval_eq_some_iff.mpr ⟨?_, ?_, ?_, ?_⟩
  · rw [hrises.value.eval_raise, hvalue, hcells.value_eq]
  · simp only [Cell.register, Formula.eval] at hhigh hhigh' ⊢
    exact eval_label_raise (Names.isStateLabel_high i) (hraised _ (Names.isStateLabel_high i)) hhigh
      hhigh' hcells.high_le
  · rw [hrises.isLocal.eval_raise, hlocal, hcells.isLocal_eq]
  · rw [hrises.isGlobal.eval_raise, hglobal, hcells.isGlobal_eq]

theorem eval_slot_raise {k : Nat} {state' : StateValue} {slot slot' : SlotValue}
    (hslot : (HeapSlot.canonical Names.ownHeap k width).eval env = some slot)
    (hslot' : state'.heap[k]? = some slot') (hslots : slot.Raised slot')
    {raised : String → Bool}
    (hraised : ∀ name, Names.isStateLabel name = true → raised name = stateLabels state' name) :
    (HeapSlot.canonical Names.ownHeap k width).eval (env.raise raised) = some slot' := by
  have hrises : (HeapSlot.canonical Names.ownHeap k width).Rises width := HeapSlot.rises_canonical k
  obtain ⟨hcell, hfree⟩ := HeapSlot.eval_eq_some_iff.mp hslot
  obtain ⟨hvalue, hhigh, hlocal, hglobal⟩ := Cell.eval_eq_some_iff.mp hcell
  obtain ⟨hcell', -⟩ := HeapSlot.eval_eq_some_iff.mp (eval_slot_stateValuation hslot' width)
  obtain ⟨-, hhigh', -, -⟩ := Cell.eval_eq_some_iff.mp hcell'
  have hcells := hslots.cell
  refine HeapSlot.eval_eq_some_iff.mpr ⟨Cell.eval_eq_some_iff.mpr ⟨?_, ?_, ?_, ?_⟩, ?_⟩
  · rw [hrises.cell.value.eval_raise, hvalue, hcells.value_eq]
  · simp only [HeapSlot.canonical, Formula.eval] at hhigh hhigh' ⊢
    exact eval_label_raise (Names.isStateLabel_slotHigh k)
      (hraised _ (Names.isStateLabel_slotHigh k)) hhigh hhigh' hcells.high_le
  · rw [hrises.cell.isLocal.eval_raise, hlocal, hcells.isLocal_eq]
  · rw [hrises.cell.isGlobal.eval_raise, hglobal, hcells.isGlobal_eq]
  · rw [hrises.free.eval_raise, hfree, hslots.free_eq]

/-- The state before an instruction has the values of a raised state once its labels are raised to
those of the latter. -/
theorem State.Denotes.raise {shape : FrameShape} {state state' : StateValue}
    (h : (State.canonical shape heapSize width).Denotes env state) (hstates : state.Raised state')
    {raised : String → Bool}
    (hraised : ∀ name, Names.isStateLabel name = true → raised name = stateLabels state' name) :
    (State.canonical shape heapSize width).Denotes (env.raise raised) state' where
  registers := by
    have hlength := length_eq_of_map_eq h.registers
    refine List.ext_getElem? fun i => ?_
    rw [List.getElem?_map, List.getElem?_map]
    -- a slot within the frame has the name of its position
    by_cases hi : i < shape.slotCount
    · have hcell : (State.canonical shape heapSize width).registers[i]? =
          some (.register i width) := by simp [State.canonical, hi]
      obtain ⟨value, hvalue, heval⟩ := getElem?_of_map_eq h.registers hcell
      obtain ⟨value', hvalue', hvalues⟩ := hstates.getElem?_registers hvalue
      rw [hcell, hvalue']
      exact congrArg some (eval_register_raise heval hvalue' hvalues hraised)
    · -- behind the frame there is no slot on either side
      have hcount : state'.registers.length = shape.slotCount := by
        rw [← hstates.registers.length_eq, hlength]
        simp [State.canonical]
      rw [List.getElem?_eq_none (by simpa [State.canonical] using hi),
        List.getElem?_eq_none (by omega)]
      rfl
  heap := by
    have hlength := length_eq_of_map_eq h.heap
    refine List.ext_getElem? fun k => ?_
    rw [List.getElem?_map, List.getElem?_map]
    by_cases hk : k < heapSize
    · have hslot : (State.canonical shape heapSize width).heap[k]? =
          some (.canonical Names.ownHeap k width) := by simp [State.canonical, canonicalHeap, hk]
      obtain ⟨value, hvalue, heval⟩ := getElem?_of_map_eq h.heap hslot
      obtain ⟨value', hvalue', hvalues⟩ := hstates.getElem?_heap hvalue
      rw [hslot, hvalue']
      exact congrArg some (eval_slot_raise heval hvalue' hvalues hraised)
    · have hcount : state'.heap.length = heapSize := by
        rw [← hstates.heap.length_eq, hlength]
        simp [State.canonical]
      rw [List.getElem?_eq_none (by simpa [State.canonical] using hk),
        List.getElem?_eq_none (by omega)]
      rfl

/-- The atom of the state before an instruction absorbs raised facts. -/
theorem absorbs_current (cx : StepContext) :
    Absorbs cx.layout.size (fun name => Names.isStateLabel name = true)
      [cx.current.toFormula] := by
  intro facts facts' hcovers env hparts
  obtain ⟨fact, hfact, hdenotes⟩ := Formula.holds_atom.mp (hparts _ (List.mem_singleton_self _))
  obtain ⟨fact', hfact', hraised⟩ := hcovers fact hfact
  obtain ⟨state, hstate, rfl⟩ := denotes_pointAtom_iff.mp hdenotes
  have hsize : state.heap.length = cx.layout.size := by
    rw [length_eq_of_map_eq hstate.heap, cx.sorted_pre.heap_length]
  obtain ⟨state', rfl, hstates⟩ := hraised.of_point hsize
  refine ⟨stateLabels state', fun raised hlabels => List.forall_mem_singleton.mpr ?_⟩
  exact Formula.holds_atom.mpr
    ⟨_, hfact', denotes_pointAtom_iff.mpr ⟨state', hstate.raise hstates hlabels, rfl⟩⟩

/-! ## Clauses -/

/-- A clause whose body absorbs raised facts and whose head rises has a counterpart with the same
body and the raised head. -/
theorem Clause.parallel_of_absorbs {clause clause' : Clause} {owned : String → Prop}
    (hrespected : Names.Respected width clause.vars)
    (hrespected' : Names.Respected width clause'.vars) (hbody : clause'.body = clause.body)
    (habsorbs : Absorbs heapSize owned clause.body)
    (hhead : clause.head.RisesTo width heapSize allowed clause'.head) :
    clause.Parallel width (Fact.Raised heapSize) clause' where
  respected := hrespected
  respected' := hrespected'
  derives := by
    intro facts facts' hcovers env fact henv hparts hfact
    obtain ⟨labels, hlabels⟩ := habsorbs facts facts' hcovers env hparts
    obtain ⟨fact', hfact', hraised⟩ := hhead.exists_denotes henv labels hfact
    refine ⟨env.raise labels, fact', henv.raise labels, ?_, hfact', hraised⟩
    rw [hbody]
    exact hlabels labels fun _ _ => rfl
  declarations_eq := by
    rw [Clause.atoms, Clause.atoms, hbody, List.map_append, List.map_append, List.map_singleton,
      List.map_singleton, hhead.declaration_eq]
  isVacuous_eq := by
    rw [Clause.isVacuous, Clause.isVacuous, Clause.bodyFormula, Clause.bodyFormula, hbody]

end

end DalvikHorn
