import DalvikHorn.Proofs.Decimals
import DalvikHorn.Proofs.Frames

/-!
# Relations and their signatures

A program uses eight families of relations.  The text of a relation name tells
the family and its indices apart (`Relation.name_injective`), and the family, the
frames of the program and the size of the local heap fix the columns.  So a
relation name has at most one signature (`Program.Signature.unique`).

Formulas, clauses and queries are *admissible* when all relations that they apply
have their signatures and all variables their sorts.
-/

namespace DalvikHorn

/-! ## Relation names -/

/-- The relations of a program. -/
inductive Relation where
  | point (position : ProgramPoint)
  | exit (owner : ClassId) (method : MethodId)
  | object
  | extra
  | launch
  | static
  | reach
  | filter
  deriving DecidableEq

/-- The name of a relation. -/
def Relation.name : Relation → String
  | .point position => position.relationName
  | .exit owner method => exitRelationName owner method
  | .object => GlobalHeap.objectRelation
  | .extra => GlobalHeap.extraRelation
  | .launch => GlobalHeap.launchRelation
  | .static => GlobalHeap.staticRelation
  | .reach => reachRelation
  | .filter => filterRelation

/-- Whether a relation belongs to the program as a whole and not to one of its methods. -/
def Relation.isGlobal : Relation → Bool
  | .point _ => false
  | .exit _ _ => false
  | _ => true

/-- A text is cut in one way at its first underscore. -/
theorem cut_unique {before before' after after' : List Char} (hbefore : '_' ∉ before)
    (hbefore' : '_' ∉ before') (h : before ++ '_' :: after = before' ++ '_' :: after') :
    before = before' ∧ after = after' := by
  have hne : ∀ {text : List Char}, '_' ∉ text → ∀ c ∈ text, (c != '_') = true :=
    fun htext c hc => bne_iff_ne.mpr fun heq => htext (heq ▸ hc)
  obtain ⟨hsame, hrest⟩ :=
    cut_at_unique (· != '_') (hne hbefore) (hne hbefore') (by simp) (by simp) h
  exact ⟨hsame, (List.cons.inj hrest).2⟩

theorem ProgramPoint.toList_relationName (point : ProgramPoint) :
    point.relationName.toList =
      'R' :: '_' :: (decimal point.owner.toInt ++ '_' ::
        (decimal point.method.toInt ++ '_' :: Nat.toDigits 10 point.pc.toNat)) := by
  simp [relationName, decimal, toString]

theorem toList_exitRelationName (owner : ClassId) (method : MethodId) :
    (exitRelationName owner method).toList =
      'R' :: 'E' :: 'S' :: '_' :: (decimal owner.toInt ++ '_' :: decimal method.toInt) := by
  simp [exitRelationName, decimal, toString]

theorem ProgramPoint.relationName_injective {first second : ProgramPoint}
    (h : first.relationName = second.relationName) : first = second := by
  have hlist := congrArg String.toList h
  simp only [toList_relationName, List.cons.injEq, true_and] at hlist
  obtain ⟨howner, hrest⟩ :=
    cut_unique (underscore_notMem_decimal _) (underscore_notMem_decimal _) hlist
  obtain ⟨hmethod, hpc⟩ :=
    cut_unique (underscore_notMem_decimal _) (underscore_notMem_decimal _) hrest
  cases first
  cases second
  simp only [ProgramPoint.mk.injEq]
  exact ⟨Int32.toInt_inj.mp (decimal_injective howner),
    Int32.toInt_inj.mp (decimal_injective hmethod), UInt32.toNat_inj.mp (toDigits_injective hpc)⟩

theorem exitRelationName_injective {owner owner' : ClassId} {method method' : MethodId}
    (h : exitRelationName owner method = exitRelationName owner' method') :
    owner = owner' ∧ method = method' := by
  have hlist := congrArg String.toList h
  simp only [toList_exitRelationName, List.cons.injEq, true_and] at hlist
  obtain ⟨howner, hmethod⟩ :=
    cut_unique (underscore_notMem_decimal _) (underscore_notMem_decimal _) hlist
  exact ⟨Int32.toInt_inj.mp (decimal_injective howner),
    Int32.toInt_inj.mp (decimal_injective hmethod)⟩

theorem Relation.name_injective {first second : Relation} (h : first.name = second.name) :
    first = second := by
  have hlist := congrArg String.toList h
  cases first <;> cases second <;>
    simp [name, ProgramPoint.toList_relationName, toList_exitRelationName,
      GlobalHeap.objectRelation, GlobalHeap.extraRelation, GlobalHeap.launchRelation,
      GlobalHeap.staticRelation, reachRelation, filterRelation] at hlist ⊢
  · exact ProgramPoint.relationName_injective h
  · exact exitRelationName_injective h

/-! ## Signatures -/

/-- The sorts of the columns of a frame. -/
def frameSorts (width count : Nat) : List TermSort :=
  List.replicate count (.bitVec width) ++ List.replicate count .bool ++
    List.replicate count .bool ++ List.replicate count .bool

/-- The sorts of the columns of a local heap. -/
def heapSorts (width size : Nat) : List TermSort :=
  frameSorts width size ++ List.replicate size .bool

namespace Program

variable (program : Program) (width : Nat)

/-- The layout of the local heap of a program. -/
def layout : HeapLayout :=
  program.heapLayout (program.oracle {})

/-- The columns of the relations of a program. -/
def Signature (sorts : List TermSort) : Relation → Prop
  | .point position =>
      ∃ shape, program.Frame position.owner position.method shape ∧
        sorts = frameSorts width shape.slotCount ++ heapSorts width program.layout.size
  | .exit owner method =>
      ∃ shape, program.Frame owner method shape ∧
        sorts = frameSorts width (shape.numArguments + 1) ++ heapSorts width program.layout.size
  | .object => sorts = [.bitVec width, .bitVec width, .bitVec width, .bitVec width, .bool, .bool]
  | .extra => sorts = [.bitVec width, .bitVec width, .bitVec width, .bool, .bool]
  | .launch => sorts = [.bitVec width, .bitVec width, .bitVec width, .bool, .bool]
  | .static => sorts = [.int, .int, .bitVec width, .bool, .bool]
  | .reach => sorts = .bitVec width :: .bitVec width :: heapSorts width program.layout.size
  | .filter =>
      sorts = .bitVec width :: .bool :: heapSorts width program.layout.size ++
        List.replicate program.layout.sites.length .bool

/-- An atom applies a relation to columns of its signature. -/
def Relates (atom : Atom) : Prop :=
  ∃ relation : Relation, atom.relation = relation.name ∧
    program.Signature width atom.signature relation

variable {program width}

/-- The columns of a global relation do not depend on the methods of the program. -/
theorem Signature.unique_of_isGlobal {relation : Relation} (hglobal : relation.isGlobal)
    {first second : List TermSort} (hfirst : program.Signature width first relation)
    (hsecond : program.Signature width second relation) : first = second := by
  cases relation with
  | point position => cases hglobal
  | exit owner method => cases hglobal
  | object => exact Eq.trans hfirst (Eq.symm hsecond)
  | extra => exact Eq.trans hfirst (Eq.symm hsecond)
  | launch => exact Eq.trans hfirst (Eq.symm hsecond)
  | static => exact Eq.trans hfirst (Eq.symm hsecond)
  | reach => exact Eq.trans hfirst (Eq.symm hsecond)
  | filter => exact Eq.trans hfirst (Eq.symm hsecond)

theorem Signature.unique (hshapes : program.ShapesAgree) {relation : Relation}
    {first second : List TermSort} (hfirst : program.Signature width first relation)
    (hsecond : program.Signature width second relation) : first = second := by
  cases relation with
  | point position =>
      obtain ⟨shape, hshape, rfl⟩ := hfirst
      obtain ⟨other, hother, rfl⟩ := hsecond
      rw [hshape.unique hshapes hother]
  | exit owner method =>
      obtain ⟨shape, hshape, rfl⟩ := hfirst
      obtain ⟨other, hother, rfl⟩ := hsecond
      rw [hshape.unique hshapes hother]
  | _ => exact unique_of_isGlobal rfl hfirst hsecond

/-- A relation name is applied with one signature only. -/
theorem Relates.signature_eq (hshapes : program.ShapesAgree) {first second : Atom}
    (hfirst : program.Relates width first) (hsecond : program.Relates width second)
    (hname : first.relation = second.relation) : first.signature = second.signature := by
  obtain ⟨relation, hrelation, hsignature⟩ := hfirst
  obtain ⟨other, hother, hsignature'⟩ := hsecond
  have hsame : relation = other := Relation.name_injective (by rw [← hrelation, hname, hother])
  subst hsame
  exact hsignature.unique hshapes hsignature'

end Program

/-! ## Columns -/

variable {width : Nat}

theorem sorted_frameColumns {registers : List Cell} (h : ∀ cell ∈ registers, cell.Sorted width) :
    ∀ column ∈ frameColumns registers, column.Sorted width := by
  intro column hcolumn
  simp only [frameColumns, List.mem_append, List.mem_map] at hcolumn
  rcases hcolumn with ((⟨cell, hcell, rfl⟩ | ⟨cell, hcell, rfl⟩) | ⟨cell, hcell, rfl⟩) |
    ⟨cell, hcell, rfl⟩
  · exact (h cell hcell).value
  · exact (h cell hcell).high
  · exact (h cell hcell).isLocal
  · exact (h cell hcell).isGlobal

theorem sorted_heapColumns {heap : List HeapSlot} (h : ∀ slot ∈ heap, slot.Sorted width) :
    ∀ column ∈ heapColumns heap, column.Sorted width := by
  intro column hcolumn
  rcases List.mem_append.mp hcolumn with hcolumn | hcolumn
  · refine sorted_frameColumns (fun cell hcell => ?_) column hcolumn
    obtain ⟨slot, hslot, rfl⟩ := List.mem_map.mp hcell
    exact (h slot hslot).cell
  · obtain ⟨slot, hslot, rfl⟩ := List.mem_map.mp hcolumn
    exact (h slot hslot).free

theorem sorted_args_pointAtom {point : ProgramPoint} {shape : FrameShape} {heapSize : Nat}
    {state : State} (h : state.Sorted shape heapSize width) :
    ∀ arg ∈ (pointAtom point state).args, arg.Sorted width :=
  List.forall_mem_append.mpr ⟨sorted_frameColumns h.registers, sorted_heapColumns h.heap⟩

theorem sorted_args_exitAtom {owner : ClassId} {method : MethodId} {arguments : List Cell}
    {result : Cell} {heap : List HeapSlot} (harguments : ∀ cell ∈ arguments, cell.Sorted width)
    (hresult : result.Sorted width) (hheap : ∀ slot ∈ heap, slot.Sorted width) :
    ∀ arg ∈ (exitAtom owner method arguments result heap).args, arg.Sorted width := by
  have hcells : ∀ cell ∈ arguments ++ [result], cell.Sorted width :=
    List.forall_mem_append.mpr ⟨harguments, List.forall_mem_singleton.mpr hresult⟩
  exact List.forall_mem_append.mpr ⟨sorted_frameColumns hcells, sorted_heapColumns hheap⟩

theorem sort_frameColumns {registers : List Cell} (h : ∀ cell ∈ registers, cell.Sorted width) :
    (frameColumns registers).map Term.sort = frameSorts width registers.length := by
  have hvalues : (registers.map fun cell => Term.bv cell.value).map Term.sort =
      List.replicate registers.length (.bitVec width) := by
    rw [List.map_map, ← List.map_const']
    refine List.map_congr_left fun cell hcell => ?_
    simp [Term.sort, (h cell hcell).value.width_eq]
  have hflags : ∀ component : Cell → Formula,
      (registers.map fun cell => Term.bool (component cell)).map Term.sort =
        List.replicate registers.length .bool := by
    intro component
    rw [List.map_map, ← List.map_const']
    rfl
  simp only [frameColumns, frameSorts, List.map_append, hvalues, hflags]

theorem sort_heapColumns {heap : List HeapSlot} (h : ∀ slot ∈ heap, slot.Sorted width) :
    (heapColumns heap).map Term.sort = heapSorts width heap.length := by
  have hcells : ∀ cell ∈ heap.map (·.cell), cell.Sorted width := by
    intro cell hcell
    obtain ⟨slot, hslot, rfl⟩ := List.mem_map.mp hcell
    exact (h slot hslot).cell
  rw [heapColumns, List.map_append, sort_frameColumns hcells, heapSorts, List.length_map,
    List.map_map, ← List.map_const']
  rfl

@[simp] theorem length_frameSorts (width count : Nat) :
    (frameSorts width count).length = 4 * count := by
  simp [frameSorts]
  omega

@[simp] theorem length_heapSorts (width size : Nat) :
    (heapSorts width size).length = 5 * size := by
  simp [heapSorts]
  omega

/-! ## Admissible formulas and clauses -/

/-- A formula in which all relations have their signatures and all variables their sorts. -/
structure Formula.Admissible (program : Program) (width : Nat) (formula : Formula) : Prop where
  vars : Names.Respected width formula.vars
  applications : ∀ atom ∈ formula.applications, program.Relates width atom

/-- A clause in which all relations have their signatures and all variables their sorts. -/
structure Clause.Admissible (program : Program) (width : Nat) (clause : Clause) : Prop where
  vars : Names.Respected width clause.vars
  applications : ∀ atom ∈ clause.applications, program.Relates width atom

variable {program : Program}

theorem Formula.Sorted.admissible {formula : Formula} (h : formula.Sorted width) :
    formula.Admissible program width :=
  ⟨h.vars, by simp [h.applications]⟩

theorem Formula.admissible_and_iff (parts : List Formula) :
    (Formula.and parts).Admissible program width ↔
      ∀ part ∈ parts, part.Admissible program width := by
  constructor
  · intro h part hpart
    obtain ⟨hvars, happs⟩ := forall_names_iff.mp ⟨h.vars, h.applications⟩ part hpart
    exact ⟨hvars, happs⟩
  · intro h
    obtain ⟨hvars, happs⟩ := forall_names_iff.mpr fun part hpart =>
      ⟨(h part hpart).vars, (h part hpart).applications⟩
    exact ⟨hvars, happs⟩

/-- Conjunctions and disjunctions have the same variables and relations. -/
theorem Formula.admissible_or_iff (parts : List Formula) :
    (Formula.or parts).Admissible program width ↔
      ∀ part ∈ parts, part.Admissible program width := by
  rw [← admissible_and_iff]
  exact ⟨fun h => ⟨by simpa [vars] using h.vars, by simpa [applications] using h.applications⟩,
    fun h => ⟨by simpa [vars] using h.vars, by simpa [applications] using h.applications⟩⟩

theorem Formula.admissible_all {parts : List Formula}
    (h : ∀ part ∈ parts, part.Admissible program width) : (all parts).Admissible program width :=
  all_of_parts (fun value => (sorted_const value).admissible) admissible_and_iff h

theorem Formula.admissible_any {parts : List Formula}
    (h : ∀ part ∈ parts, part.Admissible program width) : (any parts).Admissible program width :=
  any_of_parts (fun value => (sorted_const value).admissible) admissible_or_iff h

theorem Atom.admissible {atom : Atom} (hargs : ∀ arg ∈ atom.args, arg.Sorted width)
    (hrelates : program.Relates width atom) : atom.toFormula.Admissible program width where
  vars := by
    intro v hv
    obtain ⟨arg, harg, hmem⟩ :=
      Term.mem_varsList.mp (by simpa [Atom.toFormula, Formula.vars] using hv)
    exact (hargs arg harg).vars v hmem
  applications := by
    intro other hother
    rcases List.mem_cons.mp (by simpa [Atom.toFormula, Formula.applications] using hother) with
      rfl | hmem
    · exact hrelates
    · obtain ⟨arg, harg, hmem⟩ := Term.mem_applicationsList.mp hmem
      rw [(hargs arg harg).applications] at hmem
      cases hmem

theorem Clause.admissible {clause : Clause}
    (hbody : ∀ part ∈ clause.body, part.Admissible program width)
    (hhead : clause.head.toFormula.Admissible program width) :
    clause.Admissible program width where
  vars := by
    refine Names.respected_append.mpr ⟨fun v hv => ?_, ?_⟩
    · obtain ⟨part, hpart, hmem⟩ := Formula.mem_varsList.mp hv
      exact (hbody part hpart).vars v hmem
    · simpa [Atom.toFormula, Formula.vars, Atom.vars] using hhead.vars
  applications := by
    intro atom hatom
    rcases List.mem_append.mp hatom with hmem | hmem
    · obtain ⟨part, hpart, hmem⟩ := Formula.mem_applicationsList.mp hmem
      exact (hbody part hpart).applications atom hmem
    · exact hhead.applications atom
        (by simpa [Atom.toFormula, Formula.applications, Atom.applications] using hmem)

/-! ## Admissible atoms -/

theorem GlobalHeap.IsFact.admissible {atom : Atom} (h : GlobalHeap.IsFact width atom) :
    atom.toFormula.Admissible program width := by
  -- the columns of each relation are all of the width, or flags
  cases h with
  | object hclass hid hfield hvalue hhigh hblocked =>
      refine Atom.admissible ?_ ⟨.object, rfl, ?_⟩
      · simp [GlobalHeap.object, Term.Sorted, hclass, hid, hfield, hvalue, hhigh, hblocked]
      · simp [Program.Signature, GlobalHeap.object, Atom.signature, Term.sort, hclass.width_eq,
          hid.width_eq, hfield.width_eq, hvalue.width_eq]
  | extra hintent hkey hvalue hhigh hblocked =>
      refine Atom.admissible ?_ ⟨.extra, rfl, ?_⟩
      · simp [GlobalHeap.extra, Term.Sorted, hintent, hkey, hvalue, hhigh, hblocked]
      · simp [Program.Signature, GlobalHeap.extra, Atom.signature, Term.sort, hintent.width_eq,
          hkey.width_eq, hvalue.width_eq]
  | launch hcomponent hcaller hvalue hhigh hblocked =>
      refine Atom.admissible ?_ ⟨.launch, rfl, ?_⟩
      · simp [GlobalHeap.launch, Term.Sorted, hcomponent, hcaller, hvalue, hhigh, hblocked]
      · simp [Program.Signature, GlobalHeap.launch, Atom.signature, Term.sort, hcomponent.width_eq,
          hcaller.width_eq, hvalue.width_eq]
  | static hvalue hhigh hblocked =>
      refine Atom.admissible ?_ ⟨.static, rfl, ?_⟩
      · simp [GlobalHeap.static, Term.Sorted, hvalue, hhigh, hblocked]
      · simp [Program.Signature, GlobalHeap.static, Atom.signature, Term.sort, hvalue.width_eq]

/-- A sorted state of a frame of the program is admissible at every point of the method. -/
theorem admissible_pointAtom {position : ProgramPoint} {shape : FrameShape} {state : State}
    (hframe : program.Frame position.owner position.method shape)
    (hstate : state.Sorted shape program.layout.size width) :
    (pointAtom position state).toFormula.Admissible program width := by
  refine Atom.admissible (sorted_args_pointAtom hstate) ⟨.point position, rfl, shape, hframe, ?_⟩
  rw [Atom.signature, pointAtom, List.map_append, sort_frameColumns hstate.registers,
    sort_heapColumns hstate.heap, hstate.registers_length, hstate.heap_length]

theorem admissible_exitAtom {owner : ClassId} {method : MethodId} {shape : FrameShape}
    {arguments : List Cell} {result : Cell} {heap : List HeapSlot}
    (hframe : program.Frame owner method shape) (hlength : arguments.length = shape.numArguments)
    (harguments : ∀ cell ∈ arguments, cell.Sorted width) (hresult : result.Sorted width)
    (hsize : heap.length = program.layout.size) (hheap : ∀ slot ∈ heap, slot.Sorted width) :
    (exitAtom owner method arguments result heap).toFormula.Admissible program width := by
  have hcells : ∀ cell ∈ arguments ++ [result], cell.Sorted width :=
    List.forall_mem_append.mpr ⟨harguments, List.forall_mem_singleton.mpr hresult⟩
  refine Atom.admissible (sorted_args_exitAtom harguments hresult hheap)
    ⟨.exit owner method, rfl, shape, hframe, ?_⟩
  rw [Atom.signature, exitAtom, List.map_append, sort_frameColumns hcells, sort_heapColumns hheap,
    hsize, List.length_append, hlength]
  rfl

end DalvikHorn
