import DalvikHorn.Clause
import DalvikHorn.Heap.Global
import DalvikHorn.Proofs.Folding
import DalvikHorn.Proofs.VariableNames
import DalvikHorn.State.Basic

/-!
# Well-sorted terms

All variables of a program's clauses come from a few families of names, and the
first letters of a name tell its family.  `Names.sort` reads the sort of a
variable off its name.  A term is *sorted* for a width when every variable in it
is one of them and used at its sort, it applies no relation, and, for a
bit-vector, its width is the given one.  Cells, slots and states are sorted when their
components are.

Every constructor that clauses are built with keeps terms sorted, so the proof
that a term is sorted follows the term.
-/

namespace DalvikHorn

/-! ## Names -/

namespace Names

/-- Whether a name belongs to a family of values, by its first letters. -/
def holdsValue : List Char → Bool
  | 'v' :: _ => true
  | 'f' :: _ => true
  | 'r' :: _ => true
  | 'c' :: _ => true
  | 'b' :: 'u' :: _ => true
  | 'l' :: 'h' :: 'v' :: _ => true
  | 'l' :: 'h' :: 'c' :: 'v' :: _ => true
  | _ => false

/-- The sort of a variable. -/
def sort (width : Nat) (name : String) : TermSort :=
  if holdsValue name.toList then .bitVec width else .bool

/-- The two local heaps that variables are named for. -/
def IsHeap (heap : String) : Prop :=
  heap = ownHeap ∨ heap = returnedHeap

theorem isHeap_ownHeap : IsHeap ownHeap := .inl rfl

theorem isHeap_returnedHeap : IsHeap returnedHeap := .inr rfl

theorem LocalHeap.isHeap_text (heap : LocalHeap) : IsHeap heap.text := by
  cases heap with
  | own => exact isHeap_ownHeap
  | returned => exact isHeap_returnedHeap

theorem IsHeap.exists_text {heap : String} (h : IsHeap heap) :
    ∃ heap' : LocalHeap, heap = heap'.text := by
  rcases h with rfl | rfl
  · exact ⟨.own, rfl⟩
  · exact ⟨.returned, rfl⟩

/-! ### Numbered names -/

section

variable {rest : List Char}

@[simp] theorem holdsValue_cons_v : holdsValue ('v' :: rest) = true := rfl

@[simp] theorem holdsValue_cons_h : holdsValue ('h' :: rest) = false := rfl

@[simp] theorem holdsValue_cons_g : holdsValue ('g' :: rest) = false := rfl

end

/-- A number does not start with a letter, so `l3` is no name of a heap slot. -/
theorem holdsValue_cons_toDigits (i : Nat) :
    holdsValue ('l' :: Nat.toDigits 10 i) = false := by
  cases hdigits : Nat.toDigits 10 i with
  | nil => rfl
  | cons c rest =>
      have hdigit : c.isDigit = true :=
        Nat.isDigit_of_mem_toDigits (by decide) (by decide) (hdigits ▸ List.mem_cons_self)
      have hne : c ≠ 'h' := by rintro rfl; simp at hdigit
      simp [holdsValue, hne]

variable (width : Nat)

@[simp] theorem sort_value (i : Nat) : sort width (value i) = .bitVec width := by
  simp [sort, toList_value]

@[simp] theorem sort_high (i : Nat) : sort width (high i) = .bool := by
  simp [sort, toList_high]

@[simp] theorem sort_isLocal (i : Nat) : sort width (isLocal i) = .bool := by
  simp [sort, toList_isLocal, holdsValue_cons_toDigits]

@[simp] theorem sort_isGlobal (i : Nat) : sort width (isGlobal i) = .bool := by
  simp [sort, toList_isGlobal]

theorem sort_slotValue {heap : String} (hheap : IsHeap heap) (k : Nat) :
    sort width (slotValue heap k) = .bitVec width := by
  rcases hheap with rfl | rfl <;>
    simp [sort, slotValue, toString, ownHeap, returnedHeap, holdsValue]

/-- The names of the flags of a heap slot differ in one letter. -/
theorem sort_slotFlag {heap : String} (hheap : IsHeap heap) (k : Nat) :
    sort width (slotHigh heap k) = .bool ∧ sort width (slotLocal heap k) = .bool ∧
      sort width (slotGlobal heap k) = .bool ∧ sort width (slotFree heap k) = .bool := by
  rcases hheap with rfl | rfl <;>
    simp [sort, slotHigh, slotLocal, slotGlobal, slotFree, toString, ownHeap, returnedHeap,
      holdsValue]

/-! ### Auxiliary names -/

/-- The auxiliary names of values. -/
def auxiliaryValues : List String :=
  [field, anyField, anyValue, read, result, buffer, className]

/-- The auxiliary names of labels and flags. -/
def auxiliaryFlags : List String :=
  [fieldHigh, fieldBlocked, anyHigh, anyBlocked, readHigh, readBlocked, resultHigh, resultLocal,
    resultGlobal]

/-- One of the auxiliary names of values.  It is found from the name alone, so that proofs about
sorted terms do not mention the list. -/
class AuxiliaryValue (name : String) : Prop where
  mem : name ∈ auxiliaryValues

/-- One of the auxiliary names of labels and flags. -/
class AuxiliaryFlag (name : String) : Prop where
  mem : name ∈ auxiliaryFlags

instance : AuxiliaryValue field := ⟨by decide⟩
instance : AuxiliaryValue anyField := ⟨by decide⟩
instance : AuxiliaryValue anyValue := ⟨by decide⟩
instance : AuxiliaryValue read := ⟨by decide⟩
instance : AuxiliaryValue result := ⟨by decide⟩
instance : AuxiliaryValue buffer := ⟨by decide⟩
instance : AuxiliaryValue className := ⟨by decide⟩

instance : AuxiliaryFlag fieldHigh := ⟨by decide⟩
instance : AuxiliaryFlag fieldBlocked := ⟨by decide⟩
instance : AuxiliaryFlag anyHigh := ⟨by decide⟩
instance : AuxiliaryFlag anyBlocked := ⟨by decide⟩
instance : AuxiliaryFlag readHigh := ⟨by decide⟩
instance : AuxiliaryFlag readBlocked := ⟨by decide⟩
instance : AuxiliaryFlag resultHigh := ⟨by decide⟩
instance : AuxiliaryFlag resultLocal := ⟨by decide⟩
instance : AuxiliaryFlag resultGlobal := ⟨by decide⟩

theorem sort_auxiliaryValue (name : String) [hname : AuxiliaryValue name] :
    sort width name = .bitVec width := by
  have hholds : ∀ name ∈ auxiliaryValues, holdsValue name.toList = true := by decide
  simp [sort, hholds name hname.mem]

theorem sort_auxiliaryFlag (name : String) [hname : AuxiliaryFlag name] :
    sort width name = .bool := by
  have hholds : ∀ name ∈ auxiliaryFlags, holdsValue name.toList = false := by decide
  simp [sort, hholds name hname.mem]

/-! ### Variables at their sorts -/

/-- The sort of a variable is read off its name. -/
theorem sort_name (v : Variable) : sort width v.name = v.sort width := by
  -- the letters of a name tell its part, and an index has digits only
  cases v with
  | numbered family index =>
      cases family with
      | register component =>
          cases component with
          | value => exact sort_value width index
          | high => exact sort_high width index
          | isLocal => exact sort_isLocal width index
          | isGlobal => exact sort_isGlobal width index
      | slot heap component =>
          obtain ⟨hhigh, hlocal, hglobal, -⟩ := sort_slotFlag width heap.isHeap_text index
          cases component with
          | value => exact sort_slotValue width heap.isHeap_text index
          | high => exact hhigh
          | isLocal => exact hlocal
          | isGlobal => exact hglobal
      | free heap => exact (sort_slotFlag width heap.isHeap_text index).2.2.2
  | auxiliary kind =>
      -- the other names are a few constants
      have hholds : ∀ kind ∈ Auxiliary.all, holdsValue kind.name.toList = kind.isValue := by decide
      rw [Variable.name, sort, hholds kind kind.mem_all, Variable.sort]

/-- A name is that of a variable of a sort. -/
def IsVariable (name : String) (sort' : TermSort) : Prop :=
  ∃ v : Variable, v.name = name ∧ v.sort width = sort'

/-- All names of a list are variables, used at their sorts. -/
def Respected (vars : List (String × TermSort)) : Prop :=
  ∀ v ∈ vars, IsVariable width v.1 v.2

theorem isVariable_value (i : Nat) : IsVariable width (value i) (.bitVec width) :=
  ⟨.numbered (.register .value) i, rfl, rfl⟩

theorem isVariable_high (i : Nat) : IsVariable width (high i) .bool :=
  ⟨.numbered (.register .high) i, rfl, rfl⟩

theorem isVariable_isLocal (i : Nat) : IsVariable width (isLocal i) .bool :=
  ⟨.numbered (.register .isLocal) i, rfl, rfl⟩

theorem isVariable_isGlobal (i : Nat) : IsVariable width (isGlobal i) .bool :=
  ⟨.numbered (.register .isGlobal) i, rfl, rfl⟩

theorem isVariable_slotValue {heap : String} (hheap : IsHeap heap) (k : Nat) :
    IsVariable width (slotValue heap k) (.bitVec width) := by
  obtain ⟨heap, rfl⟩ := hheap.exists_text
  exact ⟨.numbered (.slot heap .value) k, rfl, rfl⟩

theorem isVariable_slotFlag {heap : String} (hheap : IsHeap heap) (k : Nat) :
    IsVariable width (slotHigh heap k) .bool ∧ IsVariable width (slotLocal heap k) .bool ∧
      IsVariable width (slotGlobal heap k) .bool ∧ IsVariable width (slotFree heap k) .bool := by
  obtain ⟨heap, rfl⟩ := hheap.exists_text
  exact ⟨⟨.numbered (.slot heap .high) k, rfl, rfl⟩, ⟨.numbered (.slot heap .isLocal) k, rfl, rfl⟩,
    ⟨.numbered (.slot heap .isGlobal) k, rfl, rfl⟩, ⟨.numbered (.free heap) k, rfl, rfl⟩⟩

theorem isVariable_auxiliaryValue (name : String) [hname : AuxiliaryValue name] :
    IsVariable width name (.bitVec width) := by
  have hvalues : ∀ name ∈ auxiliaryValues,
      ∃ kind ∈ Auxiliary.all, kind.name = name ∧ kind.isValue = true := by decide
  obtain ⟨kind, -, hkind, hvalue⟩ := hvalues name hname.mem
  exact ⟨.auxiliary kind, hkind, by rw [Variable.sort, hvalue, if_pos rfl]⟩

theorem isVariable_auxiliaryFlag (name : String) [hname : AuxiliaryFlag name] :
    IsVariable width name .bool := by
  have hflags : ∀ name ∈ auxiliaryFlags,
      ∃ kind ∈ Auxiliary.all, kind.name = name ∧ kind.isValue = false := by decide
  obtain ⟨kind, -, hkind, hflag⟩ := hflags name hname.mem
  exact ⟨.auxiliary kind, hkind, by rw [Variable.sort, hflag]; rfl⟩

variable {width}

theorem IsVariable.sort_eq {name : String} {sort' : TermSort} (h : IsVariable width name sort') :
    sort' = sort width name := by
  obtain ⟨v, rfl, rfl⟩ := h
  exact (sort_name width v).symm

@[simp] theorem respected_nil : Respected width [] := by
  intro v hv
  cases hv

@[simp] theorem respected_append {first second : List (String × TermSort)} :
    Respected width (first ++ second) ↔ Respected width first ∧ Respected width second :=
  List.forall_mem_append

@[simp] theorem respected_singleton {name : String} {sort' : TermSort} :
    Respected width [(name, sort')] ↔ IsVariable width name sort' :=
  List.forall_mem_singleton

end Names

/-! ## Relations in terms -/

mutual

/-- All relation applications in a bit-vector term. -/
@[simp] def BvExpr.applications : BvExpr → List Atom
  | .lit _ _ => []
  | .var _ _ => []
  | .unary _ operand => operand.applications
  | .binary _ left right => left.applications ++ right.applications
  | .ite condition yes no => condition.applications ++ yes.applications ++ no.applications

/-- All relation applications in a formula, those in arguments and operands included. -/
@[simp] def Formula.applications : Formula → List Atom
  | .const _ => []
  | .var _ => []
  | .not inner => inner.applications
  | .and parts => Formula.applicationsList parts
  | .or parts => Formula.applicationsList parts
  | .compare _ left right => left.applications ++ right.applications
  | .app relation args => ⟨relation, args⟩ :: Term.applicationsList args

/-- All relation applications in a list of formulas. -/
@[simp] def Formula.applicationsList : List Formula → List Atom
  | [] => []
  | part :: rest => part.applications ++ Formula.applicationsList rest

/-- All relation applications in a term. -/
@[simp] def Term.applications : Term → List Atom
  | .bv expr => expr.applications
  | .bool formula => formula.applications
  | .int _ => []

/-- All relation applications in a list of terms. -/
@[simp] def Term.applicationsList : List Term → List Atom
  | [] => []
  | arg :: rest => arg.applications ++ Term.applicationsList rest

end

attribute [simp] BvExpr.vars Formula.vars Formula.varsList Term.vars Term.varsList

/-- All relation applications in an atom: the atom itself and those in its arguments. -/
def Atom.applications (atom : Atom) : List Atom :=
  atom :: Term.applicationsList atom.args

/-- All relation applications in a clause. -/
def Clause.applications (clause : Clause) : List Atom :=
  Formula.applicationsList clause.body ++ clause.head.applications

theorem Formula.mem_applicationsList {atom : Atom} {parts : List Formula} :
    atom ∈ Formula.applicationsList parts ↔ ∃ part ∈ parts, atom ∈ part.applications := by
  induction parts with
  | nil => simp [Formula.applicationsList]
  | cons part rest ih => simp [Formula.applicationsList, ih]

theorem Term.mem_applicationsList {atom : Atom} {args : List Term} :
    atom ∈ Term.applicationsList args ↔ ∃ arg ∈ args, atom ∈ arg.applications := by
  induction args with
  | nil => simp [Term.applicationsList]
  | cons arg rest ih => simp [Term.applicationsList, ih]

theorem Formula.mem_varsList {v : String × TermSort} {parts : List Formula} :
    v ∈ Formula.varsList parts ↔ ∃ part ∈ parts, v ∈ part.vars := by
  induction parts with
  | nil => simp [Formula.varsList]
  | cons part rest ih => simp [Formula.varsList, ih]

theorem Term.mem_varsList {v : String × TermSort} {args : List Term} :
    v ∈ Term.varsList args ↔ ∃ arg ∈ args, v ∈ arg.vars := by
  induction args with
  | nil => simp [Term.varsList]
  | cons arg rest ih => simp [Term.varsList, ih]

/-- The names of some formulas have a property when those of each formula have it. -/
theorem Formula.forall_names_iff {onVar : String × TermSort → Prop} {onAtom : Atom → Prop}
    {parts : List Formula} :
    ((∀ v ∈ Formula.varsList parts, onVar v) ∧
        ∀ atom ∈ Formula.applicationsList parts, onAtom atom) ↔
      ∀ part ∈ parts, (∀ v ∈ part.vars, onVar v) ∧ ∀ atom ∈ part.applications, onAtom atom := by
  constructor
  · rintro ⟨hvars, happs⟩ part hpart
    exact ⟨fun v hv => hvars v (mem_varsList.mpr ⟨part, hpart, hv⟩),
      fun atom hatom => happs atom (mem_applicationsList.mpr ⟨part, hpart, hatom⟩)⟩
  · intro h
    refine ⟨fun v hv => ?_, fun atom hatom => ?_⟩
    · obtain ⟨part, hpart, hmem⟩ := mem_varsList.mp hv
      exact (h part hpart).1 v hmem
    · obtain ⟨part, hpart, hmem⟩ := mem_applicationsList.mp hatom
      exact (h part hpart).2 atom hmem

/-! ## Sorted terms -/

/-- A bit-vector term of a width without relations, over variables of their sorts. -/
structure BvExpr.Sorted (width : Nat) (expr : BvExpr) : Prop where
  width_eq : expr.width = width
  vars : Names.Respected width expr.vars
  applications : expr.applications = []

/-- A formula without relations, over variables of their sorts. -/
structure Formula.Sorted (width : Nat) (formula : Formula) : Prop where
  vars : Names.Respected width formula.vars
  applications : formula.applications = []

/-- A sorted argument of a relation; integers are literals. -/
def Term.Sorted (width : Nat) : Term → Prop
  | .bv expr => expr.Sorted width
  | .bool formula => formula.Sorted width
  | .int (.lit _) => True
  | .int (.var _) => False

theorem Term.Sorted.vars {width : Nat} {term : Term} (h : term.Sorted width) :
    Names.Respected width term.vars := by
  cases term with
  | bv expr => simpa [Term.vars] using BvExpr.Sorted.vars h
  | bool formula => simpa [Term.vars] using Formula.Sorted.vars h
  | int expr =>
      cases expr with
      | lit value => simp [Term.vars]
      | var name => exact h.elim

theorem Term.Sorted.applications {width : Nat} {term : Term} (h : term.Sorted width) :
    term.applications = [] := by
  cases term with
  | bv expr => simpa [Term.applications] using BvExpr.Sorted.applications h
  | bool formula => simpa [Term.applications] using Formula.Sorted.applications h
  | int expr => simp [Term.applications]

variable {width : Nat}

/-! ### Bit-vectors -/

namespace BvExpr

theorem sorted_lit (value : Nat) : (BvExpr.lit value width).Sorted width :=
  ⟨rfl, by simp [vars], by simp [applications]⟩

theorem sorted_ofInt (value : Int) : (ofInt value width).Sorted width :=
  sorted_lit _

theorem sorted_zero : (zero width).Sorted width :=
  sorted_lit _

theorem sorted_var {name : String} (hname : Names.IsVariable width name (.bitVec width)) :
    (BvExpr.var name width).Sorted width :=
  ⟨rfl, by simp [vars, hname], by simp [applications]⟩

theorem Sorted.unary {op : BvUnary} {operand : BvExpr} (h : operand.Sorted width) :
    (BvExpr.unary op operand).Sorted width :=
  ⟨h.width_eq, by simpa [BvExpr.vars] using h.vars, by simpa [BvExpr.applications] using h.applications⟩

theorem Sorted.binary {op : BvBinary} {left right : BvExpr} (hleft : left.Sorted width)
    (hright : right.Sorted width) : (BvExpr.binary op left right).Sorted width :=
  ⟨hleft.width_eq, by simpa [BvExpr.vars] using ⟨hleft.vars, hright.vars⟩,
    by simp [BvExpr.applications, hleft.applications, hright.applications]⟩

theorem Sorted.select {condition : Formula} {yes no : BvExpr}
    (hcondition : condition.Sorted width) (hyes : yes.Sorted width) (hno : no.Sorted width) :
    (select condition yes no).Sorted width :=
  select_of_branches hyes hno
    ⟨hyes.width_eq, by simpa [BvExpr.vars] using ⟨hcondition.vars, hyes.vars, hno.vars⟩,
      by simp [BvExpr.applications, hcondition.applications, hyes.applications, hno.applications]⟩

theorem Sorted.compare {op : BvCompare} {left right : BvExpr} (hleft : left.Sorted width)
    (hright : right.Sorted width) : (Formula.compare op left right).Sorted width :=
  ⟨by simpa [Formula.vars] using ⟨hleft.vars, hright.vars⟩,
    by simp [Formula.applications, hleft.applications, hright.applications]⟩

theorem Sorted.eqTo {left right : BvExpr} (hleft : left.Sorted width)
    (hright : right.Sorted width) : (left.eqTo right).Sorted width :=
  hleft.compare hright

end BvExpr

theorem GlobalHeap.sorted_idLiteral (id : Int32) :
    (GlobalHeap.idLiteral width id).Sorted width :=
  BvExpr.sorted_ofInt _

/-- The auxiliary variables of values are sorted. -/
theorem BvExpr.sorted_auxiliary {name : String} [Names.AuxiliaryValue name] :
    (BvExpr.var name width).Sorted width :=
  sorted_var (Names.isVariable_auxiliaryValue width name)

/-! ### Formulas -/

namespace Formula

theorem sorted_const (value : Bool) : (Formula.const value).Sorted width :=
  ⟨by simp [vars], by simp [applications]⟩

theorem sorted_var {name : String} (hname : Names.IsVariable width name .bool) :
    (Formula.var name).Sorted width :=
  ⟨by simp [vars, hname], by simp [applications]⟩

/-- The auxiliary variables of labels and flags are sorted. -/
theorem sorted_auxiliary {name : String} [Names.AuxiliaryFlag name] :
    (Formula.var name).Sorted width :=
  sorted_var (Names.isVariable_auxiliaryFlag width name)

theorem sorted_not_iff {inner : Formula} : (Formula.not inner).Sorted width ↔ inner.Sorted width :=
  ⟨fun h => ⟨by simpa [vars] using h.vars, by simpa [applications] using h.applications⟩,
    fun h => ⟨by simpa [vars] using h.vars, by simpa [applications] using h.applications⟩⟩

theorem sorted_list_iff {parts : List Formula} :
    (Names.Respected width (varsList parts) ∧ applicationsList parts = []) ↔
      ∀ part ∈ parts, part.Sorted width := by
  induction parts with
  | nil => simp [varsList, applicationsList]
  | cons part rest ih =>
      simp only [varsList, applicationsList, Names.respected_append, List.append_eq_nil_iff,
        List.forall_mem_cons, ← ih]
      constructor
      · rintro ⟨⟨hvars, hrest⟩, happs, hrestApps⟩
        exact ⟨⟨hvars, happs⟩, hrest, hrestApps⟩
      · rintro ⟨⟨hvars, happs⟩, hrest, hrestApps⟩
        exact ⟨⟨hvars, hrest⟩, happs, hrestApps⟩

theorem sorted_and_iff (parts : List Formula) :
    (Formula.and parts).Sorted width ↔ ∀ part ∈ parts, part.Sorted width := by
  rw [← sorted_list_iff]
  exact ⟨fun h => ⟨by simpa [vars] using h.vars, by simpa [applications] using h.applications⟩,
    fun h => ⟨by simpa [vars] using h.1, by simpa [applications] using h.2⟩⟩

theorem sorted_or_iff (parts : List Formula) :
    (Formula.or parts).Sorted width ↔ ∀ part ∈ parts, part.Sorted width := by
  rw [← sorted_list_iff]
  exact ⟨fun h => ⟨by simpa [vars] using h.vars, by simpa [applications] using h.applications⟩,
    fun h => ⟨by simpa [vars] using h.1, by simpa [applications] using h.2⟩⟩

theorem sorted_all {parts : List Formula} (h : ∀ part ∈ parts, part.Sorted width) :
    (all parts).Sorted width :=
  all_of_parts sorted_const sorted_and_iff h

theorem sorted_any {parts : List Formula} (h : ∀ part ∈ parts, part.Sorted width) :
    (any parts).Sorted width :=
  any_of_parts sorted_const sorted_or_iff h

theorem Sorted.negate {inner : Formula} (h : inner.Sorted width) :
    inner.negate.Sorted width :=
  negate_of_inner sorted_const (fun _ => sorted_not_iff) h

theorem Sorted.both {left right : Formula} (hleft : left.Sorted width)
    (hright : right.Sorted width) : (left.both right).Sorted width :=
  sorted_all (by simp [hleft, hright])

theorem Sorted.either {left right : Formula} (hleft : left.Sorted width)
    (hright : right.Sorted width) : (left.either right).Sorted width :=
  sorted_any (by simp [hleft, hright])

end Formula

/-! ## Sorted cells and states -/

/-- A cell whose components are sorted. -/
structure Cell.Sorted (width : Nat) (cell : Cell) : Prop where
  value : cell.value.Sorted width
  high : cell.high.Sorted width
  isLocal : cell.isLocal.Sorted width
  isGlobal : cell.isGlobal.Sorted width

/-- A heap slot whose components are sorted. -/
structure HeapSlot.Sorted (width : Nat) (slot : HeapSlot) : Prop where
  cell : slot.cell.Sorted width
  free : slot.free.Sorted width

namespace Cell

theorem sorted_scalar {value : BvExpr} {high : Formula} (hvalue : value.Sorted width)
    (hhigh : high.Sorted width) : (scalar value high).Sorted width :=
  ⟨hvalue, hhigh, Formula.sorted_const _, Formula.sorted_const _⟩

theorem sorted_zero : (zero width).Sorted width :=
  sorted_scalar BvExpr.sorted_zero (Formula.sorted_const _)

theorem sorted_localRef {object : BvExpr} (h : object.Sorted width) :
    (localRef object).Sorted width :=
  ⟨h, Formula.sorted_const _, Formula.sorted_const _, Formula.sorted_const _⟩

theorem sorted_globalRef {object : BvExpr} {high : Formula} (hobject : object.Sorted width)
    (hhigh : high.Sorted width) : (globalRef object high).Sorted width :=
  ⟨hobject, hhigh, Formula.sorted_const _, Formula.sorted_const _⟩

theorem sorted_register (i : Nat) : (register i width).Sorted width :=
  ⟨BvExpr.sorted_var (Names.isVariable_value _ _), Formula.sorted_var (Names.isVariable_high _ _),
    Formula.sorted_var (Names.isVariable_isLocal _ _),
    Formula.sorted_var (Names.isVariable_isGlobal _ _)⟩

theorem Sorted.withHigh {cell : Cell} {high : Formula} (hcell : cell.Sorted width)
    (hhigh : high.Sorted width) : (cell.withHigh high).Sorted width :=
  ⟨hcell.value, hhigh, hcell.isLocal, hcell.isGlobal⟩

theorem Sorted.promote {cell : Cell} (h : cell.Sorted width) : cell.promote.Sorted width :=
  ⟨h.value, h.high, Formula.sorted_const _, h.isGlobal.either h.isLocal⟩

theorem Sorted.blocked {cell : Cell} (h : cell.Sorted width) :
    cell.blocked.Sorted width :=
  h.isLocal.either h.isGlobal

end Cell

namespace HeapSlot

theorem sorted_empty : (empty width).Sorted width :=
  ⟨Cell.sorted_zero, Formula.sorted_const _⟩

theorem sorted_allocated : (allocated width).Sorted width :=
  ⟨Cell.sorted_zero, Formula.sorted_const _⟩

theorem sorted_canonical {heap : String} (hheap : Names.IsHeap heap) (k : Nat) :
    (canonical heap k width).Sorted width := by
  obtain ⟨hhigh, hlocal, hglobal, hfree⟩ := Names.isVariable_slotFlag width hheap k
  exact ⟨⟨BvExpr.sorted_var (Names.isVariable_slotValue width hheap k), Formula.sorted_var hhigh,
    Formula.sorted_var hlocal, Formula.sorted_var hglobal⟩, Formula.sorted_var hfree⟩

end HeapSlot

/-- A state with the slots of a frame and of a local heap, all of them sorted. -/
structure State.Sorted (shape : FrameShape) (heapSize width : Nat) (state : State) : Prop where
  registers_length : state.registers.length = shape.slotCount
  registers : ∀ cell ∈ state.registers, cell.Sorted width
  heap_length : state.heap.length = heapSize
  heap : ∀ slot ∈ state.heap, slot.Sorted width

theorem sorted_canonicalHeap {heap : String} (hheap : Names.IsHeap heap) (size : Nat) :
    ∀ slot ∈ canonicalHeap heap size width, slot.Sorted width := by
  intro slot hslot
  obtain ⟨k, -, rfl⟩ := List.mem_map.mp hslot
  exact HeapSlot.sorted_canonical hheap k

@[simp] theorem length_canonicalHeap (heap : String) (size width : Nat) :
    (canonicalHeap heap size width).length = size := by
  simp [canonicalHeap]

namespace State

theorem sorted_canonical (shape : FrameShape) (heapSize width : Nat) :
    (canonical shape heapSize width).Sorted shape heapSize width where
  registers_length := by simp [canonical]
  registers := by
    intro cell hcell
    obtain ⟨i, -, rfl⟩ := List.mem_map.mp hcell
    exact Cell.sorted_register i
  heap_length := length_canonicalHeap _ _ _
  heap := sorted_canonicalHeap Names.isHeap_ownHeap _

theorem sorted_zeroed (shape : FrameShape) {heap : List HeapSlot}
    (hheap : ∀ slot ∈ heap, slot.Sorted width) :
    (zeroed shape heap width).Sorted shape heap.length width where
  registers_length := by simp [zeroed]
  registers := by
    intro cell hcell
    rw [List.eq_of_mem_replicate hcell]
    exact Cell.sorted_zero
  heap_length := rfl
  heap := hheap

end State

end DalvikHorn
