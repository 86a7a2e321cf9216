import DalvikHorn.Proofs.Sorted
import DalvikHorn.Proofs.TextTrees
import DalvikHorn.Proofs.Yields

/-!
# Texts of terms are read back

A term of any sort can be read off its text when its names are known.  A text is a tree of words
and groups, and the tree is read from its leaves to its root:

* a word is a truth value, a numeral, a variable of the sort that it is known with, or else a
  relation without arguments;
* a group is a literal, an operator with terms of the sorts that it takes, or else a relation with
  arguments.

`TextTree.read` does this.  It needs names that stand for one thing, which is what `Unambiguous`
says about the variables and the applications of some terms, and then every term has a tree that is
written as the term is and read as the term (`Term.exists_shows`).  Together with the trees being
seen in their texts, terms with one text are equal (`Unambiguous.term_eq`).
-/

namespace DalvikHorn

/-! ## Numerals -/

/-- The number that some characters are the digits of. -/
def readNatural? (chars : List Char) : Option Nat :=
  let value := Nat.ofDigitChars 10 chars 0
  if Nat.toDigits 10 value = chars then some value else none

theorem readNatural?_toDigits (value : Nat) :
    readNatural? (Nat.toDigits 10 value) = some value := by
  simp [readNatural?]

theorem readNatural?_eq_none {chars : List Char} (h : ∀ value, chars ≠ Nat.toDigits 10 value) :
    readNatural? chars = none :=
  if_neg fun heq => h _ heq.symm

/-! ## Operators -/

/-- What can stand at the head of a group without being a relation. -/
inductive Operator where
  /-- The head of a literal. -/
  | indexed
  /-- The head of a negative number. -/
  | minus
  /-- The arrow of a rule. -/
  | implies
  | ite
  | not
  | and
  | or
  | unary (op : BvUnary)
  | binary (op : BvBinary)
  | compare (op : BvCompare)
  deriving DecidableEq

namespace Operator

/-- The symbol of an operator. -/
def symbol : Operator → String
  | .indexed => "_"
  | .minus => "-"
  | .implies => "=>"
  | .ite => "ite"
  | .not => "not"
  | .and => "and"
  | .or => "or"
  | .unary op => op.symbol
  | .binary op => op.symbol
  | .compare op => op.symbol

/-- All operators. -/
def all : List Operator :=
  [.indexed, .minus, .implies, .ite, .not, .and, .or] ++
    [BvUnary.neg, .not].map .unary ++
    [BvBinary.add, .sub, .mul, .udiv, .urem, .and, .or, .xor, .shl, .ashr, .lshr].map .binary ++
    [BvCompare.eq, .ult, .ule, .ugt, .uge].map .compare

theorem mem_all (op : Operator) : op ∈ all := by
  cases op with
  | unary op => cases op <;> decide
  | binary op => cases op <;> decide
  | compare op => cases op <;> decide
  | _ => decide

theorem symbol_injective {first second : Operator} (h : first.symbol = second.symbol) :
    first = second := by
  have hnodup : (all.map symbol).Nodup := by decide
  exact List.inj_on_of_nodup_map hnodup first.mem_all second.mem_all h

theorem isOneWord_symbol (op : Operator) : IsOneWord op.symbol := by
  have hall : ∀ op ∈ all, IsOneWord op.symbol := by decide
  exact hall op op.mem_all

/-- The operator with a symbol. -/
def ofSymbol? (symbol : String) : Option Operator :=
  all.find? fun op => op.symbol = symbol

theorem ofSymbol?_symbol (op : Operator) : ofSymbol? op.symbol = some op := by
  have hall : ∀ op ∈ all, ofSymbol? op.symbol = some op := by decide
  exact hall op op.mem_all

theorem ofSymbol?_eq_none {symbol : String} (h : symbol ∉ all.map Operator.symbol) :
    ofSymbol? symbol = none := by
  refine List.find?_eq_none.mpr fun op hop heq => h ?_
  exact of_decide_eq_true heq ▸ List.mem_map_of_mem hop

/-- The term that an operator makes of its operands.  A literal is not made of terms, and an arrow
makes no term. -/
def build : Operator → List Term → Option Term
  | .minus, [.int (.lit value)] => some (.int (.lit (-value)))
  | .ite, [.bool condition, .bv yes, .bv no] => some (.bv (.ite condition yes no))
  | .not, [.bool inner] => some (.bool (.not inner))
  | .and, operands => (operands.mapM Term.bool?).map fun parts => .bool (.and parts)
  | .or, operands => (operands.mapM Term.bool?).map fun parts => .bool (.or parts)
  | .unary op, [.bv operand] => some (.bv (.unary op operand))
  | .binary op, [.bv left, .bv right] => some (.bv (.binary op left right))
  | .compare op, [.bv left, .bv right] => some (.bool (.compare op left right))
  | _, _ => none

end Operator

/-! ## Names -/

/-- The words that are no names. -/
def reservedWords : List String :=
  "true" :: "false" :: Operator.all.map Operator.symbol

/-- A word that can be a name: it is not reserved and not a numeral. -/
structure IsSymbol (name : String) : Prop where
  word : IsOneWord name
  notReserved : name ∉ reservedWords
  notNumeral : ∀ value : Nat, name ≠ toString value

theorem IsSymbol.ne_true {name : String} (h : IsSymbol name) : name ≠ "true" :=
  fun heq => h.notReserved (heq ▸ List.mem_cons_self)

theorem IsSymbol.ne_false {name : String} (h : IsSymbol name) : name ≠ "false" :=
  fun heq => h.notReserved (heq ▸ List.mem_cons_of_mem _ List.mem_cons_self)

theorem IsSymbol.notOperator {name : String} (h : IsSymbol name) :
    name ∉ Operator.all.map Operator.symbol :=
  fun hmem => h.notReserved (List.mem_cons_of_mem _ (List.mem_cons_of_mem _ hmem))

theorem IsSymbol.readNatural?_toList {name : String} (h : IsSymbol name) :
    readNatural? name.toList = none := by
  refine readNatural?_eq_none fun value heq => h.notNumeral value (String.toList_inj.mp ?_)
  rw [heq]
  simp [toString]

/-- The names of some variables and relations stand for one thing: a variable of one sort, or a
relation. -/
structure Unambiguous (vars : List (String × TermSort)) (applications : List Atom) : Prop where
  ofVariables : ∀ v ∈ vars, IsSymbol v.1
  ofRelations : ∀ atom ∈ applications, IsSymbol atom.relation
  sort_unique : ∀ v ∈ vars, ∀ w ∈ vars, v.1 = w.1 → v.2 = w.2
  disjoint : ∀ v ∈ vars, ∀ atom ∈ applications, v.1 ≠ atom.relation

/-! ## Reading -/

/-- The variable of a sort. -/
def variableTerm (name : String) : TermSort → Term
  | .bool => .bool (.var name)
  | .bitVec width => .bv (.var name width)
  | .int => .int (.var name)

/-- The term that a word stands for. -/
def readWord (vars : List (String × TermSort)) (word : String) : Term :=
  if word = "true" then .bool .tt
  else if word = "false" then .bool .ff
  else match readNatural? word.toList with
    | some value => .int (.lit value)
    | none => match vars.lookup word with
      | some sort => variableTerm word sort
      | none => .bool (.app word [])

/-- The literal in a group. -/
def readLiteral : List TextTree → Option Term
  | [.word value, .word width] =>
      match value.toList with
      | 'b' :: 'v' :: digits => do
          return .bv (.lit (← readNatural? digits) (← readNatural? width.toList))
      | _ => none
  | _ => none

/-- The term that a head makes of its operands. -/
def applyHead (head : String) (operands : List Term) : Option Term :=
  match Operator.ofSymbol? head with
  | some op => op.build operands
  | none => some (.bool (.app head operands))

mutual

/-- The term that a tree stands for, over variables of known sorts. -/
def TextTree.read (vars : List (String × TermSort)) : TextTree → Option Term
  | .word text => some (readWord vars text)
  | .group head operands =>
      if head = Operator.indexed.symbol then readLiteral operands
      else (TextTree.readAll vars operands).bind (applyHead head)

/-- The terms that some trees stand for. -/
def TextTree.readAll (vars : List (String × TermSort)) : List TextTree → Option (List Term)
  | [] => some []
  | tree :: rest => do return (← tree.read vars) :: (← TextTree.readAll vars rest)

end

/-- A plain tree that is written as a term is and read as that term. -/
structure Shows (vars : List (String × TermSort)) (tree : TextTree) (term : Term) : Prop where
  plain : tree.IsPlain
  text_eq : tree.text = term.text
  read_eq : tree.read vars = some term

/-- Plain trees that are written as some terms are and read as those terms. -/
structure ShowsAll (vars : List (String × TermSort)) (trees : List TextTree) (terms : List Term) :
    Prop where
  plain : ∀ tree ∈ trees, tree.IsPlain
  text_eq : trees.map TextTree.text = terms.map Term.text
  read_eq : TextTree.readAll vars trees = some terms

section

variable {vars : List (String × TermSort)} {tree : TextTree} {term : Term}
  {trees : List TextTree} {terms : List Term}

theorem ShowsAll.nil : ShowsAll vars [] [] where
  plain := nofun
  text_eq := rfl
  read_eq := rfl

theorem ShowsAll.cons (hfirst : Shows vars tree term) (hrest : ShowsAll vars trees terms) :
    ShowsAll vars (tree :: trees) (term :: terms) where
  plain := List.forall_mem_cons.mpr ⟨hfirst.plain, hrest.plain⟩
  text_eq := by rw [List.map_cons, List.map_cons, hfirst.text_eq, hrest.text_eq]
  read_eq := by simp [TextTree.readAll, hfirst.read_eq, hrest.read_eq]

namespace Shows

/-- A tree shows one term. -/
theorem unique {term' : Term} (h : Shows vars tree term) (h' : Shows vars tree term') :
    term = term' :=
  Option.some.inj (h.read_eq.symm.trans h'.read_eq)

/-- Terms with one text are equal when there are trees that show them. -/
theorem eq_of_text_eq {tree' : TextTree} {term' : Term} (h : Shows vars tree term)
    (h' : Shows vars tree' term') (htext : term.text = term'.text) : term = term' := by
  have htree : tree = tree' :=
    TextTree.text_unique h.plain h'.plain (h.text_eq.trans (htext.trans h'.text_eq.symm))
  exact h.unique (htree ▸ h')

theorem word {word : String} (hword : IsOneWord word) (htext : term.text = word)
    (hread : readWord vars word = term) : Shows vars (.word word) term where
  plain := .word hword
  text_eq := by rw [TextTree.text, htext]
  read_eq := by rw [TextTree.read, hread]

/-- A group shows what its head makes of the terms that its operands show. -/
theorem group {head : String} (hhead : IsOneWord head) (hne : head ≠ Operator.indexed.symbol)
    (hall : ShowsAll vars trees terms) (htext : term.text = operatorText head (terms.map Term.text))
    (happly : applyHead head terms = some term) : Shows vars (.group head trees) term where
  plain := .group hhead hall.plain
  text_eq := by rw [TextTree.text, TextTree.texts_eq_map, hall.text_eq, htext]
  read_eq := by rw [TextTree.read, if_neg hne, hall.read_eq, Option.bind_some, happly]

theorem ofOperator (op : Operator) (hne : op ≠ .indexed) (hall : ShowsAll vars trees terms)
    (htext : term.text = operatorText op.symbol (terms.map Term.text))
    (hbuild : op.build terms = some term) : Shows vars (.group op.symbol trees) term := by
  refine .group op.isOneWord_symbol (fun heq => hne (Operator.symbol_injective heq)) hall htext ?_
  rw [applyHead, Operator.ofSymbol?_symbol]
  exact hbuild

end Shows

/-- No tree shows an arrow as a term. -/
theorem not_shows_implies : ¬ Shows vars (.group Operator.implies.symbol trees) term := by
  intro h
  have hread := h.read_eq
  have hne : Operator.implies.symbol ≠ Operator.indexed.symbol := by decide
  rw [TextTree.read, if_neg hne, Option.bind_eq_some_iff] at hread
  obtain ⟨operands, -, happly⟩ := hread
  rw [applyHead, Operator.ofSymbol?_symbol] at happly
  simp [Operator.build] at happly

end

/-! ## Words that are shown -/

theorem standsInWords_toDigits (value : Nat) :
    ∀ c ∈ Nat.toDigits 10 value, standsInWords c = true :=
  fun _ hc => standsInWords_of_kind (by decide)
    (Nat.isDigit_of_mem_toDigits (by decide) (by decide) hc)

theorem isOneWord_numeral (value : Nat) : IsOneWord (toString value) := by
  have hlist : (toString value).toList = Nat.toDigits 10 value := Nat.toList_repr
  constructor
  · rw [hlist]
    exact Nat.toDigits_ne_nil
  · rw [hlist]
    exact standsInWords_toDigits value

theorem isOneWord_bits (value : Nat) : IsOneWord s!"bv{value}" := by
  have hlist : s!"bv{value}".toList = 'b' :: 'v' :: (toString value).toList := by simp [toString]
  refine ⟨by simp, ?_⟩
  rw [hlist]
  refine List.forall_mem_cons.mpr ⟨by decide, List.forall_mem_cons.mpr ⟨by decide, ?_⟩⟩
  exact (isOneWord_numeral value).stands

section

variable {vars : List (String × TermSort)} {applications : List Atom}

theorem shows_literal (value width : Nat) :
    Shows vars (.group Operator.indexed.symbol [.word s!"bv{value}", .word (toString width)])
      (.bv (.lit value width)) where
  plain := by
    refine .group Operator.indexed.isOneWord_symbol (List.forall_mem_cons.mpr ⟨?_, ?_⟩)
    · exact .word (isOneWord_bits value)
    · exact List.forall_mem_singleton.mpr (.word (isOneWord_numeral width))
  text_eq := by
    apply String.toList_inj.mp
    simp [TextTree.text, TextTree.texts, operatorText, Operator.symbol, Term.text, BvExpr.text,
      toString]
  read_eq := by
    have hbits : s!"bv{value}".toList = 'b' :: 'v' :: Nat.toDigits 10 value := by simp [toString]
    have hwidth : (toString width).toList = Nat.toDigits 10 width := Nat.toList_repr
    rw [TextTree.read, if_pos rfl, readLiteral, hbits, hwidth]
    simp [readNatural?_toDigits]

theorem text_natural (value : Nat) : (IntExpr.lit value).text = toString value := by
  have hnot : ¬ ((value : Int) < 0) := by omega
  rw [IntExpr.text, if_neg hnot, Int.natAbs_natCast]

theorem text_negative {value : Int} (h : value < 0) :
    (IntExpr.lit value).text = operatorText Operator.minus.symbol [toString value.natAbs] := by
  rw [IntExpr.text, if_pos h]
  apply String.toList_inj.mp
  simp [operatorText, Operator.symbol, toString]

theorem shows_numeral (value : Nat) :
    Shows vars (.word (toString value)) (.int (.lit value)) := by
  have hlist : (toString value).toList = Nat.toDigits 10 value := Nat.toList_repr
  have hdigits : ∀ word ∈ ["true", "false"], toString value ≠ word := by
    rintro word hword rfl
    have hall : ∀ word ∈ ["true", "false"], word.toList.all Char.isDigit = false := by decide
    have hdigit : (toString value).toList.all Char.isDigit = true := by
      rw [hlist, List.all_eq_true]
      exact fun c hc => Nat.isDigit_of_mem_toDigits (by decide) (by decide) hc
    rw [hall _ hword] at hdigit
    cases hdigit
  refine .word (isOneWord_numeral value) (text_natural value) ?_
  rw [readWord, if_neg (hdigits "true" (by simp)), if_neg (hdigits "false" (by simp)), hlist,
    readNatural?_toDigits]

/-- Integers are shown by a numeral, behind a minus if they are negative. -/
theorem exists_shows_int (value : Int) : ∃ tree, Shows vars tree (.int (.lit value)) := by
  by_cases hneg : value < 0
  · have hvalue : -(value.natAbs : Int) = value := by omega
    refine ⟨_, .ofOperator .minus (by decide) (.cons (shows_numeral value.natAbs) .nil) ?_ ?_⟩
    · rw [List.map_singleton, Term.text, Term.text, text_natural, text_negative hneg]
    · rw [Operator.build, hvalue]
  · have hvalue : (value.natAbs : Int) = value := by omega
    exact ⟨_, hvalue ▸ shows_numeral value.natAbs⟩

theorem shows_const (value : Bool) : ∃ tree, Shows vars tree (.bool (.const value)) := by
  cases value with
  | true => exact ⟨.word "true", .word (by decide) rfl rfl⟩
  | false => exact ⟨.word "false", .word (by decide) rfl rfl⟩

theorem mapM_bool? (parts : List Formula) : (parts.map Term.bool).mapM Term.bool? = some parts := by
  refine mapM_eq_some_of_map_eq ?_
  rw [List.map_map]
  rfl

namespace Unambiguous

variable (h : Unambiguous vars applications)
include h

theorem lookup_eq {name : String} {sort : TermSort} (hv : (name, sort) ∈ vars) :
    vars.lookup name = some sort := by
  cases hlookup : vars.lookup name with
  | none =>
      have hne := List.lookup_eq_none_iff.mp hlookup _ hv
      simp at hne
  | some other =>
      obtain ⟨before, after, hsplit, -⟩ := List.lookup_eq_some_iff.mp hlookup
      have hother : (name, other) ∈ vars := by simp [hsplit]
      exact congrArg some (h.sort_unique _ hother _ hv rfl)

theorem shows_variable {name : String} {sort : TermSort} (hv : (name, sort) ∈ vars) :
    Shows vars (.word name) (variableTerm name sort) := by
  have hsymbol := h.ofVariables _ hv
  refine .word hsymbol.word ?_ ?_
  · cases sort <;> rfl
  · rw [readWord, if_neg hsymbol.ne_true, if_neg hsymbol.ne_false, hsymbol.readNatural?_toList]
    simp [h.lookup_eq hv]

/-- An application is shown by its relation, which is a word when there are no arguments. -/
theorem exists_shows_app {relation : String} {args : List Term} {trees : List TextTree}
    (hatom : ⟨relation, args⟩ ∈ applications) (hall : ShowsAll vars trees args) :
    ∃ tree, Shows vars tree (.bool (.app relation args)) := by
  have hsymbol := h.ofRelations _ hatom
  cases args with
  | nil =>
      have htext : (Term.bool (.app relation [])).text = relation := by
        simp [Term.text, Formula.text, Term.texts, applicationText]
      have hnone : vars.lookup relation = none := by
        refine List.lookup_eq_none_iff.mpr fun v hv => ?_
        simpa using (h.disjoint v hv _ hatom).symm
      refine ⟨_, .word hsymbol.word htext ?_⟩
      rw [readWord, if_neg hsymbol.ne_true, if_neg hsymbol.ne_false, hsymbol.readNatural?_toList]
      simp [hnone]
  | cons arg rest =>
      refine ⟨_, .group hsymbol.word (fun heq => ?_) hall ?_ ?_⟩
      · exact hsymbol.notOperator (heq ▸ List.mem_map_of_mem (Operator.mem_all _))
      · simp [Term.text, Formula.text, Term.texts_eq_map, applicationText]
      · rw [applyHead, Operator.ofSymbol?_eq_none hsymbol.notOperator]

end Unambiguous

/-! ## Terms that are shown -/

mutual

theorem BvExpr.exists_shows (h : Unambiguous vars applications) :
    ∀ expr : BvExpr, expr.vars ⊆ vars → expr.applications ⊆ applications →
      ∃ tree, Shows vars tree (.bv expr)
  | .lit value width, _, _ => ⟨_, shows_literal value width⟩
  | .var name width, hvars, _ => by
      rw [BvExpr.vars] at hvars
      exact ⟨_, h.shows_variable (hvars List.mem_cons_self)⟩
  | .unary op operand, hvars, happ => by
      rw [BvExpr.vars] at hvars
      rw [BvExpr.applications] at happ
      obtain ⟨tree, htree⟩ := BvExpr.exists_shows h operand hvars happ
      -- the operator decides how the operands are read
      exact ⟨_, .ofOperator (.unary op) nofun (.cons htree .nil)
        (by rw [Term.text, BvExpr.text]; rfl) rfl⟩
  | .binary op left right, hvars, happ => by
      rw [BvExpr.vars, List.append_subset] at hvars
      rw [BvExpr.applications, List.append_subset] at happ
      obtain ⟨first, hfirst⟩ := BvExpr.exists_shows h left hvars.1 happ.1
      obtain ⟨second, hsecond⟩ := BvExpr.exists_shows h right hvars.2 happ.2
      exact ⟨_, .ofOperator (.binary op) nofun (.cons hfirst (.cons hsecond .nil))
        (by rw [Term.text, BvExpr.text]; rfl) rfl⟩
  | .ite condition yes no, hvars, happ => by
      rw [BvExpr.vars, List.append_subset, List.append_subset] at hvars
      rw [BvExpr.applications, List.append_subset, List.append_subset] at happ
      obtain ⟨first, hfirst⟩ := Formula.exists_shows h condition hvars.1.1 happ.1.1
      obtain ⟨second, hsecond⟩ := BvExpr.exists_shows h yes hvars.1.2 happ.1.2
      obtain ⟨third, hthird⟩ := BvExpr.exists_shows h no hvars.2 happ.2
      exact ⟨_, .ofOperator .ite nofun (.cons hfirst (.cons hsecond (.cons hthird .nil)))
        (by rw [Term.text, BvExpr.text]; rfl) rfl⟩

theorem Formula.exists_shows (h : Unambiguous vars applications) :
    ∀ formula : Formula, formula.vars ⊆ vars → formula.applications ⊆ applications →
      ∃ tree, Shows vars tree (.bool formula)
  | .const value, _, _ => shows_const value
  | .var name, hvars, _ => by
      rw [Formula.vars] at hvars
      exact ⟨_, h.shows_variable (hvars List.mem_cons_self)⟩
  | .not inner, hvars, happ => by
      rw [Formula.vars] at hvars
      rw [Formula.applications] at happ
      obtain ⟨tree, htree⟩ := Formula.exists_shows h inner hvars happ
      exact ⟨_, .ofOperator .not nofun (.cons htree .nil)
        (by rw [Term.text, Formula.text]; rfl) rfl⟩
  | .and parts, hvars, happ => by
      rw [Formula.vars] at hvars
      rw [Formula.applications] at happ
      obtain ⟨trees, htrees⟩ := Formula.exists_showsAll h parts hvars happ
      refine ⟨_, .ofOperator .and nofun htrees ?_ ?_⟩
      · -- the operands are all formulas, so the connective is built from them
        rw [Term.text, Formula.text, Formula.texts_eq_map, List.map_map]
        rfl
      · rw [Operator.build, mapM_bool?]
        rfl
  | .or parts, hvars, happ => by
      rw [Formula.vars] at hvars
      rw [Formula.applications] at happ
      obtain ⟨trees, htrees⟩ := Formula.exists_showsAll h parts hvars happ
      refine ⟨_, .ofOperator .or nofun htrees ?_ ?_⟩
      · rw [Term.text, Formula.text, Formula.texts_eq_map, List.map_map]
        rfl
      · rw [Operator.build, mapM_bool?]
        rfl
  | .compare op left right, hvars, happ => by
      rw [Formula.vars, List.append_subset] at hvars
      rw [Formula.applications, List.append_subset] at happ
      obtain ⟨first, hfirst⟩ := BvExpr.exists_shows h left hvars.1 happ.1
      obtain ⟨second, hsecond⟩ := BvExpr.exists_shows h right hvars.2 happ.2
      exact ⟨_, .ofOperator (.compare op) nofun (.cons hfirst (.cons hsecond .nil))
        (by rw [Term.text, Formula.text]; rfl) rfl⟩
  | .app relation args, hvars, happ => by
      rw [Formula.vars] at hvars
      rw [Formula.applications, List.cons_subset] at happ
      obtain ⟨trees, htrees⟩ := Term.exists_showsAll h args hvars happ.2
      -- the relation decides the sorts of its arguments
      exact h.exists_shows_app happ.1 htrees

theorem Formula.exists_showsAll (h : Unambiguous vars applications) :
    ∀ parts : List Formula, Formula.varsList parts ⊆ vars →
      Formula.applicationsList parts ⊆ applications →
        ∃ trees, ShowsAll vars trees (parts.map Term.bool)
  | [], _, _ => ⟨_, .nil⟩
  | part :: rest, hvars, happ => by
      rw [Formula.varsList, List.append_subset] at hvars
      rw [Formula.applicationsList, List.append_subset] at happ
      obtain ⟨tree, htree⟩ := Formula.exists_shows h part hvars.1 happ.1
      obtain ⟨trees, htrees⟩ := Formula.exists_showsAll h rest hvars.2 happ.2
      exact ⟨_, .cons htree htrees⟩

theorem Term.exists_shows (h : Unambiguous vars applications) :
    ∀ term : Term, term.vars ⊆ vars → term.applications ⊆ applications →
      ∃ tree, Shows vars tree term
  | .bv expr, hvars, happ => by
      rw [Term.vars] at hvars
      rw [Term.applications] at happ
      exact BvExpr.exists_shows h expr hvars happ
  | .bool formula, hvars, happ => by
      rw [Term.vars] at hvars
      rw [Term.applications] at happ
      exact Formula.exists_shows h formula hvars happ
  | .int (.lit value), _, _ => exists_shows_int value
  | .int (.var name), hvars, _ => by
      rw [Term.vars] at hvars
      exact ⟨_, h.shows_variable (hvars List.mem_cons_self)⟩

theorem Term.exists_showsAll (h : Unambiguous vars applications) :
    ∀ terms : List Term, Term.varsList terms ⊆ vars → Term.applicationsList terms ⊆ applications →
      ∃ trees, ShowsAll vars trees terms
  | [], _, _ => ⟨_, .nil⟩
  | term :: rest, hvars, happ => by
      rw [Term.varsList, List.append_subset] at hvars
      rw [Term.applicationsList, List.append_subset] at happ
      obtain ⟨tree, htree⟩ := Term.exists_shows h term hvars.1 happ.1
      obtain ⟨trees, htrees⟩ := Term.exists_showsAll h rest hvars.2 happ.2
      exact ⟨_, .cons htree htrees⟩

end

/-- Terms with unambiguous names are equal when they have one text. -/
theorem Unambiguous.term_eq {first second : Term}
    (h : Unambiguous (first.vars ++ second.vars) (first.applications ++ second.applications))
    (htext : first.text = second.text) : first = second := by
  obtain ⟨tree, htree⟩ := Term.exists_shows h first (List.subset_append_left _ _)
    (List.subset_append_left _ _)
  obtain ⟨tree', htree'⟩ := Term.exists_shows h second (List.subset_append_right _ _)
    (List.subset_append_right _ _)
  exact htree.eq_of_text_eq htree' htext

end

end DalvikHorn
