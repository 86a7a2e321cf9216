import DalvikHorn.Proofs.ScriptNames
import DalvikHorn.Proofs.TextReading

/-!
# Rules with one text are one rule

A script drops rules that it has written already, and it compares texts.  This loses nothing: the
text of a term determines the term, and the text of a clause determines its folded body and its
head (`text_determines_expression`).

It needs names that cannot be mistaken for anything else.  The names of scripts are such names: they
start with a letter, hold no blanks and no parentheses and are no words of the syntax
(`Names.Variable.isSymbol`, `Relation.isSymbol`), and they differ from each other.
-/

namespace DalvikHorn

/-! ## Rules -/

/-- A tree that shows a rule with a body and a head. -/
inductive ShowsRule (vars : List (String × TermSort)) : TextTree → Formula → Formula → Prop
  | fact {tree : TextTree} {head : Formula} (hhead : Shows vars tree (.bool head)) :
      ShowsRule vars (.group "rule" [tree]) .tt head
  | implication {tree tree' : TextTree} {body head : Formula}
      (hbody : Shows vars tree (.bool body)) (hhead : Shows vars tree' (.bool head)) :
      ShowsRule vars (.group "rule" [.group Operator.implies.symbol [tree, tree']]) body head

namespace ShowsRule

variable {vars : List (String × TermSort)} {tree : TextTree} {body body' head head' : Formula}

theorem isPlain (h : ShowsRule vars tree body head) : tree.IsPlain := by
  have hrule : IsOneWord "rule" := by decide
  cases h with
  | fact hhead => exact .group hrule (List.forall_mem_singleton.mpr hhead.plain)
  | implication hbody hhead =>
      have harrow : (TextTree.group Operator.implies.symbol [_, _]).IsPlain :=
        .group Operator.implies.isOneWord_symbol
          (List.forall_mem_cons.mpr ⟨hbody.plain, List.forall_mem_singleton.mpr hhead.plain⟩)
      exact .group hrule (List.forall_mem_singleton.mpr harrow)

/-- A tree shows one rule. -/
theorem unique (h : ShowsRule vars tree body head) (h' : ShowsRule vars tree body' head') :
    body = body' ∧ head = head' := by
  cases h with
  | fact hhead =>
      cases h' with
      | fact hhead' => exact ⟨rfl, Term.bool.inj (hhead.unique hhead')⟩
      | implication _ _ => exact absurd hhead not_shows_implies
  | implication hbody hhead =>
      cases h' with
      | fact hhead' => exact absurd hhead' not_shows_implies
      | implication hbody' hhead' =>
          exact ⟨Term.bool.inj (hbody.unique hbody'), Term.bool.inj (hhead.unique hhead')⟩

end ShowsRule

/-! ## Clauses -/

/-- A formula uses only some variables and applications. -/
structure Formula.Uses (vars : List (String × TermSort)) (applications : List Atom)
    (formula : Formula) : Prop where
  vars : formula.vars ⊆ vars
  applications : formula.applications ⊆ applications

section

variable {vars : List (String × TermSort)} {applications : List Atom}

theorem Formula.uses_const (value : Bool) : (const value).Uses vars applications :=
  ⟨by simp, by simp⟩

theorem Formula.uses_and_iff (parts : List Formula) :
    (and parts).Uses vars applications ↔ ∀ part ∈ parts, part.Uses vars applications := by
  constructor
  · intro h part hpart
    obtain ⟨hvars, happs⟩ := forall_names_iff.mp
      ⟨fun _ hv => h.vars hv, fun _ hatom => h.applications hatom⟩ part hpart
    exact ⟨hvars, happs⟩
  · intro h
    obtain ⟨hvars, happs⟩ := forall_names_iff.mpr fun part hpart =>
      ⟨fun _ hv => (h part hpart).vars hv, fun _ hatom => (h part hpart).applications hatom⟩
    exact ⟨hvars, happs⟩

/-- A folded body uses the names of its parts only. -/
theorem Clause.uses_bodyFormula {clause : Clause} (hvars : clause.vars ⊆ vars)
    (happ : clause.applications ⊆ applications) : clause.bodyFormula.Uses vars applications := by
  refine Formula.all_of_parts Formula.uses_const Formula.uses_and_iff fun part hpart => ⟨?_, ?_⟩
  · exact fun v hv => hvars (List.mem_append_left _ (Formula.mem_varsList.mpr ⟨part, hpart, hv⟩))
  · exact fun atom hatom =>
      happ (List.mem_append_left _ (Formula.mem_applicationsList.mpr ⟨part, hpart, hatom⟩))

theorem Clause.text_of_isTrue {clause : Clause} (h : clause.bodyFormula.isTrue = true) :
    clause.text = operatorText "rule" [clause.head.text] := by
  rw [text, if_pos h]
  apply String.toList_inj.mp
  simp [operatorText]

theorem Clause.text_of_not_isTrue {clause : Clause} (h : ¬ clause.bodyFormula.isTrue = true) :
    clause.text = operatorText "rule"
      [operatorText Operator.implies.symbol [clause.bodyFormula.text, clause.head.text]] := by
  rw [text, if_neg h]
  apply String.toList_inj.mp
  simp [operatorText, Operator.symbol]

theorem Atom.toFormula_injective {first second : Atom} (h : first.toFormula = second.toFormula) :
    first = second := by
  cases first
  cases second
  obtain ⟨rfl, rfl⟩ := Formula.app.inj h
  rfl

theorem Formula.eq_tt_of_isTrue {formula : Formula} (h : formula.isTrue = true) :
    formula = .tt := by
  cases formula with
  | const value =>
      cases value with
      | true => rfl
      | false => cases h
  | _ => cases h

/-- A clause is written as a tree that shows its folded body and its head. -/
theorem Unambiguous.exists_showsRule (h : Unambiguous vars applications) {clause : Clause}
    (hvars : clause.vars ⊆ vars) (happ : clause.applications ⊆ applications) :
    ∃ tree, ShowsRule vars tree clause.bodyFormula clause.head.toFormula ∧
      tree.text = clause.text := by
  obtain ⟨hbodyvars, hbodyapp⟩ := clause.uses_bodyFormula hvars happ
  obtain ⟨tree, htree⟩ := Formula.exists_shows h clause.bodyFormula hbodyvars hbodyapp
  obtain ⟨tree', htree'⟩ := Formula.exists_shows h clause.head.toFormula
    (fun v hv => hvars (List.mem_append_right _ hv))
    (fun atom hatom => happ (List.mem_append_right _ hatom))
  have hhead : tree'.text = clause.head.text := htree'.text_eq
  have hbody : tree.text = clause.bodyFormula.text := htree.text_eq
  by_cases htrue : clause.bodyFormula.isTrue = true
  · have hfact :
        ShowsRule vars (.group "rule" [tree']) clause.bodyFormula clause.head.toFormula := by
      rw [Formula.eq_tt_of_isTrue htrue]
      exact .fact htree'
    refine ⟨_, hfact, ?_⟩
    rw [clause.text_of_isTrue htrue, TextTree.text, TextTree.texts_eq_map, List.map_singleton,
      hhead]
  · refine ⟨_, .implication htree htree', ?_⟩
    rw [clause.text_of_not_isTrue htrue]
    simp only [TextTree.text, TextTree.texts_eq_map, List.map_cons, List.map_nil, hbody, hhead]

/-- Clauses with unambiguous names have one folded body and one head when they have one text. -/
theorem Unambiguous.rule_eq (h : Unambiguous vars applications) {first second : Clause}
    (hfirst : first.vars ⊆ vars ∧ first.applications ⊆ applications)
    (hsecond : second.vars ⊆ vars ∧ second.applications ⊆ applications)
    (htext : first.text = second.text) :
    first.bodyFormula = second.bodyFormula ∧ first.head = second.head := by
  obtain ⟨tree, htree, htreetext⟩ := h.exists_showsRule hfirst.1 hfirst.2
  obtain ⟨tree', htree', htreetext'⟩ := h.exists_showsRule hsecond.1 hsecond.2
  have hsame : tree = tree' := TextTree.text_unique htree.isPlain htree'.isPlain
    (htreetext.trans (htext.trans htreetext'.symm))
  obtain ⟨hbody, hhead⟩ := (hsame ▸ htree).unique htree'
  exact ⟨hbody, Atom.toFormula_injective hhead⟩

end

/-! ## Names of scripts -/

/-- A numeral consists of digits. -/
theorem ne_numeral_of_mem {name : String} {c : Char} (hc : c ∈ name.toList)
    (hdigit : c.isDigit ≠ true) (value : Nat) : name ≠ toString value := by
  rintro rfl
  have hlist : (toString value).toList = Nat.toDigits 10 value := Nat.toList_repr
  exact hdigit (Nat.isDigit_of_mem_toDigits (by decide) (by decide) (hlist ▸ hc))

theorem standsInWords_decimal (value : Int) : ∀ c ∈ decimal value, standsInWords c = true := by
  intro c hc
  unfold decimal at hc
  rw [Int.repr_eq_if] at hc
  split at hc
  · exact standsInWords_toDigits _ c (by simpa using hc)
  · rw [String.toList_append, List.mem_append] at hc
    rcases hc with hsign | hdigit
    · obtain rfl := List.mem_singleton.mp (by simpa using hsign)
      decide
    · exact standsInWords_toDigits _ c (by simpa using hdigit)

namespace Relation

theorem isOneWord_name (relation : Relation) : IsOneWord relation.name := by
  cases relation with
  | point position =>
      refine ⟨by simp [name, position.toList_relationName], ?_⟩
      rw [name, position.toList_relationName]
      simp only [List.forall_mem_cons, List.forall_mem_append]
      exact ⟨by decide, by decide, standsInWords_decimal _, by decide, standsInWords_decimal _,
        by decide, standsInWords_toDigits _⟩
  | exit owner method =>
      refine ⟨by simp [name, toList_exitRelationName], ?_⟩
      rw [name, toList_exitRelationName]
      simp only [List.forall_mem_cons, List.forall_mem_append]
      exact ⟨by decide, by decide, by decide, by decide, standsInWords_decimal _, by decide,
        standsInWords_decimal _⟩
  | object => decide
  | extra => decide
  | launch => decide
  | static => decide
  | reach => decide
  | filter => decide

theorem isSymbol (relation : Relation) : IsSymbol relation.name := by
  obtain ⟨first, rest, hfirst, hupper⟩ := relation.exists_toList_name
  constructor
  case word => exact relation.isOneWord_name
  case notReserved =>
    have hreserved : ∀ word ∈ reservedWords, word.toList.head?.any Char.isUpper = false := by
      decide
    intro hmem
    have hlower := hreserved _ hmem
    rw [hfirst, List.head?_cons, Option.any_some, hupper] at hlower
    cases hlower
  case notNumeral =>
    refine ne_numeral_of_mem (hfirst ▸ List.mem_cons_self) fun hdigit => ?_
    rw [isUpper_of_isDigit hdigit] at hupper
    cases hupper

end Relation

namespace Names.Variable

theorem standsInWords_name (v : Variable) : ∀ c ∈ v.name.toList, standsInWords c = true := by
  rw [v.toList_name, List.forall_mem_append]
  exact ⟨fun c hc => standsInWords_of_kind (by decide) (v.isLower_letters c hc),
    fun c hc => standsInWords_of_kind (by decide) (v.isDigit_digits c hc)⟩

/-- Words of the syntax have no digits, and no auxiliary variable is one of them. -/
theorem notReserved_name (v : Variable) : v.name ∉ reservedWords := by
  cases v with
  | numbered family index =>
      have hreserved : ∀ word ∈ reservedWords, word.toList.any Char.isDigit = false := by
        decide
      have hne : Nat.toDigits 10 index ≠ [] := Nat.toDigits_ne_nil
      obtain ⟨digit, digits, hdigits⟩ := List.exists_cons_of_ne_nil hne
      intro hmem
      refine List.any_eq_false.mp (hreserved _ hmem) digit ?_ ?_
      · simp [name, family.toList_name, hdigits]
      · exact Nat.isDigit_of_mem_toDigits (by decide) (by decide) (hdigits ▸ List.mem_cons_self)
  | auxiliary kind =>
      have hall : ∀ kind ∈ Auxiliary.all, kind.name ∉ reservedWords := by decide
      exact hall kind kind.mem_all

theorem isSymbol (v : Variable) : IsSymbol v.name := by
  obtain ⟨letter, letters, hletters⟩ := List.exists_cons_of_ne_nil v.letters_ne_nil
  have hmem : letter ∈ v.letters := hletters ▸ List.mem_cons_self
  have hname : letter ∈ v.name.toList := v.toList_name ▸ List.mem_append_left _ hmem
  constructor
  case word => exact ⟨List.ne_nil_of_mem hname, v.standsInWords_name⟩
  case notReserved => exact v.notReserved_name
  case notNumeral =>
    refine ne_numeral_of_mem hname fun hdigit => ?_
    have hlower := v.isLower_letters letter hmem
    rw [isLower_of_isDigit hdigit] at hlower
    cases hlower

end Names.Variable

/-! ## Compiled programs -/

/-- The variables and relations of programs are unambiguous. -/
theorem unambiguous_of_names {width : Nat} {vars : List (String × TermSort)}
    {applications : List Atom} (hvars : Names.Respected width vars)
    (happ : ∀ atom ∈ applications, IsRelationName atom.relation) :
    Unambiguous vars applications where
  ofVariables v hv := by
    obtain ⟨variable', hname, -⟩ := hvars v hv
    exact hname ▸ variable'.isSymbol
  ofRelations atom hatom := by
    obtain ⟨relation, hname⟩ := happ atom hatom
    exact hname ▸ relation.isSymbol
  sort_unique v hv w hw heq := by rw [(hvars v hv).sort_eq, (hvars w hw).sort_eq, heq]
  disjoint v hv atom hatom := by
    obtain ⟨variable', hname, -⟩ := hvars v hv
    obtain ⟨relation, hrelation⟩ := happ atom hatom
    rw [← hname, hrelation]
    exact ScriptRelation.name_ne (.stored relation) variable'

/-- Stored clauses with one text have one folded body and one head. -/
theorem Store.Exportable.rule_eq {store : Store} {program : Program} {width : Nat}
    (h : store.Exportable program width) {first second : Clause} (hfirst : first ∈ store.clauses)
    (hsecond : second ∈ store.clauses) (htext : first.text = second.text) :
    first.bodyFormula = second.bodyFormula ∧ first.head = second.head := by
  have hvars : Names.Respected width (store.clauses.flatMap Clause.vars) := by
    intro v hv
    obtain ⟨clause, hclause, hmem⟩ := List.mem_flatMap.mp hv
    exact h.respected clause hclause v hmem
  have hnames := unambiguous_of_names hvars fun atom hatom =>
    let ⟨_, hclause, hmem⟩ := List.mem_flatMap.mp hatom
    h.named _ (h.declared_of_mem hclause atom hmem)
  have huses : ∀ clause ∈ store.clauses, clause.vars ⊆ store.clauses.flatMap Clause.vars ∧
      clause.applications ⊆ store.clauses.flatMap Clause.applications :=
    fun clause hclause => ⟨fun v hv => List.mem_flatMap.mpr ⟨clause, hclause, hv⟩,
      fun atom hatom => List.mem_flatMap.mpr ⟨clause, hclause, hatom⟩⟩
  exact hnames.rule_eq (huses first hfirst) (huses second hsecond) htext

/-- The text of a rule belongs to one folded body and one head. -/
theorem Store.Exportable.existsUnique_rule {store : Store} {program : Program} {width : Nat}
    (h : store.Exportable program width) {text : String} (htext : text ∈ store.ruleTexts) :
    ∃! rule : Formula × Atom, ∃ clause ∈ store.clauses,
      clause.text = text ∧ rule = (clause.bodyFormula, clause.head) := by
  obtain ⟨clause, hclause, rfl⟩ := (store.ruleTexts_spec.2 text).mp htext
  refine ⟨(clause.bodyFormula, clause.head), ⟨clause, hclause, rfl, rfl⟩, ?_⟩
  rintro rule ⟨other, hother, hsame, rfl⟩
  obtain ⟨hbody, hhead⟩ := h.rule_eq hother hclause hsame
  rw [hbody, hhead]

/-- Expressions whose names are unambiguous symbols are equal when they have one text, and so are
the folded bodies and the heads of clauses.  The clauses of compiled programs are such clauses, so
every rule that is written once stands for one rule. -/
theorem text_determines_expression :
    (∀ first second : Term,
      Unambiguous (first.vars ++ second.vars) (first.applications ++ second.applications) →
        first.text = second.text → first = second) ∧
      (∀ first second : BvExpr,
        Unambiguous (first.vars ++ second.vars) (first.applications ++ second.applications) →
          first.text = second.text → first = second) ∧
      (∀ first second : IntExpr,
        Unambiguous ((Term.int first).vars ++ (Term.int second).vars) [] →
          first.text = second.text → first = second) ∧
      (∀ first second : Formula,
        Unambiguous (first.vars ++ second.vars) (first.applications ++ second.applications) →
          first.text = second.text → first = second) ∧
      (∀ first second : Atom,
        Unambiguous (first.vars ++ second.vars) (first.applications ++ second.applications) →
          first.text = second.text → first = second) ∧
      (∀ first second : Clause,
        Unambiguous (first.vars ++ second.vars) (first.applications ++ second.applications) →
          first.text = second.text →
            first.bodyFormula = second.bodyFormula ∧ first.head = second.head) ∧
      ∀ (program : Program) (config : Config),
        program.compile config = program.compileInOrder config program.methods ∧
        ∀ (order : List (Class × Method)) (compilation : Compilation),
          order.Perm program.methods → program.compileInOrder config order = .ok compilation →
            (∀ first ∈ compilation.store.clauses, ∀ second ∈ compilation.store.clauses,
              first.text = second.text →
                first.bodyFormula = second.bodyFormula ∧ first.head = second.head) ∧
            ∀ text ∈ compilation.store.ruleTexts, ∃! rule : Formula × Atom,
              ∃ clause ∈ compilation.store.clauses,
                clause.text = text ∧ rule = (clause.bodyFormula, clause.head) := by
  refine ⟨fun _ _ h => h.term_eq, ?_, ?_, ?_, ?_, ?_, ?_⟩
  · intro first second h htext
    have hnames : Unambiguous ((Term.bv first).vars ++ (Term.bv second).vars)
      ((Term.bv first).applications ++ (Term.bv second).applications) := h
    exact Term.bv.inj (hnames.term_eq htext)
  · intro first second h htext
    have hnames : Unambiguous ((Term.int first).vars ++ (Term.int second).vars)
      ((Term.int first).applications ++ (Term.int second).applications) := h
    exact Term.int.inj (hnames.term_eq htext)
  · intro first second h htext
    have hnames : Unambiguous ((Term.bool first).vars ++ (Term.bool second).vars)
      ((Term.bool first).applications ++ (Term.bool second).applications) := h
    exact Term.bool.inj (hnames.term_eq htext)
  · intro first second h htext
    have hnames : Unambiguous
      ((Term.bool first.toFormula).vars ++ (Term.bool second.toFormula).vars)
      ((Term.bool first.toFormula).applications ++ (Term.bool second.toFormula).applications) := h
    exact Atom.toFormula_injective (Term.bool.inj (hnames.term_eq htext))
  · intro first second h htext
    exact h.rule_eq ⟨List.subset_append_left _ _, List.subset_append_left _ _⟩
      ⟨List.subset_append_right _ _, List.subset_append_right _ _⟩ htext
  · intro program config
    refine ⟨Program.compile_eq_compileInOrder program config, ?_⟩
    intro order compilation horder hcompile
    have hexport := Program.exportable_of_compileInOrder horder hcompile
    exact ⟨fun first hfirst second hsecond => hexport.rule_eq hfirst hsecond,
      fun text htext => hexport.existsUnique_rule htext⟩

/-- A rule about a negative number, with some parts before the last one of its body. -/
def numberRule (parts : List Formula) : Clause where
  body := parts ++ [.var (Names.high 0)]
  head := ⟨reachRelation, [.int (.lit (-3))]⟩

theorem text_determines_expression_sample :
    (BvExpr.lit 3 8).text ≠ (BvExpr.var (Names.value 0) 8).text ∧
      (numberRule [.tt]).bodyFormula = (numberRule []).bodyFormula ∧
      ∃ compilation, Program.clashing.compileInOrder Program.sinkConfig
          Program.clashing.methods.reverse = .ok compilation ∧
        ∀ text ∈ compilation.store.ruleTexts, ∃! rule : Formula × Atom,
          ∃ clause ∈ compilation.store.clauses,
            clause.text = text ∧ rule = (clause.bodyFormula, clause.head) := by
  obtain ⟨-, hwords, -, -, -, hclauses, hprograms⟩ := text_determines_expression
  have hreverse : Program.clashing.methods.reverse.Perm Program.clashing.methods :=
    List.reverse_perm _
  obtain ⟨compilation, hcompile, -⟩ := Program.compileInOrder_clashing
  obtain ⟨-, hrules⟩ := (hprograms _ _).2 _ _ hreverse hcompile
  refine ⟨fun htext => ?_, ?_, compilation, hcompile, hrules⟩
  · have hvars : Names.Respected 8 [(Names.value 0, .bitVec 8)] :=
      Names.respected_singleton.mpr (Names.isVariable_value 8 0)
    cases hwords (.lit 3 8) (.var (Names.value 0) 8) (unambiguous_of_names hvars nofun) htext
  · have hvars : Names.Respected 8 ((numberRule [.tt]).vars ++ (numberRule []).vars) :=
      List.forall_mem_cons.mpr ⟨Names.isVariable_high 8 0,
        Names.respected_singleton.mpr (Names.isVariable_high 8 0)⟩
    have hatoms : ∀ atom ∈ (numberRule [.tt]).applications ++ (numberRule []).applications,
        IsRelationName atom.relation := by
      have hreach : IsRelationName reachRelation := ⟨.reach, rfl⟩
      simpa [numberRule, Clause.applications, Atom.applications] using hreach
    exact (hclauses (numberRule [.tt]) (numberRule []) (unambiguous_of_names hvars hatoms) rfl).1

end DalvikHorn
