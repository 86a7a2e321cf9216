import DalvikHorn.Proofs.SelfContained
import DalvikHorn.Proofs.SinkCoverage

/-!
# Descriptions in scripts

A script can describe its queries in comments.  A reader that drops all lines that start
with a semicolon should not see whether it does.

A description is written as it is, behind a semicolon, and it quotes a method, its class and
a sink.  Nothing keeps line feeds out of their names.  Behind one the description goes on
in a line of its own, which is a comment only if the name itself starts it with a semicolon.
For some programs the reader therefore sees a difference
(`withoutComments_render_multiline_ne`).  This file says for which ones
(`withoutComments_render_iff`).

## Strategy

* **Lines.**  Two texts are equal without comments when they keep the same lines, provided
  that they keep any (`withoutComments_eq_iff`).
* **Scripts.**  A script keeps the lines of its commands (`keptLines_scriptText`).  Of a
  comment it keeps what a line feed exposes (`keptLines_comment`), so a script with
  descriptions keeps all lines of one without (`sublist_numberedCommands`), and as many more
  as are exposed (`length_numberedCommands`).
* **Names.**  The words of a description around its names have no line feeds and do not start
  with semicolons, so a description exposes a line exactly when one of the names does
  (`staysComment_leakQuery_iff`).
-/

namespace DalvikHorn

/-! ## Lines -/

/-- The lines of a text.  A last line that is empty stands for the end of the text. -/
def textLines (text : List Char) : List (List Char) :=
  text.splitOn '\n'

/-- A line starts with a semicolon. -/
def IsComment (line : List Char) : Prop :=
  line.head? = some ';'

instance (line : List Char) : Decidable (IsComment line) :=
  inferInstanceAs (Decidable (line.head? = some ';'))

/-- The lines of a text that are no comments. -/
def keptLines (text : List Char) : List (List Char) :=
  (textLines text).filter fun line => ¬ IsComment line

/-- A text without the lines that are comments. -/
def withoutComments (text : String) : String :=
  String.ofList (['\n'].intercalate (keptLines text.toList))

/-- The lines of a text that follow a line feed and are no comments. -/
def exposedLines (text : List Char) : List (List Char) :=
  (textLines text).tail.filter fun line => ¬ IsComment line

/-- All lines of a text that follow a line feed are comments. -/
def StaysComment (text : List Char) : Prop :=
  ∀ line ∈ (textLines text).tail, IsComment line

instance (text : List Char) : Decidable (StaysComment text) :=
  inferInstanceAs (Decidable (∀ line ∈ (textLines text).tail, IsComment line))

theorem exposedLines_eq_nil_iff {text : List Char} :
    exposedLines text = [] ↔ StaysComment text := by
  simp [exposedLines, StaysComment, List.filter_eq_nil_iff]

theorem textLines_cons (char : Char) (rest : List Char) :
    textLines (char :: rest) =
      if char = '\n' then [] :: textLines rest else (textLines rest).modifyHead (char :: ·) := by
  rw [textLines, List.splitOn_cons_eq_if_modifyHead]
  simp only [beq_iff_eq]
  rfl

/-- The first line of a text starts with a semicolon when the text does. -/
theorem exists_textLines_eq_cons (text : List Char) :
    ∃ first others, textLines text = first :: others ∧
      (IsComment first ↔ text.head? = some ';') := by
  cases text with
  | nil => exact ⟨[], [], rfl, Iff.rfl⟩
  | cons char rest =>
      obtain ⟨first, others, hlines⟩ := List.exists_cons_of_ne_nil (List.splitOn_ne_nil '\n' rest)
      rw [textLines_cons, textLines, hlines]
      by_cases hfeed : char = '\n' <;> simp [hfeed, IsComment]

/-- No line has a line feed. -/
theorem notMem_of_mem_textLines {text line : List Char} (hline : line ∈ textLines text) :
    '\n' ∉ line := by
  induction text generalizing line with
  | nil =>
      rw [List.mem_singleton.mp hline]
      exact List.not_mem_nil
  | cons char rest ih =>
      rw [textLines_cons] at hline
      split at hline
      · rcases List.mem_cons.mp hline with rfl | hrest
        · exact List.not_mem_nil
        · exact ih hrest
      · rename_i hfeed
        obtain ⟨first, others, hlines, -⟩ := exists_textLines_eq_cons rest
        rw [hlines] at hline
        rcases List.mem_cons.mp hline with rfl | hothers
        · exact List.not_mem_cons_of_ne_of_not_mem (Ne.symm hfeed)
            (ih (hlines ▸ List.mem_cons_self))
        · exact ih (hlines ▸ List.mem_cons_of_mem _ hothers)

theorem keptLines_append (first second : List Char) :
    keptLines (first ++ '\n' :: second) = keptLines first ++ keptLines second := by
  rw [keptLines, textLines, List.splitOn_append_cons_self, List.filter_append]
  rfl

/-- Texts that keep lines are told apart by them. -/
theorem withoutComments_eq_iff {first second : String} (hfirst : keptLines first.toList ≠ [])
    (hsecond : keptLines second.toList ≠ []) :
    withoutComments first = withoutComments second ↔
      keptLines first.toList = keptLines second.toList := by
  have hsplit : ∀ {text : List Char}, keptLines text ≠ [] →
      (['\n'].intercalate (keptLines text)).splitOn '\n' = keptLines text := fun hkept =>
    List.splitOn_intercalate _ (fun _ hline =>
      notMem_of_mem_textLines (List.mem_of_mem_filter hline)) hkept
  refine ⟨fun heq => ?_, fun heq => by rw [withoutComments, heq, withoutComments]⟩
  rw [← hsplit hfirst, String.ofList_injective heq, hsplit hsecond]

/-! ## Texts that stay comments -/

/-- Line feeds have to be followed by semicolons. -/
theorem staysComment_cons_iff {char : Char} {rest : List Char} :
    StaysComment (char :: rest) ↔
      (char = '\n' → rest.head? = some ';') ∧ StaysComment rest := by
  obtain ⟨first, others, hlines, hfirst⟩ := exists_textLines_eq_cons rest
  rw [StaysComment, textLines_cons, StaysComment, hlines]
  by_cases hfeed : char = '\n'
  · simp [hfeed, hfirst]
  · simp [hfeed]

theorem staysComment_of_notMem {text : List Char} (h : '\n' ∉ text) : StaysComment text := by
  rw [StaysComment, textLines, List.splitOn_eq_singleton h]
  exact List.forall_mem_nil _

/-- A part without line feeds does not matter. -/
theorem staysComment_append_of_notMem {first second : List Char} (h : '\n' ∉ first) :
    StaysComment (first ++ second) ↔ StaysComment second := by
  induction first with
  | nil => rfl
  | cons char rest ih =>
      rw [List.cons_append, staysComment_cons_iff, ih (List.not_mem_of_not_mem_cons h)]
      exact and_iff_right fun heq => absurd heq.symm (List.ne_of_not_mem_cons h)

/-- Parts stay comments on their own when the second one cannot hide a line feed at the end of the
first. -/
theorem staysComment_append_iff {first second : List Char} (h : second.head? ≠ some ';') :
    StaysComment (first ++ second) ↔ StaysComment first ∧ StaysComment second := by
  induction first with
  | nil =>
      exact (and_iff_right (staysComment_of_notMem List.not_mem_nil)).symm
  | cons char rest ih =>
      have hhead : (rest ++ second).head? = some ';' ↔ rest.head? = some ';' := by
        cases rest with
        | nil => simp [h]
        | cons => rfl
      rw [List.cons_append, staysComment_cons_iff, staysComment_cons_iff, ih, hhead, and_assoc]

/-! ## Scripts -/

/-- The lines that a script keeps of some commands. -/
def commandLines (commands : List Command) : List (List Char) :=
  commands.flatMap fun command => keptLines command.text.toList

theorem commandLines_append (first second : List Command) :
    commandLines (first ++ second) = commandLines first ++ commandLines second :=
  List.flatMap_append

theorem keptLines_scriptText (commands : List Command) :
    keptLines (scriptText commands).toList = commandLines commands ++ [[]] := by
  induction commands with
  | nil => simp [scriptText, commandLines, keptLines, textLines, IsComment]
  | cons command rest ih =>
      have hline : (scriptText (command :: rest)).toList =
          command.text.toList ++ '\n' :: (scriptText rest).toList := by
        simp [scriptText]
      rw [hline, keptLines_append, ih, ← List.append_assoc]
      rfl

theorem toList_comment (text : String) :
    (Command.comment text).text.toList = ';' :: ' ' :: text.toList :=
  String.toList_append

/-- The line that a comment starts with is dropped, and what a line feed exposes is kept. -/
theorem keptLines_comment (text : String) :
    keptLines (Command.comment text).text.toList = exposedLines text.toList := by
  obtain ⟨first, others, hlines, -⟩ := exists_textLines_eq_cons text.toList
  have hcomment : textLines (';' :: ' ' :: text.toList) = (';' :: ' ' :: first) :: others := by
    rw [textLines_cons ';', textLines_cons ' ', hlines]
    rfl
  rw [keptLines, toList_comment, hcomment, exposedLines, hlines,
    List.filter_cons_of_neg (by simp [IsComment])]
  rfl

/-- The lines that descriptions expose. -/
def exposedBy (descriptions : List String) : List (List Char) :=
  descriptions.flatMap fun description => exposedLines description.toList

theorem exposedBy_eq_nil_iff {descriptions : List String} :
    exposedBy descriptions = [] ↔
      ∀ description ∈ descriptions, StaysComment description.toList := by
  simp only [exposedBy, List.flatMap_eq_nil_iff, exposedLines_eq_nil_iff]

theorem exposedBy_append (first second : List String) :
    exposedBy (first ++ second) = exposedBy first ++ exposedBy second :=
  List.flatMap_append

theorem commandLines_described (group : QueryGroup) (index : Nat) :
    commandLines (group.commands true index) =
      exposedBy group.descriptions ++ commandLines (group.commands false index) := by
  have hcommands : group.commands true index =
      group.descriptions.map Command.comment ++ group.commands false index := rfl
  rw [hcommands, commandLines_append, commandLines, List.flatMap_map]
  simp only [keptLines_comment]
  rfl

/-- The commands of query groups with their indices. -/
def numberedCommands (verbose : Bool) (numbered : List (QueryGroup × Nat)) : List Command :=
  numbered.flatMap fun (group, index) => group.commands verbose index

theorem commandLines_numberedCommands_cons (verbose : Bool) (group : QueryGroup) (index : Nat)
    (rest : List (QueryGroup × Nat)) :
    commandLines (numberedCommands verbose ((group, index) :: rest)) =
      commandLines (group.commands verbose index) ++
        commandLines (numberedCommands verbose rest) :=
  commandLines_append _ _

/-- Descriptions take no line away. -/
theorem sublist_numberedCommands (numbered : List (QueryGroup × Nat)) :
    (commandLines (numberedCommands false numbered)).Sublist
      (commandLines (numberedCommands true numbered)) := by
  induction numbered with
  | nil => exact .slnil
  | cons pair rest ih =>
      rw [commandLines_numberedCommands_cons, commandLines_numberedCommands_cons,
        commandLines_described]
      exact (List.sublist_append_right _ _).append ih

/-- Descriptions add the lines that they expose. -/
theorem length_numberedCommands (numbered : List (QueryGroup × Nat)) :
    (commandLines (numberedCommands true numbered)).length =
      (exposedBy (numbered.flatMap (·.1.descriptions))).length +
        (commandLines (numberedCommands false numbered)).length := by
  induction numbered with
  | nil => rfl
  | cons pair rest ih =>
      rw [commandLines_numberedCommands_cons, commandLines_numberedCommands_cons,
        commandLines_described, List.flatMap_cons, exposedBy_append]
      simp only [List.length_append, ih]
      omega

/-- Every query is described once, in the group that it is part of. -/
theorem descriptions_groupQueries (merge : Bool) (queries : List Query) :
    (groupQueries merge queries).flatMap (·.descriptions) =
      (queries.mergeSort Query.le).map (·.description) := by
  unfold groupQueries
  cases merge with
  | false =>
      rw [List.map_eq_flatMap]
      exact List.flatMap_map _ _ _
  | true =>
      dsimp only
      rw [if_pos rfl, List.flatMap_map]
      conv_rhs => rw [← List.flatten_splitBy (·.key == ·.key) (queries.mergeSort Query.le)]
      rw [List.map_flatten, List.flatMap_def]
      rfl

namespace Store

variable {store : Store} {merge : Bool}

theorem script_eq_append {commands : List Command}
    (h : store.script merge false = .ok commands) :
    ∃ start, ∀ verbose, store.script merge verbose = .ok (start ++
      numberedCommands verbose (groupQueries merge store.queries).zipIdx) := by
  obtain ⟨vars, hvars, -⟩ := bind_eq_ok_iff.mp h
  refine ⟨[.comment "droidchc fixedpoint problem", .useEngine "spacer"] ++
    store.sortedRelations.map .declareRelation ++
    vars.map (fun v => .declareVariable v.1 v.2) ++ store.ruleTexts.map .rule, fun verbose => ?_⟩
  unfold script
  dsimp only
  rw [hvars, numberedCommands, List.flatMap_def, ← List.mapIdx_eq_zipIdx_map]
  rfl

/-- Whether a script has descriptions makes no difference to it without its comments, exactly when
all descriptions stay comments. -/
theorem withoutComments_eq_iff_staysComment {commands : List Command}
    (h : store.script merge false = .ok commands) :
    ∃ verbose plain, store.render merge true = .ok verbose ∧
      store.render merge false = .ok plain ∧
      (withoutComments verbose = withoutComments plain ↔
        ∀ query ∈ store.queries, StaysComment query.description.toList) := by
  obtain ⟨start, hscript⟩ := script_eq_append h
  -- the commands in front of the groups are the same with and without descriptions
  let numbered := (groupQueries merge store.queries).zipIdx
  have hkept : ∀ verbose,
      keptLines (scriptText (start ++ numberedCommands verbose numbered)).toList =
        commandLines start ++ (commandLines (numberedCommands verbose numbered) ++ [[]]) := by
    intro verbose
    rw [keptLines_scriptText, commandLines_append, List.append_assoc]
  have hdescriptions : numbered.flatMap (·.1.descriptions) =
      (store.queries.mergeSort Query.le).map (·.description) := by
    rw [← descriptions_groupQueries merge, ← List.zipIdx_map_fst 0 (groupQueries _ _),
      List.flatMap_map]
  -- the lines that are kept are those of the plain script, and the exposed ones
  have hlength := length_numberedCommands numbered
  rw [hdescriptions] at hlength
  have hexposed : exposedBy ((store.queries.mergeSort Query.le).map (·.description)) = [] ↔
      ∀ query ∈ store.queries, StaysComment query.description.toList := by
    simp [exposedBy_eq_nil_iff]
  refine ⟨_, _, by rw [render, hscript]; rfl, by rw [render, hscript]; rfl, ?_⟩
  rw [withoutComments_eq_iff (by rw [hkept]; simp) (by rw [hkept]; simp), hkept, hkept,
    List.append_cancel_left_eq, List.append_cancel_right_eq, ← hexposed]
  -- equal texts have as many lines, so no line is exposed
  constructor
  · intro heq
    rw [heq] at hlength
    exact List.length_eq_zero_iff.mp (by omega)
  · intro hnone
    rw [hnone, List.length_nil, Nat.zero_add] at hlength
    exact ((sublist_numberedCommands numbered).eq_of_length hlength.symm).symm

end Store

/-! ## Names in descriptions -/

/-- A description exposes a line when one of the names in it does. -/
theorem staysComment_leakQuery_iff (env : Environment) (owner : Class) (method : Method)
    (pc : UInt32) (sink : MethodRef) (r : UInt32) :
    StaysComment (leakQuery env owner method pc sink r).description.toList ↔
      StaysComment method.name.toList ∧ StaysComment owner.name.toList ∧
        StaysComment sink.text.toList := by
  have hdigits : ∀ value : Nat, '\n' ∉ (toString value).toList := fun value => by
    simpa using notMem_toDigits (by decide) value
  have hparts : (leakQuery env owner method pc sink r).description =
      "Test if register " ++ (toString r.toNat ++ (" leaks @line " ++ (toString pc.toNat ++
        (" in method " ++ (method.name ++ (" of the class " ++ (owner.name ++
          (" ---> sink " ++ sink.text)))))))) := by
    simp only [leakQuery, String.append_assoc]
    rfl
  simp only [hparts, String.toList_append]
  rw [staysComment_append_of_notMem (by simp), staysComment_append_of_notMem (hdigits _),
    staysComment_append_of_notMem (by simp), staysComment_append_of_notMem (hdigits _),
    staysComment_append_of_notMem (by simp), staysComment_append_iff (by simp),
    staysComment_append_of_notMem (by simp), staysComment_append_iff (by simp),
    staysComment_append_of_notMem (by simp)]

namespace Program

variable {program : Program} {config : Config}

/-- A method passes registers of its frame to a configured sink. -/
def PassesTo (config : Config) (method : Method) (call : CallSite) : Prop :=
  (∃ instruction ∈ method.instructions, instruction.call? = some call) ∧
    config.NamesSink call ∧ call.FitsFrame method.shape ∧ call.arguments ≠ []

theorem mem_queriesAt_iff {env : Environment} {entry : Class × Method} {instruction : Instruction}
    {query : Query} :
    query ∈ queriesAt env entry instruction ↔
      ∃ call, instruction.call? = some call ∧ env.config.NamesSink call ∧
        call.FitsFrame entry.2.shape ∧ ∃ r ∈ call.arguments,
          leakQuery env entry.1 entry.2 instruction.pc call.target r = query := by
  unfold queriesAt
  cases hcall : instruction.call? with
  | none => simp
  | some call =>
      by_cases hsink : env.config.NamesSink call ∧ call.FitsFrame entry.2.shape
      · simp [hsink]
      · simp [← and_assoc, hsink]

/-- The descriptions of the queries of a compiled program stay comments when the names in them
do. -/
theorem staysComment_queries_iff {labels : Labels} (hlabels : config.labels = .ok labels)
    {order : List (Class × Method)} {compilation : Compilation}
    (houtcome : program.Outcome (program.environment config labels) order
      (program.compiledMethods (program.environment config labels) order) compilation) :
    (∀ query ∈ compilation.store.queries, StaysComment query.description.toList) ↔
      ∀ entry ∈ program.compiledMethods (program.environment config labels) order,
        ∀ call, PassesTo config entry.2 call →
          StaysComment entry.2.name.toList ∧ StaysComment entry.1.name.toList ∧
            StaysComment call.target.text.toList := by
  -- the queries of the store are those of the calls that pass a value to a sink
  have hqueries : ∀ query, query ∈ compilation.store.queries ↔
      ∃ entry ∈ program.compiledMethods (program.environment config labels) order,
        ∃ instruction ∈ entry.2.instructions,
          query ∈ queriesAt (program.environment config labels) entry instruction := by
    intro query
    rw [houtcome.queries_eq, queriesOf, List.mem_flatMap]
    refine exists_congr fun entry => and_congr_right fun hentry => ?_
    rw [queries_methodEmission_eq hlabels (mem_of_mem_compiledMethods hentry).2, List.mem_flatMap]
  constructor
  · -- the call passes some register, whose query has all three names
    rintro hstays entry hentry call ⟨⟨instruction, hinstruction, hcall⟩, hsink, hfits, harguments⟩
    obtain ⟨r, hr⟩ := List.exists_mem_of_ne_nil _ harguments
    refine (staysComment_leakQuery_iff (program.environment config labels) entry.1 entry.2
      instruction.pc call.target r).mp (hstays _ ((hqueries _).mpr ?_))
    exact ⟨entry, hentry, instruction, hinstruction,
      mem_queriesAt_iff.mpr ⟨call, hcall, hsink, hfits, r, hr, rfl⟩⟩
  · intro hstays query hquery
    obtain ⟨entry, hentry, instruction, hinstruction, hquery⟩ := (hqueries query).mp hquery
    obtain ⟨call, hcall, hsink, hfits, r, hr, rfl⟩ := mem_queriesAt_iff.mp hquery
    exact (staysComment_leakQuery_iff _ _ _ _ _ _).mpr (hstays entry hentry call
      ⟨⟨instruction, hinstruction, hcall⟩, hsink, hfits, List.ne_nil_of_mem hr⟩)

/-! ## Scripts of compiled programs -/

/-- Without its comments, the script of a compiled program is the same with and without
descriptions, exactly when every line feed in the names of a compiled method that passes something
to a sink, of its class and of the sink is followed by a semicolon.  This holds in whichever order
the methods are stored. -/
theorem withoutComments_render_iff {order : List (Class × Method)}
    (horder : order.Perm program.methods) {compilation : Compilation}
    (hcompile : program.compileInOrder config order = .ok compilation) (merge : Bool) :
    program.compile config = program.compileInOrder config program.methods ∧
    ∃ labels verbose plain, config.labels = .ok labels ∧
      compilation.store.render merge true = .ok verbose ∧
      compilation.store.render merge false = .ok plain ∧
      (withoutComments verbose = withoutComments plain ↔
        ∀ entry ∈ program.compiledMethods (program.environment config labels) order,
          ∀ call, PassesTo config entry.2 call →
            StaysComment entry.2.name.toList ∧ StaysComment entry.1.name.toList ∧
              StaysComment call.target.text.toList) := by
  obtain ⟨labels, hlabels, houtcome⟩ := outcome_of_compileInOrder horder hcompile
  obtain ⟨vars, hscript, -⟩ := (exportable_of_compileInOrder horder hcompile).exists_script merge
  obtain ⟨verbose, plain, hverbose, hplain, hiff⟩ :=
    Store.withoutComments_eq_iff_staysComment hscript
  exact ⟨compile_eq_compileInOrder program config, labels, verbose, plain, hlabels, hverbose,
    hplain, hiff.trans (staysComment_queries_iff hlabels houtcome)⟩

theorem withoutComments_render_clashing :
    clashing.methods.reverse.Perm clashing.methods ∧
      ∃ compilation,
        clashing.compileInOrder sinkConfig clashing.methods.reverse = .ok compilation ∧
        ∀ merge, ∃ verbose plain, compilation.store.render merge true = .ok verbose ∧
          compilation.store.render merge false = .ok plain ∧
          withoutComments verbose = withoutComments plain := by
  have hreverse : clashing.methods.reverse.Perm clashing.methods := List.reverse_perm _
  obtain ⟨compilation, hcompile, -⟩ := compileInOrder_clashing
  refine ⟨hreverse, compilation, hcompile, fun merge => ?_⟩
  obtain ⟨-, labels, verbose, plain, -, hverbose, hplain, hiff⟩ :=
    withoutComments_render_iff hreverse hcompile merge
  refine ⟨verbose, plain, hverbose, hplain, hiff.mpr fun entry hentry call hpasses => ?_⟩
  have hnames : ∀ entry ∈ clashing.methods,
      '\n' ∉ entry.2.name.toList ∧ '\n' ∉ entry.1.name.toList := by
    decide +kernel
  have htargets : ∀ call ∈ clashing.calls, '\n' ∉ call.target.text.toList := by decide +kernel
  obtain ⟨⟨instruction, hinstruction, hcall⟩, -⟩ := hpasses
  have hmem := hreverse.mem_iff.mp (mem_of_mem_compiledMethods hentry).1
  exact ⟨staysComment_of_notMem (hnames entry hmem).1, staysComment_of_notMem (hnames entry hmem).2,
    staysComment_of_notMem (htargets call
      (mem_calls hmem hinstruction (Instruction.call?_eq_some_iff.mp hcall)))⟩

/-- A class with a line feed in its name passes a register to a sink. -/
def multiline : Program where
  classes :=
    [{ name := "La;\nx"
       methods :=
         [{ name := "main(I)V", numRegisters := 1, numArguments := 1, isStatic := true
            instructions :=
              [{ pc := 0, mnemonic := "invoke-static", registers := [0],
                 reference := some "Lc;->send(I)V" },
                { pc := 3, mnemonic := "return-void" }] }] }]

/-- The description of a query goes on behind a line feed in the name of a class, and the rest of
it is a line of the script. -/
theorem withoutComments_render_multiline_ne :
    ∃ compilation, multiline.compile sinkConfig = .ok compilation ∧
      ∀ merge, ∃ verbose plain, compilation.store.render merge true = .ok verbose ∧
        compilation.store.render merge false = .ok plain ∧
        withoutComments verbose ≠ withoutComments plain := by
  obtain ⟨compilation, hcompile, hleaves⟩ :
      ∃ compilation, multiline.compile sinkConfig = .ok compilation ∧
        ¬ ∀ query ∈ compilation.store.queries, StaysComment query.description.toList :=
    exists_ok_of_any (by decide +kernel)
  refine ⟨compilation, hcompile, fun merge => ?_⟩
  rw [compile_eq_compileInOrder] at hcompile
  have hexport := exportable_of_compileInOrder (List.Perm.refl _) hcompile
  obtain ⟨vars, hscript, -⟩ := hexport.exists_script merge
  obtain ⟨verbose, plain, hverbose, hplain, hiff⟩ :=
    Store.withoutComments_eq_iff_staysComment hscript
  exact ⟨verbose, plain, hverbose, hplain, mt hiff.mp hleaves⟩

end Program

end DalvikHorn
