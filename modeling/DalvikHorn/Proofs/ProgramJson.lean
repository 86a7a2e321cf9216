import DalvikHorn.Dalvik.Json
import DalvikHorn.Proofs.JsonText

/-!
# Programs written as JSON

A program is read back from the text that is written for it, compact or with white space
between the tokens.  This holds for every program: whatever its names contain, whichever
optional operands are present, and for all values of its numbers
(`Program.parse_render`).

## Strategy

* **Records.**  The writer leaves out the optional fields that are absent.  `record` is
  what is left of a list of fields, and `fields?_record` says that a reader which knows
  the names recovers the list, absent fields as absent ones.
* **Fields.**  Each kind of field is decoded from what it is encoded as; a present
  optional field is not encoded as `null`.
* **Parts.**  One lemma for each kind of record puts its fields together, from the
  payload to the program.  The nesting of a payload is bounded by that of its place.
-/

namespace DalvikHorn

namespace Json

/-! ## Records -/

/-- The members of a record: the fields that are present, in their order. -/
def present (fields : List (String × Option Json)) : List (String × Json) :=
  fields.filterMap fun (key, value) => value.map (key, ·)

@[simp] theorem present_nil : present [] = [] := rfl

@[simp] theorem present_some (key : String) (value : Json) (rest : List (String × Option Json)) :
    present ((key, some value) :: rest) = (key, value) :: present rest := rfl

@[simp] theorem present_none (key : String) (rest : List (String × Option Json)) :
    present ((key, none) :: rest) = present rest := rfl

theorem present_map {α : Type} (key : String) (encode : α → Json) (value : Option α)
    (rest : List (String × Option Json)) :
    present ((key, value.map encode) :: rest) =
      optionalMember key encode value ++ present rest := by
  cases value with
  | none => rfl
  | some value => rfl

/-- Whether a key is that of a field. -/
theorem filter_present_of_notMem {fields : List (String × Option Json)} {name : String}
    (h : name ∉ fields.map (·.1)) : (present fields).filter (·.1 == name) = [] := by
  apply List.filter_eq_nil_iff.mpr
  intro member hmember hsame
  apply h
  obtain ⟨field, hfield, hvalue⟩ := List.mem_filterMap.mp hmember
  obtain ⟨value, -, rfl⟩ := Option.map_eq_some_iff.mp hvalue
  exact List.mem_map.mpr ⟨field, hfield, beq_iff_eq.mp hsame⟩

/-- A field is found under its key, when no other field has it. -/
theorem member?_present {fields : List (String × Option Json)} (hkeys : (fields.map (·.1)).Nodup)
    {field : String × Option Json} (hfield : field ∈ fields) :
    member? (present fields) field.1 = some field.2 := by
  induction fields with
  | nil => cases hfield
  | cons first rest ih =>
      rw [List.map_cons, List.nodup_cons] at hkeys
      obtain ⟨key, value⟩ := first
      rcases List.mem_cons.mp hfield with rfl | hrest
      · -- the name is that of the first field and of no other
        have hnone := filter_present_of_notMem hkeys.1
        cases value with
        | none => rw [present_none, member?, hnone]
        | some value =>
            rw [present_some, member?, List.filter_cons_of_pos (by simp), hnone]
      · have hfound := ih hkeys.2 hrest
        -- the first field has another name, so it is passed over
        have hother : ¬ (key == field.1) = true := by
          intro hsame
          exact hkeys.1 (List.mem_map.mpr ⟨field, hrest, (beq_iff_eq.mp hsame).symm⟩)
        cases value with
        | none => exact hfound
        | some value =>
            have hskip : ((key, value) :: present rest).filter (·.1 == field.1) =
                (present rest).filter (·.1 == field.1) := List.filter_cons_of_neg hother
            rw [present_some, member?, hskip]
            exact hfound

/-- The record with some fields: those that are absent are left out. -/
def record (names : List String) (values : List (Option Json)) : Json :=
  .object (present (names.zip values))

/-- The fields of a record are recovered by a reader that knows their names. -/
theorem fields?_record {names : List String} (hnames : names.Nodup) {values : List (Option Json)}
    (hlength : names.length = values.length) :
    fields? names (record names values) = some values := by
  have hkeys : ((names.zip values).map (·.1)).Nodup := by
    rwa [List.map_fst_zip (Nat.le_of_eq hlength)]
  have hall : ∀ part : List (String × Option Json), part ⊆ names.zip values →
      (part.map (·.1)).mapM (member? (present (names.zip values))) = some (part.map (·.2)) := by
    intro part hpart
    induction part with
    | nil => rfl
    | cons field rest ih =>
        rw [List.map_cons, List.mapM_cons,
          member?_present hkeys (hpart List.mem_cons_self),
          ih fun other hother => hpart (List.mem_cons_of_mem _ hother)]
        rfl
  have hfields := hall (names.zip values) (List.Subset.refl _)
  rw [List.map_fst_zip (Nat.le_of_eq hlength),
    List.map_snd_zip (Nat.le_of_eq hlength.symm)] at hfields
  exact hfields

/-! ## Fields -/

/-- What is encoded is decoded again, and is not `null`. -/
structure Inverts {α : Type} (decode : Json → Option α) (encode : α → Json) : Prop where
  decodes : ∀ value, decode (encode value) = some value
  not_null : ∀ value, encode value ≠ .null

section Fields

variable {α : Type} {decode : Json → Option α} {encode : α → Json}

theorem Inverts.required (h : Inverts decode encode) (value : α) :
    required decode (some (encode value)) = some value :=
  h.decodes value

theorem Inverts.withDefault (h : Inverts decode encode) (default value : α) :
    withDefault default decode (some (encode value)) = some value :=
  h.decodes value

theorem Inverts.optional (h : Inverts decode encode) (value : Option α) :
    optional decode (value.map encode) = some value := by
  cases value with
  | none => rfl
  | some value =>
      have hdecoded := h.decodes value
      have hnull := h.not_null value
      simp only [Option.map_some]
      unfold Json.optional
      split
      · simp_all
      · simp_all
      · simp_all

theorem Inverts.list (h : Inverts decode encode) : Inverts (list? decode) (ofList encode) where
  decodes := by
    intro values
    change (values.map encode).mapM decode = some values
    induction values with
    | nil => rfl
    | cons value rest ih =>
        rw [List.map_cons, List.mapM_cons, h.decodes, ih]
        rfl
  not_null := by
    intro values hnull
    cases hnull

theorem Inverts.pair {α β : Type} {first : Json → Option α} {second : Json → Option β}
    {encodeFirst : α → Json} {encodeSecond : β → Json} (hfirst : Inverts first encodeFirst)
    (hsecond : Inverts second encodeSecond) :
    Inverts (pair? first second) fun (a, b) => .array [encodeFirst a, encodeSecond b] where
  decodes := by
    intro (a, b)
    simp only [pair?, hfirst.decodes, hsecond.decodes]
    rfl
  not_null := by simp

end Fields

theorem inverts_bool : Inverts bool? .bool := ⟨fun _ => rfl, by simp⟩

theorem inverts_string : Inverts string? .string := ⟨fun _ => rfl, by simp⟩

theorem integer?_of_le {low high value : Int} (hlow : low ≤ value) (hhigh : value ≤ high) :
    integer? low high (.integer value) = some value := by
  rw [integer?, if_pos ⟨hlow, hhigh⟩]

theorem inverts_uint32 : Inverts uint32? ofUInt32 where
  decodes := by
    intro value
    have hlt := value.toNat_lt_size
    rw [uint32?, ofUInt32, integer?_of_le (by omega) (by omega)]
    simp
  not_null := by simp [ofUInt32]

theorem inverts_int32 : Inverts int32? ofInt32 where
  decodes := by
    intro value
    rw [int32?, ofInt32, integer?_of_le value.minValue_le_toInt value.toInt_le]
    simp
  not_null := by simp [ofInt32]

theorem inverts_int64 : Inverts int64? ofInt64 where
  decodes := by
    intro value
    rw [int64?, ofInt64, integer?_of_le value.minValue_le_toInt value.toInt_le]
    simp
  not_null := by simp [ofInt64]

/-! ## Sizes of lists -/

theorem readable_ofList {α : Type} {encode : α → Json}
    (h : ∀ value, (encode value).readable = true) (values : List α) :
    (Json.ofList encode values).readable = true := by
  rw [Json.ofList, readable]
  induction values with
  | nil => rfl
  | cons value rest ih => rw [List.map_cons, readableItems, h, ih, Bool.and_self]

theorem nesting_ofList_le {α : Type} {encode : α → Json} {bound : Nat}
    (h : ∀ value, (encode value).nesting ≤ bound) (values : List α) :
    (Json.ofList encode values).nesting ≤ bound + 1 := by
  rw [Json.ofList, nesting]
  apply Nat.succ_le_succ
  induction values with
  | nil => exact Nat.zero_le _
  | cons value rest ih =>
      rw [List.map_cons, nestingItems]
      exact Nat.max_le.mpr ⟨h value, ih⟩

end Json

open Json

/-! ## Parts of a program -/

theorem RegisterRange.toJson_eq (range : RegisterRange) :
    range.toJson = record ["start", "count"]
      [some (.ofUInt32 range.start), some (.ofUInt32 range.count)] := rfl

theorem RegisterRange.inverts : Inverts RegisterRange.ofJson? RegisterRange.toJson where
  decodes := by
    intro range
    rw [toJson_eq, ofJson?, fields?_record (by decide) rfl]
    simp only [inverts_uint32.required]
    rfl
  not_null := by simp [toJson]

theorem Field.toJson_eq (field : Field) :
    field.toJson = record ["name", "type", "is_static", "initial_value"]
      [some (.string field.name), some (.string field.type), some (.bool field.isStatic),
        field.initialValue.map .ofInt64] := by
  cases field with
  | mk name type isStatic initialValue => cases initialValue <;> rfl

theorem Field.inverts : Inverts Field.ofJson? Field.toJson where
  decodes := by
    intro field
    rw [toJson_eq, ofJson?, fields?_record (by decide) rfl]
    simp only [inverts_string.required, inverts_bool.withDefault, inverts_int64.optional]
    rfl
  not_null := by simp [toJson]

/-! ### Payloads -/

namespace Payload

/-- The kind of a payload. -/
def kind : Payload → String
  | .packedSwitch _ _ => "packed_switch"
  | .sparseSwitch _ => "sparse_switch"
  | .arrayData _ => "array_data"

/-- The fields of a payload without its kind. -/
def content : Payload → Json
  | .packedSwitch firstKey targets =>
      record ["first_key", "targets"] [some (.ofInt32 firstKey), some (.ofList .ofInt32 targets)]
  | .sparseSwitch entries =>
      record ["entries"]
        [some (.ofList (fun (key, target) => .array [.ofInt32 key, .ofInt32 target]) entries)]
  | .arrayData elements => record ["elements"] [some (.ofList .ofInt64 elements)]

theorem ofKind?_content (payload : Payload) :
    ofKind? payload.kind payload.content = some payload := by
  cases payload with
  | packedSwitch firstKey targets =>
      change ofKind? "packed_switch" (record _ _) = _
      rw [ofKind?, if_pos rfl, fields?_record (by decide) rfl]
      simp only [inverts_int32.required, inverts_int32.list.required]
      rfl
  | sparseSwitch entries =>
      change ofKind? "sparse_switch" (record _ _) = _
      rw [ofKind?, if_neg (by decide), if_pos rfl, fields?_record (by decide) rfl]
      simp only [(inverts_int32.pair inverts_int32).list.required]
      rfl
  | arrayData elements =>
      change ofKind? "array_data" (record _ _) = _
      rw [ofKind?, if_neg (by decide), if_neg (by decide), if_pos rfl,
        fields?_record (by decide) rfl]
      simp only [inverts_int64.list.required]
      rfl

theorem toJson_eq (payload : Payload) :
    ∃ members, payload.toJson = .object (("kind", .string payload.kind) :: members) ∧
      payload.content = .object members ∧ "kind" ∉ members.map (·.1) := by
  cases payload with
  | packedSwitch | sparseSwitch | arrayData => exact ⟨_, rfl, rfl, by simp⟩

theorem readable_toJson (payload : Payload) : payload.toJson.readable = true := by
  have hint32 : ∀ value, (Json.ofInt32 value).readable = true := fun _ => rfl
  have hint64 : ∀ value, (Json.ofInt64 value).readable = true := fun _ => rfl
  have hentry : ∀ entry : Int32 × Int32,
      (Json.array [.ofInt32 entry.1, .ofInt32 entry.2]).readable = true := fun _ => rfl
  cases payload with
  | packedSwitch firstKey targets =>
      simp [toJson, readable, readableMembers, hint32, readable_ofList hint32]
  | sparseSwitch entries =>
      simp [toJson, readable, readableMembers, readable_ofList hentry]
  | arrayData elements =>
      simp [toJson, readable, readableMembers, readable_ofList hint64]

/-- The deepest payload is a table of pairs. -/
theorem nesting_toJson_le (payload : Payload) : payload.toJson.nesting ≤ 3 := by
  have hint32 : ∀ value, (Json.ofInt32 value).nesting ≤ 0 := fun _ => Nat.le_refl _
  have hint64 : ∀ value, (Json.ofInt64 value).nesting ≤ 0 := fun _ => Nat.le_refl _
  have hentry : ∀ entry : Int32 × Int32,
      (Json.array [.ofInt32 entry.1, .ofInt32 entry.2]).nesting ≤ 1 := fun _ => Nat.le_refl _
  cases payload with
  | packedSwitch firstKey targets =>
      have hlist := nesting_ofList_le hint32 targets
      have hkey := hint32 firstKey
      simp only [toJson, nesting, nestingMembers]
      omega
  | sparseSwitch entries =>
      have hlist := nesting_ofList_le hentry entries
      simp only [toJson, nesting, nestingMembers]
      omega
  | arrayData elements =>
      have hlist := nesting_ofList_le hint64 elements
      simp only [toJson, nesting, nestingMembers]
      omega

/-- A payload is read where three more levels of nesting are allowed. -/
theorem inverts (depth : Nat) (h : depth + 3 ≤ maxNesting) :
    Inverts (ofJson? depth) toJson where
  decodes := by
    intro payload
    have hnesting := payload.nesting_toJson_le
    have hallowed : (payload.toJson.readable &&
        decide (depth + payload.toJson.nesting ≤ maxNesting)) = true := by
      rw [payload.readable_toJson, Bool.true_and, decide_eq_true_eq]
      omega
    obtain ⟨members, hjson, hcontent, hkind⟩ := payload.toJson_eq
    -- no member of the content is named like the kind
    have hmembers : ∀ member ∈ members, member.1 ≠ "kind" := by
      intro member hmember hsame
      exact hkind (List.mem_map.mpr ⟨member, hmember, hsame⟩)
    have hfound : member? (("kind", .string payload.kind) :: members) "kind" =
        some (some (.string payload.kind)) := by
      have hothers : members.filter (·.1 == "kind") = [] := by
        simpa [List.filter_eq_nil_iff] using hmembers
      rw [member?, List.filter_cons_of_pos (by simp), hothers]
    -- without the kind the members are those of the content
    have hcontent' : (("kind", Json.string payload.kind) :: members).filter (·.1 != "kind") =
        members := by
      simpa [List.filter_eq_self] using hmembers
    rw [hjson] at hallowed ⊢
    rw [ofJson?, if_pos hallowed, hfound]
    simp only [hcontent', ← hcontent]
    exact payload.ofKind?_content
  not_null := by
    intro payload
    cases payload <;> simp [toJson]

end Payload

/-! ### Instructions, methods and classes -/

theorem Instruction.toJson_eq (instruction : Instruction) :
    instruction.toJson = record ["pc", "opcode", "registers", "register_range", "literal",
        "reference", "target", "payload"]
      [some (.ofUInt32 instruction.pc), some (.string instruction.mnemonic),
        some (.ofList .ofUInt32 instruction.registers),
        instruction.registerRange.map RegisterRange.toJson, instruction.literal.map .ofInt64,
        instruction.reference.map .string, instruction.target.map .ofInt32,
        instruction.payload.map Payload.toJson] := by
  simp only [toJson, record, List.zip_cons_cons, List.zip_nil_right, present_some, present_map,
    present_nil, List.cons_append, List.nil_append, List.append_assoc, List.append_nil]

/-- An instruction is read where four more levels of nesting are allowed. -/
theorem Instruction.inverts (depth : Nat) (h : depth + 4 ≤ maxNesting) :
    Inverts (Instruction.ofJson? depth) Instruction.toJson where
  decodes := by
    intro instruction
    rw [toJson_eq, ofJson?, fields?_record (by decide) rfl]
    simp only [inverts_uint32.required, inverts_string.required, inverts_uint32.list.withDefault,
      RegisterRange.inverts.optional, inverts_int64.optional, inverts_string.optional,
      inverts_int32.optional, (Payload.inverts (depth + 1) (by omega)).optional]
    rfl
  not_null := by simp [toJson]

theorem Method.toJson_eq (method : Method) :
    method.toJson = record ["name", "num_registers", "num_arguments", "is_static", "entry_point",
        "instructions"]
      [some (.string method.name), some (.ofUInt32 method.numRegisters),
        some (.ofUInt32 method.numArguments), some (.bool method.isStatic),
        some (.bool method.entryPoint),
        some (.ofList Instruction.toJson method.instructions)] := rfl

theorem Method.inverts (depth : Nat) (h : depth + 6 ≤ maxNesting) :
    Inverts (Method.ofJson? depth) Method.toJson where
  decodes := by
    intro method
    rw [toJson_eq, ofJson?, fields?_record (by decide) rfl]
    simp only [inverts_string.required, inverts_uint32.required, inverts_bool.withDefault,
      (Instruction.inverts (depth + 2) (by omega)).list.withDefault]
    rfl
  not_null := by simp [toJson]

theorem Class.toJson_eq (decl : Class) :
    decl.toJson = record ["name", "super_class", "interfaces", "fields", "methods", "launcher"]
      [some (.string decl.name), decl.superClass.map .string,
        some (.ofList .string decl.interfaces), some (.ofList Field.toJson decl.fields),
        some (.ofList Method.toJson decl.methods), some (.bool decl.launcher)] := by
  simp only [toJson, record, List.zip_cons_cons, List.zip_nil_right, present_some, present_map,
    present_nil, List.cons_append, List.nil_append]

theorem Class.inverts (depth : Nat) (h : depth + 8 ≤ maxNesting) :
    Inverts (Class.ofJson? depth) Class.toJson where
  decodes := by
    intro decl
    rw [toJson_eq, ofJson?, fields?_record (by decide) rfl]
    simp only [inverts_string.required, inverts_string.optional, inverts_string.list.withDefault,
      Field.inverts.list.withDefault, inverts_bool.withDefault,
      (Method.inverts (depth + 2) (by omega)).list.withDefault]
    rfl
  not_null := by simp [toJson]

theorem Program.toJson_eq (program : Program) :
    program.toJson = record ["classes"] [some (.ofList Class.toJson program.classes)] := rfl

/-- What a program is encoded as is decoded to the program. -/
theorem Program.ofJson?_toJson (program : Program) :
    Program.ofJson? program.toJson = some program := by
  rw [toJson_eq, ofJson?, fields?_record (by decide) rfl]
  simp only [(Class.inverts 2 (by decide)).list.withDefault]
  rfl

/-! ## The text of a program -/

namespace Json

/-- A field that is absent, or that the writer produces a text of. -/
def RendersIfPresent (field : Option Json) : Prop :=
  ∀ value, field = some value → value.Renders

@[simp] theorem rendersIfPresent_some {value : Json} :
    RendersIfPresent (some value) ↔ value.Renders := by
  simp [RendersIfPresent]

theorem rendersIfPresent_map {α : Type} {encode : α → Json} (h : ∀ value, (encode value).Renders)
    (value : Option α) : RendersIfPresent (value.map encode) := by
  cases value with
  | none =>
      intro value hnone
      cases hnone
  | some value => exact rendersIfPresent_some.mpr (h value)

theorem renders_record {names : List String} {values : List (Option Json)}
    (h : ∀ field ∈ values, RendersIfPresent field) : (record names values).Renders := by
  apply renders_object
  intro member hmember
  obtain ⟨field, hfield, hvalue⟩ := List.mem_filterMap.mp hmember
  obtain ⟨value, hpresent, rfl⟩ := Option.map_eq_some_iff.mp hvalue
  exact h field.2 (List.of_mem_zip hfield).2 value hpresent

theorem renders_ofList {α : Type} {encode : α → Json} (h : ∀ value, (encode value).Renders)
    (values : List α) : (ofList encode values).Renders := by
  apply renders_array
  intro item hitem
  obtain ⟨value, -, rfl⟩ := List.mem_map.mp hitem
  exact h value

theorem renders_ofUInt32 (value : UInt32) : (ofUInt32 value).Renders := by
  have hlt := value.toNat_lt_size
  have hlow : Int64.minValue.toInt ≤ 0 := by decide
  have hhigh : UInt32.size ≤ UInt64.size := by decide
  exact renders_integer (by omega) (by omega)

theorem renders_ofInt32 (value : Int32) : (ofInt32 value).Renders := by
  have hle := value.minValue_le_toInt
  have hge := value.toInt_le
  have hlow : Int64.minValue.toInt ≤ Int32.minValue.toInt := by decide
  have hhigh : Int32.maxValue.toInt < UInt64.size := by decide
  exact renders_integer (by omega) (by omega)

theorem renders_ofInt64 (value : Int64) : (ofInt64 value).Renders := by
  have hge := value.toInt_le
  have hhigh : Int64.maxValue.toInt < UInt64.size := by decide
  exact renders_integer value.minValue_le_toInt (by omega)

end Json

theorem RegisterRange.renders_toJson (range : RegisterRange) : range.toJson.Renders := by
  rw [toJson_eq]
  apply renders_record
  simp [renders_ofUInt32]

theorem Field.renders_toJson (field : Field) : field.toJson.Renders := by
  rw [toJson_eq]
  apply renders_record
  simp [renders_string, renders_bool, rendersIfPresent_map renders_ofInt64]

theorem Payload.renders_toJson (payload : Payload) : payload.toJson.Renders := by
  have hentry : ∀ entry : Int32 × Int32,
      (Json.array [.ofInt32 entry.1, .ofInt32 entry.2]).Renders := by
    intro entry
    apply renders_array
    simp [renders_ofInt32]
  cases payload with
  | packedSwitch firstKey targets =>
      apply renders_object
      simp [renders_string, renders_ofInt32, renders_ofList renders_ofInt32]
  | sparseSwitch entries =>
      apply renders_object
      simp [renders_string, renders_ofList hentry]
  | arrayData elements =>
      apply renders_object
      simp [renders_string, renders_ofList renders_ofInt64]

theorem Instruction.renders_toJson (instruction : Instruction) : instruction.toJson.Renders := by
  rw [toJson_eq]
  apply renders_record
  simp [renders_ofUInt32, renders_string, renders_ofList renders_ofUInt32,
    rendersIfPresent_map renders_ofInt64, rendersIfPresent_map renders_ofInt32,
    rendersIfPresent_map renders_string, rendersIfPresent_map RegisterRange.renders_toJson,
    rendersIfPresent_map Payload.renders_toJson]

theorem Method.renders_toJson (method : Method) : method.toJson.Renders := by
  rw [toJson_eq]
  apply renders_record
  simp [renders_ofUInt32, renders_string, renders_bool,
    renders_ofList Instruction.renders_toJson]

theorem Class.renders_toJson (decl : Class) : decl.toJson.Renders := by
  rw [toJson_eq]
  apply renders_record
  simp [renders_string, renders_bool, rendersIfPresent_map renders_string,
    renders_ofList renders_string, renders_ofList Field.renders_toJson,
    renders_ofList Method.renders_toJson]

theorem Program.renders_toJson (program : Program) : program.toJson.Renders := by
  rw [toJson_eq]
  apply renders_record
  simp [renders_ofList Class.renders_toJson]

/-- A program is read back from its text, and from the same text with other white space between
the tokens. -/
theorem Program.parse_render (program : Program) :
    Program.parse program.render = .ok program ∧
      ∀ text : String, program.toJson.WrittenAs text → Program.parse text = .ok program := by
  have hread : ∀ text : String, program.toJson.WrittenAs text →
      Program.parse text = .ok program := by
    intro text htext
    rw [parse, parse_of_writtenAs htext, Option.bind_some, ofJson?_toJson]
  exact ⟨hread program.render program.renders_toJson.writtenAs, hread⟩

/-- The text of a program with two classes, one in each line. -/
def twoLines (first second : Class) : String :=
  "\n\x7b " ++ quote "classes" ++ " : [\n  " ++ first.toJson.render ++ ",\n  " ++
    second.toJson.render ++ "\n]\x7d\n"

theorem writtenAs_twoLines (first second : Class) :
    (Program.toJson ⟨[first, second]⟩).WrittenAs (twoLines first second) := by
  have hspace : Gap [' '] := by decide
  have hline : Gap ['\n'] := by decide
  have hindent : Gap ['\n', ' ', ' '] := by decide
  have hclasses : SpellsItems [first.toJson, second.toJson] _ :=
    .more first.renders_toJson gap_nil hindent (.last second.renders_toJson hline)
  have hprogram : Spells (.object [("classes", .array [first.toJson, second.toJson])]) _ :=
    .object hspace (.last hspace hspace (.array hindent hclasses) gap_nil)
  refine ⟨['\n'], _, ['\n'], ?_, hline, hprogram, hline⟩
  simp [twoLines]

/-- A class with a superclass and two fields, of which one has a value. -/
def holder : Class where
  name := "La;"
  superClass := some "Lb;"
  fields := [{ name := "x", type := "I", initialValue := some (-1) }, { name := "y", type := "La;" }]

/-- A class with a method that switches.  The switch has a target and a table, and the other
instruction has neither. -/
def switcher : Class where
  name := "Lb;"
  methods :=
    [{ name := "f(I)V", numRegisters := 1, numArguments := 1, isStatic := true
       instructions :=
         [{ pc := 0, mnemonic := "packed-switch", registers := [0], target := some 4
            payload := some (.packedSwitch (-1) [3, 4]) },
           { pc := 3, mnemonic := "return-void" }] }]

theorem Program.parse_render_switching :
    (Program.toJson ⟨[holder, switcher]⟩).WrittenAs (twoLines holder switcher) ∧
      Program.parse (twoLines holder switcher) = .ok ⟨[holder, switcher]⟩ ∧
      Program.parse (Program.render ⟨[holder, switcher]⟩) = .ok ⟨[holder, switcher]⟩ := by
  have hwritten := writtenAs_twoLines holder switcher
  obtain ⟨hrender, hread⟩ := parse_render ⟨[holder, switcher]⟩
  exact ⟨hwritten, hread _ hwritten, hrender⟩

end DalvikHorn
