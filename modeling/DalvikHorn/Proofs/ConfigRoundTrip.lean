import DalvikHorn.Config.Yaml
import DalvikHorn.Proofs.YamlDocuments

/-!
# Configurations that read back

The text of a configuration has its version, its preset and all other fields as
overrides.  Reading it gives the configuration again, whatever its sources and sinks
are, or the error of its validation: `parseYaml_toYaml`.

The way goes through the document:

| written | read |
| --- | --- |
| `leadingEntries`, `overrideEntries` | `leadingFields`, `overriddenFields` |
| `numberContent`, `flagContent` | `ofText_toString`, a truth value |
| a text in any style | the text (`Yaml.Value.gives_item`) |

Every default of the preset is overridden, so the preset of the file is kept as a name
only (`override_toOverrides`).
-/

namespace DalvikHorn

open Yaml Yaml.Lexer

/-! ## What is written -/

theorem writeField_eq (column : Nat) (key value : String) :
    writeField column key value = margin column ++ entryLine column (key, .word value) := by
  simp [writeField, writeKey, entryLine, Content.lines]

theorem writeTexts_eq (column : Nat) (key : String) (texts : List String) :
    writeTexts column key texts = margin column ++ entryLine column (key, .sequence texts) := by
  cases texts with
  | nil => simp [writeTexts, writeField, writeKey, entryLine, Content.lines]
  | cons text texts => simp [writeTexts, writeKey, entryLine, Content.lines, itemLines]

/-- What is written for a truth value. -/
def flagContent (value : Bool) : Content :=
  .word (if value then "true" else "false")

/-- What is written for a number. -/
def numberContent (value : Nat) : Content :=
  .word (toString value)

namespace Config

variable (config : Config)

/-- The entries of a file before its overrides. -/
def leadingEntries : List (String × Content) :=
  [("version", numberContent fileVersion.toNat), ("preset", .word config.preset.name)]

/-- The overrides of a file. -/
def overrideEntries : List (String × Content) :=
  [("bitvector_size", numberContent config.bitvectorSize.toNat),
    ("arrays", flagContent config.arrays),
    ("merge_queries", flagContent config.mergeQueries),
    ("reach_filter", flagContent config.reachFilter),
    ("verbose_queries", flagContent config.verboseQueries),
    ("intent_summaries", flagContent config.intentSummaries),
    ("threads", numberContent config.threads.toNat),
    ("sources", .sequence config.sources),
    ("sinks", .sequence config.sinks)]

theorem toYaml_eq : config.toYaml =
    String.ofList (documentText config.leadingEntries "overrides" config.overrideEntries) := by
  simp [toYaml, writeField_eq, writeTexts_eq, documentText, leadingEntries, overrideEntries,
    mappingLines, flagContent, numberContent, writeKey, margin]

end Config

/-! ## What it means -/

/-- The name of a field in a file: a short word that is text. -/
structure IsFieldName (name : String) : Prop where
  word : IsWord name.toList
  short : name.length ≤ 256
  text : Scalar.ofText name = .string

instance (name : String) : Decidable (IsFieldName name) :=
  decidable_of_iff (IsWord name.toList ∧ name.length ≤ 256 ∧ Scalar.ofText name = .string)
    ⟨fun ⟨hword, hshort, htext⟩ => ⟨hword, hshort, htext⟩, fun h => ⟨h.word, h.short, h.text⟩⟩

theorem IsFieldName.isKey {name : String} (h : IsFieldName name) : IsKey name.toList :=
  ⟨h.word, h.short⟩

section Field

variable {name : String}

theorem readsAs_word {text : String} {value : Yaml.Value} (hname : IsFieldName name)
    (hword : IsWord text.toList) (h : Yaml.Value.ofPlain text = some value) :
    ReadsAs (name, .word text) (name, value) :=
  ⟨⟨hname.isKey, hword⟩, ⟨rfl, hname.text, .word h⟩⟩

theorem isWord_toString (value : Nat) : IsWord (toString value).toList := by
  have hcharacters : (toString value).toList = Nat.toDigits 10 value := Nat.toList_repr
  rw [hcharacters]
  refine ⟨Nat.toDigits_ne_nil, fun c hc => .inl ?_⟩
  rw [Char.isAlphanum, isDigit_of_mem_digits hc, Bool.or_true]

theorem readsAs_number {value : Nat} (hname : IsFieldName name) (h : value < UInt64.size) :
    ReadsAs (name, numberContent value) (name, .integer value) :=
  readsAs_word hname (isWord_toString value) (by rw [Yaml.Value.ofPlain, Scalar.ofText_toString h])

theorem readsAs_flag (hname : IsFieldName name) (value : Bool) :
    ReadsAs (name, flagContent value) (name, .bool value) := by
  cases value with
  | false => exact readsAs_word hname (by decide) rfl
  | true => exact readsAs_word hname (by decide) rfl

theorem readsAs_texts (hname : IsFieldName name) (texts : List String) :
    ReadsAs (name, .sequence texts) (name, .sequence (texts.map .string)) :=
  ⟨⟨hname.isKey, trivial⟩, ⟨rfl, hname.text, .sequence texts⟩⟩

theorem readsAs_preset (hname : IsFieldName name) (preset : Preset) :
    ReadsAs (name, .word preset.name) (name, .string preset.name) := by
  cases preset with
  | fast => exact readsAs_word hname (by decide) rfl
  | precise => exact readsAs_word hname (by decide) rfl
  | custom => exact readsAs_word hname (by decide) rfl

end Field

namespace Config

variable (config : Config)

/-- What a file says before its overrides. -/
def leadingFields : List (String × Yaml.Value) :=
  [("version", .integer fileVersion.toNat), ("preset", .string config.preset.name)]

/-- What the overrides of a file say. -/
def overriddenFields : List (String × Yaml.Value) :=
  [("bitvector_size", .integer config.bitvectorSize.toNat),
    ("arrays", .bool config.arrays),
    ("merge_queries", .bool config.mergeQueries),
    ("reach_filter", .bool config.reachFilter),
    ("verbose_queries", .bool config.verboseQueries),
    ("intent_summaries", .bool config.intentSummaries),
    ("threads", .integer config.threads.toNat),
    ("sources", .sequence (config.sources.map .string)),
    ("sinks", .sequence (config.sinks.map .string))]

theorem readsAs_leadingEntries :
    List.Forall₂ ReadsAs config.leadingEntries config.leadingFields :=
  .cons (readsAs_number (by decide) (by decide)) (.cons (readsAs_preset (by decide) _) .nil)

theorem readsAs_overrideEntries :
    List.Forall₂ ReadsAs config.overrideEntries config.overriddenFields := by
  have hsize : config.bitvectorSize.toNat < UInt64.size :=
    Nat.lt_trans config.bitvectorSize.toNat_lt (by decide)
  exact .cons (readsAs_number (by decide) hsize) (.cons (readsAs_flag (by decide) _)
    (.cons (readsAs_flag (by decide) _) (.cons (readsAs_flag (by decide) _)
    (.cons (readsAs_flag (by decide) _) (.cons (readsAs_flag (by decide) _)
    (.cons (readsAs_number (by decide) config.threads.toNat_lt)
    (.cons (readsAs_texts (by decide) _) (.cons (readsAs_texts (by decide) _) .nil))))))))

/-- What a file says. -/
def fileFields : List (String × Yaml.Value) :=
  config.leadingFields ++ [("overrides", .ofFields config.overriddenFields)]

/-- The names of the fields of a file. -/
def fileNames : List String :=
  ["version", "preset", "overrides"]

theorem parse_toYaml : Yaml.Value.parse config.toYaml = some (.ofFields config.fileFields) := by
  have hnames : fileNames.Nodup := by decide
  have hfields : overrideFields.Nodup := by decide
  rw [toYaml_eq]
  exact parse_documentText config.readsAs_leadingEntries config.readsAs_overrideEntries
    (IsFieldName.isKey (by decide)) (by decide) nofun nofun hnames hfields

/-! ## Reading back -/

/-- All fields of a configuration as overrides. -/
def toOverrides : Overrides where
  bitvectorSize := some config.bitvectorSize
  arrays := some config.arrays
  mergeQueries := some config.mergeQueries
  reachFilter := some config.reachFilter
  verboseQueries := some config.verboseQueries
  intentSummaries := some config.intentSummaries
  threads := some config.threads
  sources := some config.sources
  sinks := some config.sinks

/-- Whatever the preset is, all of its defaults are overridden. -/
theorem override_toOverrides : (ofPreset config.preset).override config.toOverrides = config := by
  obtain ⟨preset⟩ := config
  cases preset <;> rfl

/-! ### Entries -/

theorem optionalEntry_some {α : Type} {read : Yaml.Value → Option α} {value : Yaml.Value}
    {result : α} (h : read value = some result) (hvalue : value ≠ .null) :
    optionalEntry read (some value) = some (some result) := by
  rw [optionalEntry, h]
  · rfl
  · exact hvalue

theorem optionalEntry_uint32 (value : UInt32) :
    optionalEntry (·.uint32?) (some (.integer value.toNat)) = some (some value) := by
  have hrange : (0 : Int) ≤ value.toNat ∧ (value.toNat : Int) < UInt32.size :=
    ⟨Int.natCast_nonneg _, Int.ofNat_lt.mpr value.toNat_lt⟩
  refine optionalEntry_some ?_ nofun
  simp only [Yaml.Value.uint32?, Yaml.Value.untagged, if_pos hrange]
  simp

theorem optionalEntry_uint64 (value : UInt64) :
    optionalEntry (·.uint64?) (some (.integer value.toNat)) = some (some value) := by
  have hrange : (0 : Int) ≤ value.toNat ∧ (value.toNat : Int) < UInt64.size :=
    ⟨Int.natCast_nonneg _, Int.ofNat_lt.mpr value.toNat_lt⟩
  refine optionalEntry_some ?_ nofun
  simp only [Yaml.Value.uint64?, Yaml.Value.untagged, if_pos hrange]
  simp

theorem optionalEntry_bool (value : Bool) :
    optionalEntry (·.bool?) (some (.bool value)) = some (some value) :=
  rfl

theorem optionalEntry_strings (texts : List String) :
    optionalEntry (·.strings?) (some (.sequence (texts.map .string))) = some (some texts) := by
  have hitems : (texts.map Yaml.Value.string).mapM Yaml.Value.string? = some texts := by
    induction texts with
    | nil => rfl
    | cons text texts ih =>
        rw [List.map_cons, List.mapM_cons, ih]
        rfl
  exact optionalEntry_some hitems nofun

/-! ### Files -/

theorem overrides_ofValue? :
    Overrides.ofValue? (.ofFields config.overriddenFields) = some config.toOverrides := by
  have hnames : (config.overriddenFields.map (·.1)).Nodup := (by decide : overrideFields.Nodup)
  have hfields : (Yaml.Value.ofFields config.overriddenFields).fields? overrideFields =
      some (config.overriddenFields.map (some ·.2)) := Yaml.Value.fields?_ofFields hnames
  rw [Overrides.ofValue?, hfields]
  simp only [overriddenFields, List.map_cons, List.map_nil, optionalEntry_uint32,
    optionalEntry_uint64, optionalEntry_bool, optionalEntry_strings, Option.bind_eq_bind,
    Option.bind_some]
  rfl

theorem configFile_ofValue? : ConfigFile.ofValue? (.ofFields config.fileFields) =
    some { version := some fileVersion, preset := config.preset.name,
           overrides := some config.toOverrides } := by
  have hnames : (config.fileFields.map (·.1)).Nodup := (by decide : fileNames.Nodup)
  have hfields : (Yaml.Value.ofFields config.fileFields).fields? fileNames =
      some (config.fileFields.map (some ·.2)) := Yaml.Value.fields?_ofFields hnames
  have hoverrides : optionalEntry Overrides.ofValue? (some (.ofFields config.overriddenFields)) =
      some (some config.toOverrides) := optionalEntry_some config.overrides_ofValue? nofun
  rw [fileNames] at hfields
  rw [ConfigFile.ofValue?, hfields]
  simp only [fileFields, leadingFields, List.cons_append, List.nil_append, List.map_cons,
    List.map_nil, hoverrides, optionalEntry_uint32, Option.bind_eq_bind, Option.bind_some]
  rfl

theorem unknownOverride?_fileFields : unknownOverride? (.ofFields config.fileFields) = none := by
  have hget : (Yaml.Value.ofFields config.fileFields).get? "overrides" =
      some (.ofFields config.overriddenFields) := by
    rw [Yaml.Value.get?_ofFields]
    rfl
  have hknown : overrideFields.find? (!overrideFields.contains ·) = none := by decide
  -- the keys of the overrides are the known fields, in their order
  rw [unknownOverride?, hget]
  exact hknown

/-- The name of a preset is that of no other preset. -/
theorem parse_name (preset : Preset) : Preset.parse preset.name = .ok preset := by
  cases preset <;> rfl

/-- The configuration of a file that overrides everything is checked like any other. -/
theorem config_of_toOverrides :
    ConfigFile.config ⟨some fileVersion, config.preset.name, some config.toOverrides⟩ = do
      config.validate
      return config := by
  have hversion : ¬ fileVersion ≠ fileVersion := not_not_intro rfl
  rw [ConfigFile.config]
  simp only [if_neg hversion, parse_name]
  change (do
    ((ofPreset config.preset).override config.toOverrides).validate
    return (ofPreset config.preset).override config.toOverrides) = _
  rw [override_toOverrides]

/-- What reading a text comes down to.  Text and value are variables here, so that nothing is
computed where the cases are decided. -/
theorem parseYaml_of_parse {text : String} {value : Yaml.Value} {file : ConfigFile}
    (hvalue : Yaml.Value.parse text = some value) (hknown : unknownOverride? value = none)
    (hfile : ConfigFile.ofValue? value = some file) : parseYaml text = file.config := by
  rw [parseYaml, hvalue]
  simp only [hknown, hfile]

/-- A configuration that passes its validation reads back from its text, preset and all.  The text
of any other one is rejected with the error of its validation. -/
theorem parseYaml_toYaml :
    Config.parseYaml config.toYaml = do
      config.validate
      return config := by
  rw [parseYaml_of_parse config.parse_toYaml config.unknownOverride?_fileFields
    config.configFile_ofValue?]
  exact config.config_of_toOverrides

end Config

end DalvikHorn
