import DalvikHorn.Proofs.YamlEntries
import DalvikHorn.Yaml.Node

/-!
# Nodes of written documents

The tokens of a document are put together to nodes.  A document that has been written
has no anchors, no aliases and no tags, and its tokens are those of its entries in
order, so the reader takes them one after the other: `takes_document`.

## Strategy

* **Readers.**  `Takes` says that a reader takes some tokens away and gives a value; it
  follows the binds of a reader, and the count of parts does not matter to it.
* **Room.**  The reader has a bound on its steps.  Every collection and every entry takes
  some of them, and a document has more tokens than that.
-/

namespace DalvikHorn.Yaml

open Lexer

/-! ## Reading tokens -/

/-- A reader of nodes that reads some tokens as a value and leaves others. -/
def Takes {α : Type} (read : ReadNode α) (tokens : List Token) (value : α) (rest : List Token) :
    Prop :=
  ∀ reader : NodeReader, reader.tokens = tokens →
    ∃ size, read.run reader = some (value, { reader with tokens := rest, size := size })

namespace Takes

variable {α β : Type} {tokens middle rest : List Token} {read : ReadNode α} {value : α}

theorem pure (value : α) : Takes (Pure.pure value) tokens value tokens := by
  rintro reader rfl
  exact ⟨reader.size, rfl⟩

theorem bind {next : α → ReadNode β} {result : β} (h : Takes read tokens value middle)
    (hnext : Takes (next value) middle result rest) : Takes (read >>= next) tokens result rest := by
  intro reader hreader
  obtain ⟨size, hread⟩ := h reader hreader
  obtain ⟨size', hresult⟩ := hnext { reader with tokens := middle, size := size } rfl
  refine ⟨size', ?_⟩
  rw [StateT.run_bind, hread]
  exact hresult

theorem map (f : α → β) (h : Takes read tokens value rest) :
    Takes (f <$> read) tokens (f value) rest := by
  rw [map_eq_pure_bind]
  exact h.bind (pure _)

theorem peek : Takes ReadNode.peek tokens tokens.head? tokens := by
  rintro reader rfl
  exact ⟨reader.size, rfl⟩

theorem skip {token : Token} : Takes ReadNode.skip (token :: rest) () rest := by
  intro reader hreader
  refine ⟨reader.size, ?_⟩
  have hrest : reader.tokens.drop 1 = rest := by rw [hreader]; rfl
  rw [← hrest]
  rfl

theorem count (parts : Nat) : Takes (ReadNode.count parts) tokens () tokens := by
  rintro reader rfl
  exact ⟨reader.size + parts, rfl⟩

end Takes

namespace ReadNode

variable {rest : List Token} {bound : Nat}

/-! ## Scalars -/

/-- A token that starts content: none of an alias, an anchor and a tag. -/
def StartsContent : Token → Prop
  | .alias _ | .anchor _ | .tag _ _ => False
  | _ => True

theorem takes_readAnchor? {token : Token} {tokens : List Token} (htoken : StartsContent token) :
    Takes readAnchor? (token :: tokens) none (token :: tokens) := by
  refine .bind .peek ?_
  cases token <;> first | exact .pure _ | cases htoken

theorem takes_readTagName? {token : Token} {tokens : List Token} (htoken : StartsContent token) :
    Takes readTagName? (token :: tokens) none (token :: tokens) := by
  refine .bind .peek ?_
  cases token <;> first | exact .pure _ | cases htoken

/-- Without an anchor and a tag a node is its content. -/
theorem takes_node {block indentless : Bool} {token : Token} {tokens : List Token} {node : Node}
    (htoken : StartsContent token)
    (hcontent : Takes (readContent block indentless false none bound) (token :: tokens) node rest) :
    Takes (readNode block indentless (bound + 1)) (token :: tokens) node rest := by
  have hproperties : Takes readProperties (token :: tokens) (none, none) (token :: tokens) :=
    .bind (takes_readAnchor? htoken) (.bind (takes_readTagName? htoken) (.pure _))
  rw [readNode]
  refine .bind .peek ?_
  -- there is no anchor, so no place is kept for the node
  cases token <;> first
    | exact .bind hproperties (.bind (.pure none) (.bind hcontent (.bind (.pure ()) (.pure node))))
    | cases htoken

theorem takes_scalar (block indentless plain : Bool) (text : String) (hbound : 2 ≤ bound) :
    Takes (readNode block indentless bound) (.scalar plain text :: rest) (.scalar none plain text)
      rest := by
  obtain ⟨bound, rfl⟩ := Nat.exists_eq_add_of_le' hbound
  refine takes_node trivial ?_
  rw [readContent]
  exact .bind .peek (.bind .skip (.bind (.count 1) (.pure _)))

/-! ## Sequences -/

/-- The node of a text. -/
def itemNode (text : String) : Node :=
  .scalar none (TextStyle.ofText text.toList = .plain) text

theorem length_itemTokens (items : List String) : (itemTokens items).length = 2 * items.length := by
  induction items with
  | nil => rfl
  | cons text items ih =>
      have htokens : itemTokens (text :: items) = .blockEntry ::
        .scalar (TextStyle.ofText text.toList = .plain) text :: itemTokens items := rfl
      rw [htokens, List.length_cons, List.length_cons, ih, List.length_cons]
      omega

/-- The entries of a sequence up to a token that is no mark of an entry. -/
theorem takes_items (items : List String) (hrest : rest.head? ≠ some .blockEntry)
    (hbound : items.length + 2 ≤ bound) :
    Takes (readIndentless bound) (itemTokens items ++ rest) (items.map itemNode) rest := by
  induction items generalizing bound with
  | nil =>
      cases bound with
      | zero => omega
      | succ bound =>
          rw [readIndentless]
          refine .bind .peek ?_
          split
          · -- what follows is no item, so the list ends here
            exact absurd ‹_› hrest
          · exact .pure _
  | cons text items ih =>
      rw [List.length_cons] at hbound
      cases bound with
      | zero => omega
      | succ bound =>
          have hscalar := @takes_scalar (itemTokens items ++ rest) bound true false
            (TextStyle.ofText text.toList = .plain) text (by omega)
          have hmore := @ih bound (by omega)
          rw [readIndentless]
          -- the mark, the item and the items behind it
          exact .bind .peek (.bind .skip (.bind .peek (.bind hscalar (.map _ hmore))))

/-! ## Mappings -/

/-- A part of a block mapping that is written is a node. -/
theorem takes_part {token : Token} {tokens : List Token} {node : Node}
    (htoken : isMissingInBlock (some token) = false)
    (hnode : Takes (readNode true true bound) (token :: tokens) node rest) :
    Takes (readBlockPart (bound + 1)) (token :: tokens) node rest := by
  rw [readBlockPart]
  refine .bind .peek ?_
  rw [List.head?_cons, htoken]
  exact hnode

/-- The node of what is written for a key. -/
def contentNode : Content → Node
  | .word text => .scalar none true text
  | .sequence items => .sequence none (items.map itemNode)

theorem takes_content (content : Content) (hrest : rest.head? ≠ some .blockEntry)
    (hbound : content.tokens.length + 6 ≤ bound) :
    Takes (readBlockPart bound) (content.tokens ++ rest) (contentNode content) rest := by
  obtain ⟨bound, rfl⟩ := Nat.exists_eq_add_of_le' (Nat.le_trans (Nat.le_add_left 6 _) hbound)
  match content with
  | .word text => exact takes_part rfl (takes_scalar _ _ _ _ (by omega))
  | .sequence [] =>
      have hflow : Takes (readFlowSequence true (bound + 3)) (.flowSequenceEnd :: rest) []
          rest := by
        rw [readFlowSequence]
        exact .bind .peek (.bind .skip (.pure _))
      refine takes_part rfl (takes_node trivial ?_)
      rw [readContent]
      exact .bind .peek (.bind .skip (.bind (.count 2) (.map _ hflow)))
  | .sequence (text :: items) =>
      have hlength : 2 * (text :: items).length + 6 ≤ bound + 6 := by
        rw [← length_itemTokens]
        exact hbound
      have hitems := @takes_items rest (bound + 3) (text :: items) hrest (by omega)
      refine takes_part rfl (takes_node trivial ?_)
      rw [readContent]
      exact .bind .peek (.bind (.count 2) (.map _ hitems))

/-- A key with its value, before further entries. -/
theorem takes_entry {key : String} {tokens middle : List Token} {value : Node}
    {more : List (Node × Node)} (hbound : 3 ≤ bound)
    (hvalue : Takes (readBlockPart bound) tokens value middle)
    (hmore : Takes (readBlockMapping bound) middle more rest) :
    Takes (readBlockMapping (bound + 1)) (.key :: .scalar true key :: .value :: tokens)
      ((.scalar none true key, value) :: more) rest := by
  obtain ⟨bound, rfl⟩ := Nat.exists_eq_add_of_le' hbound
  have hkey : Takes (readBlockPart (bound + 3)) (.scalar true key :: .value :: tokens)
      (.scalar none true key) (.value :: tokens) := takes_part rfl (takes_scalar _ _ _ _ (by omega))
  rw [readBlockMapping]
  exact .bind .peek (.bind .skip (.bind hkey (.bind .peek (.bind .skip (.bind hvalue
    (.map _ hmore))))))

theorem takes_end : Takes (readBlockMapping (bound + 1)) (.blockEnd :: rest) [] rest := by
  rw [readBlockMapping]
  exact .bind .peek (.bind .skip (.pure _))

/-- The node of an entry. -/
def entryNode (entry : String × Content) : Node × Node :=
  (.scalar none true entry.1, contentNode entry.2)

/-- Some entries of a mapping, before further ones. -/
theorem takes_entries {entries : List (String × Content)} {middle : List Token}
    {more : List (Node × Node)} (hbound : ∀ entry ∈ entries, entry.2.tokens.length + 6 ≤ bound)
    (hmiddle : middle.head? ≠ some .blockEntry)
    (hmore : Takes (readBlockMapping bound) middle more rest) :
    Takes (readBlockMapping (bound + entries.length)) (entries.flatMap entryTokens ++ middle)
      (entries.map entryNode ++ more) rest := by
  induction entries with
  | nil => exact hmore
  | cons entry entries ih =>
      obtain ⟨hentry, hentries⟩ := List.forall_mem_cons.mp hbound
      have hnext : (entries.flatMap entryTokens ++ middle).head? ≠ some .blockEntry := by
        cases entries with
        | nil => exact hmiddle
        | cons next entries => exact nofun
      have hcontent := @takes_content (entries.flatMap entryTokens ++ middle)
        (bound + entries.length) entry.2 hnext (by omega)
      have hkey : 3 ≤ bound + entries.length := by omega
      rw [List.flatMap_cons, List.append_assoc]
      exact takes_entry hkey hcontent (ih hentries)

/-! ## Documents -/

/-- The node of a document. -/
def documentNode (before : List (String × Content)) (key : String)
    (entries : List (String × Content)) : Node :=
  .mapping none (before.map entryNode ++
    [(.scalar none true key, .mapping none (entries.map entryNode))])

theorem length_tokens_le {entry : String × Content} {entries : List (String × Content)}
    (h : entry ∈ entries) : entry.2.tokens.length ≤ (entries.flatMap entryTokens).length := by
  obtain ⟨before, after, rfl⟩ := List.append_of_mem h
  simp [entryTokens]
  omega

/-- A mapping on its own lines. -/
theorem takes_mapping {indentless : Bool} {tokens : List Token} {entries : List (Node × Node)}
    (hentries : Takes (readBlockMapping bound) tokens entries rest) :
    Takes (readNode true indentless (bound + 2)) (.blockMapping :: tokens) (.mapping none entries)
      rest := by
  refine takes_node trivial ?_
  rw [readContent]
  cases indentless <;>
  exact .bind .peek (.bind .skip (.bind (.count 2) (.map _ hentries)))

/-- The tokens of a document are read as its node.  Every collection and every entry takes some
steps of the reader. -/
theorem takes_document {before entries : List (String × Content)} {key : String}
    (hbound : (documentTokens before key entries).length + before.length + entries.length + 14 ≤
      bound) :
    Takes (readNode true false bound) (documentTokens before key entries)
      (documentNode before key entries) [] := by
  -- each entry costs one step, and each of the nested parts a few
  obtain ⟨inner, rfl⟩ : ∃ inner, bound = inner + 1 + entries.length + 1 + 1 + 1 + 1 +
      before.length + 1 + 1 := ⟨bound - before.length - entries.length - 7, by omega⟩
  have hlength : (before.flatMap entryTokens).length + (entries.flatMap entryTokens).length ≤
      (documentTokens before key entries).length := by
    simp [documentTokens]
    omega
  have hentries : Takes (readBlockMapping (inner + 1 + entries.length))
      (entries.flatMap entryTokens ++ [.blockEnd, .blockEnd]) (entries.map entryNode ++ [])
      [.blockEnd] := by
    refine takes_entries (fun entry hentry => ?_) (by simp) takes_end
    have := length_tokens_le hentry
    omega
  -- the last key holds the entries, and the document ends with it
  have hlast : Takes (readBlockMapping (inner + 1 + entries.length + 4))
      (.key :: .scalar true key :: .value :: .blockMapping ::
        (entries.flatMap entryTokens ++ [.blockEnd, .blockEnd]))
      [(.scalar none true key, .mapping none (entries.map entryNode ++ []))] [] :=
    takes_entry (by omega) (takes_part rfl (takes_mapping hentries)) takes_end
  have hbefore : ∀ entry ∈ before, entry.2.tokens.length + 6 ≤ inner + 1 + entries.length + 4 := by
    intro entry hentry
    have := length_tokens_le hentry
    omega
  have hall := takes_entries hbefore (by simp) hlast
  have hdocument := @takes_mapping _ _ false _ _ hall
  simpa [documentTokens, documentNode] using hdocument

end ReadNode

end DalvikHorn.Yaml
