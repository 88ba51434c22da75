import ClassCompiler.Node.Document
import ClassCompiler.Proofs.Json.Values
import Mathlib.Data.List.Forall2

/-!
# Written syntax trees

A syntax tree is read back from its text, and also from a text in which kinds are written
by other names under which they are read. Every level of the tree opens two containers,
the object of a node and the array of its children, and the reader allows no more than a
fixed number of open containers: a tree whose text needs more is refused.
-/

namespace ClassCompiler

open Json

/-- The names by which a kind may be written. -/
def Kind.spellings (kind : Kind) : List String := kind.name :: kind.aliases

theorem Kind.ofName?_of_mem_spellings {kind : Kind} {name : String}
    (isSpelling : name ∈ kind.spellings) : ofName? name = some kind := by
  have each : ∀ name ∈ kind.spellings, ofName? name = some kind := by cases kind <;> decide
  exact each name isSpelling

namespace Node

/-- Nodes whose attributes are plain and sorted by name, all the way down. -/
inductive IsPlain : Node → Prop
  | intro {kind : Kind} {children : List Node} {attributes : List (String × Value)}
      (hasAttributes : (Value.object attributes).IsPlain)
      (hasChildren : ∀ child ∈ children, IsPlain child) : IsPlain ⟨kind, children, attributes⟩

/-- A document of a node in which every kind is written by one of its names. -/
inductive Spells : Node → Document → Prop
  | intro {kind : Kind} {name : String} {children : List Node} {documents : List Document}
      {attributes : List (String × Value)} (isSpelling : name ∈ kind.spellings)
      (spellChildren : List.Forall₂ Spells children documents) :
      Spells ⟨kind, children, attributes⟩ (.object [(some "kind", .string (some name)),
        (some "children", .array documents),
        (some "attributes", (Value.object attributes).toDocument)])

mutual

/-- The document of a node writes every kind by its own name. -/
theorem spells_toDocument : (node : Node) → node.Spells node.toDocument
  | ⟨_, children, _⟩ => .intro List.mem_cons_self (spells_toDocuments children)

theorem spells_toDocuments : (nodes : List Node) → List.Forall₂ Spells nodes (toDocuments nodes)
  | [] => .nil
  | node :: rest => .cons (spells_toDocument node) (spells_toDocuments rest)

end

mutual

theorem isWritten_spells : (node : Node) → node.IsPlain → ∀ {document : Document},
    node.Spells document → document.IsWritten
  | ⟨_, children, attributes⟩, .intro hasAttributes hasChildren, _, .intro _ spellChildren => by
      have written := isWritten_spellings children hasChildren spellChildren
      have attributesWritten := Value.isWritten_toDocument (.object attributes) hasAttributes
      refine .object ?_
      simp only [List.forall_mem_cons]
      exact ⟨.string _, .array written, attributesWritten, List.forall_mem_nil _⟩

theorem isWritten_spellings : (nodes : List Node) → (∀ node ∈ nodes, node.IsPlain) →
    ∀ {documents : List Document}, List.Forall₂ Spells nodes documents →
      ∀ document ∈ documents, document.IsWritten
  | [], _, _, .nil => List.forall_mem_nil _
  | node :: rest, arePlain, _, .cons spells spellRest => by
      rw [List.forall_mem_cons] at arePlain ⊢
      exact ⟨isWritten_spells node arePlain.1 spells,
        isWritten_spellings rest arePlain.2 spellRest⟩

end

theorem attributesOfDocument?_toDocument {attributes : List (String × Value)}
    (arePlain : (Value.object attributes).IsPlain) (depth : Nat) :
    attributesOfDocument? depth (Value.object attributes).toDocument =
      within (Value.object attributes).toDocument.nesting depth attributes := by
  rw [attributesOfDocument?, Value.ofDocument?_toDocument _ arePlain]
  unfold within
  by_cases fits : (Value.object attributes).toDocument.nesting ≤ depth
  · rw [if_pos fits, if_pos fits]
  · rw [if_neg fits, if_neg fits]

/-- Every level of a tree opens two containers. -/
theorem nesting_toDocument (kind : Kind) (children : List Node)
    (attributes : List (String × Value)) :
    (Node.mk kind children attributes).toDocument.nesting =
      max (Document.array (toDocuments children)).nesting
        (Value.object attributes).toDocument.nesting + 1 := by
  simp [toDocument, Value.toDocument, Document.nesting, Document.fieldNesting]

mutual

/-- A plain node is read from each of its documents exactly if it is not nested too deep. -/
theorem ofDocument?_spells : (node : Node) → node.IsPlain → ∀ {document : Document},
    node.Spells document → ∀ depth,
      ofDocument? depth document = within node.toDocument.nesting depth node
  | _, _, _, .intro _ _, 0 => rfl
  | ⟨kind, children, attributes⟩, .intro hasAttributes hasChildren, _,
      @Spells.intro _ name _ documents _ isSpelling spellChildren, depth + 1 => by
      have record : Record.ofDocument? ["kind", "children", "attributes"]
          (.object [(some "kind", .string (some name)), (some "children", .array documents),
            (some "attributes", (Value.object attributes).toDocument)]) =
          some [("kind", .string (some name)), ("children", .array documents),
            ("attributes", (Value.object attributes).toDocument)] := rfl
      have kindRead : Kind.ofDocument? depth (.string (some name)) = some kind :=
        Kind.ofName?_of_mem_spellings isSpelling
      have childrenRead : list? ofDocument? depth (.array documents) =
          within (Document.array (toDocuments children)).nesting depth children := by
        cases depth with
        | zero => rfl
        | succ inner =>
            rw [Document.nesting, within_succ]
            exact mapM_ofDocument?_spells children hasChildren spellChildren inner
      have attributesRead := attributesOfDocument?_toDocument hasAttributes depth
      rw [ofDocument?, record, nesting_toDocument, within_succ]
      simp only [Record.required?, Record.withDefault?, Record.get?, Option.pure_def,
        Option.bind_eq_bind, Option.bind_some, List.lookup_cons_self, List.lookup_cons,
        String.reduceBEq, kindRead]
      change (list? ofDocument? depth (.array documents) >>= _) = _
      rw [childrenRead, attributesRead]
      exact bind_within (Node.mk kind) children attributes

theorem mapM_ofDocument?_spells : (nodes : List Node) → (∀ node ∈ nodes, node.IsPlain) →
    ∀ {documents : List Document}, List.Forall₂ Spells nodes documents → ∀ depth,
      documents.mapM (ofDocument? depth) =
        within (Document.itemNesting (toDocuments nodes)) depth nodes
  | [], _, _, .nil, _ => rfl
  | node :: rest, arePlain, _, .cons spells spellRest, depth => by
      rw [List.forall_mem_cons] at arePlain
      rw [List.mapM_cons, ofDocument?_spells node arePlain.1 spells,
        mapM_ofDocument?_spells rest arePlain.2 spellRest, toDocuments, Document.itemNesting]
      exact bind_within List.cons node rest

end

/-- A plain node is read from the text of each of its documents exactly if it is not nested
too deep. -/
theorem ofText?_spells {node : Node} (isPlain : node.IsPlain) {document : Document}
    (spells : node.Spells document) :
    ofText? document.text = within node.toDocument.nesting maxDepth node := by
  rw [ofText?, Json.ofText?_text (isWritten_spells node isPlain spells)]
  exact ofDocument?_spells node isPlain spells maxDepth

end Node

/-- A syntax tree is read back from its text, and from each text that writes its kinds by
other names, if no more than 127 containers are nested in the text. Otherwise none of
these texts is read. -/
theorem node_is_read_from_its_texts {node : Node} (isPlain : node.IsPlain) :
    (node.toDocument.nesting ≤ 127 → Node.ofText? node.text = some node ∧
      ∀ document, node.Spells document → Node.ofText? document.text = some node) ∧
    (127 < node.toDocument.nesting → Node.ofText? node.text = none ∧
      ∀ document, node.Spells document → Node.ofText? document.text = none) := by
  constructor
  · intro fits
    have read (document : Document) (spells : node.Spells document) :
        Node.ofText? document.text = some node :=
      (Node.ofText?_spells isPlain spells).trans (if_pos fits)
    exact ⟨read _ node.spells_toDocument, read⟩
  · intro tooDeep
    have refused (document : Document) (spells : node.Spells document) :
        Node.ofText? document.text = none :=
      (Node.ofText?_spells isPlain spells).trans (if_neg (Nat.not_le_of_lt tooDeep))
    exact ⟨refused _ node.spells_toDocument, refused⟩

/-- A node with a child and with attributes of all kinds: escaped characters, the greatest
and the least number, and values inside values. -/
def reportNode : Node where
  kind := .methodDecl
  children := [⟨.type, [], [("name", .string "int")]⟩]
  attributes := [
    ("name", .string "\"été\"\n\x01\\ 😀"),
    ("range", .array [.ofInt (-9223372036854775808), .null, .ofInt 18446744073709551615]),
    ("tags", .object [("deep", .object [("", .bool true)]), ("flat", .array [])])]

/-- The node with its kinds written by other names. -/
def reportDocument : Document :=
  .object [(some "kind", .string (some "MainMethod")),
    (some "children", .array [.object [(some "kind", .string (some "TType")),
      (some "children", .array []),
      (some "attributes", .object [(some "name", .string (some "int"))])]]),
    (some "attributes", (Value.object reportNode.attributes).toDocument)]

theorem node_is_read_from_its_texts_reportNode :
    reportNode.IsPlain ∧ reportNode.toDocument.nesting = 4 ∧ reportNode.Spells reportDocument ∧
      Node.ofText? reportNode.text = some reportNode ∧
      Node.ofText? reportDocument.text = some reportNode := by
  have isPlain : reportNode.IsPlain := by
    refine .intro (.object (by decide) ?_) ?_ <;> simp only [List.forall_mem_cons]
    · have range : ∀ item ∈ [Value.ofInt (-9223372036854775808), .null,
          .ofInt 18446744073709551615], item.IsPlain := by
        simp only [List.forall_mem_cons]
        exact ⟨.number (by decide), .null, .number (by decide), List.forall_mem_nil _⟩
      have tags : ∀ field ∈ [("deep", Value.object [("", .bool true)]), ("flat", .array [])],
          field.2.IsPlain := by
        simp only [List.forall_mem_cons]
        exact ⟨.object (by decide) (List.forall_mem_singleton.mpr (.bool true)),
          .array (List.forall_mem_nil _), List.forall_mem_nil _⟩
      exact ⟨.string _, .array range, .object (by decide) tags, List.forall_mem_nil _⟩
    · have name : ∀ field ∈ [("name", Value.string "int")], field.2.IsPlain :=
        List.forall_mem_singleton.mpr (.string _)
      exact ⟨.intro (.object (by decide) name) (List.forall_mem_nil _), List.forall_mem_nil _⟩
  have spells : reportNode.Spells reportDocument :=
    .intro (by decide) (.cons (.intro (by decide) .nil) .nil)
  have nesting : reportNode.toDocument.nesting = 4 := by decide
  obtain ⟨read, readSpelled⟩ := (node_is_read_from_its_texts isPlain).1 (by rw [nesting]; decide)
  exact ⟨isPlain, nesting, spells, read, readSpelled reportDocument spells⟩

end ClassCompiler
