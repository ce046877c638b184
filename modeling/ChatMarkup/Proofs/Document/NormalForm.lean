import ChatMarkup.Proofs.Document.Everywhere
import ChatMarkup.Text.Blank
import Mathlib.Data.List.Chain

/-!
# The normal form of documents

Many trees of nodes are no document that events could give. In normal form are those where siblings
that would be one node are apart, blocks and lines of text stand where they are expected, and the
values that nodes carry agree with each other.

Results:
* `everywhere_container`: what normal form asks of a container and of all that is inside it.
* `siblings_of_blocks`: blocks are never neighbouring texts.
-/

namespace ChatMarkup

/-! ## Siblings -/

/-- Whether blocks are expected in a container, and not a line of text. -/
def Container.holdsBlocks : Container → Bool
  | .blockquote | .list .. | .listItem _ | .footnoteDefinition _ | .table | .tableRow => true
  | _ => false

/-- Whether two nodes can be neighbours. Two texts would be one. -/
def Node.CanPrecede (first second : Node) : Prop :=
  ¬ (first.kind = .text ∧ second.kind = .text)

instance : DecidableRel Node.CanPrecede := fun first second =>
  inferInstanceAs (Decidable (¬ (first.kind = .text ∧ second.kind = .text)))

/-- Whether a node can stand where blocks are expected. Inline nodes cannot, and neither can html
that ends in a newline. -/
def Node.isBlock : Node → Bool
  | .leaf (.html source) => source.toList.getLast? != some '\n'
  | node => !node.isInline

/-- The nodes are neighbours as a document has them, among blocks or in a line of text. -/
structure Siblings (amongBlocks : Bool) (nodes : List Node) : Prop where
  apart : nodes.IsChain Node.CanPrecede
  blocks : amongBlocks = true → ∀ node ∈ nodes, node.isBlock = true

instance (amongBlocks : Bool) (nodes : List Node) : Decidable (Siblings amongBlocks nodes) :=
  decidable_of_iff
    (nodes.IsChain Node.CanPrecede ∧ (amongBlocks = true → ∀ node ∈ nodes, node.isBlock = true))
    ⟨fun h => ⟨h.1, h.2⟩, fun h => ⟨h.apart, h.blocks⟩⟩

theorem exists_eq_text_of_kind {node : Node} (h : node.kind = .text) : ∃ s, node = .text s := by
  cases node with
  | leaf l =>
    cases l with
    | text s => exact ⟨s, rfl⟩
    | _ => exact absurd h nofun
  | container c children => cases c <;> exact absurd h nofun

theorem isInline_of_isBlock {node : Node} (h : node.isBlock = true) : node.isInline = false := by
  unfold Node.isBlock at h
  split at h
  · rfl
  · simpa using h

theorem kind_ne_text_of_isBlock {node : Node} (h : node.isBlock = true) : node.kind ≠ .text := by
  intro hkind
  have hinline := isInline_of_isBlock h
  rw [Node.isInline, hkind] at hinline
  exact absurd hinline (by decide)

/-- Blocks are neighbours as a document has them, wherever they stand. -/
theorem siblings_of_blocks (amongBlocks : Bool) {nodes : List Node}
    (h : ∀ node ∈ nodes, node.isBlock = true) : Siblings amongBlocks nodes where
  apart := by
    induction nodes with
    | nil => exact .nil
    | cons node rest ih =>
      have hnode := kind_ne_text_of_isBlock (h node List.mem_cons_self)
      refine List.isChain_cons.2 ⟨fun _ _ hboth => hnode hboth.1, ?_⟩
      exact ih fun n hn => h n (List.mem_cons_of_mem node hn)
  blocks _ := h

/-! ## Trees -/

/-- Whether a leaf has values that go together: an image shows a text or has none, and the language
of a block of code is a word. -/
def Leaf.isNormal : Leaf → Bool
  | .image _ alt => alt != some ""
  | .codeBlock language _ => language.all Text.isWord
  | _ => true

/-- Whether a container can be inside a document, with values that go together: a heading has one of
six levels, and a list has a number to begin with if its items are numbered. -/
def Container.isNormal : Container → Bool
  | .document => false
  | .heading level => 1 ≤ level && level ≤ 6
  | .list ordered start => ordered == start.isSome
  | _ => true

/-- Whether a node and its children, but not what is inside these, are in normal form. -/
def Node.isNormal : Node → Bool
  | .leaf l => l.isNormal
  | .container c children => c.isNormal && decide (Siblings c.holdsBlocks children)

/-- **The normal form of a document**, of which these are the blocks: at every depth, no two texts
are neighbours, blocks stand where blocks are expected, no node is a document, and values go
together. -/
structure NormalForest (nodes : List Node) : Prop where
  siblings : Siblings true nodes
  inside : ∀ node ∈ nodes, node.everywhere Node.isNormal = true

/-- A container is in normal form if it has values that go together, its children are neighbours as
a document has them, and they are in normal form themselves. -/
theorem everywhere_container {c : Container} {children : List Node} :
    (Node.container c children).everywhere Node.isNormal = true ↔
      c.isNormal = true ∧ Siblings c.holdsBlocks children ∧
        ∀ child ∈ children, child.everywhere Node.isNormal = true := by
  rw [Node.everywhere_iff, Node.isNormal, Bool.and_eq_true, decide_eq_true_eq, and_assoc]
  rfl

end ChatMarkup
