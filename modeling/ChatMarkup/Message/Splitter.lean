import ChatMarkup.Message.Divider
import ChatMarkup.Message.Packing
import ChatMarkup.Message.Record

/-!
# Splitting documents into messages

The top-level nodes of a document are written one by one and packed into messages of bounded length.
A node that is too long for one message ends the message before it and is divided, if there is a
divider for its kind; its fragments are packed like other pieces. Nothing is cut that has no
divider: it stays whole, over the limit. The messages and what is told about them come from one run
of the packing.
-/

namespace ChatMarkup

/-- A top-level node as it was written. -/
structure Block where
  kind : Kind
  text : String
  /-- What a divider made of the node, if it was too long and there was one. -/
  fragments : List String
deriving DecidableEq, Repr

namespace Block

/-- The length of a block in UTF-16 units. -/
def units (block : Block) : Nat :=
  Text.units block.text

/-- The pieces that a block gives to the messages: its fragments, as far as they are not empty, or
its whole text if it was not divided. -/
def pieces (block : Block) : List String :=
  if block.fragments.isEmpty then [block.text] else block.fragments.filter (!·.isEmpty)

/-- The entries that a block is packed as. A block over the limit begins a new message. -/
def entries (limit : Nat) (block : Block) : List Entry :=
  .tell (.written block.kind block.units) ::
    ((if block.units ≤ limit then [] else [.close]) ++
      (if block.fragments.isEmpty then []
        else [.tell (.divided block.kind block.units block.fragments.length)]) ++
      block.pieces.map .piece)

end Block

/-- How documents are split: the longest message, and how to divide nodes that are longer. -/
structure Splitter (ρ : Type := Renderer) [Writer ρ] where
  limit : Nat := 4096
  dividers : KindTable (Divider ρ) := standardDividers

namespace Splitter

variable {ρ : Type} [Writer ρ]

/-- The fragments of a node, if it has a divider. -/
def fragments (s : Splitter ρ) (r : ρ) (node : Node) : List String :=
  match s.dividers.get? node.kind with
  | some divider => divider r node s.limit
  | none => []

/-- The block of a node, unless the node shows nothing. -/
def block? (s : Splitter ρ) (r : ρ) (node : Node) : Option Block :=
  let text := Writer.write r [node]
  if text.isEmpty then none
  else
    some
      { kind := node.kind
        text := text
        fragments := if Text.units text ≤ s.limit then [] else s.fragments r node }

/-- The blocks of the top-level nodes of a document. -/
def blocks (s : Splitter ρ) (r : ρ) (nodes : List Node) : List Block :=
  nodes.filterMap (s.block? r)

/-- What the blocks of a document are packed as. -/
def entries (s : Splitter ρ) (r : ρ) (nodes : List Node) : List Entry :=
  (s.blocks r nodes).flatMap (Block.entries s.limit)

/-- All that a split puts out, in the order in which it happens. -/
def outputs (s : Splitter ρ) (r : ρ) (nodes : List Node) : List Output :=
  (Filling.empty s.limit).pack (s.entries r nodes)

/-- The groups of pieces that make the messages of a document. -/
def groups (s : Splitter ρ) (r : ρ) (nodes : List Node) : List (List String) :=
  Output.groups (s.outputs r nodes)

/-- The messages of a document. -/
def split (s : Splitter ρ) (r : ρ) (nodes : List Node) : List String :=
  (s.groups r nodes).map messageOf

/-- What is told about a split, in the order in which it happens. -/
def log (s : Splitter ρ) (r : ρ) (nodes : List Node) : List Record :=
  Output.records (s.outputs r nodes)

end Splitter

end ChatMarkup
