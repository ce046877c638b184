import ChatMarkup.Document.Kind

/-!
# Nodes of a document

A document is a tree. A leaf carries text as it was written; a container carries the nodes inside
it. Any node may stand in any container.

Results:
* `Part.sizeOf_lt`: a part of a node is smaller than the node, so a walk down a document ends.
-/

namespace ChatMarkup

/-- A node with no nodes inside it. Its texts are not escaped. -/
inductive Leaf
  | inlineCode (code : String)
  | codeBlock (language : Option String) (code : String)
  | image (url : String) (alt : Option String)
  /-- A rule across the page. -/
  | thematicBreak
  /-- The end of a line inside a paragraph. -/
  | lineBreak
  | text (text : String)
  /-- Html as it was written, in a line or as a block. -/
  | html (source : String)
  | footnoteReference (label : String)
deriving DecidableEq, Repr

/-- What holds a list of nodes. -/
inductive Container
  | document
  | paragraph
  | heading (level : Nat)
  | emphasis
  | strong
  | strikethrough
  | link (url : String)
  | blockquote
  /-- A list whose items are numbered, from `start` on, or have bullets. -/
  | list (ordered : Bool) (start : Option Nat)
  /-- An item of a list; `checked` is the state of its check box, if it has one. -/
  | listItem (checked : Option Bool)
  | table
  | tableRow
  | tableCell
  | footnoteDefinition (label : String)
deriving DecidableEq, Repr

/-- A document or a part of it. -/
inductive Node
  | leaf (leaf : Leaf)
  | container (container : Container) (children : List Node)

namespace Leaf

/-- The kind of a leaf. -/
def kind : Leaf → Kind
  | inlineCode _ => .inlineCode
  | codeBlock .. => .codeBlock
  | image .. => .image
  | thematicBreak => .thematicBreak
  | lineBreak => .lineBreak
  | text _ => .text
  | html _ => .html
  | footnoteReference _ => .footnoteReference

/-- The text that a leaf shows, without any markup. -/
def plainText : Leaf → String
  | text s | inlineCode s => s
  | image _ alt => alt.getD ""
  | lineBreak => "\n"
  | _ => ""

end Leaf

/-- The kind of a container. -/
def Container.kind : Container → Kind
  | document => .document
  | paragraph => .paragraph
  | heading _ => .heading
  | emphasis => .emphasis
  | strong => .strong
  | strikethrough => .strikethrough
  | link _ => .link
  | blockquote => .blockquote
  | list .. => .list
  | listItem _ => .listItem
  | table => .table
  | tableRow => .tableRow
  | tableCell => .tableCell
  | footnoteDefinition _ => .footnoteDefinition

namespace Node

instance : Inhabited Node := ⟨.leaf .lineBreak⟩

/-- A node that shows a text. -/
@[match_pattern] abbrev text (s : String) : Node := .leaf (.text s)

/-- The kind of a node. -/
def kind : Node → Kind
  | leaf l => l.kind
  | container c _ => c.kind

/-- The nodes inside a node, or `none` for a leaf. -/
def children? : Node → Option (List Node)
  | leaf _ => none
  | container _ children => some children

/-- The nodes inside a node: no nodes for a leaf. -/
def children : Node → List Node
  | leaf _ => []
  | container _ children => children

/-- Whether a node runs along a line of text. -/
def isInline (node : Node) : Bool :=
  node.kind.isInline

mutual

/-- The text that a node shows, without any markup. -/
def plainText : Node → String
  | leaf l => l.plainText
  | container _ children => plainTexts children

/-- The texts that nodes show, one after the other. -/
def plainTexts : List Node → String
  | [] => ""
  | node :: rest => node.plainText ++ plainTexts rest

end

/-! ## Equality -/

mutual

/-- Decides whether two nodes are equal. -/
def decEq : (a b : Node) → Decidable (a = b)
  | leaf l, leaf m =>
    if h : l = m then isTrue (by rw [h]) else isFalse (by simpa using h)
  | leaf _, container .. => isFalse nofun
  | container .., leaf _ => isFalse nofun
  | container c as, container d bs =>
    if h : c = d then
      match decEqAll as bs with
      | isTrue hs => isTrue (by rw [h, hs])
      | isFalse hs => isFalse (by simpa using fun _ => hs)
    else isFalse (by simpa using fun hc => (h hc).elim)

/-- Decides whether two lists of nodes are equal. -/
def decEqAll : (as bs : List Node) → Decidable (as = bs)
  | [], [] => isTrue rfl
  | [], _ :: _ => isFalse nofun
  | _ :: _, [] => isFalse nofun
  | a :: as, b :: bs =>
    match decEq a b, decEqAll as bs with
    | isTrue h, isTrue hs => isTrue (by rw [h, hs])
    | isFalse h, _ => isFalse (by simpa using fun he => (h he).elim)
    | _, isFalse hs => isFalse (by simpa using fun _ => hs)

end

instance : DecidableEq Node := decEq

/-! ## Parts -/

/-- One node stands inside another, at any depth. -/
inductive Part : Node → Node → Prop
  | child {part node : Node} : part ∈ node.children → Part part node
  | deeper {part between node : Node} :
    part ∈ between.children → Part between node → Part part node

theorem sizeOf_lt_of_mem_children {part node : Node} (h : part ∈ node.children) :
    sizeOf part < sizeOf node := by
  cases node with
  | leaf => simp [children] at h
  | container c cs =>
    have := List.sizeOf_lt_of_mem (show part ∈ cs from h)
    simp; omega

theorem Part.sizeOf_lt {part node : Node} (h : Part part node) : sizeOf part < sizeOf node := by
  induction h with
  | child h => exact sizeOf_lt_of_mem_children h
  | deeper h _ ih => have := sizeOf_lt_of_mem_children h; omega

end Node

end ChatMarkup
