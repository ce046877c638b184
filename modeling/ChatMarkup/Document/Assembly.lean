import ChatMarkup.Document.Node
import ChatMarkup.Event.Tree
import ChatMarkup.Text.Blank

/-!
# The nodes of a list of events

Each tree of events gives nodes to the tag around it. Where blocks are expected, as in a list item
or in the document itself, a run of inline nodes becomes a paragraph; where a line of text is
expected, nodes stand as they are. Neighbouring texts become one text.

No list of events is refused: what has no meaning at its place keeps its content.

Out of scope: reading Markdown itself. A document begins with the events that a reader has told.
-/

namespace ChatMarkup

/-- A node on its way into what is around it. -/
structure Placement where
  node : Node
  /-- Whether the node belongs to a line of text. -/
  inline : Bool

namespace Placement

/-- Puts a node into a line of text. -/
def inText (node : Node) : Placement := ⟨node, true⟩

/-- Puts a node between blocks. -/
def asBlock (node : Node) : Placement := ⟨node, false⟩

/-- Puts a node where its kind belongs. -/
def byKind (node : Node) : Placement := ⟨node, node.isInline⟩

end Placement

/-! ## Runs -/

/-- Neighbouring texts made one. -/
def mergeTexts : List Node → List Node
  | [] => []
  | .text s :: rest =>
    match mergeTexts rest with
    | .text t :: merged => .text (s ++ t) :: merged
    | merged => .text s :: merged
  | node :: rest => node :: mergeTexts rest

/-- The paragraph of a run of inline nodes, if there are any. -/
def paragraphOf : List Node → List Node
  | [] => []
  | run => [.container .paragraph (mergeTexts run)]

/-- Wraps every run of inline nodes into a paragraph. `run` is the run that is open, latest node
first. -/
def wrapRuns (run : List Node) : List Placement → List Node
  | [] => paragraphOf run.reverse
  | placed :: rest =>
    if placed.inline then wrapRuns (placed.node :: run) rest
    else paragraphOf run.reverse ++ placed.node :: wrapRuns [] rest

/-- Whether a tag holds a line of text, so that inline nodes stand in it without a paragraph. -/
def Tag.holdsText : Tag → Bool
  | .paragraph | .heading _ | .emphasis | .strong | .strikethrough | .link .. | .image ..
  | .tableCell => true
  | _ => false

/-- The children that a tag has from what was placed inside it. -/
def Tag.gather (tag : Tag) (placed : List Placement) : List Node :=
  if tag.holdsText then mergeTexts (placed.map Placement.node) else wrapRuns [] placed

/-! ## What content and tags give -/

/-- The nodes that content gives. Math gives none, and a check box belongs to its item. -/
def Content.placements : Content → List Placement
  | .text s => [.inText (.text s)]
  | .code s => [.inText (.leaf (.inlineCode s))]
  | .html s => [.asBlock (.leaf (.html (Text.dropEndNewlines s)))]
  | .inlineHtml s => [.inText (.leaf (.html s))]
  | .math _ => []
  | .footnoteReference label => [.inText (.leaf (.footnoteReference label))]
  | .softBreak => [.inText (.text "\n")]
  | .hardBreak => [.inText (.leaf .lineBreak)]
  | .rule => [.asBlock (.leaf .thematicBreak)]
  | .task _ => []

/-- The text and html right inside a tag, as it was written. -/
def sourceOf : List Tree → String
  | [] => ""
  | .content (.text s) :: rest => s ++ sourceOf rest
  | .content (.html s) :: rest => s ++ sourceOf rest
  | _ :: rest => sourceOf rest

mutual

/-- The state of the last check box in a tree that belongs to the item around the tree. -/
def Tree.checked? : Tree → Option Bool
  | .content (.task checked) => some checked
  | .content _ => none
  | .tagged .item _ => none
  | .tagged _ inside => checkedOf? inside

/-- The state of the last check box in trees that belongs to the item around them. -/
def checkedOf? : List Tree → Option Bool
  | [] => none
  | tree :: rest => checkedOf? rest <|> tree.checked?

end

/-- Where a link leads. An address for mail is written as one. -/
def linkTarget (form : LinkForm) (url : String) : String :=
  if form = .email && !"mailto:".toList.isPrefixOf url.toList then "mailto:" ++ url else url

/-- What a text shows, or `none` if it shows nothing. -/
def shown? (s : String) : Option String :=
  if s.isEmpty then none else some s

/-- The nodes that a tag gives, from the trees inside it and from its children. -/
def Tag.placements (tag : Tag) (inside : List Tree) (children : List Node) : List Placement :=
  match tag with
  | .paragraph => [.asBlock (.container .paragraph children)]
  | .heading level => [.asBlock (.container (.heading level.number) children)]
  | .blockquote => [.asBlock (.container .blockquote children)]
  | .codeBlock info =>
    let language := info.bind Text.firstWord?
    [.asBlock (.leaf (.codeBlock language (Text.dropEndNewline (sourceOf inside))))]
  | .htmlBlock => [.asBlock (.leaf (.html (Text.dropEndNewlines (sourceOf inside))))]
  | .list start => [.asBlock (.container (.list start.isSome start) children)]
  | .item => [.asBlock (.container (.listItem (checkedOf? inside)) children)]
  | .footnoteDefinition label => [.asBlock (.container (.footnoteDefinition label) children)]
  | .table => [.asBlock (.container .table children)]
  | .tableHead | .tableRow => [.asBlock (.container .tableRow children)]
  | .tableCell => [.asBlock (.container .tableCell children)]
  | .emphasis => [.inText (.container .emphasis children)]
  | .strong => [.inText (.container .strong children)]
  | .strikethrough => [.inText (.container .strikethrough children)]
  | .link form url => [.inText (.container (.link (linkTarget form url)) children)]
  | .image _ url => [.inText (.leaf (.image url (shown? (Node.plainTexts children))))]
  | .extension => children.map .byKind

/-! ## Assembly -/

mutual

/-- The nodes that a tree gives to what is around it. -/
def Tree.placements : Tree → List Placement
  | .content c => c.placements
  | .tagged tag inside => tag.placements inside (tag.gather (placementsOf inside))

/-- The nodes that trees give to what is around them. -/
def placementsOf : List Tree → List Placement
  | [] => []
  | tree :: rest => tree.placements ++ placementsOf rest

end

/-- The blocks of a document, from its events. -/
def blocksOf (events : List Event) : List Node :=
  wrapRuns [] (placementsOf (Tree.ofEvents events))

/-- A document, from its events. -/
def documentOf (events : List Event) : Node :=
  .container .document (blocksOf events)

end ChatMarkup
