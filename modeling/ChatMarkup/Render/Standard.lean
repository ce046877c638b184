import ChatMarkup.Dialect.Code
import ChatMarkup.Render.Renderer
import ChatMarkup.Text.Blank
import ChatMarkup.Text.Lines

/-!
# The rules of MarkdownV2

How each kind of node is written as MarkdownV2. List items are written by the rule for lists, and
footnotes have no rule: the text of a definition stays, a reference leaves nothing.

A rule that is given a node of another kind than its own writes the children of the node, or nothing
if it needs something that only its own kind has.
-/

namespace ChatMarkup

namespace Rule

/-! ## Blocks -/

/-- A whole document: blocks with blank lines between them, and no white space at the ends. -/
def document : Rule := fun _ _ => .ofChildren (.joined "\n\n") Text.trim

/-- A paragraph or a cell of a table: its children one after the other. -/
def plain : Rule := fun _ _ => .ofChildren .inline id

/-- The text of a heading, in bold, after the glyph of its level. -/
def headingText (style : Style) (level : Nat) (text : String) : String :=
  match style.headingGlyphs.glyph? level with
  | some glyph => "*" ++ Grammar.text.escape glyph ++ " " ++ text ++ "*"
  | none => "*" ++ text ++ "*"

/-- A heading. -/
def heading : Rule
  | .container (.heading level) _, scope => .ofChildren .inline (headingText scope.style level)
  | _, _ => .text ""

/-- A block quote: blocks with blank lines between them, and a mark on each line. -/
def blockquote : Rule := fun _ _ => .ofChildren (.joined "\n\n") Text.quote

/-- A block of code. -/
def codeBlock : Rule
  | .leaf (.codeBlock language code), _ => .text (codeFence language code)
  | _, _ => .text ""

/-- A rule across the page. -/
def thematicBreak : Rule := fun _ scope => .text (Grammar.text.escape scope.style.ruleText)

/-! ## Lines of text -/

/-- Text. -/
def text : Rule
  | .leaf (.text s), _ => .text (Grammar.text.escape s)
  | _, _ => .text ""

/-- Text between two equal marks. -/
def marked (mark : String) : Rule := fun _ _ => .ofChildren .inline fun s => mark ++ s ++ mark

/-- Code in a line. -/
def inlineCode : Rule
  | .leaf (.inlineCode code), _ => .text (codeSpan code)
  | _, _ => .text ""

/-- Html is shown as code. -/
def html : Rule
  | .leaf (.html source), _ => .text (codeSpan source)
  | _, _ => .text ""

/-- The end of a line. -/
def lineBreak : Rule := fun _ _ => .text "\n"

/-- A link. -/
def link : Rule
  | .container (.link url) _, _ => .ofChildren .inline (linkTo · url)
  | _, _ => .text ""

/-- The label of the link that stands for an image. Without a text for the image, it says that there
is one. -/
def imageLabel (style : Style) (alt : Option String) : String :=
  let marker := if style.imageMarker.isEmpty then "!" else style.imageMarker
  let shown := (alt.filter (!·.isEmpty)).getD "Image"
  Grammar.text.escape marker ++ " " ++ Grammar.text.escape shown

/-- An image, for which there is only a link. -/
def image : Rule
  | .leaf (.image url alt), scope => .text (linkTo (imageLabel scope.style alt) url)
  | _, _ => .text ""

/-! ## Lists -/

/-- The state of the check box of a list item. -/
def checked? : Node → Option Bool
  | .container (.listItem checked) _ => checked
  | _ => none

/-- What is written for an item of a list: the children of a list item, else the node itself. -/
def itemContents : Node → List Node
  | .container (.listItem _) children => children
  | node => [node]

theorem part_of_mem_itemContents {part item node : Node} (hi : item ∈ node.children)
    (hp : part ∈ itemContents item) : Node.Part part node := by
  unfold itemContents at hp
  split at hp
  · next checked children =>
    exact @Node.Part.deeper part (.container (.listItem checked) children) node hp (.child hi)
  · rw [List.mem_singleton.1 hp]
    exact .child hi

/-- How a check box is written. -/
def checkBox : Option Bool → String
  | some true => "[x] "
  | some false => "[ ] "
  | none => ""

/-- What stands before an item: its number, counted from `start` in 64 bits, or a bullet. -/
def itemMarker (style : Style) (ordered : Bool) (start index : Nat) : String :=
  if ordered then Nat.repr ((start + index) % UInt64.size) ++ style.numberSeparator
  else style.bullet

/-- What begins the line of an item: two spaces for each list around it, its marker and its check
box. -/
def itemStart (depth : Nat) (marker : String) (checked : Option Bool) : String :=
  let indent := String.ofList (List.replicate (2 * depth) ' ')
  Grammar.text.escape (indent ++ marker ++ " " ++ checkBox checked)

/-- The lines of a list, from the texts of its items. -/
def listText (scope : Scope) (ordered : Bool) (start : Option Nat) (items : List Node)
    (texts : List String) : String :=
  "\n".intercalate <| (items.zip texts).mapIdx fun index (item, text) =>
    itemStart scope.depth (itemMarker scope.style ordered (start.getD 1) index) (checked? item) ++
      Text.trim text

/-- A list: a line for each item, with the lists inside it one level deeper. -/
def list : Rule
  | .container (.list ordered start) items, scope =>
    .askEach (.andThen .nested (.joined "\n"))
      (fun texts => .text (listText scope ordered start items texts))
      (items.attach.map fun ⟨item, hi⟩ =>
        ⟨itemContents item, fun _ hp => part_of_mem_itemContents hi hp⟩)
  | _, _ => .text ""

/-! ## Tables -/

/-- Text inside a code fence. -/
def codeText : Rule
  | .leaf (.text s), _ => .text (Grammar.code.escape s)
  | _, _ => .text ""

/-- A table: its rows on lines of their own, inside a code fence. -/
def table : Rule := fun _ _ =>
  .ofChildren (.andThen (.joined "\n") (.withRule .text codeText)) fun s => "```\n" ++ s ++ "\n```"

/-- A row of a table: its cells between bars. -/
def tableRow : Rule := fun _ _ => .ofChildren (.joined " | ") fun s => "| " ++ s ++ " |"

end Rule

/-- The rules of MarkdownV2. -/
def standardRules : KindTable Rule where
  get?
    | .document => some Rule.document
    | .paragraph => some Rule.plain
    | .heading => some Rule.heading
    | .emphasis => some (Rule.marked "_")
    | .strong => some (Rule.marked "*")
    | .strikethrough => some (Rule.marked "~")
    | .inlineCode => some Rule.inlineCode
    | .codeBlock => some Rule.codeBlock
    | .link => some Rule.link
    | .image => some Rule.image
    | .blockquote => some Rule.blockquote
    | .list => some Rule.list
    | .table => some Rule.table
    | .tableRow => some Rule.tableRow
    | .tableCell => some Rule.plain
    | .thematicBreak => some Rule.thematicBreak
    | .lineBreak => some Rule.lineBreak
    | .text => some Rule.text
    | .html => some Rule.html
    | .listItem | .footnoteDefinition | .footnoteReference => none

end ChatMarkup
