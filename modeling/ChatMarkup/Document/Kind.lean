/-!
# Kinds of nodes

The kinds that the nodes of a document have, in the order in which tables list them.
-/

namespace ChatMarkup

/-- What kind of thing a node of a document is. -/
inductive Kind
  | document
  | paragraph
  | heading
  | emphasis
  | strong
  | strikethrough
  | inlineCode
  | codeBlock
  | link
  | image
  | blockquote
  | list
  | listItem
  | table
  | tableRow
  | tableCell
  | thematicBreak
  | lineBreak
  | text
  | html
  | footnoteDefinition
  | footnoteReference
deriving DecidableEq, Repr

namespace Kind

/-- Every kind once, in order. -/
def all : List Kind :=
  [document, paragraph, heading, emphasis, strong, strikethrough, inlineCode, codeBlock, link,
    image, blockquote, list, listItem, table, tableRow, tableCell, thematicBreak, lineBreak, text,
    html, footnoteDefinition, footnoteReference]

/-- The name of a kind. -/
def name : Kind → String
  | document => "Document"
  | paragraph => "Paragraph"
  | heading => "Heading"
  | emphasis => "Emphasis"
  | strong => "Strong"
  | strikethrough => "Strikethrough"
  | inlineCode => "InlineCode"
  | codeBlock => "CodeBlock"
  | link => "Link"
  | image => "Image"
  | blockquote => "Blockquote"
  | list => "List"
  | listItem => "ListItem"
  | table => "Table"
  | tableRow => "TableRow"
  | tableCell => "TableCell"
  | thematicBreak => "ThematicBreak"
  | lineBreak => "LineBreak"
  | text => "Text"
  | html => "Html"
  | footnoteDefinition => "FootnoteDefinition"
  | footnoteReference => "FootnoteReference"

/-- Whether nodes of a kind run along a line of text, as the words of a paragraph do. -/
def isInline : Kind → Bool
  | emphasis | strong | strikethrough | inlineCode | link | image | lineBreak | text
  | footnoteReference => true
  | _ => false

end Kind

end ChatMarkup
