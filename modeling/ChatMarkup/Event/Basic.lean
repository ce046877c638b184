/-!
# Events of a Markdown document

A Markdown reader tells what it sees as a list of events: a tag opens, the innermost open tag
closes, or some content stands at this place. Nothing is promised of such a list: tags may stay
open, and there may be closings with nothing to close.

Out of scope: what no node of a document keeps of a tag. That is the title and label of a link or
an image, the name and classes of a heading, the alignment of a column, the sort of a quote and the
name of a closing tag. Extensions are all one tag.
-/

namespace ChatMarkup

/-- The level of a heading. -/
structure HeadingLevel where
  number : Nat
  one_le : 1 ≤ number := by decide
  le_six : number ≤ 6 := by decide
deriving DecidableEq, Repr

/-- How the target of a link or of an image was written. -/
inductive LinkForm
  | inline
  | reference
  | collapsed
  | shortcut
  | autolink
  | email
  | wikiLink
deriving DecidableEq, Repr

/-- What opens and closes around other events. -/
inductive Tag
  | paragraph
  | heading (level : HeadingLevel)
  | blockquote
  /-- Code between fences, with the words after the opening fence, or indented code without any. -/
  | codeBlock (info : Option String)
  | htmlBlock
  /-- A list, with the number of its first item if the items are numbered. -/
  | list (start : Option Nat)
  | item
  | footnoteDefinition (label : String)
  | table
  | tableHead
  | tableRow
  | tableCell
  | emphasis
  | strong
  | strikethrough
  | link (form : LinkForm) (url : String)
  | image (form : LinkForm) (url : String)
  /-- A construct that documents have no node for. -/
  | extension
deriving DecidableEq, Repr

/-- What stands at one place, with nothing inside. -/
inductive Content
  | text (text : String)
  | code (code : String)
  | html (source : String)
  | inlineHtml (source : String)
  | math (source : String)
  | footnoteReference (label : String)
  /-- The end of a line of the source. -/
  | softBreak
  /-- The end of a line that the text shows. -/
  | hardBreak
  | rule
  /-- The check box of a list item. -/
  | task (checked : Bool)
deriving DecidableEq, Repr

/-- One event of a document. -/
inductive Event
  | opening (tag : Tag)
  /-- The innermost open tag closes. -/
  | closing
  | content (content : Content)
deriving DecidableEq, Repr

end ChatMarkup
