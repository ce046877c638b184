import ChatMarkup.Document.Assembly
import ChatMarkup.Message.Splitter
import ChatMarkup.Render.Standard

/-!
# Converters

A converter holds what a user has set: a style, and rules and dividers that replace the standard
ones. It turns the events of a document into one text or into messages.

Results:
* `get?_rules_renderer`: for each kind the rule that was set is in force, else the standard one.
* `get?_dividers_splitter`: the same for dividers.

Out of scope: reading Markdown. Where a user gives a text, a converter is given its events.
-/

namespace ChatMarkup

/-- What a user has set for converting documents. -/
structure Converter where
  style : Style := {}
  rules : KindTable Rule := .empty
  dividers : KindTable Divider := .empty

namespace Converter

/-- Sets the style. -/
def withStyle (c : Converter) (style : Style) : Converter :=
  { c with style := style }

/-- Sets the rule for one kind of node. -/
def withRule (c : Converter) (kind : Kind) (rule : Rule) : Converter :=
  { c with rules := c.rules.insert kind rule }

/-- Sets the rules for all kinds that `rules` has one for. -/
def withRules (c : Converter) (rules : KindTable Rule) : Converter :=
  { c with rules := c.rules.overlay rules }

/-- Sets the divider for one kind of node. -/
def withDivider (c : Converter) (kind : Kind) (divider : Divider) : Converter :=
  { c with dividers := c.dividers.insert kind divider }

/-- What writes whole documents. -/
def renderer (c : Converter) : Renderer :=
  .top c.style (standardRules.overlay c.rules)

/-- What splits documents into messages of at most `limit` units. -/
def splitter (c : Converter) (limit : Nat) : Splitter where
  limit := limit
  dividers := standardDividers.overlay c.dividers

/-- A document as one text, without white space at its ends. -/
def render (c : Converter) (events : List Event) : String :=
  Text.trim (c.renderer.write [documentOf events])

/-- A document as messages of at most `limit` units. -/
def split (c : Converter) (limit : Nat) (events : List Event) : List String :=
  (c.splitter limit).split c.renderer (blocksOf events)

@[simp] theorem get?_rules_renderer (c : Converter) (k : Kind) :
    c.renderer.rules.get? k = (c.rules.get? k <|> standardRules.get? k) := rfl

@[simp] theorem get?_dividers_splitter (c : Converter) (limit : Nat) (k : Kind) :
    (c.splitter limit).dividers.get? k = (c.dividers.get? k <|> standardDividers.get? k) := rfl

end Converter

/-- Writes a document in a style, with rules that replace standard ones. -/
def renderDocument (style : Style) (rules : KindTable Rule) (events : List Event) : String :=
  ((({} : Converter).withStyle style).withRules rules).render events

/-- Splits written nodes into messages of at most `limit` units, with the standard dividers. -/
def splitNodes (renderer : Renderer) (limit : Nat) (nodes : List Node) : List String :=
  ({ limit := limit } : Splitter).split renderer nodes

end ChatMarkup
