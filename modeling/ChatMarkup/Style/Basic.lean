/-!
# Styles

The marks that a written message uses where MarkdownV2 leaves a choice or lacks a construct.
-/

namespace ChatMarkup

/-- The glyph in front of the headings of each level. An empty text means no glyph. -/
structure HeadingGlyphs where
  h1 : String := "📌"
  h2 : String := "✏️"
  h3 : String := "📚"
  h4 : String := "🔖"
  h5 : String := "🔹"
  h6 : String := "🔸"
deriving DecidableEq, Repr, Inhabited

namespace HeadingGlyphs

/-- The text set for a level, for the levels that there are. -/
def entry? (glyphs : HeadingGlyphs) : Nat → Option String
  | 1 => some glyphs.h1
  | 2 => some glyphs.h2
  | 3 => some glyphs.h3
  | 4 => some glyphs.h4
  | 5 => some glyphs.h5
  | 6 => some glyphs.h6
  | _ => none

/-- The glyph for a level, if it has one. -/
def glyph? (glyphs : HeadingGlyphs) (level : Nat) : Option String :=
  (glyphs.entry? level).filter (!·.isEmpty)

end HeadingGlyphs

/-- The marks that a message is written with. -/
structure Style where
  /-- What follows the number of a list item. -/
  numberSeparator : String := "."
  /-- What stands before a list item without a number. -/
  bullet : String := "•"
  /-- What stands for the image in a link to an image. -/
  imageMarker : String := "🖼"
  /-- The text of a rule across the page. -/
  ruleText : String := "▬▬▬▬▬▬▬▬▬▬▬▬▬▬"
  headingGlyphs : HeadingGlyphs := {}
deriving DecidableEq, Repr, Inhabited

end ChatMarkup
