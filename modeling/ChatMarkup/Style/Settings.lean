import ChatMarkup.Style.Basic
import ChatMarkup.Toml.Document

/-!
# Styles from settings

A style can be set in a TOML text. Each mark has a key of its own; what is not set stays as it is by
default, and keys with no meaning are passed over. What stands under such a key is looked at all
the same: a number that is out of range spoils all settings.
-/

namespace ChatMarkup

open Toml (Value Entries)

/-! ## Single settings -/

/-- The text that a value is. -/
def Toml.Value.text? : Value → Option String
  | string s => some s
  | _ => none

/-- The text of a setting, or `fallback` if it is not made. A setting that is no text has none. -/
def settingOr? (fallback : String) : Option Value → Option String
  | none => some fallback
  | some v => v.text?

/-- Whether the values of all keys but the known ones can be passed over. -/
def canSkipOthers (known : List String) (entries : Entries) : Bool :=
  Toml.entriesInRange (entries.filter fun entry => !known.contains entry.1)

/-! ## Glyphs -/

namespace HeadingGlyphs

/-- The keys of the glyphs in a table of them. -/
def settingKeys : List String :=
  ["h1", "h2", "h3", "h4", "h5", "h6"]

/-- The glyphs, from the setting for each level. -/
def ofSettings? (setting : Nat → Option Value) : Option HeadingGlyphs := do
  let default : HeadingGlyphs := {}
  return {
    h1 := ← settingOr? default.h1 (setting 1)
    h2 := ← settingOr? default.h2 (setting 2)
    h3 := ← settingOr? default.h3 (setting 3)
    h4 := ← settingOr? default.h4 (setting 4)
    h5 := ← settingOr? default.h5 (setting 5)
    h6 := ← settingOr? default.h6 (setting 6) }

/-- The glyphs that a value sets: a table with a key for each level, or a list that begins with the
glyph of the first level. What follows the sixth in a list is not looked at, and a moment counts as
a table with no known key. -/
def ofValue? : Value → Option HeadingGlyphs
  | .table entries =>
    if canSkipOthers settingKeys entries then
      ofSettings? fun level => entries.lookup ("h" ++ Nat.repr level)
    else none
  | .array elements => ofSettings? fun level => elements[level - 1]?
  | .moment _ => some {}
  | _ => none

/-- The glyphs of the setting for all of them, or the default ones if it is not made. -/
def ofSetting? : Option Value → Option HeadingGlyphs
  | none => some {}
  | some v => ofValue? v

end HeadingGlyphs

/-! ## Styles -/

namespace Style

/-- The keys that settings of a style have. -/
def settingKeys : List String :=
  ["ordered_list_separator", "unordered_list_marker", "image_marker", "thematic_break_text",
    "heading_glyphs"]

/-- The style that the entries of a table set. -/
def ofEntries? (entries : Entries) : Option Style := do
  let default : Style := {}
  if !canSkipOthers settingKeys entries then none
  return {
    numberSeparator :=
      ← settingOr? default.numberSeparator (entries.lookup "ordered_list_separator")
    bullet := ← settingOr? default.bullet (entries.lookup "unordered_list_marker")
    imageMarker := ← settingOr? default.imageMarker (entries.lookup "image_marker")
    ruleText := ← settingOr? default.ruleText (entries.lookup "thematic_break_text")
    headingGlyphs := ← HeadingGlyphs.ofSetting? (entries.lookup "heading_glyphs") }

/-- The style that a TOML text sets, or `none` if the text is not well formed or sets a mark to
something else than a text. -/
def ofToml? (text : String) : Option Style := do
  ofEntries? (← Toml.parse? text)

end Style

end ChatMarkup
