import ChatMarkup.Style.Load
import ChatMarkup.Proofs.Files.Path
import ChatMarkup.Proofs.Style.Settings

/-!
# Styles from texts and files

A text sets the marks that it names and no others, each style is set by some text, and the style
loaded from a file is the one that the text in the file sets. Only a file that cannot be read makes
loading fail before its text is looked at.

Results:
* `Style.ofText_sheet`: the text of a sheet sets the marks that it names; the others are the default
  ones.
* `Style.ofText_text_sheet`: the text that names all marks of a style sets that style.
* `Style.load_eq_unreadable_iff`: the error about a file comes just from a file that cannot be read,
  with its path and the failure.
* `Style.load_put_text_sheet`: a style that is written to a file is the style loaded from it.

Out of scope: the text of the error about settings that are not well formed, which names the place
in the settings.
-/

namespace ChatMarkup

open Toml (Value Entries)

/-! ## Texts -/

namespace Mark

/-- What a sheet says about a mark. -/
def text? (mark : Mark) (sheet : Toml.Sheet) : Option String :=
  match mark with
  | numberSeparator => sheet.entries.lookup "ordered_list_separator"
  | bullet => sheet.entries.lookup "unordered_list_marker"
  | imageMarker => sheet.entries.lookup "image_marker"
  | ruleText => sheet.entries.lookup "thematic_break_text"
  | glyph level =>
    (sheet.tables.lookup "heading_glyphs").bind (·.lookup ("h" ++ Nat.repr level.number))

end Mark

namespace Style

/-- A sheet on which no table stands where a mark has a text, and no text where the table of glyphs
is expected. -/
structure IsSheet (sheet : Toml.Sheet) : Prop where
  glyphs : sheet.entries.lookup "heading_glyphs" = none
  texts : ∀ key ∈ settingKeys, key ≠ "heading_glyphs" → sheet.tables.lookup key = none

namespace IsSheet

variable {sheet : Toml.Sheet}

theorem setting?_toEntries (h : IsSheet sheet) (mark : Mark) :
    mark.setting? sheet.toEntries = (mark.text? sheet).map Value.string := by
  have htext : ∀ key ∈ settingKeys, key ≠ "heading_glyphs" →
      sheet.toEntries.lookup key = (sheet.entries.lookup key).map Value.string := by
    intro key hkey hne
    rw [sheet.lookup_toEntries, h.texts key hkey hne, Option.map_none, Option.or_none]
  cases mark with
  | numberSeparator => exact htext _ (by decide) (by decide)
  | bullet => exact htext _ (by decide) (by decide)
  | imageMarker => exact htext _ (by decide) (by decide)
  | ruleText => exact htext _ (by decide) (by decide)
  | glyph level =>
    show (sheet.toEntries.lookup "heading_glyphs").bind _ = ((sheet.tables.lookup _).bind _).map _
    rw [sheet.lookup_toEntries, h.glyphs, Option.map_none, Option.none_or]
    cases sheet.tables.lookup "heading_glyphs" with
    | none => rfl
    | some entries => exact Toml.lookup_map_value Value.string entries _

theorem settable_toEntries (h : IsSheet sheet) : Settable sheet.toEntries := by
  refine ⟨canSkipOthers_of_inRange _ fun _ => sheet.inRange_of_mem_toEntries, ?_⟩
  rw [sheet.lookup_toEntries, h.glyphs, Option.map_none, Option.none_or]
  intro v hv
  obtain ⟨entries, -, rfl⟩ := Option.map_eq_some_iff.1 (Option.mem_def.1 hv)
  exact canSkipOthers_of_inRange _ fun _ => Toml.inRange_of_mem_textEntries

end IsSheet

/-- **A text sets the marks that it names, and no others.** Names with no meaning, of texts and of
tables, may stand on the sheet too. -/
theorem ofText_sheet {sheet : Toml.Sheet} (h : IsSheet sheet) :
    ofText sheet.text = .ok (ofMarks fun mark => (mark.text? sheet).getD (mark.get {})) := by
  have hstyle : ofEntries? sheet.toEntries =
      some (ofMarks fun mark => (mark.text? sheet).getD (mark.get {})) := by
    rw [ofEntries?_eq_some_iff]
    refine ⟨h.settable_toEntries, fun mark => ?_⟩
    rw [h.setting?_toEntries, get_ofMarks]
    cases mark.text? sheet with
    | none => rfl
    | some text => rfl
  have htext : ofToml? sheet.text =
      some (ofMarks fun mark => (mark.text? sheet).getD (mark.get {})) := by
    rw [ofToml?, sheet.parse?_text]
    exact hstyle
  rw [ofText, htext]

/-- The sheet that names all marks of a style. -/
def sheet (style : Style) : Toml.Sheet where
  entries := [("ordered_list_separator", style.numberSeparator),
    ("unordered_list_marker", style.bullet), ("image_marker", style.imageMarker),
    ("thematic_break_text", style.ruleText)]
  tables := [("heading_glyphs", [("h1", style.headingGlyphs.h1), ("h2", style.headingGlyphs.h2),
    ("h3", style.headingGlyphs.h3), ("h4", style.headingGlyphs.h4),
    ("h5", style.headingGlyphs.h5), ("h6", style.headingGlyphs.h6)])]
  isBare_name := by
    simp only [Toml.entryLines, Toml.tableLines, List.map_cons, List.map_nil, List.flatMap_cons,
      List.flatMap_nil, List.cons_append, List.nil_append, List.forall_mem_cons,
      Toml.PlainLine.name]
    decide
  nodup_names := by
    simp only [List.map_cons, List.map_nil]
    decide
  nodup_tableNames := by
    simp only [List.forall_mem_cons, List.map_cons, List.map_nil]
    decide

/-- **Each style is set by some text**: the one that names all its marks. -/
theorem ofText_text_sheet (style : Style) : ofText style.sheet.text = .ok style := by
  have hsheet : IsSheet style.sheet := by
    constructor
    · rfl
    · intro key hkey hne
      simp [sheet, List.lookup_cons, beq_false_of_ne hne]
  rw [ofText_sheet hsheet]
  refine congrArg _ (eq_of_marks fun mark => ?_)
  rw [get_ofMarks]
  rcases mark with _ | _ | _ | _ | (_ | _ | _ | _ | _ | _) <;> rfl

/-! ## Files -/

section Files

open Files (Entry Failure IsPath pathOf)

variable {place : Files.Place} {path : String} {names : List String}

/-- **A style cannot be loaded for want of its file just if the file cannot be read**, and then the
error names the path and the failure. -/
theorem load_eq_unreadable_iff {named : String} {failure : Failure} :
    load place path = .error (.unreadable named failure) ↔
      named = path ∧ place.read path = .error failure := by
  unfold load
  cases place.read path with
  | ok text =>
    refine iff_of_false ?_ fun h => nomatch h.2
    show ofText text ≠ _
    unfold ofText
    split
    · rintro ⟨⟩
    · rintro ⟨⟩
  | error other =>
    show Except.error (LoadError.unreadable path other) = _ ↔ _
    rw [Except.error.injEq, LoadError.unreadable.injEq, Except.error.injEq, eq_comm]

/-- A text that is put at a path is the text that a style is loaded from. -/
theorem load_put (h : IsPath names) (text : String) :
    load ⟨place.here.put names (.file text.toUTF8), place.around⟩ (pathOf names) = ofText text := by
  have hread : Files.Place.read ⟨place.here.put names (.file text.toUTF8), place.around⟩
      (pathOf names) = .ok text := by
    rw [Files.Place.read_pathOf h, Entry.find_put]
    exact Entry.text_file_toUTF8 text
  rw [load, hread]

/-- **A style that is written to a file is the style loaded from it.** -/
theorem load_put_text_sheet (h : IsPath names) (style : Style) :
    load ⟨place.here.put names (.file style.sheet.text.toUTF8), place.around⟩ (pathOf names) =
      .ok style := by
  rw [load_put h, ofText_text_sheet]

end Files

end Style

end ChatMarkup
