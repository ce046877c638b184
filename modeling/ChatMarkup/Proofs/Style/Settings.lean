import ChatMarkup.Style.Settings
import ChatMarkup.Proofs.Toml.Sheet

/-!
# What settings set

A style has ten marks, and each has a setting of its own. The style that entries set is known mark
by mark: it has the text of the setting where there is one, and the default where there is none.
Entries set no style at all only if a mark is set to something else than a text, if the glyphs are
set by a value that cannot hold any, or if a number under a key without a meaning is out of range.

Results:
* `HeadingGlyphs.ofSettings?_eq_some_iff`, `HeadingGlyphs.ofSetting?_eq_some_iff`: the glyphs that
  settings set, level by level.
* `Style.ofEntries?_eq_some_iff`: the style that entries set, mark by mark, and when they set one.
* `Style.eq_of_marks`, `Style.get_ofMarks`: a style is its marks.
* `Style.ofEntries?_insert`, `HeadingGlyphs.ofValue?_table_insert`: a key with no meaning is passed
  over.
-/

namespace ChatMarkup

open Toml (Value Entries)

/-! ## Glyphs -/

/-- The level of a heading. -/
inductive Level
  | h1 | h2 | h3 | h4 | h5 | h6
deriving DecidableEq

/-- The number of a level. -/
def Level.number : Level → Nat
  | h1 => 1
  | h2 => 2
  | h3 => 3
  | h4 => 4
  | h5 => 5
  | h6 => 6

/-- The key of a level is one of a table of glyphs. -/
theorem Level.key_mem (level : Level) :
    "h" ++ Nat.repr level.number ∈ HeadingGlyphs.settingKeys := by
  cases level <;> decide

namespace HeadingGlyphs

/-- The text set for a level. -/
def get (glyphs : HeadingGlyphs) : Level → String
  | .h1 => glyphs.h1
  | .h2 => glyphs.h2
  | .h3 => glyphs.h3
  | .h4 => glyphs.h4
  | .h5 => glyphs.h5
  | .h6 => glyphs.h6

/-- The text set for a level is the one that is found by its number. -/
theorem entry?_number (glyphs : HeadingGlyphs) (level : Level) :
    glyphs.entry? level.number = some (glyphs.get level) := by
  cases level <;> rfl

/-- **The glyphs from settings are those set, and for the other levels the default ones.** -/
theorem ofSettings?_eq_some_iff {setting : Nat → Option Value} {glyphs : HeadingGlyphs} :
    ofSettings? setting = some glyphs ↔
      ∀ level : Level,
        settingOr? (get {} level) (setting level.number) = some (glyphs.get level) := by
  obtain ⟨g1, g2, g3, g4, g5, g6⟩ := glyphs
  constructor
  · intro h
    simp only [ofSettings?, Option.bind_eq_bind, Option.bind_eq_some_iff, Option.pure_def,
      Option.some.injEq, mk.injEq] at h
    obtain ⟨_, h1, _, h2, _, h3, _, h4, _, h5, _, h6, rfl, rfl, rfl, rfl, rfl, rfl⟩ := h
    rintro (_ | _ | _ | _ | _ | _)
    · exact h1
    · exact h2
    · exact h3
    · exact h4
    · exact h5
    · exact h6
  · intro h
    have h1 := h .h1
    have h2 := h .h2
    have h3 := h .h3
    have h4 := h .h4
    have h5 := h .h5
    have h6 := h .h6
    simp only [get, Level.number] at h1 h2 h3 h4 h5 h6
    simp [ofSettings?, h1, h2, h3, h4, h5, h6]

/-- The setting that a value for all glyphs holds for a level. -/
def setting? : Value → Nat → Option Value
  | .table entries, level => entries.lookup ("h" ++ Nat.repr level)
  | .array elements, level => elements[level - 1]?
  | _, _ => none

/-- The values that glyphs can be set by: a table whose other keys can be passed over, a list, or a
moment. -/
def Settable : Value → Prop
  | .table entries => canSkipOthers settingKeys entries = true
  | .array _ => True
  | .moment _ => True
  | _ => False

theorem ofValue?_eq_some_iff {v : Value} {glyphs : HeadingGlyphs} :
    ofValue? v = some glyphs ↔ Settable v ∧ ofSettings? (setting? v) = some glyphs := by
  cases v with
  | table entries =>
    show (if canSkipOthers settingKeys entries then _ else _) = _ ↔
      canSkipOthers settingKeys entries = true ∧ _
    by_cases h : canSkipOthers settingKeys entries = true
    · rw [if_pos h]
      exact (and_iff_right h).symm
    · rw [if_neg h]
      exact iff_of_false nofun fun hand => h hand.1
  | array elements => exact (and_iff_right trivial).symm
  | moment written => exact (and_iff_right trivial).symm
  | _ => exact iff_of_false nofun fun hand => hand.1

theorem ofSetting?_eq_some_iff {setting : Option Value} {glyphs : HeadingGlyphs} :
    ofSetting? setting = some glyphs ↔
      (∀ v ∈ setting, Settable v) ∧
        ∀ level : Level,
          settingOr? (get {} level) (setting.bind (setting? · level.number)) =
            some (glyphs.get level) := by
  cases setting with
  | none =>
    have hnone : ∀ v ∈ (none : Option Value), Settable v := by
      rintro _ ⟨⟩
    rw [and_iff_right hnone]
    exact @ofSettings?_eq_some_iff (fun _ => none) glyphs
  | some v =>
    simp only [Option.mem_some_iff, forall_eq', Option.bind_some]
    rw [← ofSettings?_eq_some_iff]
    exact ofValue?_eq_some_iff

end HeadingGlyphs

/-! ## Marks -/

/-- A mark of a style that can be set. -/
inductive Mark
  | numberSeparator | bullet | imageMarker | ruleText
  | glyph (level : Level)
deriving DecidableEq

namespace Mark

/-- The mark in a style. -/
def get (mark : Mark) (style : Style) : String :=
  match mark with
  | numberSeparator => style.numberSeparator
  | bullet => style.bullet
  | imageMarker => style.imageMarker
  | ruleText => style.ruleText
  | glyph level => style.headingGlyphs.get level

/-- The setting that the entries of a table hold for a mark. -/
def setting? (mark : Mark) (entries : Entries) : Option Value :=
  match mark with
  | numberSeparator => entries.lookup "ordered_list_separator"
  | bullet => entries.lookup "unordered_list_marker"
  | imageMarker => entries.lookup "image_marker"
  | ruleText => entries.lookup "thematic_break_text"
  | glyph level => (entries.lookup "heading_glyphs").bind (HeadingGlyphs.setting? · level.number)

end Mark

namespace Style

/-- Styles with the same marks are the same. -/
theorem eq_of_marks {s t : Style} (h : ∀ mark : Mark, mark.get s = mark.get t) : s = t := by
  obtain ⟨_, _, _, _, ⟨_, _, _, _, _, _⟩⟩ := s
  obtain ⟨_, _, _, _, ⟨_, _, _, _, _, _⟩⟩ := t
  have h1 := h (.glyph .h1)
  have h2 := h (.glyph .h2)
  have h3 := h (.glyph .h3)
  have h4 := h (.glyph .h4)
  have h5 := h (.glyph .h5)
  have h6 := h (.glyph .h6)
  have hnumber := h .numberSeparator
  have hbullet := h .bullet
  have himage := h .imageMarker
  have hrule := h .ruleText
  simp only [Mark.get, HeadingGlyphs.get] at *
  subst_vars
  rfl

/-- The style with given marks. -/
def ofMarks (text : Mark → String) : Style where
  numberSeparator := text .numberSeparator
  bullet := text .bullet
  imageMarker := text .imageMarker
  ruleText := text .ruleText
  headingGlyphs :=
    { h1 := text (.glyph .h1)
      h2 := text (.glyph .h2)
      h3 := text (.glyph .h3)
      h4 := text (.glyph .h4)
      h5 := text (.glyph .h5)
      h6 := text (.glyph .h6) }

@[simp] theorem get_ofMarks (text : Mark → String) (mark : Mark) :
    mark.get (ofMarks text) = text mark := by
  rcases mark with _ | _ | _ | _ | (_ | _ | _ | _ | _ | _) <;> rfl

/-- What entries must be to set a style at all: the values of other keys can be passed over, and the
glyphs are set by a value that holds some. -/
def Settable (entries : Entries) : Prop :=
  canSkipOthers settingKeys entries = true ∧
    ∀ v ∈ entries.lookup "heading_glyphs", HeadingGlyphs.Settable v

/-- **A style from settings has each mark as it is set, and the others as they are by default.** -/
theorem ofEntries?_eq_some_iff {entries : Entries} {style : Style} :
    ofEntries? entries = some style ↔
      Settable entries ∧
        ∀ mark : Mark,
          settingOr? (mark.get {}) (mark.setting? entries) = some (mark.get style) := by
  obtain ⟨n, b, i, r, glyphs⟩ := style
  have hglyphs := @HeadingGlyphs.ofSetting?_eq_some_iff (entries.lookup "heading_glyphs") glyphs
  unfold ofEntries? Settable
  constructor
  · intro h
    by_cases hskip : canSkipOthers settingKeys entries = true
    · simp only [hskip, Bool.not_true, Bool.false_eq_true, if_false, Option.bind_eq_bind,
        Option.bind_eq_some_iff, Option.pure_def, Option.some.injEq, mk.injEq] at h
      obtain ⟨_, hn, _, hb, _, hi, _, hr, _, hg, rfl, rfl, rfl, rfl, rfl⟩ := h
      obtain ⟨hsettable, hlevels⟩ := hglyphs.1 hg
      refine ⟨⟨hskip, hsettable⟩, ?_⟩
      rintro (_ | _ | _ | _ | level)
      · exact hn
      · exact hb
      · exact hi
      · exact hr
      · exact hlevels level
    · simp [hskip] at h
  · rintro ⟨⟨hskip, hsettable⟩, hmarks⟩
    have hg := hglyphs.2 ⟨hsettable, fun level => hmarks (.glyph level)⟩
    have hn := hmarks .numberSeparator
    have hb := hmarks .bullet
    have hi := hmarks .imageMarker
    have hr := hmarks .ruleText
    simp only [Mark.get, Mark.setting?] at hn hb hi hr
    simp [hskip, hn, hb, hi, hr, hg]

end Style

/-! ## Keys without a meaning -/

section Others

variable {before after : Entries} {key : String} {v : Value}

theorem lookup_insert_of_ne {name : String} (h : name ≠ key) :
    (before ++ (key, v) :: after).lookup name = (before ++ after).lookup name := by
  rw [List.lookup_append, List.lookup_append, List.lookup_cons, beq_false_of_ne h]

/-- Values in range can be passed over, whatever keys are known. -/
theorem canSkipOthers_of_inRange (known : List String) {entries : Entries}
    (h : ∀ entry ∈ entries, entry.2.inRange = true) : canSkipOthers known entries = true :=
  Toml.entriesInRange_iff.2 fun entry hentry => h entry (List.mem_filter.1 hentry).1

theorem canSkipOthers_insert (known : List String) (hv : v.inRange = true) :
    canSkipOthers known (before ++ (key, v) :: after) = canSkipOthers known (before ++ after) := by
  unfold canSkipOthers
  rw [Bool.eq_iff_iff, Toml.entriesInRange_iff, Toml.entriesInRange_iff]
  simp only [List.filter_append, List.mem_append, List.mem_filter, List.mem_cons]
  constructor
  · rintro h entry (⟨hentry, hkey⟩ | ⟨hentry, hkey⟩)
    · exact h entry (.inl ⟨hentry, hkey⟩)
    · exact h entry (.inr ⟨.inr hentry, hkey⟩)
  · rintro h entry (⟨hentry, hkey⟩ | ⟨rfl | hentry, hkey⟩)
    · exact h entry (.inl ⟨hentry, hkey⟩)
    · exact hv
    · exact h entry (.inr ⟨hentry, hkey⟩)

/-- **A key with no meaning is passed over**, wherever it stands. -/
theorem Style.ofEntries?_insert (hkey : key ∉ Style.settingKeys) (hv : v.inRange = true) :
    Style.ofEntries? (before ++ (key, v) :: after) = Style.ofEntries? (before ++ after) := by
  have hlookup : ∀ name ∈ Style.settingKeys,
      (before ++ (key, v) :: after).lookup name = (before ++ after).lookup name :=
    fun name hname => lookup_insert_of_ne (ne_of_mem_of_not_mem hname hkey)
  simp only [Style.settingKeys, List.forall_mem_cons] at hlookup
  obtain ⟨hn, hb, hi, hr, hg, -⟩ := hlookup
  unfold Style.ofEntries?
  rw [canSkipOthers_insert _ hv, hn, hb, hi, hr, hg]

/-- **A key with no meaning in a table of glyphs is passed over**, wherever it stands. -/
theorem HeadingGlyphs.ofValue?_table_insert (hkey : key ∉ HeadingGlyphs.settingKeys)
    (hv : v.inRange = true) :
    HeadingGlyphs.ofValue? (.table (before ++ (key, v) :: after)) =
      HeadingGlyphs.ofValue? (.table (before ++ after)) := by
  have hsettable : HeadingGlyphs.Settable (.table (before ++ (key, v) :: after)) ↔
      HeadingGlyphs.Settable (.table (before ++ after)) := by
    show canSkipOthers _ _ = true ↔ canSkipOthers _ _ = true
    rw [canSkipOthers_insert _ hv]
  have hsetting : ∀ level : Level,
      HeadingGlyphs.setting? (.table (before ++ (key, v) :: after)) level.number =
        HeadingGlyphs.setting? (.table (before ++ after)) level.number :=
    fun level => lookup_insert_of_ne (ne_of_mem_of_not_mem level.key_mem hkey)
  refine Option.ext fun glyphs => ?_
  simp only [HeadingGlyphs.ofValue?_eq_some_iff, HeadingGlyphs.ofSettings?_eq_some_iff, hsettable,
    hsetting]

end Others

end ChatMarkup
