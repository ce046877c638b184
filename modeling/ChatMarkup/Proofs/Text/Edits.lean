import ChatMarkup.Proofs.Text.Lines

/-!
# Edits of lines

Lines are edited in steps: they are quoted, or marked in another way, or put together and taken
apart again. After any number of steps each line is what it was, behind all the marks that the steps
have written, and the latest mark comes first. To put lines together and to take them apart changes
nothing: marks have no newlines in them, and the one empty line that would be lost is never there.

Results:
* `apply_markEach`: what one step makes of marked lines.
* `edited_markEach`: what a run of steps makes of marked lines.
* `marks_filter_ne_reload`: a reload writes no mark.
* `toString_markEach_ofString`: the text of marked lines, said without lines.
* `edits_mark_each_line`: what a run of steps makes of a text.
-/

namespace ChatMarkup.Text.Lines

/-- What is done to lines at one step. -/
inductive Edit
  | quote
  | markEach (mark : String)
  /-- Puts the lines together and takes the text apart again. -/
  | reload
deriving DecidableEq, Repr

/-- The mark that a step writes at the start of every line. -/
def Edit.mark : Edit → String
  | quote => ">"
  | markEach mark => mark
  | reload => ""

/-- The lines after one step. -/
def Edit.apply (ls : Lines) : Edit → Lines
  | quote => ls.quote
  | markEach mark => ls.markEach mark
  | reload => ofString ls.toString

/-- The lines after some steps. -/
def edited (ls : Lines) (edits : List Edit) : Lines :=
  edits.foldl Edit.apply ls

/-- The marks that some steps write, as they stand before a line in the end: the latest first. -/
def marks (edits : List Edit) : String :=
  String.join (edits.map Edit.mark).reverse

@[simp] theorem marks_nil : marks [] = "" := rfl

@[simp] theorem marks_cons (edit : Edit) (later : List Edit) :
    marks (edit :: later) = marks later ++ edit.mark := by
  simp [marks]

/-- **A reload writes no mark.** -/
theorem marks_filter_ne_reload (edits : List Edit) :
    marks (edits.filter (· ≠ .reload)) = marks edits := by
  induction edits with
  | nil => rfl
  | cons edit later ih =>
    rw [List.filter_cons]
    split
    · rw [marks_cons, marks_cons, ih]
    · rename_i hedit
      obtain rfl : edit = .reload := by simpa using hedit
      rw [marks_cons, ih, Edit.mark, String.append_empty]

/-! ## Steps and runs -/

theorem markEach_empty (ls : Lines) : ls.markEach "" = ls := by
  simp [markEach]

theorem markEach_markEach (ls : Lines) (mark mark' : String) :
    (ls.markEach mark).markEach mark' = ls.markEach (mark' ++ mark) := by
  simp [markEach, Function.comp_def, String.append_assoc]

/-- **What one step makes of marked lines**: its mark stands before those that are there. -/
theorem apply_markEach (s : String) {mark : String} (hmark : '\n' ∉ mark.toList) (edit : Edit) :
    Edit.apply ((ofString s).markEach mark) edit = (ofString s).markEach (edit.mark ++ mark) := by
  cases edit with
  | quote => exact markEach_markEach (ofString s) mark ">"
  | markEach mark' => exact markEach_markEach (ofString s) mark mark'
  | reload =>
    rw [Edit.apply, Edit.mark, String.empty_append]
    exact ofString_toString_markEach s hmark

/-- **What a run of steps makes of marked lines.** -/
theorem edited_markEach (s : String) {mark : String} (hmark : '\n' ∉ mark.toList)
    {edits : List Edit} (h : ∀ edit ∈ edits, '\n' ∉ edit.mark.toList) :
    ((ofString s).markEach mark).edited edits = (ofString s).markEach (marks edits ++ mark) := by
  induction edits generalizing mark with
  | nil =>
    rw [marks_nil, String.empty_append]
    rfl
  | cons edit later ih =>
    have hedit := h edit List.mem_cons_self
    have hboth : '\n' ∉ (edit.mark ++ mark).toList := by simp [hedit, hmark]
    have hlater := ih hboth fun next hnext => h next (List.mem_cons_of_mem edit hnext)
    rw [marks_cons, String.append_assoc, ← hlater, ← apply_markEach s hmark]
    rfl

theorem edited_ofString (s : String) {edits : List Edit}
    (h : ∀ edit ∈ edits, '\n' ∉ edit.mark.toList) :
    (ofString s).edited edits = (ofString s).markEach (marks edits) := by
  have hedited := @edited_markEach s "" (by decide) edits h
  rwa [markEach_empty, String.append_empty] at hedited

/-! ## Texts -/

/-- A text with a mark at its start and after each of its newlines. An empty text is left empty. -/
def markText (mark s : String) : String :=
  if s = "" then "" else String.ofList (mark.toList ++ s.toList.flatMap (markAfter mark.toList))

/-- **The text of marked lines**, said without lines. -/
theorem toString_markEach_ofString (mark s : String) :
    ((ofString s).markEach mark).toString = markText mark s := by
  unfold markText
  split
  · rename_i hempty
    rw [hempty]
    rfl
  · rename_i hne
    rw [← String.toList_inj, String.toList_ofList]
    exact toList_markEach_ofString hne mark

theorem isEmpty_ofString (s : String) : (ofString s).isEmpty = s.isEmpty := by
  unfold ofString
  split
  · rename_i hempty
    rw [hempty]
    rfl
  · rename_i hne
    have hlines : s.toList.splitOn '\n' ≠ [] := List.splitOn_ne_nil '\n' s.toList
    simp [isEmpty, hne, hlines]

theorem isEmpty_markEach (mark : String) (ls : Lines) :
    (ls.markEach mark).isEmpty = ls.isEmpty := by
  simp [isEmpty, markEach]

/-- **Edits mark each line.** For all texts and all sequences of steps that write marks without
newlines: in the end the text is as it was, but for the marks that the steps have written, the
latest first, at its start and after each of its newlines; an empty text stays empty. It comes to
the same, line by line, if the reloads are left out. There are as many lines as there were, and none
just if the text is empty. -/
theorem edits_mark_each_line (s : String) {edits : List Edit}
    (h : ∀ edit ∈ edits, '\n' ∉ edit.mark.toList) :
    let after := (ofString s).edited edits
    after.toString = markText (marks edits) s ∧
      (ofString s).edited (edits.filter (· ≠ .reload)) = after ∧
      after.lines.length = (ofString s).lines.length ∧
      after.isEmpty = s.isEmpty := by
  have hkept : ∀ edit ∈ edits.filter (· ≠ .reload), '\n' ∉ edit.mark.toList :=
    fun edit hedit => h edit (List.mem_filter.1 hedit).1
  intro after
  have hafter : after = (ofString s).markEach (marks edits) := edited_ofString s h
  refine ⟨?_, ?_, ?_, ?_⟩
  · rw [hafter, toString_markEach_ofString]
  · rw [edited_ofString s hkept, marks_filter_ne_reload, hafter]
  · rw [hafter, markEach, List.length_map]
  · rw [hafter, isEmpty_markEach, isEmpty_ofString]

/-- Blank lines at both ends and in the middle, with a reload after each mark but the last. -/
theorem edits_mark_each_line_blank :
    let edits : List Edit := [.quote, .reload, .markEach "- ", .reload, .quote]
    let after := (ofString "\na\n\nb\n").edited edits
    (∀ edit ∈ edits, '\n' ∉ edit.mark.toList) ∧
      after.toString = ">- >\n>- >a\n>- >\n>- >b\n>- >" ∧ after.lines.length = 5 := by
  intro edits after
  have hmarks : ∀ edit ∈ edits, '\n' ∉ edit.mark.toList := by decide
  obtain ⟨htext, -, hlength, -⟩ := edits_mark_each_line "\na\n\nb\n" hmarks
  refine ⟨hmarks, ?_, ?_⟩
  · rw [htext]
    decide +kernel
  · rw [hlength]
    decide +kernel

/-- After a mark that has a newline in it, a reload would leave a line more to mark. -/
example :
    ((ofString "a").edited [.markEach "\n", .quote]).toString = ">\na" ∧
      ((ofString "a").edited [.markEach "\n", .reload, .quote]).toString = ">\n>a" := by
  decide +kernel

end ChatMarkup.Text.Lines
