import ChatMarkup.Text.Lines

/-!
# Lines and texts

The lines of a text say all about it, and lines say all about themselves as a text, as long as no
line has a newline in it and there is not just one empty line, which is the same text as no line at
all. Marks on lines keep to that, so the marked lines are the lines of the marked text, and the
marks can be taken off again.

Results:
* `toString_ofString`: the lines of a text, put together, are the text.
* `ofString_toString`: the lines of the text of proper lines are these lines.
* `Proper.markEach`: marks without newlines keep lines proper.
* `unquote?_quote`: a quoted text without its marks is the text.
* `quote_intercalate`: to quote texts joined with blank lines is to join the quoted texts.
-/

namespace ChatMarkup.Text

namespace Lines

/-- No line has a newline in it, and there is not just one line that is empty. -/
structure Proper (ls : Lines) : Prop where
  newline_notMem : ∀ line ∈ ls.lines, '\n' ∉ line.toList
  ne_single_empty : ls.lines ≠ [""]

/-- **The lines of a text, put together, are the text.** -/
theorem toString_ofString (s : String) : (ofString s).toString = s := by
  unfold ofString
  split
  · rename_i hempty
    rw [String.isEmpty_iff] at hempty
    rw [hempty]
    rfl
  · rw [toString, ← String.toList_inj, String.toList_intercalate, List.map_map]
    simp [Function.comp_def, List.intercalate_splitOn]

/-- Proper lines are the empty text only if there are none. -/
theorem Proper.toString_ne_empty {ls : Lines} (h : ls.Proper) (hne : ls.lines ≠ []) :
    ls.toString ≠ "" := by
  unfold toString
  match hlines : ls.lines with
  | [] => exact absurd hlines hne
  | [line] =>
    rw [String.intercalate_singleton]
    rintro rfl
    exact h.ne_single_empty hlines
  | line :: next :: rest =>
    rw [String.intercalate_cons_of_ne_nil (List.cons_ne_nil next rest)]
    simp

/-- **The lines of the text of proper lines are these lines.** -/
theorem ofString_toString {ls : Lines} (h : ls.Proper) : ofString ls.toString = ls := by
  by_cases hnil : ls.lines = []
  · have hempty : ls = empty := by
      cases ls
      exact congrArg mk hnil
    rw [hempty]
    rfl
  · have hne : ¬ ls.toString.isEmpty = true := by simpa using h.toString_ne_empty hnil
    have hlists : ∀ line ∈ ls.lines.map String.toList, '\n' ∉ line := by
      intro line hline
      obtain ⟨s, hs, rfl⟩ := List.mem_map.1 hline
      exact h.newline_notMem s hs
    have hsplit := List.splitOn_intercalate '\n' hlists (by simpa using hnil)
    rw [ofString, if_neg hne, toString, String.toList_intercalate]
    show mk ((['\n'].intercalate _ |>.splitOn '\n').map _) = ls
    rw [hsplit]
    simp

/-- No line of a text has a newline in it. -/
theorem newline_notMem_of_mem_splitOn (cs : List Char) :
    ∀ line ∈ cs.splitOn '\n', '\n' ∉ line := by
  induction cs with
  | nil => simp
  | cons c cs ih =>
    obtain ⟨first, rest, hlines⟩ := List.exists_cons_of_ne_nil (List.splitOn_ne_nil '\n' cs)
    rw [hlines] at ih
    rw [List.splitOn_cons_eq_if_modifyHead, hlines]
    by_cases hc : c = '\n'
    · rw [if_pos (by simpa using hc)]
      simpa using ih
    · rw [if_neg (by simpa using hc)]
      simpa [Ne.symm hc] using ih

/-- **The lines of a text are proper.** -/
theorem proper_ofString (s : String) : (ofString s).Proper where
  newline_notMem := by
    unfold ofString
    split
    · intro line hline
      exact absurd hline List.not_mem_nil
    · intro line hline
      obtain ⟨cs, hcs, rfl⟩ := List.mem_map.1 hline
      rw [String.toList_ofList]
      exact newline_notMem_of_mem_splitOn s.toList cs hcs
  ne_single_empty := by
    intro hsingle
    have hempty : s = "" := by
      rw [← toString_ofString s, toString, hsingle, String.intercalate_singleton]
    rw [hempty] at hsingle
    exact List.cons_ne_nil "" [] hsingle.symm

/-- **Marks without newlines keep lines proper.** -/
theorem Proper.markEach {ls : Lines} (h : ls.Proper) {mark : String} (hmark : '\n' ∉ mark.toList) :
    (ls.markEach mark).Proper where
  newline_notMem := by
    intro line hline
    obtain ⟨s, hs, rfl⟩ := List.mem_map.1 hline
    rw [String.toList_append, List.mem_append]
    rintro (hmem | hmem)
    · exact hmark hmem
    · exact h.newline_notMem s hs hmem
  ne_single_empty := by
    intro hsingle
    obtain ⟨line, hline, hempty⟩ := List.map_eq_singleton_iff.1 hsingle
    obtain ⟨-, rfl⟩ := String.append_eq_empty_iff.1 hempty
    exact h.ne_single_empty hline

/-- **The lines of a marked text are the marked lines of the text.** -/
theorem ofString_toString_markEach (s : String) {mark : String} (hmark : '\n' ∉ mark.toList) :
    ofString ((ofString s).markEach mark).toString = (ofString s).markEach mark :=
  ofString_toString ((proper_ofString s).markEach hmark)

end Lines

/-! ## Quotes -/

/-- A line without the mark of a quote, if it begins with one. -/
def unmark? (line : String) : Option String :=
  match line.toList with
  | '>' :: rest => some (String.ofList rest)
  | _ => none

/-- A text without the mark of a quote on each of its lines, if each of them begins with one. -/
def unquote? (s : String) : Option String :=
  ((Lines.ofString s).lines.mapM unmark?).map fun lines => (Lines.mk lines).toString

theorem unmark?_mark (line : String) : unmark? (">" ++ line) = some line := by
  simp [unmark?]

/-- **A quoted text without its marks is the text.** -/
theorem unquote?_quote (s : String) : unquote? (quote s) = some s := by
  have hlines : (Lines.ofString (quote s)).lines = (Lines.ofString s).lines.map (">" ++ ·) :=
    congrArg Lines.lines (Lines.ofString_toString_markEach s (by decide))
  have hmark : unmark? ∘ (">" ++ ·) = pure := funext unmark?_mark
  unfold unquote?
  rw [hlines, List.mapM_map, hmark, List.mapM_pure, List.map_id']
  exact congrArg some (Lines.toString_ofString s)

theorem toList_quote {s : String} (h : s ≠ "") :
    (quote s).toList = '>' :: s.toList.flatMap (Lines.markAfter ['>']) :=
  Lines.toList_markEach_ofString h ">"

theorem quote_ne_empty {s : String} (h : s ≠ "") : quote s ≠ "" := by
  intro hempty
  have hmarked := toList_quote h
  rw [hempty] at hmarked
  cases hmarked

/-- Two texts with a blank line between them are quoted one by one, and the blank line has a mark,
too. -/
theorem quote_append_blank_line {s t : String} (hs : s ≠ "") (ht : t ≠ "") :
    quote (s ++ "\n\n" ++ t) = quote s ++ "\n>\n" ++ quote t := by
  have hboth : s ++ "\n\n" ++ t ≠ "" := by simp
  rw [← String.toList_inj, toList_quote hboth]
  simp [toList_quote hs, toList_quote ht, Lines.markAfter]

/-- **To quote texts joined with blank lines is to join the quoted texts**, with a mark on each of
the blank lines, if none of the texts is empty. -/
theorem quote_intercalate {texts : List String} (h : ∀ s ∈ texts, s ≠ "") :
    quote ("\n\n".intercalate texts) = "\n>\n".intercalate (texts.map quote) := by
  induction texts with
  | nil => rfl
  | cons s rest ih =>
    have hs := h s List.mem_cons_self
    have hrest := fun t ht => h t (List.mem_cons_of_mem s ht)
    by_cases hnil : rest = []
    · simp [hnil]
    · have hjoined : "\n\n".intercalate rest ≠ "" := intercalate_ne_empty hnil hrest
      rw [String.intercalate_cons_of_ne_nil hnil, quote_append_blank_line hs hjoined, ih hrest,
        List.map_cons, String.intercalate_cons_of_ne_nil (by simpa using hnil)]

end ChatMarkup.Text
