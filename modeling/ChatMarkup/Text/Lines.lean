/-!
# Texts as lines

A text seen as the lines that newlines separate. The empty text has no line at all, so that marking
each line of it marks nothing.

Results:
* `toList_markEach_ofString`: marking each line puts the mark at the start of the text and after
  each of its newlines, and changes nothing else.
* `intercalate_induction`: what texts have in common, they have joined if two of them do.
* `intercalate_map_intercalate`, `intercalate_group`: joining groups of texts and joining the groups
  is joining all.
-/

namespace ChatMarkup.Text

/-- What texts have in common, they have joined, if two of them do. -/
theorem intercalate_induction {P : String → Prop} {sep : String} (hnil : P "")
    (hjoin : ∀ {s t : String}, P s → P t → P (s ++ sep ++ t)) {ss : List String}
    (h : ∀ s ∈ ss, P s) : P (sep.intercalate ss) := by
  induction ss with
  | nil =>
    rw [String.intercalate_nil]
    exact hnil
  | cons s ss ih =>
    have hs := h s List.mem_cons_self
    have hrest := fun t ht => h t (List.mem_cons_of_mem s ht)
    by_cases hempty : ss = []
    · rw [hempty, String.intercalate_singleton]
      exact hs
    · rw [String.intercalate_cons_of_ne_nil hempty]
      exact hjoin hs (ih hrest)

/-- Joined texts are empty only if there are none or an empty one is among them. -/
theorem intercalate_ne_empty {sep : String} {ss : List String} (h : ss ≠ [])
    (hne : ∀ s ∈ ss, s ≠ "") : sep.intercalate ss ≠ "" := by
  obtain ⟨s, rest, rfl⟩ := List.exists_cons_of_ne_nil h
  have hs := hne s List.mem_cons_self
  by_cases hnil : rest = []
  · rw [hnil, String.intercalate_singleton]
    exact hs
  · rw [String.intercalate_cons_of_ne_nil hnil]
    simp [hs]

/-- Groups of texts that are joined and then joined again are all the texts joined, because no group
is without texts. -/
theorem intercalate_map_intercalate {sep : String} {groups : List (List String)} (h : [] ∉ groups) :
    sep.intercalate (groups.map sep.intercalate) = sep.intercalate groups.flatten := by
  induction groups with
  | nil => rfl
  | cons group rest ih =>
    obtain ⟨hgroup, hrest⟩ := not_or.1 fun hmem => h (List.mem_cons.2 hmem)
    by_cases hnil : rest = []
    · simp [hnil]
    · have hflat : rest.flatten ≠ [] := by
        intro hflat
        obtain ⟨next, hnext⟩ := List.exists_mem_of_ne_nil rest hnil
        exact hrest (List.flatten_eq_nil_iff.1 hflat next hnext ▸ hnext)
      rw [List.map_cons, String.intercalate_cons_of_ne_nil (by simpa using hnil), ih hrest,
        List.flatten_cons, String.intercalate_append_of_ne_nil (Ne.symm hgroup) hflat]

/-- A group among others that is joined first might as well not be, if it is not without texts. -/
theorem intercalate_group {sep : String} {group : List String} (h : group ≠ [])
    (before after : List String) :
    sep.intercalate (before ++ [sep.intercalate group] ++ after) =
      sep.intercalate (before ++ group ++ after) := by
  have hgroups : [] ∉ before.map ([·]) ++ [group] ++ after.map ([·]) := by
    simp [Ne.symm h]
  have hsingle (ss : List String) : (ss.map ([·])).map sep.intercalate = ss := by
    simp [Function.comp_def]
  have hflatten (ss : List String) : (ss.map ([·])).flatten = ss := by
    rw [← List.flatMap_def]
    exact List.flatMap_singleton' ss
  have hjoined := @intercalate_map_intercalate sep _ hgroups
  simpa [hsingle, hflatten] using hjoined

/-- What stands before joined texts stands before the first of them. -/
theorem append_intercalate_cons (start : String) {sep s : String} {rest : List String} :
    start ++ sep.intercalate (s :: rest) = sep.intercalate ((start ++ s) :: rest) := by
  by_cases hnil : rest = []
  · simp [hnil]
  · simp [String.intercalate_cons_of_ne_nil hnil, String.append_assoc]

/-- The lines of a text, without their newlines. -/
structure Lines where
  lines : List String
deriving DecidableEq, Repr

namespace Lines

/-- No lines, as the empty text has. -/
def empty : Lines := ⟨[]⟩

/-- The lines of a text: none for the empty text, else one more than it has newlines. -/
def ofString (s : String) : Lines :=
  if s.isEmpty then empty else ⟨(s.toList.splitOn '\n').map String.ofList⟩

/-- The lines put together again. -/
def toString (ls : Lines) : String :=
  "\n".intercalate ls.lines

/-- Whether there is no line. -/
def isEmpty (ls : Lines) : Bool :=
  ls.lines.isEmpty

/-- Writes `mark` at the start of every line, blank lines included. -/
def markEach (mark : String) (ls : Lines) : Lines :=
  ⟨ls.lines.map (mark ++ ·)⟩

/-- Marks every line as quoted. -/
def quote (ls : Lines) : Lines :=
  ls.markEach ">"

/-! ## Marks, one character after the other -/

/-- What a character becomes when a mark goes to the start of each line after it. -/
def markAfter (mark : List Char) (c : Char) : List Char :=
  if c = '\n' then '\n' :: mark else [c]

theorem intercalate_append_cons (sep xs ys : List Char) (rest : List (List Char)) :
    sep.intercalate ((xs ++ ys) :: rest) = xs ++ sep.intercalate (ys :: rest) := by
  induction xs with
  | nil => rfl
  | cons x xs ih => rw [List.cons_append, List.intercalate_cons_cons_left, ih, List.cons_append]

theorem intercalate_map_splitOn (mark cs : List Char) :
    ['\n'].intercalate ((cs.splitOn '\n').map (mark ++ ·)) =
      mark ++ cs.flatMap (markAfter mark) := by
  induction cs with
  | nil => simp
  | cons c cs ih =>
    obtain ⟨line, rest, hlines⟩ := List.exists_cons_of_ne_nil (List.splitOn_ne_nil '\n' cs)
    rw [hlines, List.map_cons] at ih
    rw [List.splitOn_cons_eq_if_modifyHead, hlines, List.flatMap_cons]
    by_cases hc : c = '\n'
    · rw [if_pos (by simpa using hc), List.map_cons, List.map_cons, List.intercalate_cons_cons, ih]
      simp [markAfter, hc]
    · rw [intercalate_append_cons] at ih
      rw [if_neg (by simpa using hc), List.modifyHead_cons, List.map_cons, intercalate_append_cons,
        List.intercalate_cons_cons_left, List.append_cancel_left ih]
      simp [markAfter, hc]

theorem toList_markEach_ofString {s : String} (h : s ≠ "") (mark : String) :
    ((ofString s).markEach mark).toString.toList =
      mark.toList ++ s.toList.flatMap (markAfter mark.toList) := by
  have hne : ¬ s.isEmpty = true := by simpa using h
  rw [ofString, if_neg hne, ← intercalate_map_splitOn]
  simp [markEach, toString, List.map_map, Function.comp_def]

end Lines

/-- A text with every line marked as quoted. -/
def quote (s : String) : String :=
  (Lines.ofString s).quote.toString

end ChatMarkup.Text
