import ChatMarkup.Proofs.Event.Written

/-!
# Events level by level

Events that come later do not only stand behind what was read before: they close the tags around it,
one by one. Read backwards, they are the trees that they add to each level, first to the innermost
tag that is open before them, then to the tag around that, and so on (`levels`). In this way one can
say what a list of events does to any trees that are growing.

Results:
* `map_fst_around_foldl_step`: the tags that are open after events.
* `finish_foldl_step`: events that come later complete growing trees, level by level.
* `ofEvents_eq_flatten_levels`: at the beginning no tag is open, and all levels are one.
* `eventsOf_ofEvents`: balanced events are the events of their trees.
-/

namespace ChatMarkup

/-! ## Open tags -/

/-- The tags that are open after events, innermost first, if `around` are open before them. -/
def openTags (around : List Tag) : List Event → List Tag
  | [] => around
  | .opening tag :: rest => openTags (tag :: around) rest
  | .closing :: rest => openTags around.tail rest
  | .content _ :: rest => openTags around rest

/-- The tags that have opened behind some event and are open after the events that follow it,
innermost first, if `opened` are open already. There is no answer if a tag closes that was open at
that event. -/
def stillOpen? (opened : List Tag) : List Event → Option (List Tag)
  | [] => some opened
  | .opening tag :: rest => stillOpen? (tag :: opened) rest
  | .closing :: rest =>
    match opened with
    | [] => none
    | _ :: opened => stillOpen? opened rest
  | .content _ :: rest => stillOpen? opened rest

theorem openTags_append (around : List Tag) (before after : List Event) :
    openTags around (before ++ after) = openTags (openTags around before) after := by
  fun_induction openTags around before <;> simp_all [openTags]

theorem stillOpen?_append (opened : List Tag) (before after : List Event) :
    stillOpen? opened (before ++ after) = (stillOpen? opened before).bind (stillOpen? · after) := by
  fun_induction stillOpen? opened before <;> simp_all [stillOpen?]

/-- Tags that are not closed do not matter to the tags inside them. -/
theorem stillOpen?_append_around {opened still : List Tag} {events : List Event}
    (h : stillOpen? opened events = some still) (around : List Tag) :
    stillOpen? (opened ++ around) events = some (still ++ around) := by
  fun_induction stillOpen? opened events <;> simp_all [stillOpen?]

theorem openTags_append_around {opened still : List Tag} {events : List Event}
    (h : stillOpen? opened events = some still) (around : List Tag) :
    openTags (opened ++ around) events = still ++ around := by
  fun_induction stillOpen? opened events <;> simp_all [openTags]

/-- Events are balanced if they close all tags that they open and no others. -/
def Balanced (events : List Event) : Prop :=
  stillOpen? [] events = some []

instance (events : List Event) : Decidable (Balanced events) :=
  inferInstanceAs (Decidable (stillOpen? [] events = some []))

namespace Tree

theorem Growth.map_fst_around_foldl_step (events : List Event) (g : Growth) :
    (events.foldl step g).around.map Prod.fst = openTags (g.around.map Prod.fst) events := by
  induction events generalizing g with
  | nil => rfl
  | cons event rest ih =>
    rw [List.foldl_cons, ih]
    cases event with
    | opening tag => rfl
    | closing =>
      obtain ⟨inside, around⟩ := g
      cases around <;> rfl
    | content c => rfl

/-! ## Levels -/

/-- The trees of events that come later: those inside the innermost tag that is open before the
events, then those that stand behind it in the tag around it, and so on. -/
def levels : List Event → List (List Tree)
  | [] => []
  | .opening tag :: rest =>
    let later := levels rest
    (tagged tag (later.headD []) :: later.tail.headD []) :: later.tail.tail
  | .closing :: rest => [] :: levels rest
  | .content c :: rest => (content c :: (levels rest).headD []) :: (levels rest).tail

theorem flatten_eq_headD_append (later : List (List Tree)) :
    later.flatten = later.headD [] ++ later.tail.flatten := by
  cases later <;> rfl

namespace Growth

/-- The trees when `later` is added to the levels of growing trees and all open tags close, given
the trees inside the innermost tag and what is around them. With no tag open, all that comes later
stands on the same level. -/
def complete (inside : List Tree) : List (Tag × List Tree) → List (List Tree) → List Tree
  | [], later => inside.reverse ++ later.flatten
  | (tag, before) :: around, later =>
    complete (tagged tag (inside.reverse ++ later.headD []) :: before) around later.tail

theorem complete_nil (inside : List Tree) (around : List (Tag × List Tree)) :
    complete inside around [] = finish inside around := by
  induction around generalizing inside with
  | nil => exact List.append_nil _
  | cons level around ih =>
    rw [complete, finish, List.headD_nil, List.append_nil]
    exact ih _

/-- A tree that has just been read is the first one of what comes later. -/
theorem complete_cons (tree : Tree) (inside : List Tree) (around : List (Tag × List Tree))
    (later : List (List Tree)) :
    complete (tree :: inside) around later =
      complete inside around ((tree :: later.headD []) :: later.tail) := by
  cases around with
  | nil => simp [complete, flatten_eq_headD_append later]
  | cons level around => simp [complete]

/-- **Events that come later complete growing trees**, level by level. -/
theorem finish_foldl_step (events : List Event) (g : Growth) :
    finish (events.foldl step g).inside (events.foldl step g).around =
      complete g.inside g.around (levels events) := by
  induction events generalizing g with
  | nil => exact (complete_nil g.inside g.around).symm
  | cons event rest ih =>
    rw [List.foldl_cons, ih]
    cases event with
    | opening tag =>
      -- the level that opens is empty so far, and is one tree of the level around it
      rw [levels, ← complete_cons]
      rfl
    | closing =>
      obtain ⟨inside, around⟩ := g
      cases around with
      | nil => rfl
      | cons level around => simp [step, close, complete, levels]
    | content c => exact complete_cons _ _ _ _

end Growth

/-- **At the beginning all levels are one**, because no tag is open. -/
theorem ofEvents_eq_flatten_levels (events : List Event) :
    ofEvents events = (levels events).flatten :=
  Growth.finish_foldl_step events Growth.start

/-! ## Balanced events -/

/-- The events of levels inside so many tags, each of which closes behind its level. -/
def eventsOfLevels : Nat → List (List Tree) → List Event
  | 0, later => eventsOf (later.headD [])
  | depth + 1, later => eventsOf (later.headD []) ++ .closing :: eventsOfLevels depth later.tail

theorem eventsOfLevels_cons (depth : Nat) (tree : Tree) (later : List (List Tree)) :
    eventsOfLevels depth ((tree :: later.headD []) :: later.tail) =
      tree.events ++ eventsOfLevels depth later := by
  cases depth with
  | zero => rfl
  | succ depth => simp [eventsOfLevels, eventsOf]

/-- Events that close just the tags that are open have a level in each of them, and one around. -/
theorem eventsOfLevels_levels {opened : List Tag} {events : List Event}
    (h : stillOpen? opened events = some []) :
    eventsOfLevels opened.length (levels events) = events ∧
      (levels events).length ≤ opened.length + 1 := by
  induction events generalizing opened with
  | nil =>
    obtain rfl : opened = [] := by simpa [stillOpen?] using h
    exact ⟨rfl, Nat.zero_le 1⟩
  | cons event rest ih =>
    cases event with
    | opening tag =>
      obtain ⟨hevents, hlength⟩ := ih h
      rw [List.length_cons] at hevents hlength
      constructor
      · rw [levels, eventsOfLevels_cons, events, List.cons_append, List.append_assoc]
        exact congrArg (Event.opening tag :: ·) hevents
      · simp only [levels, List.length_cons, List.length_tail]
        omega
    | closing =>
      cases opened with
      | nil => exact absurd h nofun
      | cons tag opened =>
        obtain ⟨hevents, hlength⟩ := ih h
        refine ⟨?_, Nat.succ_le_succ hlength⟩
        rw [levels, List.length_cons, eventsOfLevels, List.tail_cons, hevents]
        rfl
    | content c =>
      obtain ⟨hevents, hlength⟩ := ih h
      constructor
      · rw [levels, eventsOfLevels_cons, hevents]
        rfl
      · simp only [levels, List.length_cons, List.length_tail]
        omega

/-- **Balanced events are the events of their trees.** -/
theorem eventsOf_ofEvents {events : List Event} (h : Balanced events) :
    eventsOf (ofEvents events) = events := by
  obtain ⟨hevents, hlength⟩ := eventsOfLevels_levels h
  have hone : (levels events).tail = [] := by
    rw [← List.length_eq_zero_iff, List.length_tail]
    rw [List.length_nil] at hlength
    omega
  rw [ofEvents_eq_flatten_levels, flatten_eq_headD_append, hone, List.flatten_nil, List.append_nil]
  exact hevents

end Tree

end ChatMarkup
