import ChatMarkup.Proofs.Event.Levels

/-!
# One place in a list of events

A list of events that is changed at one place is a list of trees that is changed at one place. The
place is a hole in the trees: what stands before and after it on each level around it.

Results:
* `fill_followedBy`, `tags_followedBy`: what follows a hole on the outermost level is not in it.
* `exists_hole`: a place in a list of events is a hole in its trees, inside the tags that are open
  there.
-/

namespace ChatMarkup.Tree

/-- A place in trees: on the outermost level, between the trees before and after it, or inside a
tag there. -/
inductive Hole
  | here (before after : List Tree)
  | within (before : List Tree) (tag : Tag) (hole : Hole) (after : List Tree)

namespace Hole

/-- The trees with others put into the hole. -/
def fill : Hole → List Tree → List Tree
  | here before after, trees => before ++ trees ++ after
  | within before tag hole after, trees => before ++ tagged tag (hole.fill trees) :: after

/-- The tags around a hole, innermost first. -/
def tags : Hole → List Tag
  | here .. => []
  | within _ tag hole _ => hole.tags ++ [tag]

/-- The hole when more trees follow on the outermost level. -/
def followedBy (more : List Tree) : Hole → Hole
  | here before after => here before (after ++ more)
  | within before tag hole after => within before tag hole (after ++ more)

theorem fill_followedBy (more : List Tree) (hole : Hole) (trees : List Tree) :
    (hole.followedBy more).fill trees = hole.fill trees ++ more := by
  cases hole <;> simp [followedBy, fill]

theorem tags_followedBy (more : List Tree) (hole : Hole) :
    (hole.followedBy more).tags = hole.tags := by
  cases hole <;> rfl

/-- Completing growing trees puts levels around a hole. -/
theorem exists_fill_eq_complete (around : List (Tag × List Tree)) (later : List (List Tree))
    (inner : Hole) :
    ∃ hole : Hole, hole.tags = inner.tags ++ around.map Prod.fst ∧
      ∀ trees, Growth.complete (inner.fill trees).reverse around later = hole.fill trees := by
  induction around generalizing later inner with
  | nil =>
    refine ⟨inner.followedBy later.flatten, ?_, fun trees => ?_⟩
    · rw [tags_followedBy, List.map_nil, List.append_nil]
    · rw [fill_followedBy, Growth.complete, List.reverse_reverse]
  | cons level around ih =>
    obtain ⟨tag, before⟩ := level
    obtain ⟨hole, htags, hfill⟩ :=
      ih later.tail (within before.reverse tag (inner.followedBy (later.headD [])) [])
    refine ⟨hole, ?_, fun trees => ?_⟩
    · rw [htags, tags, tags_followedBy, List.append_assoc]
      rfl
    · rw [← hfill, Growth.complete, fill, fill_followedBy]
      simp

end Hole

/-- **A place in a list of events is a hole in its trees**, inside the tags that are open there.
Whatever trees have their events written at the place, they stand in the hole. -/
theorem exists_hole (before after : List Event) :
    ∃ hole : Hole, hole.tags = openTags [] before ∧
      ∀ trees, ofEvents (before ++ eventsOf trees ++ after) = hole.fill trees := by
  let grown := before.foldl Growth.step Growth.start
  obtain ⟨hole, htags, hfill⟩ :=
    Hole.exists_fill_eq_complete grown.around (levels after) (.here grown.inside.reverse [])
  refine ⟨hole, ?_, fun trees => ?_⟩
  · rw [htags, Hole.tags, List.nil_append]
    exact Growth.map_fst_around_foldl_step before Growth.start
  · have hread := Growth.finish_foldl_step after ((eventsOf trees).foldl Growth.step grown)
    rw [foldl_step_eventsOf] at hread
    rw [← hfill, ofEvents_append, List.foldl_append, foldl_step_eventsOf]
    simpa [Hole.fill] using hread

end ChatMarkup.Tree
