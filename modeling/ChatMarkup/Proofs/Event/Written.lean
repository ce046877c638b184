import ChatMarkup.Event.Tree

/-!
# The events of trees

Trees written as events: a tag opens, what stands inside follows, and the tag closes. Reading the
events gives the trees again, also in the middle of other events.

Results:
* `foldl_step_eventsOf`: whatever was read before, reading the events of trees adds just the trees.
* `ofEvents_eventsOf`: what is written is read back.
-/

namespace ChatMarkup.Tree

mutual

/-- The events of a tree. -/
def events : Tree → List Event
  | content c => [.content c]
  | tagged tag inside => .opening tag :: (eventsOf inside ++ [.closing])

/-- The events of trees, one tree after the other. -/
def eventsOf : List Tree → List Event
  | [] => []
  | tree :: rest => tree.events ++ eventsOf rest

end

mutual

/-- Reading the events of a tree adds the tree and leaves what is around it alone. -/
theorem foldl_step_events (tree : Tree) (g : Growth) :
    tree.events.foldl Growth.step g = ⟨tree :: g.inside, g.around⟩ := by
  cases tree with
  | content c => rfl
  | tagged tag inside =>
    -- the tag opens on an empty level, which its own closing ends
    rw [events, List.foldl_cons, List.foldl_append, foldl_step_eventsOf inside]
    simp [Growth.step, Growth.close]

/-- **Reading the events of trees adds the trees**, latest first, and leaves what is around them
alone. -/
theorem foldl_step_eventsOf (trees : List Tree) (g : Growth) :
    (eventsOf trees).foldl Growth.step g = ⟨trees.reverse ++ g.inside, g.around⟩ := by
  cases trees with
  | nil => rfl
  | cons tree rest =>
    rw [eventsOf, List.foldl_append, foldl_step_events tree, foldl_step_eventsOf rest]
    simp

end

/-- **The events of trees are read back as the trees.** -/
theorem ofEvents_eventsOf (trees : List Tree) : ofEvents (eventsOf trees) = trees := by
  rw [ofEvents, foldl_step_eventsOf]
  simp [Growth.start, Growth.finish]

end ChatMarkup.Tree
