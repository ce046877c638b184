import ChatMarkup.Event.Basic

/-!
# Events as trees

A list of events, balanced or not, is a list of trees: a closing with nothing to close is passed
over, and what is still open at the end closes there.

Results:
* `ofEvents_append`: reading goes on where it stopped.
-/

namespace ChatMarkup

/-- Content, or a tag with all that stands inside it. -/
inductive Tree
  | content (content : Content)
  | tagged (tag : Tag) (inside : List Tree)

namespace Tree

/-- Trees that are still growing. -/
structure Growth where
  /-- The trees inside the innermost open tag, latest first. -/
  inside : List Tree
  /-- The open tags, innermost first, each with the trees that stand before it, latest first. -/
  around : List (Tag × List Tree)

namespace Growth

/-- Nothing read yet. -/
def start : Growth := ⟨[], []⟩

/-- The innermost open tag closes around what is inside it. -/
def close : Growth → Growth
  | ⟨inside, []⟩ => ⟨inside, []⟩
  | ⟨inside, (tag, before) :: around⟩ => ⟨tagged tag inside.reverse :: before, around⟩

/-- Reads one event. -/
def step (g : Growth) : Event → Growth
  | .opening tag => ⟨[], (tag, g.inside) :: g.around⟩
  | .closing => g.close
  | .content c => ⟨.content c :: g.inside, g.around⟩

/-- The trees when all open tags close, given the trees inside the innermost and what is around
them. -/
def finish (inside : List Tree) : List (Tag × List Tree) → List Tree
  | [] => inside.reverse
  | (tag, before) :: around => finish (tagged tag inside.reverse :: before) around

end Growth

/-- The trees of a list of events. -/
def ofEvents (events : List Event) : List Tree :=
  let grown := events.foldl Growth.step Growth.start
  Growth.finish grown.inside grown.around

theorem ofEvents_append (before after : List Event) :
    ofEvents (before ++ after) =
      let grown := after.foldl Growth.step (before.foldl Growth.step Growth.start)
      Growth.finish grown.inside grown.around := by
  simp [ofEvents]

end Tree

end ChatMarkup
