import ChatMarkup.Document.KindTable
import ChatMarkup.Document.Node
import ChatMarkup.Style.Basic

/-!
# Rules for writing nodes

A rule says how nodes are written, as a recipe: a finished text, or the wish to have some parts of
the node written first and to go on from their text. A recipe never writes parts by itself. It says
which ones it wants, and under which change of circumstances, so one renderer can follow all
recipes, and following them ends, because they only ever ask for parts of their own node.

Results:
* `run_text`, `run_ask`: how a recipe is followed, given what answers its wishes.
* `run_askEach`: several wishes, one after the other.

Out of scope: rules that fail, or do more than give a text. A rule that would write nodes of its own
making gives their text instead.
-/

namespace ChatMarkup

/-- What a rule sees of the place where a node stands. -/
structure Scope where
  style : Style
  /-- How deep inside lists the node stands. -/
  depth : Nat := 0
  /-- What was asked to stand between neighbouring nodes, if anything was. -/
  join : Option String := none
deriving DecidableEq, Repr, Inhabited

/-- What stands between neighbouring nodes: what was asked for, else a blank line at the top and
nothing below. -/
def Scope.separator (scope : Scope) : String :=
  scope.join.getD (if scope.depth = 0 then "\n\n" else "")

/-- How circumstances change for a part of a document, with `R` as the type of rules. -/
structure Change (R : Type) where
  /-- How many levels deeper it stands. -/
  deeper : Nat := 0
  /-- What is to stand between neighbours, if that is to change. -/
  join : Option String := none
  /-- Rules that replace those in force. -/
  rules : KindTable R := .empty

namespace Change

variable {R : Type}

/-- No change. -/
def none : Change R := {}

/-- One level deeper. -/
def nested : Change R := { deeper := 1 }

/-- With `separator` between neighbours. -/
def joined (separator : String) : Change R := { join := some separator }

/-- With nothing between neighbours. -/
def inline : Change R := joined ""

/-- With another rule for one kind. -/
def withRule (kind : Kind) (rule : R) : Change R := { rules := KindTable.empty.insert kind rule }

/-- One change and then another. -/
def andThen (first second : Change R) : Change R where
  deeper := first.deeper + second.deeper
  join := second.join <|> first.join
  rules := first.rules.overlay second.rules

end Change

/-- A way to write one node. -/
inductive Recipe : Node → Type
  /-- The finished text. -/
  | text {node : Node} (text : String) : Recipe node
  /-- Has parts of the node written, under a change, and goes on from their text. -/
  | ask {node : Node} (parts : List Node) (own : ∀ part ∈ parts, Node.Part part node)
      (change : Change ((other : Node) → Scope → Recipe other)) (next : String → Recipe node) :
      Recipe node

/-- A rule gives a recipe for every node, at every place. -/
abbrev Rule := (node : Node) → Scope → Recipe node

namespace Recipe

variable {node : Node}

/-- The text of a recipe, when `answer` writes what it asks for. -/
def run
    (answer : (parts : List Node) → (∀ part ∈ parts, Node.Part part node) → Change Rule → String) :
    Recipe node → String
  | text s => s
  | ask parts own change next => (next (answer parts own change)).run answer

/-- Writes the children of the node under a change and finishes their text with `finish`. -/
def ofChildren (change : Change Rule) (finish : String → String) : Recipe node :=
  ask node.children (fun _ h => .child h) change fun s => text (finish s)

/-- Has several lists of parts written, each on its own, and goes on from their texts. -/
def askEach (change : Change Rule) (next : List String → Recipe node) :
    List { parts : List Node // ∀ part ∈ parts, Node.Part part node } → Recipe node
  | [] => next []
  | parts :: rest =>
    ask parts.1 parts.2 change fun s => askEach change (fun ss => next (s :: ss)) rest

@[simp] theorem run_text (answer) (s : String) : (text s : Recipe node).run answer = s := rfl

@[simp] theorem run_ask (answer) (parts : List Node) (own) (change : Change Rule)
    (next : String → Recipe node) :
    (ask parts own change next).run answer = (next (answer parts own change)).run answer := rfl

@[simp] theorem run_ofChildren (answer) (change : Change Rule) (finish : String → String) :
    (ofChildren change finish : Recipe node).run answer =
      finish (answer node.children (fun _ h => .child h) change) := rfl

theorem run_askEach (answer) (change : Change Rule) (next : List String → Recipe node)
    (wishes : List { parts : List Node // ∀ part ∈ parts, Node.Part part node }) :
    (askEach change next wishes).run answer =
      (next (wishes.map fun parts => answer parts.1 parts.2 change)).run answer := by
  induction wishes generalizing next with
  | nil => rfl
  | cons parts rest ih => simp [askEach, ih]

end Recipe

end ChatMarkup
