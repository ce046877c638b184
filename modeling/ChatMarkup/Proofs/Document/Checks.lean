import ChatMarkup.Proofs.Document.Alike

/-!
# The check boxes of a document

A document is its shape, which is all but its check boxes, and the states of the boxes in document
order (`Node.eq_of_unchecked_eq`). List items stand in a document in the order in which their tags
open. Each has the state of the last check box that comes while it is the innermost open item, also
behind other tags that stay open, and in a list of events that is not balanced.

Results:
* `Node.eq_of_unchecked_eq`: nodes with the same shape and the same states are the same.
* `checksAll_placementsOf`: the items that trees of events give, in order.
* `lastCheck?_eq_lastCheckOf`, `checksWithin_eq_checksOfLevels`: the check boxes of events are those
  of the trees that they add to each level.
* `checksAll_blocksOf`: the check boxes of a document are those of its events.
-/

namespace ChatMarkup

/-! ## Shape and states -/

/-- The states that a container has of its own: that of its check box if it is a list item. -/
def Container.checks : Container → List (Option Bool)
  | .listItem checked => [checked]
  | _ => []

/-- The container without the state of a check box. -/
def Container.unchecked : Container → Container
  | .listItem _ => .listItem none
  | c => c

namespace Node

mutual

/-- The states of the check boxes of list items in a node, in document order. -/
def checks : Node → List (Option Bool)
  | leaf _ => []
  | container c children => c.checks ++ checksAll children

/-- The states of the check boxes in nodes, one node after the other. -/
def checksAll : List Node → List (Option Bool)
  | [] => []
  | node :: rest => node.checks ++ checksAll rest

end

mutual

/-- The shape of a node: the node without the states of check boxes. -/
def unchecked : Node → Node
  | leaf l => leaf l
  | container c children => container c.unchecked (uncheckedAll children)

/-- The shapes of nodes. -/
def uncheckedAll : List Node → List Node
  | [] => []
  | node :: rest => node.unchecked :: uncheckedAll rest

end

theorem length_checks_unchecked (c : Container) : c.unchecked.checks.length = c.checks.length := by
  cases c <;> rfl

mutual

/-- How many items a node has is a matter of its shape. -/
theorem length_checks (node : Node) : node.unchecked.checks.length = node.checks.length := by
  cases node with
  | leaf l => rfl
  | container c children =>
    simp only [unchecked, checks, List.length_append, length_checks_unchecked, length_checksAll]

theorem length_checksAll (nodes : List Node) :
    (checksAll (uncheckedAll nodes)).length = (checksAll nodes).length := by
  cases nodes with
  | nil => rfl
  | cons node rest =>
    simp only [uncheckedAll, checksAll, List.length_append, length_checks, length_checksAll]

end

end Node

theorem Container.eq_of_unchecked_eq {c d : Container} (hshape : c.unchecked = d.unchecked)
    (hchecks : c.checks = d.checks) : c = d := by
  cases c <;> cases d <;> simp_all [Container.unchecked, Container.checks]

namespace Node

mutual

/-- **Nodes with the same shape and the same states of their check boxes are the same.** -/
theorem eq_of_unchecked_eq {a b : Node} (hshape : a.unchecked = b.unchecked)
    (hchecks : a.checks = b.checks) : a = b := by
  cases a with
  | leaf l =>
    cases b with
    | leaf m => exact hshape
    | container d bs => exact absurd hshape nofun
  | container c as =>
    cases b with
    | leaf m => exact absurd hshape nofun
    | container d bs =>
      obtain ⟨hc, hchildren⟩ := Node.container.inj hshape
      have hlength : c.checks.length = d.checks.length := by
        rw [← length_checks_unchecked, hc, length_checks_unchecked]
      obtain ⟨hown, hinside⟩ := List.append_inj hchecks hlength
      rw [Container.eq_of_unchecked_eq hc hown, eqAll_of_unchecked_eq hchildren hinside]

theorem eqAll_of_unchecked_eq {as bs : List Node} (hshape : uncheckedAll as = uncheckedAll bs)
    (hchecks : checksAll as = checksAll bs) : as = bs := by
  cases as with
  | nil =>
    cases bs with
    | nil => rfl
    | cons b bs => exact absurd hshape nofun
  | cons a as =>
    cases bs with
    | nil => exact absurd hshape nofun
    | cons b bs =>
      obtain ⟨hfirst, hrest⟩ := List.cons.inj hshape
      have hlength : a.checks.length = b.checks.length := by
        rw [← length_checks, hfirst, length_checks]
      obtain ⟨hown, hlater⟩ := List.append_inj hchecks hlength
      rw [eq_of_unchecked_eq hfirst hown, eqAll_of_unchecked_eq hrest hlater]

end

theorem checksAll_append (before after : List Node) :
    checksAll (before ++ after) = checksAll before ++ checksAll after := by
  induction before with
  | nil => rfl
  | cons node rest ih => simp [checksAll, ih]

theorem checksAll_singleton (node : Node) : checksAll [node] = node.checks := by
  simp [checksAll]

/-- The check boxes of nodes are the same wherever texts are cut and paragraphs begin. -/
theorem checksAll_readsThrough : ReadsThrough checksAll (· ++ ·) where
  append := checksAll_append
  texts _ _ _ := rfl
  paragraph _ := checksAll_singleton _

end Node

/-! ## The items of trees of events -/

/-- Whether what stands inside a tag becomes no node of the document: it is source, or a text that
an image shows. -/
def Tag.hidesNodes : Tag → Bool
  | .codeBlock _ | .htmlBlock | .image .. => true
  | _ => false

namespace Tree

mutual

/-- The states of the list items that a tree of events gives, in the order in which they open. -/
def checks : Tree → List (Option Bool)
  | content _ => []
  | tagged tag inside =>
    if tag.hidesNodes then []
    else (if tag = .item then [checkedOf? inside] else []) ++ checksAll inside

/-- The states of the list items that trees of events give, one tree after the other. -/
def checksAll : List Tree → List (Option Bool)
  | [] => []
  | tree :: rest => tree.checks ++ checksAll rest

end

theorem checksAll_append (before after : List Tree) :
    checksAll (before ++ after) = checksAll before ++ checksAll after := by
  induction before with
  | nil => rfl
  | cons tree rest ih => simp [checksAll, ih]

end Tree

open Node

theorem Content.checksAll_placements (c : Content) :
    checksAll (c.placements.map Placement.node) = [] := by
  cases c <;> rfl

/-- What a tag gives has the items of its children, behind the item that it is itself. -/
theorem Tag.checksAll_placements (tag : Tag) (inside : List Tree) (children : List Node) :
    checksAll ((tag.placements inside children).map Placement.node) =
      if tag.hidesNodes then []
      else (if tag = .item then [checkedOf? inside] else []) ++ checksAll children := by
  cases tag with
  | codeBlock | htmlBlock | image => rfl
  | extension =>
    show checksAll ((children.map Placement.byKind).map Placement.node) = checksAll children
    rw [List.map_map]
    exact congrArg checksAll (List.map_id children)
  | _ => exact checksAll_singleton _

mutual

theorem Tree.checksAll_placements (tree : Tree) :
    checksAll (tree.placements.map Placement.node) = tree.checks := by
  cases tree with
  | content c => exact c.checksAll_placements
  | tagged tag inside =>
    rw [Tree.placements, tag.checksAll_placements, checksAll_readsThrough.gather,
      checksAll_placementsOf inside, Tree.checks]

/-- **The nodes that trees of events give have the items of the trees**, in order. -/
theorem checksAll_placementsOf (trees : List Tree) :
    checksAll ((placementsOf trees).map Placement.node) = Tree.checksAll trees := by
  cases trees with
  | nil => rfl
  | cons tree rest =>
    rw [placementsOf, List.map_append, checksAll_append, Tree.checksAll_placements tree,
      checksAll_placementsOf rest, Tree.checksAll]

end

/-! ## The check boxes of events -/

/-- The state of a check box. -/
def Content.checked? : Content → Option Bool
  | .task checked => some checked
  | _ => none

/-- The last check box in events that belongs to an item that is open before them, and inside which
the tags `opened` are open: it comes before the item closes, and with no other item open inside. -/
def lastCheck? (opened : List Tag) : List Event → Option Bool
  | [] => none
  | .opening tag :: rest => lastCheck? (tag :: opened) rest
  | .closing :: rest =>
    match opened with
    | [] => none
    | _ :: opened => lastCheck? opened rest
  | .content c :: rest =>
    lastCheck? opened rest <|> if .item ∈ opened then none else c.checked?

/-- The states of the list items that open in events inside the tags `around`, innermost first, in
the order in which they open: for each, the last check box that belongs to it. An item in a tag that
hides nodes is no item of the document. -/
def checksWithin (around : List Tag) : List Event → List (Option Bool)
  | [] => []
  | .opening tag :: rest =>
    (if tag = .item ∧ around.any Tag.hidesNodes = false then [lastCheck? [] rest] else []) ++
      checksWithin (tag :: around) rest
  | .closing :: rest => checksWithin around.tail rest
  | .content _ :: rest => checksWithin around rest

theorem Tree.checked?_content (c : Content) : (Tree.content c).checked? = c.checked? := by
  cases c <;> rfl

/-- The last check box in levels that belongs to an item inside which the tags `opened` are open. -/
def lastCheckOf : List Tag → List (List Tree) → Option Bool
  | [], later => checkedOf? (later.headD [])
  | tag :: opened, later =>
    lastCheckOf opened later.tail <|>
      if .item ∈ tag :: opened then none else checkedOf? (later.headD [])

theorem lastCheckOf_nil (opened : List Tag) : lastCheckOf opened [] = none := by
  induction opened with
  | nil => rfl
  | cons tag opened ih => simp [lastCheckOf, ih, checkedOf?]

/-- A tree that comes first has the first check boxes. -/
theorem lastCheckOf_cons (opened : List Tag) (tree : Tree) (later : List (List Tree)) :
    lastCheckOf opened ((tree :: later.headD []) :: later.tail) =
      (lastCheckOf opened later <|> if .item ∈ opened then none else tree.checked?) := by
  cases opened with
  | nil => rfl
  | cons tag opened =>
    rw [lastCheckOf, lastCheckOf, List.tail_cons, List.headD_cons, checkedOf?]
    split
    · simp
    · cases lastCheckOf opened later.tail <;> rfl

/-- The check boxes of an item in events are those in their levels. -/
theorem lastCheck?_eq_lastCheckOf (opened : List Tag) (events : List Event) :
    lastCheck? opened events = lastCheckOf opened (Tree.levels events) := by
  induction events generalizing opened with
  | nil => exact (lastCheckOf_nil opened).symm
  | cons event rest ih =>
    cases event with
    | opening tag =>
      rw [lastCheck?, ih, Tree.levels, lastCheckOf_cons, lastCheckOf, Tree.checked?_tagged]
      congr 1
      by_cases hopened : .item ∈ opened
      · simp [hopened]
      · by_cases htag : tag = .item
        · simp [htag]
        · simp [hopened, htag, Ne.symm htag]
    | closing =>
      cases opened with
      | nil => rfl
      | cons tag opened => simp [lastCheck?, ih, Tree.levels, lastCheckOf, checkedOf?]
    | content c => rw [lastCheck?, ih, Tree.levels, lastCheckOf_cons, Tree.checked?_content]

/-- The states of the list items in levels inside the tags `around`. -/
def checksOfLevels (around : List Tag) : List (List Tree) → List (Option Bool)
  | [] => []
  | trees :: later =>
    (if around.any Tag.hidesNodes then [] else Tree.checksAll trees) ++
      checksOfLevels around.tail later

theorem checksOfLevels_eq (around : List Tag) (later : List (List Tree)) :
    checksOfLevels around later =
      (if around.any Tag.hidesNodes then [] else Tree.checksAll (later.headD [])) ++
        checksOfLevels around.tail later.tail := by
  cases later with
  | nil => simp [checksOfLevels, Tree.checksAll]
  | cons trees later => rfl

theorem checksOfLevels_cons (around : List Tag) (tree : Tree) (later : List (List Tree)) :
    checksOfLevels around ((tree :: later.headD []) :: later.tail) =
      (if around.any Tag.hidesNodes then [] else tree.checks) ++ checksOfLevels around later := by
  rw [checksOfLevels, checksOfLevels_eq around later, Tree.checksAll]
  split <;> simp

/-- The items of events are those of their levels. -/
theorem checksWithin_eq_checksOfLevels (around : List Tag) (events : List Event) :
    checksWithin around events = checksOfLevels around (Tree.levels events) := by
  induction events generalizing around with
  | nil => rfl
  | cons event rest ih =>
    cases event with
    | opening tag =>
      rw [checksWithin, ih, checksOfLevels_eq (tag :: around), Tree.levels, checksOfLevels_cons,
        lastCheck?_eq_lastCheckOf, lastCheckOf, Tree.checks, List.any_cons, List.tail_cons,
        ← List.append_assoc]
      congr 1
      -- an item hides nothing itself, so it is shown if the tags around it hide nothing
      cases around.any Tag.hidesNodes with
      | true => simp
      | false => cases tag <;> simp [Tag.hidesNodes]
    | closing =>
      rw [checksWithin, ih, Tree.levels, checksOfLevels, Tree.checksAll]
      simp
    | content c =>
      rw [checksWithin, ih, Tree.levels, checksOfLevels_cons, Tree.checks]
      simp

theorem checksOfLevels_nil (later : List (List Tree)) :
    checksOfLevels [] later = Tree.checksAll later.flatten := by
  induction later with
  | nil => rfl
  | cons trees later ih =>
    rw [checksOfLevels, List.tail_nil, ih, List.flatten_cons, Tree.checksAll_append]
    rfl

/-- **The check boxes of a document are those of its events**, whatever the events are: its list
items stand in the order in which they open, each with the last check box that belongs to it. -/
theorem checksAll_blocksOf (events : List Event) :
    checksAll (blocksOf events) = checksWithin [] events := by
  rw [blocksOf, checksAll_readsThrough.wrapRuns, List.reverse_nil, List.nil_append,
    checksAll_placementsOf, Tree.ofEvents_eq_flatten_levels, ← checksOfLevels_nil,
    ← checksWithin_eq_checksOfLevels]

/-- A check box in strong text, in the second of two items that open, behind which a tag stays
open. -/
example :
    checksAll (blocksOf [.closing, .opening (.list none), .opening .item, .opening (.list none),
      .opening .item, .opening .strong, .content (.task true), .closing, .closing, .closing,
      .opening .emphasis]) = [none, some true] := by decide

end ChatMarkup
