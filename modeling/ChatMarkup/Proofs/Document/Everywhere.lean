import ChatMarkup.Document.Node

/-!
# Conditions on every node of a tree

Results:
* `everywhere_iff`: a condition holds everywhere in a node iff it holds of the node and everywhere
  in its children.
* `everywhere_of_part`: what holds everywhere in a node holds everywhere in its parts, at any depth.
* `everywhere_mono`: what holds everywhere can be weakened.
-/

namespace ChatMarkup.Node

mutual

/-- Whether `p` holds of a node and of all nodes inside it. -/
def everywhere (p : Node → Bool) : Node → Bool
  | leaf l => p (leaf l)
  | container c children => p (container c children) && everywhereAll p children

/-- Whether `p` holds of all nodes of a list and of all nodes inside them. -/
def everywhereAll (p : Node → Bool) : List Node → Bool
  | [] => true
  | node :: rest => node.everywhere p && everywhereAll p rest

end

variable {p : Node → Bool}

theorem everywhereAll_iff (nodes : List Node) :
    everywhereAll p nodes = true ↔ ∀ node ∈ nodes, node.everywhere p = true := by
  induction nodes with
  | nil => simp [everywhereAll]
  | cons node rest ih => simp [everywhereAll, ih]

theorem everywhere_iff (node : Node) :
    node.everywhere p = true ↔
      p node = true ∧ ∀ child ∈ node.children, child.everywhere p = true := by
  cases node with
  | leaf l => simp [everywhere, children]
  | container c cs => rw [everywhere, Bool.and_eq_true, everywhereAll_iff]; rfl

/-- **What holds everywhere in a node holds everywhere in each of its parts.** -/
theorem everywhere_of_part {part node : Node} (hpart : Part part node)
    (h : node.everywhere p = true) : part.everywhere p = true := by
  induction hpart with
  | child hmem => exact ((everywhere_iff _).1 h).2 _ hmem
  | deeper hmem _ ih => exact ((everywhere_iff _).1 (ih h)).2 _ hmem

/-- A weaker condition holds everywhere, too. -/
theorem everywhere_mono {q : Node → Bool} (hpq : ∀ node, p node = true → q node = true)
    (node : Node) (h : node.everywhere p = true) : node.everywhere q = true := by
  obtain ⟨hnode, hinside⟩ := (everywhere_iff node).1 h
  refine (everywhere_iff node).2 ⟨hpq node hnode, fun child hchild => ?_⟩
  have hsmaller := sizeOf_lt_of_mem_children hchild
  exact everywhere_mono hpq child (hinside child hchild)
termination_by sizeOf node

end ChatMarkup.Node
