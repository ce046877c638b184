import ChatMarkup.Render.Recipe

/-!
# Renderers

A renderer is a place in a document together with the rules in force there. It writes a node by the
rule for its kind; a node of a kind without a rule is written as its children, at the same place.

Results:
* `writeNode_eq`: how one node is written, in terms of writing lists of nodes.
* `apply_none`, `apply_andThen`: changing circumstances step by step or at once is the same.
-/

namespace ChatMarkup

/-- A place in a document and the rules in force there. -/
structure Renderer extends Scope where
  rules : KindTable Rule

namespace Renderer

/-- The renderer at the top of a document. -/
def top (style : Style) (rules : KindTable Rule) : Renderer where
  style := style
  rules := rules

/-- The renderer after a change of circumstances. -/
def apply (r : Renderer) (change : Change Rule) : Renderer where
  style := r.style
  depth := r.depth + change.deeper
  join := change.join <|> r.join
  rules := r.rules.overlay change.rules

/-- Writes one node. -/
def writeNode (r : Renderer) (node : Node) : String :=
  match r.rules.get? node.kind with
  | some rule =>
    (rule node r.toScope).run fun parts _ change =>
      (r.apply change).separator.intercalate
        (parts.attach.map fun ⟨part, _⟩ => (r.apply change).writeNode part)
  | none => r.separator.intercalate (node.children.attach.map fun ⟨child, _⟩ => r.writeNode child)
termination_by sizeOf node
decreasing_by
  · exact (‹∀ part ∈ parts, Node.Part part node› part (by assumption)).sizeOf_lt
  · exact Node.sizeOf_lt_of_mem_children (by assumption)

/-- Writes neighbouring nodes, with the separator of the place between them. -/
def write (r : Renderer) (nodes : List Node) : String :=
  r.separator.intercalate (nodes.map r.writeNode)

/-- Writes a node by a given rule, whatever rule its kind has. -/
def follow (r : Renderer) (rule : Rule) (node : Node) : String :=
  (rule node r.toScope).run fun parts _ change => (r.apply change).write parts

theorem writeNode_eq (r : Renderer) (node : Node) :
    r.writeNode node =
      match r.rules.get? node.kind with
      | some rule => r.follow rule node
      | none => r.write node.children := by
  rw [writeNode]
  split <;> simp [follow, write]

@[simp] theorem write_nil (r : Renderer) : r.write [] = "" := by
  simp [write]

@[simp] theorem write_singleton (r : Renderer) (node : Node) :
    r.write [node] = r.writeNode node := by
  simp [write]

/-- Where nothing stands between neighbours, each is written right behind the one before. -/
theorem write_cons_of_separator_eq {r : Renderer} (h : r.separator = "") (node : Node)
    (rest : List Node) : r.write (node :: rest) = r.writeNode node ++ r.write rest := by
  rw [write, write, h, List.map_cons]
  by_cases hnil : rest.map r.writeNode = []
  · simp [hnil]
  · rw [String.intercalate_cons_of_ne_nil hnil, String.append_empty]

@[simp] theorem apply_none (r : Renderer) : r.apply .none = r := by
  simp [apply, Change.none, KindTable.overlay]

theorem apply_andThen (r : Renderer) (first second : Change Rule) :
    r.apply (first.andThen second) = (r.apply first).apply second := by
  simp [apply, Change.andThen, KindTable.overlay, Nat.add_assoc]
  refine ⟨?_, ?_⟩
  · cases second.join <;> rfl
  · funext k
    cases second.rules.get? k <;> rfl

end Renderer

end ChatMarkup
