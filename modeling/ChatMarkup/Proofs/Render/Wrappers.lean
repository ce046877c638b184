import Mathlib.Logic.Relation
import ChatMarkup.Render.Standard

/-!
# Containers without a rule

A container without a rule is written as the nodes inside it, joined as they would be next to its
own neighbours. So it might as well not be there: it can make way for the nodes inside it
(`Unwraps`), and they in turn for those inside them, wherever such containers stand among each
other. Only one that is empty leaves a trace, an empty text between two separators.

Results:
* `unwraps_unwrappedAll`, `eq_unwrappedAll_of_unwraps`: taking away such containers, one by one and
  in whatever order, until there is none left, comes to one result.
* `Renderer.write_of_unwraps`: one of them can be taken away.
* `write_unwrapped`: so can any number of them, down to all.
-/

namespace ChatMarkup

namespace Node

variable {rules : KindTable Rule}

/-- Whether a node is a container without a rule and has something in it. -/
def isWrapper (rules : KindTable Rule) : Node → Bool
  | leaf _ => false
  | container c children => (rules.get? c.kind).isNone && !children.isEmpty

theorem isWrapper_container {c : Container} {children : List Node} :
    (container c children).isWrapper rules = true ↔ rules.get? c.kind = none ∧ children ≠ [] := by
  simp [isWrapper]

mutual

/-- What is left of a node when wrappers make way for what is inside them. -/
def unwrapped (rules : KindTable Rule) : Node → List Node
  | leaf l => [leaf l]
  | container c children =>
    if (container c children).isWrapper rules then unwrappedAll rules children
    else [container c children]

/-- What is left of neighbouring nodes when wrappers make way for what is inside them. -/
def unwrappedAll (rules : KindTable Rule) : List Node → List Node
  | [] => []
  | node :: rest => node.unwrapped rules ++ unwrappedAll rules rest

end

theorem unwrappedAll_append (nodes rest : List Node) :
    unwrappedAll rules (nodes ++ rest) = unwrappedAll rules nodes ++ unwrappedAll rules rest := by
  induction nodes with
  | nil => rfl
  | cons node nodes ih => rw [List.cons_append, unwrappedAll, unwrappedAll, ih, List.append_assoc]

theorem unwrapped_of_isWrapper {node : Node} (h : node.isWrapper rules = true) :
    node.unwrapped rules = unwrappedAll rules node.children := by
  cases node with
  | leaf l => cases h
  | container c children => rw [unwrapped, if_pos h]; rfl

theorem unwrapped_of_not_isWrapper {node : Node} (h : node.isWrapper rules = false) :
    node.unwrapped rules = [node] := by
  cases node with
  | leaf l => rfl
  | container c children => rw [unwrapped, h]; rfl

/-- Where there is no wrapper, none makes way. -/
theorem unwrappedAll_eq_self {nodes : List Node}
    (h : ∀ node ∈ nodes, node.isWrapper rules = false) : unwrappedAll rules nodes = nodes := by
  induction nodes with
  | nil => rfl
  | cons node rest ih =>
    rw [unwrappedAll, unwrapped_of_not_isWrapper (h node List.mem_cons_self),
      ih fun n hn => h n (List.mem_cons_of_mem node hn), List.singleton_append]

mutual

theorem isWrapper_of_mem_unwrapped (node : Node) :
    ∀ left ∈ node.unwrapped rules, left.isWrapper rules = false := by
  cases node with
  | leaf l =>
    intro left hleft
    rw [List.mem_singleton.1 hleft]
    rfl
  | container c children =>
    rw [unwrapped]
    split
    · exact isWrapper_of_mem_unwrappedAll children
    · rename_i hkept
      intro left hleft
      rw [List.mem_singleton.1 hleft]
      simpa using hkept

/-- No wrapper is left. -/
theorem isWrapper_of_mem_unwrappedAll (nodes : List Node) :
    ∀ left ∈ unwrappedAll rules nodes, left.isWrapper rules = false := by
  cases nodes with
  | nil => exact fun left hleft => absurd hleft List.not_mem_nil
  | cons node rest =>
    intro left hleft
    rcases List.mem_append.1 hleft with hnode | hrest
    · exact isWrapper_of_mem_unwrapped node left hnode
    · exact isWrapper_of_mem_unwrappedAll rest left hrest

end

end Node

open Node

/-! ## One wrapper after the other -/

/-- One wrapper among neighbouring nodes makes way for the nodes inside it. -/
inductive Unwraps (rules : KindTable Rule) : List Node → List Node → Prop
  | unwrap {wrapper : Node} (h : wrapper.isWrapper rules = true) (before after : List Node) :
    Unwraps rules (before ++ [wrapper] ++ after) (before ++ wrapper.children ++ after)

section Unwraps

variable {rules : KindTable Rule} {nodes nodes' : List Node}

theorem Unwraps.between (h : Unwraps rules nodes nodes') (before after : List Node) :
    Unwraps rules (before ++ nodes ++ after) (before ++ nodes' ++ after) := by
  obtain ⟨hwrapper, left, right⟩ := h
  have hstep := Unwraps.unwrap hwrapper (before ++ left) (right ++ after)
  simpa [List.append_assoc] using hstep

theorem unwraps_between (h : Relation.ReflTransGen (Unwraps rules) nodes nodes')
    (before after : List Node) :
    Relation.ReflTransGen (Unwraps rules) (before ++ nodes ++ after) (before ++ nodes' ++ after) :=
  h.lift (fun nodes => before ++ nodes ++ after) fun _ _ hstep => hstep.between before after

mutual

theorem unwraps_unwrapped (node : Node) :
    Relation.ReflTransGen (Unwraps rules) [node] (node.unwrapped rules) := by
  cases node with
  | leaf l => exact .refl
  | container c children =>
    rw [unwrapped]
    split
    · rename_i hwrapper
      have hfirst := Unwraps.unwrap hwrapper [] []
      rw [List.append_nil, List.append_nil] at hfirst
      exact .head hfirst (unwraps_unwrappedAll children)
    · exact .refl

/-- **All wrappers can be taken away one by one.** -/
theorem unwraps_unwrappedAll (nodes : List Node) :
    Relation.ReflTransGen (Unwraps rules) nodes (unwrappedAll rules nodes) := by
  cases nodes with
  | nil => exact .refl
  | cons node rest =>
    have hnode := unwraps_between (unwraps_unwrapped node) [] rest
    have hrest := unwraps_between (unwraps_unwrappedAll rest) (node.unwrapped rules) []
    rw [List.append_nil, List.append_nil] at hrest
    exact hnode.trans hrest

end

/-- What is left in the end does not depend on a wrapper that is taken away before. -/
theorem Unwraps.unwrappedAll_eq (h : Unwraps rules nodes nodes') :
    unwrappedAll rules nodes' = unwrappedAll rules nodes := by
  obtain ⟨hwrapper, before, after⟩ := h
  simp only [unwrappedAll_append]
  rw [unwrappedAll, unwrapped_of_isWrapper hwrapper, unwrappedAll, List.append_nil]

/-- **Whatever wrappers are taken away first, the result is the same** once there is none left. -/
theorem eq_unwrappedAll_of_unwraps (h : Relation.ReflTransGen (Unwraps rules) nodes nodes')
    (hleft : ∀ node ∈ nodes', node.isWrapper rules = false) :
    nodes' = unwrappedAll rules nodes := by
  have hsame : unwrappedAll rules nodes' = unwrappedAll rules nodes := by
    clear hleft
    induction h with
    | refl => rfl
    | tail _ hstep ih => rw [hstep.unwrappedAll_eq, ih]
  rw [← hsame, unwrappedAll_eq_self hleft]

end Unwraps

/-! ## Writing without wrappers -/

namespace Renderer

variable {r : Renderer} {nodes nodes' : List Node}

theorem writeNode_of_isWrapper {node : Node} (h : node.isWrapper r.rules = true) :
    node.children ≠ [] ∧ r.writeNode node = r.write node.children := by
  cases node with
  | leaf l => cases h
  | container c children =>
    obtain ⟨hrule, hne⟩ := isWrapper_container.1 h
    refine ⟨hne, ?_⟩
    rw [writeNode_eq]
    simp only [kind, hrule]

/-- **A wrapper can be taken away.** -/
theorem write_of_unwraps (h : Unwraps r.rules nodes nodes') : r.write nodes' = r.write nodes := by
  obtain ⟨hwrapper, before, after⟩ := h
  obtain ⟨hne, htext⟩ := writeNode_of_isWrapper hwrapper
  unfold write
  simp only [List.map_append, List.map_singleton, htext]
  exact (Text.intercalate_group (by simpa using hne) _ _).symm

end Renderer

/-- **Containers without a rule are transparent**, at all places and under all rules. One that has
something in it can make way for the nodes inside it, among whatever neighbours, and the text stays
the same. So it stays the same when any number of them make way, one after the other, those that
stand in others included. When none is left there is one result, in whatever order it was come to,
and it is written like the nodes at the beginning. -/
theorem write_unwrapped (r : Renderer) :
    (∀ (before after : List Node) (c : Container) (children : List Node),
        r.rules.get? c.kind = none → children ≠ [] →
          r.write (before ++ [.container c children] ++ after) =
            r.write (before ++ children ++ after)) ∧
      ∀ nodes : List Node,
        (∀ nodes', Relation.ReflTransGen (Unwraps r.rules) nodes nodes' →
            r.write nodes' = r.write nodes) ∧
          (∀ nodes', Relation.ReflTransGen (Unwraps r.rules) nodes nodes' ∧
              (∀ node ∈ nodes', node.isWrapper r.rules = false) ↔
            nodes' = unwrappedAll r.rules nodes) ∧
          r.write (unwrappedAll r.rules nodes) = r.write nodes := by
  have hmany {nodes nodes' : List Node} (h : Relation.ReflTransGen (Unwraps r.rules) nodes nodes') :
      r.write nodes' = r.write nodes := by
    induction h with
    | refl => rfl
    | tail _ hstep ih => rw [Renderer.write_of_unwraps hstep, ih]
  refine ⟨fun before after c children hrule hne => ?_,
    fun nodes => ⟨fun nodes' => hmany, fun nodes' => ⟨?_, ?_⟩, hmany (unwraps_unwrappedAll nodes)⟩⟩
  · have hwrapper := isWrapper_container.2 ⟨hrule, hne⟩
    exact (Renderer.write_of_unwraps (.unwrap hwrapper before after)).symm
  · exact fun h => eq_unwrappedAll_of_unwraps h.1 h.2
  · rintro rfl
    exact ⟨unwraps_unwrappedAll nodes, isWrapper_of_mem_unwrappedAll nodes⟩

/-- A list item with a footnote in it, between paragraphs, and in the footnote a reference that
leaves nothing: the separators are the same with and without the containers. -/
theorem write_unwrapped_footnote_in_item :
    let r := (Renderer.top {} standardRules).apply (.joined "; ")
    let footnote : Container := .footnoteDefinition "1"
    let reference : Node := .leaf (.footnoteReference "2")
    let contents : List Node := [.container footnote [.text "b", reference, .text "c"], .text "d"]
    let nodes : List Node := [.text "a", .container (.listItem none) contents, .text "e"]
    (r.rules.get? Kind.listItem = none ∧ contents ≠ []) ∧
      r.write nodes = r.write ([.text "a"] ++ contents ++ [.text "e"]) ∧
      unwrappedAll r.rules nodes =
        [.text "a", .text "b", reference, .text "c", .text "d", .text "e"] ∧
      r.write (unwrappedAll r.rules nodes) = r.write nodes ∧ r.write nodes = "a; b; ; c; d; e" := by
  intro r footnote reference contents nodes
  obtain ⟨hone, hmany⟩ := write_unwrapped r
  have hrule : r.rules.get? Kind.listItem = none := rfl
  have hne : contents ≠ [] := List.cons_ne_nil _ _
  exact ⟨⟨hrule, hne⟩, hone [.text "a"] [.text "e"] (.listItem none) contents hrule hne,
    by decide +kernel, (hmany nodes).2.2, by decide +kernel⟩

end ChatMarkup
