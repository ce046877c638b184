import ChatMarkup.Proofs.Render.Place

/-!
# Rules for kinds that do not occur

Rules are looked up by the kinds of the nodes that are written, and a rule has nothing written but
parts of its own node. So all that can be seen of a table of rules are the rules for the kinds that
occur in the document. Parts may be written under other rules than their node, but a change lays its
rules over any table alike, so tables that agree on the kinds that occur still do so afterwards.

Results:
* `kinds_subset_of_part`: a node has all kinds of its parts.
* `AgreeOn.overlay`: tables that agree still agree under another table.
* `writeNode_eq_of_agreeOn`: one node under two tables of rules.
* `write_depends_on_occurring_kinds`: a document under two tables of rules, and after a rule for
  another kind is set or taken away.
-/

namespace ChatMarkup

/-! ## Kinds that occur -/

namespace Node

mutual

/-- The kinds of a node and of all nodes inside it. -/
def kinds : Node → List Kind
  | leaf l => [l.kind]
  | container c children => c.kind :: kindsAll children

/-- The kinds of some nodes and of all nodes inside them. -/
def kindsAll : List Node → List Kind
  | [] => []
  | node :: rest => node.kinds ++ kindsAll rest

end

theorem kind_mem_kinds (node : Node) : node.kind ∈ node.kinds := by
  cases node with
  | leaf l => exact List.mem_singleton_self l.kind
  | container c children => exact List.mem_cons_self

theorem kinds_subset_kindsAll {node : Node} {nodes : List Node} (h : node ∈ nodes) :
    node.kinds ⊆ kindsAll nodes := by
  induction nodes with
  | nil => exact absurd h List.not_mem_nil
  | cons first rest ih =>
    rw [kindsAll]
    rcases List.mem_cons.1 h with rfl | hrest
    · exact List.subset_append_left _ _
    · exact fun k hk => List.mem_append_right _ (ih hrest hk)

theorem kinds_subset_of_mem_children {child node : Node} (h : child ∈ node.children) :
    child.kinds ⊆ node.kinds := by
  cases node with
  | leaf l => exact absurd h List.not_mem_nil
  | container c children => exact List.subset_cons_of_subset _ (kinds_subset_kindsAll h)

/-- **A node has all kinds of its parts**, at any depth. -/
theorem kinds_subset_of_part {part node : Node} (h : Part part node) : part.kinds ⊆ node.kinds := by
  induction h with
  | child hmem => exact kinds_subset_of_mem_children hmem
  | deeper hmem _ ih => exact List.Subset.trans (kinds_subset_of_mem_children hmem) ih

end Node

/-! ## Tables that agree -/

namespace KindTable

variable {α : Type} {kinds fewer : List Kind} {table other : KindTable α}

/-- Two tables have the same entries for some kinds. -/
def AgreeOn (kinds : List Kind) (table other : KindTable α) : Prop :=
  ∀ k ∈ kinds, table.get? k = other.get? k

theorem AgreeOn.mono (h : AgreeOn kinds table other) (hfewer : fewer ⊆ kinds) :
    AgreeOn fewer table other :=
  fun k hk => h k (hfewer hk)

/-- **Tables that agree still agree under another table.** -/
theorem AgreeOn.overlay (h : AgreeOn kinds table other) (upper : KindTable α) :
    AgreeOn kinds (table.overlay upper) (other.overlay upper) := by
  intro k hk
  rw [get?_overlay, get?_overlay, h k hk]

theorem agreeOn_insert {kind : Kind} (h : kind ∉ kinds) (table : KindTable α) (entry : α) :
    AgreeOn kinds (table.insert kind entry) table := by
  intro k hk
  have hne : k ≠ kind := fun he => h (he ▸ hk)
  rw [get?_insert, if_neg hne]

theorem agreeOn_erase {kind : Kind} (h : kind ∉ kinds) (table : KindTable α) :
    AgreeOn kinds (table.erase kind) table := by
  intro k hk
  have hne : k ≠ kind := fun he => h (he ▸ hk)
  rw [get?_erase, if_neg hne]

end KindTable

/-! ## Documents under two tables of rules -/

namespace Renderer

theorem separator_eq_of_scope {r r' : Renderer} (hscope : r.toScope = r'.toScope) :
    r.separator = r'.separator :=
  congrArg Scope.separator hscope

/-- A change leads from one place to one place, whatever rules are in force. -/
theorem toScope_apply {r r' : Renderer} (hscope : r.toScope = r'.toScope) (change : Change Rule) :
    (r.apply change).toScope = (r'.apply change).toScope := by
  have hstyle : r.style = r'.style := congrArg Scope.style hscope
  have hdepth : r.depth = r'.depth := congrArg Scope.depth hscope
  have hjoin : r.join = r'.join := congrArg Scope.join hscope
  simp only [apply, hstyle, hdepth, hjoin]

/-- **A node is written alike under two tables of rules** that agree on the kinds that occur in it,
at one place. -/
theorem writeNode_eq_of_agreeOn {r r' : Renderer} (hscope : r.toScope = r'.toScope) (node : Node)
    (hagree : KindTable.AgreeOn node.kinds r.rules r'.rules) :
    r.writeNode node = r'.writeNode node := by
  rw [writeNode_eq, writeNode_eq, hagree node.kind node.kind_mem_kinds]
  split
  · -- the rule sees one place, so it has the same parts written under the same changes
    rename_i rule hrule
    have hanswer : (fun parts (_ : ∀ part ∈ parts, Node.Part part node) change =>
        (r.apply change).write parts) = fun parts _ change => (r'.apply change).write parts := by
      funext parts own change
      have hplace := toScope_apply hscope change
      refine write_congr (separator_eq_of_scope hplace) fun part hpart => ?_
      have hsmaller := (own part hpart).sizeOf_lt
      have hpartAgree := hagree.mono (Node.kinds_subset_of_part (own part hpart))
      exact writeNode_eq_of_agreeOn hplace part (hpartAgree.overlay change.rules)
    rw [follow, follow, hscope, hanswer]
  · refine write_congr (separator_eq_of_scope hscope) fun child hchild => ?_
    have hsmaller := Node.sizeOf_lt_of_mem_children hchild
    exact writeNode_eq_of_agreeOn hscope child
      (hagree.mono (Node.kinds_subset_of_mem_children hchild))
termination_by sizeOf node

theorem write_eq_of_agreeOn {r r' : Renderer} (hscope : r.toScope = r'.toScope) {nodes : List Node}
    (hagree : KindTable.AgreeOn (Node.kindsAll nodes) r.rules r'.rules) :
    r.write nodes = r'.write nodes :=
  write_congr (separator_eq_of_scope hscope) fun node hnode =>
    writeNode_eq_of_agreeOn hscope node (hagree.mono (Node.kinds_subset_kindsAll hnode))

end Renderer

/-- **Only rules for kinds that occur can be seen.** For all documents: at two places with one
style, depth and separator, under two tables of rules that agree on the kinds that occur in the
document, it is written alike. So to set a rule for another kind, to replace it or to take it away
makes no difference. -/
theorem write_depends_on_occurring_kinds (nodes : List Node) :
    (∀ r r' : Renderer, r.toScope = r'.toScope →
        KindTable.AgreeOn (Node.kindsAll nodes) r.rules r'.rules → r.write nodes = r'.write nodes) ∧
      ∀ (r : Renderer) (kind : Kind), kind ∉ Node.kindsAll nodes →
        (∀ rule, Renderer.write { r with rules := r.rules.insert kind rule } nodes =
            r.write nodes) ∧
          Renderer.write { r with rules := r.rules.erase kind } nodes = r.write nodes := by
  refine ⟨fun r r' hscope => Renderer.write_eq_of_agreeOn hscope,
    fun r kind hkind => ⟨fun rule => ?_, ?_⟩⟩
  · refine Renderer.write_eq_of_agreeOn ?_ (KindTable.agreeOn_insert hkind r.rules rule)
    rfl
  · refine Renderer.write_eq_of_agreeOn ?_ (KindTable.agreeOn_erase hkind r.rules)
    rfl

/-- A table with text in it, inside a node for which a user's rule puts another rule for text in
force: neither images nor html occur. -/
theorem write_depends_on_occurring_kinds_table_in_quote :
    let framed : Rule := fun _ _ =>
      .ofChildren (.andThen .nested (.withRule .lineBreak fun _ _ => .text "/"))
        fun s => "<" ++ s ++ ">"
    let rules := standardRules.insert .blockquote framed
    let nodes : List Node :=
      [.container .blockquote [.container .paragraph [.text "a.", .leaf .lineBreak],
        .container .table [.container .tableRow [.container .tableCell [.text "b."]]]]]
    let r := Renderer.top {} rules
    let r' := Renderer.top {} ((rules.erase .image).insert .html fun _ _ => .text "html")
    (r.toScope = r'.toScope ∧ KindTable.AgreeOn (Node.kindsAll nodes) r.rules r'.rules ∧
        Kind.html ∉ Node.kindsAll nodes) ∧
      r.write nodes = r'.write nodes ∧
      Renderer.write { r with rules := r.rules.erase .html } nodes = r.write nodes := by
  intro framed rules nodes r r'
  have hkinds : ∀ k ∈ Node.kindsAll nodes, k ≠ .image ∧ k ≠ .html := by decide +kernel
  have hagree : KindTable.AgreeOn (Node.kindsAll nodes) r.rules r'.rules := by
    intro k hk
    obtain ⟨himage, hhtml⟩ := hkinds k hk
    simp [r, r', Renderer.top, himage, hhtml]
  have hhtml : Kind.html ∉ Node.kindsAll nodes := by decide +kernel
  obtain ⟨hsame, habsent⟩ := write_depends_on_occurring_kinds nodes
  exact ⟨⟨rfl, hagree, hhtml⟩, hsame r r' rfl hagree, (habsent r .html hhtml).2⟩

end ChatMarkup
