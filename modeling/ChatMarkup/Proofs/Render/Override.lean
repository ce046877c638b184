import ChatMarkup.Converter
import ChatMarkup.Proofs.Render.Form

/-!
# Rules that a user replaces

When a user replaces the rule for a kind of leaf by one that always writes the same, nothing of what
these leaves carry can be seen any more: the standard rules for containers have their parts written
by the rules in force, and so the user's rule is followed at any depth. Tables are the exception.
They put a rule for text of their own in force, which escapes text for the fence around the table,
and it is laid over the user's rule as well as over the standard one.

Results:
* `Overridden.apply`: the changes that standard rules ask for keep the user's rule in force, unless
  it is for text and the change is that of a table.
* `writeNode_redact`: nodes are written alike with and without what the user's leaves carry.
* `writeNode_table_of_override`: a table is written as if the rule for text had not been replaced.
* `write_eq_of_redact_eq`: both, for converters with a rule set by a user.
* `table_text_escapes_override`: a text in a table, where the rule of the user is not followed.
-/

namespace ChatMarkup

/-! ## What leaves carry -/

/-- A leaf that carries nothing, of the same kind. -/
def Leaf.withoutPayload : Leaf → Leaf
  | inlineCode _ => inlineCode ""
  | codeBlock .. => codeBlock none ""
  | image .. => image "" none
  | text _ => text ""
  | html _ => html ""
  | footnoteReference _ => footnoteReference ""
  | thematicBreak => thematicBreak
  | lineBreak => lineBreak

theorem Leaf.kind_withoutPayload (l : Leaf) : l.withoutPayload.kind = l.kind := by
  cases l <;> rfl

namespace Node

mutual

/-- A node in which the leaves of a kind carry nothing. Tables are left as they are unless
`inTables` is set. -/
def redact (kind : Kind) (inTables : Bool) : Node → Node
  | leaf l => leaf (if l.kind = kind then l.withoutPayload else l)
  | container c children =>
    if c = .table ∧ inTables = false then container c children
    else container c (redactAll kind inTables children)

/-- Nodes in which the leaves of a kind carry nothing. -/
def redactAll (kind : Kind) (inTables : Bool) : List Node → List Node
  | [] => []
  | node :: rest => node.redact kind inTables :: redactAll kind inTables rest

end

variable {kind : Kind} {inTables : Bool}

theorem redactAll_eq_map (nodes : List Node) :
    redactAll kind inTables nodes = nodes.map (redact kind inTables) := by
  induction nodes with
  | nil => rfl
  | cons node rest ih => rw [redactAll, ih, List.map_cons]

theorem redact_container {c : Container} (h : ¬ (c = .table ∧ inTables = false))
    (children : List Node) :
    (container c children).redact kind inTables =
      container c (children.map (redact kind inTables)) := by
  rw [redact, if_neg h, redactAll_eq_map]

theorem kind_redact (node : Node) : (node.redact kind inTables).kind = node.kind := by
  cases node with
  | leaf l =>
    rw [redact]
    split
    · exact l.kind_withoutPayload
    · rfl
  | container c children =>
    rw [redact]
    split
    · rfl
    · rfl

end Node

open Node

variable {kind : Kind} {shown : String} {inTables : Bool}

namespace Rule

theorem checked?_redact (item : Node) : checked? (item.redact kind inTables) = checked? item := by
  cases item with
  | leaf l => rfl
  | container c children =>
    rw [redact]
    split
    · rfl
    · cases c <;> rfl

theorem itemContents_of_kind_ne {item : Node} (h : item.kind ≠ .listItem) :
    itemContents item = [item] := by
  unfold itemContents
  split
  · exact absurd rfl h
  · rfl

theorem itemContents_redact (item : Node) :
    itemContents (item.redact kind inTables) =
      (itemContents item).map (redact kind inTables) := by
  by_cases hitem : item.kind = .listItem
  · cases item with
    | leaf l => cases l <;> cases hitem
    | container c children =>
      cases c with
      | listItem checked =>
        rw [redact_container (by simp)]
        rfl
      | _ => cases hitem
  · have hredacted : (item.redact kind inTables).kind ≠ .listItem := by
      rwa [kind_redact]
    rw [itemContents_of_kind_ne hitem, itemContents_of_kind_ne hredacted, List.map_singleton]

end Rule

/-! ## Rules in force -/

/-- Following the rule gives `shown`, whatever the node and wherever it stands. -/
def Rule.IsConstant (rule : Rule) (shown : String) : Prop :=
  ∀ (r : Renderer) (node : Node), r.follow rule node = shown

/-- All nodes of a kind are written as `shown`, and containers of other kinds by the standard
rules. -/
structure Overridden (kind : Kind) (shown : String) (rules : KindTable Rule) : Prop where
  own : ∃ rule, rules.get? kind = some rule ∧ rule.IsConstant shown
  containers : ∀ c : Container, c.kind ≠ kind → rules.get? c.kind = standardRules.get? c.kind

namespace Overridden

variable {r : Renderer}

theorem writeNode_eq (h : Overridden kind shown r.rules) {node : Node} (hnode : node.kind = kind) :
    r.writeNode node = shown := by
  obtain ⟨rule, hrule, hconstant⟩ := h.own
  rw [Renderer.writeNode_eq, hnode, hrule]
  exact hconstant r node

/-- **A change keeps the user's rule in force** if it brings no rules, or those of tables and the
user's rule is not for text. -/
theorem apply (h : Overridden kind shown r.rules) {change : Change Rule}
    (hchange : change.rules = .empty ∨ kind ≠ .text ∧ change.rules = fenceRules) :
    Overridden kind shown (r.apply change).rules := by
  rcases hchange with hempty | ⟨hkind, htable⟩
  · have hrules : (r.apply change).rules = r.rules := by
      simp [Renderer.apply, hempty]
    rw [hrules]
    exact h
  · have hother (k : Kind) (hk : k ≠ .text) : (r.apply change).rules.get? k = r.rules.get? k := by
      simp [Renderer.apply, htable, fenceRules, hk]
    constructor
    · rw [hother kind hkind]
      exact h.own
    · intro c hc
      have htext : c.kind ≠ .text := by cases c <;> simp [Container.kind]
      rw [hother c.kind htext]
      exact h.containers c hc

end Overridden

/-- **Nodes are written alike with and without what the user's leaves carry**, inside tables too
unless the user's rule is for text. -/
theorem writeNode_redact (htables : inTables = true → kind ≠ .text) {r : Renderer}
    (hr : Overridden kind shown r.rules) (node : Node) :
    r.writeNode (node.redact kind inTables) = r.writeNode node := by
  by_cases hkind : node.kind = kind
  · rw [hr.writeNode_eq hkind, hr.writeNode_eq (by rw [kind_redact, hkind])]
  cases node with
  | leaf l =>
    have hleaf : l.kind ≠ kind := hkind
    rw [redact, if_neg hleaf]
  | container c children =>
    by_cases hkept : c = .table ∧ inTables = false
    · rw [redact, if_pos hkept]
    rw [redact_container hkept]
    refine Renderer.writeNode_container_map (hr.containers c hkind) Rule.checked?_redact
      Rule.itemContents_redact fun change hchange part hpart => ?_
    have hinside : Overridden kind shown (r.apply change).rules := by
      refine hr.apply (hchange.imp_right ?_)
      rintro ⟨rfl, hrules⟩
      exact ⟨htables (by simpa using hkept), hrules⟩
    have hsmaller : sizeOf part < 1 + sizeOf c + sizeOf children := by
      simpa using hpart.sizeOf_lt
    exact writeNode_redact htables hinside part
termination_by sizeOf node

/-! ## Converters -/

/-- **A table is written as if the rule for text had not been replaced**, wherever it stands. -/
theorem writeNode_table_of_override (scope : Scope) (rule : Rule) (rows : List Node) :
    Renderer.writeNode ⟨scope, standardRules.overlay (KindTable.empty.insert .text rule)⟩
        (.container .table rows) =
      Renderer.writeNode ⟨scope, standardRules⟩ (.container .table rows) := by
  have hrules : (standardRules.overlay (KindTable.empty.insert .text rule)).overlay fenceRules =
      standardRules.overlay fenceRules := by
    refine KindTable.ext (funext fun k => ?_)
    by_cases hk : k = .text
    · simp [fenceRules, hk]
    · simp [fenceRules, hk]
  let change : Change Rule := .andThen (.joined "\n") (.withRule .text Rule.codeText)
  have hinside : Renderer.apply ⟨scope, standardRules.overlay (KindTable.empty.insert .text rule)⟩
      change = Renderer.apply ⟨scope, standardRules⟩ change := by
    have hchange : change.rules = fenceRules := KindTable.empty_overlay _
    simp only [Renderer.apply, hchange, hrules]
  rw [Renderer.writeNode_eq, Renderer.writeNode_eq]
  show "```\n" ++ (Renderer.apply _ change).write rows ++ "\n```" = _
  rw [hinside]
  rfl

/-- The rules of a converter for which the rule for one kind was set. -/
theorem overridden_withRule {rule : Rule} (hrule : rule.IsConstant shown) (c : Converter)
    (hc : c.rules = .empty) : Overridden kind shown (c.withRule kind rule).renderer.rules where
  own := by
    refine ⟨rule, ?_, hrule⟩
    rw [Converter.get?_rules_renderer, Converter.withRule, KindTable.get?_insert, if_pos rfl]
    rfl
  containers container hcontainer := by
    rw [Converter.get?_rules_renderer, Converter.withRule, KindTable.get?_insert,
      if_neg hcontainer, hc]
    rfl

/-- **The rule that a user has set is followed everywhere but for text in tables.** For all styles,
all kinds and all rules that write the same of every node: two documents that differ only in what
leaves of the kind carry are written alike, where texts inside tables count as different if the
kind is text. For then tables are written as if the user had not set the rule. -/
theorem write_eq_of_redact_eq (style : Style) {rule : Rule} (hrule : rule.IsConstant shown)
    {as bs : List Node}
    (h : redactAll kind (kind != .text) as = redactAll kind (kind != .text) bs) :
    let c := ({ style := style } : Converter).withRule kind rule
    c.renderer.write as = c.renderer.write bs ∧
      (kind = .text → ∀ (scope : Scope) (rows : List Node),
        Renderer.writeNode ⟨scope, c.renderer.rules⟩ (.container .table rows) =
          Renderer.writeNode ⟨scope, standardRules⟩ (.container .table rows)) := by
  intro c
  have hc : Overridden kind shown c.renderer.rules := overridden_withRule hrule _ rfl
  have hredact (nodes : List Node) :
      c.renderer.write (redactAll kind (kind != .text) nodes) = c.renderer.write nodes := by
    rw [redactAll_eq_map]
    exact Renderer.write_map fun node _ => writeNode_redact (by simp) hc node
  constructor
  · rw [← hredact as, h, hredact]
  · rintro rfl scope rows
    exact writeNode_table_of_override scope rule rows

/-- Texts in a paragraph and in a quote in a list, with the same text in a table beside them. -/
theorem write_eq_of_redact_eq_beside_table :
    let rule : Rule := fun _ _ => .text "x"
    let table : Node := .container .table
      [.container .tableRow [.container .tableCell [.text "\x60"]]]
    let document (s t : String) : List Node :=
      [.container .paragraph [.container .strong [.text s], .leaf (.inlineCode "c")],
        .container (.list false none)
          [.container (.listItem (some true)) [.container .blockquote [.text t], table]]]
    let as := document "a" "b"
    let bs := document "*" ""
    let c := ({} : Converter).withRule .text rule
    (rule.IsConstant "x" ∧
        redactAll .text (Kind.text != .text) as = redactAll .text (Kind.text != .text) bs) ∧
      c.renderer.write as = c.renderer.write bs ∧
      (Kind.text = .text → ∀ (scope : Scope) (rows : List Node),
        Renderer.writeNode ⟨scope, c.renderer.rules⟩ (.container .table rows) =
          Renderer.writeNode ⟨scope, standardRules⟩ (.container .table rows)) := by
  intro rule table document as bs c
  have hrule : rule.IsConstant "x" := fun _ _ => rfl
  have hsame : redactAll .text (Kind.text != .text) as =
      redactAll .text (Kind.text != .text) bs := by decide +kernel
  exact ⟨⟨hrule, hsame⟩, write_eq_of_redact_eq {} hrule hsame⟩

/-- **A text in a table is not written by the rule of the user**: two tables that differ in one text
only are written differently. -/
theorem table_text_escapes_override :
    let rule : Rule := fun _ _ => .text "x"
    let c := ({} : Converter).withRule .text rule
    let table (s : String) : Node :=
      .container .table [.container .tableRow [.container .tableCell [.text s]]]
    rule.IsConstant "x" ∧
      redactAll .text true [table "a"] = redactAll .text true [table "b"] ∧
      c.renderer.write [table "a"] = "\x60\x60\x60\n| a |\n\x60\x60\x60" ∧
      c.renderer.write [table "a"] ≠ c.renderer.write [table "b"] := by
  intro rule c table
  have hrule : rule.IsConstant "x" := fun _ _ => rfl
  exact ⟨hrule, by decide +kernel, by decide +kernel, by decide +kernel⟩

end ChatMarkup
