import ChatMarkup.Proofs.Document.Everywhere
import ChatMarkup.Render.Standard

/-!
# What a standard rule sees of a place

The standard rules look at the style and at the depth of the place where a node stands, never at
what was asked to stand between neighbours there, and for the parts of their node they ask for
something of their own. So it matters only to nodes without a rule what stands between neighbours,
and only what stands there, not whether somebody asked for it.

Results:
* `AsksOnly.run_congr`: a recipe has one text for two answers that agree on what it asks for.
* `standard_join`, `standard_asksOnly`: what the standard rules see and what they ask for.
* `write_joined_separator`: asking for the separator that is there anyway changes nothing.
* `writeNode_paragraph_eq`: a paragraph is written alike wherever it stands.
-/

namespace ChatMarkup

namespace Recipe

variable {node : Node} {p : Change Rule → Prop}

/-- All that a recipe has written is to be written under changes that satisfy `p`. -/
inductive AsksOnly (p : Change Rule → Prop) : Recipe node → Prop
  | text (s : String) : AsksOnly p (.text s)
  | ask {parts : List Node} {own : ∀ part ∈ parts, Node.Part part node} {change : Change Rule}
      {next : String → Recipe node} :
      p change → (∀ s, AsksOnly p (next s)) → AsksOnly p (.ask parts own change next)

/-- **A recipe has one text for two answers** that agree on what it asks for. -/
theorem AsksOnly.run_congr {recipe : Recipe node} (h : recipe.AsksOnly p)
    {answer answer' :
      (parts : List Node) → (∀ part ∈ parts, Node.Part part node) → Change Rule → String}
    (hanswer : ∀ parts own change, p change → answer parts own change = answer' parts own change) :
    recipe.run answer = recipe.run answer' := by
  induction h with
  | text => rfl
  | ask hp _ ih => rw [run_ask, run_ask, hanswer _ _ _ hp, ih]

theorem asksOnly_ofChildren {change : Change Rule} (h : p change) (finish : String → String) :
    (ofChildren change finish : Recipe node).AsksOnly p :=
  .ask h fun _ => .text _

theorem asksOnly_askEach {change : Change Rule} (h : p change) {next : List String → Recipe node}
    (hnext : ∀ texts, (next texts).AsksOnly p)
    (wishes : List { parts : List Node // ∀ part ∈ parts, Node.Part part node }) :
    (askEach change next wishes).AsksOnly p := by
  induction wishes generalizing next with
  | nil => exact hnext []
  | cons parts rest ih => exact .ask h fun s => ih fun texts => hnext (s :: texts)

end Recipe

/-! ## The standard rules -/

section Standard

variable {node : Node} {rule : Rule}

/-- A standard rule does not see what was asked to stand between neighbours. -/
theorem standard_join (h : standardRules.get? node.kind = some rule) (scope : Scope)
    (join : Option String) : rule node { scope with join := join } = rule node scope := by
  cases node with
  | leaf l => cases l <;> cases h <;> rfl
  | container c children => cases c <;> cases h <;> rfl

/-- A standard rule says itself what is to stand between the parts of its node. -/
theorem standard_asksOnly (h : standardRules.get? node.kind = some rule) (scope : Scope) :
    (rule node scope).AsksOnly fun change => change.join ≠ none := by
  cases node with
  | leaf l => cases l <;> cases h <;> exact .text _
  | container c children =>
    cases c with
    | list ordered start =>
      cases h
      exact Recipe.asksOnly_askEach nofun (fun _ => .text _) _
    | _ => cases h <;> exact Recipe.asksOnly_ofChildren nofun _

end Standard

/-! ## Renderers -/

namespace Renderer

/-- Nodes that are written alike at two places with the same separator are so one after the
other. -/
theorem write_congr {r r' : Renderer} (hsep : r.separator = r'.separator) {nodes : List Node}
    (h : ∀ node ∈ nodes, r.writeNode node = r'.writeNode node) :
    r.write nodes = r'.write nodes := by
  unfold write
  rw [hsep]
  congr 1
  exact List.map_congr_left h

/-- Neighbouring nodes are written from their texts at the same place, each by itself. -/
theorem write_eq_intercalate (r : Renderer) (nodes : List Node) :
    r.write nodes = r.separator.intercalate (nodes.map fun node => r.write [node]) := by
  simp only [write_singleton]
  rfl

/-- After a change that asks for a separator, it does not matter which one was asked for before. -/
theorem apply_joined_apply (r : Renderer) (sep : String) {change : Change Rule}
    (h : change.join ≠ none) : (r.apply (.joined sep)).apply change = r.apply change := by
  obtain ⟨join, hjoin⟩ := Option.ne_none_iff_exists'.1 h
  rw [← apply_andThen]
  simp [apply, Change.andThen, Change.joined, hjoin]

/-- To ask for the separator that is there anyway changes nothing for a node. -/
theorem writeNode_joined_separator {r : Renderer} (hr : r.rules = standardRules) (node : Node) :
    (r.apply (.joined r.separator)).writeNode node = r.writeNode node := by
  have hrules : (r.apply (.joined r.separator)).rules = standardRules := hr
  rw [writeNode_eq, writeNode_eq, hrules, hr]
  cases hrule : standardRules.get? node.kind with
  | some rule =>
    have hscope : rule node (r.apply (.joined r.separator)).toScope = rule node r.toScope :=
      standard_join hrule r.toScope (some r.separator)
    show (rule node _).run _ = _
    rw [hscope]
    refine (standard_asksOnly hrule r.toScope).run_congr fun parts own change hchange => ?_
    rw [apply_joined_apply r _ hchange]
  | none =>
    have hsep : (r.apply (.joined r.separator)).separator = r.separator := rfl
    refine write_congr hsep fun child hchild => ?_
    have hsmaller := Node.sizeOf_lt_of_mem_children hchild
    exact writeNode_joined_separator hr child
termination_by sizeOf node

/-- **To ask for the separator that is there anyway changes nothing.** -/
theorem write_joined_separator {r : Renderer} (hr : r.rules = standardRules) (nodes : List Node) :
    (r.apply (.joined r.separator)).write nodes = r.write nodes := by
  have hsep : (r.apply (.joined r.separator)).separator = r.separator := rfl
  exact write_congr hsep fun node _ => writeNode_joined_separator hr node

/-! ### Lines -/

/-- A part of a line is written alike wherever it stands: what it has inside is written with nothing
between neighbours, and only lists look at how deep they are. -/
theorem writeNode_eq_of_isInline {r r' : Renderer} (hr : r.rules = standardRules)
    (hr' : r'.rules = standardRules) (hstyle : r.style = r'.style) (node : Node)
    (hn : node.everywhere Node.isInline = true) : r.writeNode node = r'.writeNode node := by
  obtain ⟨hhere, hinside⟩ := (Node.everywhere_iff node).1 hn
  rw [writeNode_eq, writeNode_eq, hr, hr']
  cases node with
  | leaf l =>
    cases l with
    | image url alt =>
      show linkTo (Rule.imageLabel r.style alt) url = linkTo (Rule.imageLabel r'.style alt) url
      rw [hstyle]
    | footnoteReference label =>
      show r.write [] = r'.write []
      rw [write_nil, write_nil]
    | codeBlock | thematicBreak | html => cases hhere
    | _ => rfl
  | container c children =>
    have hchildren : (r.apply .inline).write children = (r'.apply .inline).write children := by
      have hsep : (r.apply .inline).separator = (r'.apply .inline).separator := rfl
      refine write_congr hsep fun child hchild => ?_
      have hsmaller : sizeOf child < sizeOf (Node.container c children) :=
        Node.sizeOf_lt_of_mem_children hchild
      exact @writeNode_eq_of_isInline (r.apply .inline) (r'.apply .inline) hr hr' hstyle child
        (hinside child hchild)
    cases c with
    | emphasis => exact congrArg (fun s => "_" ++ s ++ "_") hchildren
    | strong => exact congrArg (fun s => "*" ++ s ++ "*") hchildren
    | strikethrough => exact congrArg (fun s => "~" ++ s ++ "~") hchildren
    | link url => exact congrArg (linkTo · url) hchildren
    | _ => cases hhere
termination_by sizeOf node

/-- **A paragraph is written alike wherever it stands.** -/
theorem writeNode_paragraph_eq {r r' : Renderer} (hr : r.rules = standardRules)
    (hr' : r'.rules = standardRules) (hstyle : r.style = r'.style) {line : List Node}
    (hline : ∀ node ∈ line, node.everywhere Node.isInline = true) :
    r.writeNode (.container .paragraph line) = r'.writeNode (.container .paragraph line) := by
  have hsep : (r.apply .inline).separator = (r'.apply .inline).separator := rfl
  rw [writeNode_eq, writeNode_eq, hr, hr']
  exact write_congr hsep fun node hnode =>
    @writeNode_eq_of_isInline (r.apply .inline) (r'.apply .inline) hr hr' hstyle node
      (hline node hnode)

end Renderer

end ChatMarkup
