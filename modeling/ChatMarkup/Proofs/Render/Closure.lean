import ChatMarkup.Converter
import ChatMarkup.Proofs.Document.Everywhere
import ChatMarkup.Proofs.Message.Pieces

/-!
# Classes of texts that the standard rules do not leave

The standard rules write every document from a few kinds of pieces: escaped texts, code, links and
their own marks, put together, quoted and trimmed. A class of texts that is closed under these
steps (`RuleClosed`) has everything the rules write in it, whatever the document. A class that is
closed under all of them but quoting (`TextClosed`) has in it what they write of documents without
quotes. The walk down the tree is made here, once for all such classes.

Tables are left out, because inside them other rules are in force, and so is empty code, because two
backticks with nothing between them are no piece that a reader could tell from a longer run.

Results:
* `TextClosed.run_standard`: a standard rule stays in the class if the parts that it asks for do.
* `TextClosed.writeNode`, `TextClosed.write`: so does all that is written by the standard rules.
* `RuleClosed.fragment`, `RuleClosed.split`: and so do the fragments and messages of a split.
-/

namespace ChatMarkup

/-- The marks and separators that the standard rules write of their own accord. -/
def layout : List String :=
  ["", "\n", "\n\n", " ", "_", "*", "~", "| ", " | ", " |"]

/-- `P` is a class of texts that is closed under what the standard rules do, quoting apart. -/
structure TextClosed (P : String → Prop) : Prop where
  layout : ∀ s ∈ layout, P s
  append : ∀ {s t : String}, P s → P t → P (s ++ t)
  escape : ∀ s : String, P (Grammar.text.escape s)
  codeSpan : ∀ {code : String}, code ≠ "" → P (codeSpan code)
  codeFence : ∀ (language : Option String) (code : String), P (codeFence language code)
  linkTo : ∀ {label : String} (url : String), P label → P (linkTo label url)
  trim : ∀ {s : String}, P s → P (Text.trim s)

/-- `P` is a class of texts that is closed under what the standard rules do. -/
structure RuleClosed (P : String → Prop) : Prop extends TextClosed P where
  quote : ∀ {s : String}, P s → P (Text.quote s)

/-- A node that is no table and no empty code. -/
def Node.wellDelimited : Node → Bool
  | .container .table _ => false
  | .leaf (.inlineCode code) => !code.isEmpty
  | .leaf (.html source) => !source.isEmpty
  | _ => true

/-- A node that is no quote. -/
def Node.isUnquoted (node : Node) : Bool :=
  node.kind != .blockquote

/-- A change that keeps the rules and asks for a separator of the standard rules. -/
def Change.OfLayout (change : Change Rule) : Prop :=
  change.rules = .empty ∧ ∃ join ∈ layout, change.join = some join

/-- A renderer with the standard rules and a separator in the class. -/
def RuleClosed.Standard (P : String → Prop) (r : Renderer) : Prop :=
  r.rules = standardRules ∧ P r.separator

theorem RuleClosed.ofLayout_joined {s : String} (h : s ∈ layout) : (Change.joined s).OfLayout :=
  ⟨rfl, s, h, rfl⟩

variable {P : String → Prop}

namespace TextClosed

open RuleClosed

theorem intercalate (hP : TextClosed P) {sep : String} (hsep : P sep) {ss : List String}
    (h : ∀ s ∈ ss, P s) : P (sep.intercalate ss) :=
  Text.intercalate_induction (hP.layout "" (by decide))
    (fun hs ht => hP.append (hP.append hs hsep) ht) h

/-! ## One rule -/

theorem headingText (hP : TextClosed P) (style : Style) (level : Nat) {s : String} (h : P s) :
    P (Rule.headingText style level s) := by
  have hmark : P "*" := hP.layout "*" (by decide)
  have hspace : P " " := hP.layout " " (by decide)
  unfold Rule.headingText
  split
  · exact hP.append (hP.append (hP.append (hP.append hmark (hP.escape _)) hspace) h) hmark
  · exact hP.append (hP.append hmark h) hmark

theorem listText (hP : TextClosed P) (scope : Scope) (ordered : Bool) (start : Option Nat)
    (items : List Node) {texts : List String} (h : ∀ s ∈ texts, P s) :
    P (Rule.listText scope ordered start items texts) := by
  unfold Rule.listText
  refine hP.intercalate (hP.layout "\n" (by decide)) fun line hline => ?_
  obtain ⟨index, hindex, rfl⟩ := List.mem_mapIdx.1 hline
  have htext := (List.of_mem_zip (List.getElem_mem hindex)).2
  exact hP.append (hP.escape _) (hP.trim (h _ htext))

theorem marked (hP : TextClosed P) {mark : String} (hmark : mark ∈ ChatMarkup.layout) {s : String}
    (h : P s) : P (mark ++ s ++ mark) :=
  hP.append (hP.append (hP.layout mark hmark) h) (hP.layout mark hmark)

/-- **A standard rule stays in the class** if the parts that it asks for do. -/
theorem run_standard (hP : TextClosed P) {node : Node} (hn : node.wellDelimited = true)
    (hquote : node.isUnquoted = true ∨ ∀ {s : String}, P s → P (Text.quote s)) (scope : Scope)
    (answer : (parts : List Node) → (∀ part ∈ parts, Node.Part part node) → Change Rule → String)
    (hanswer : ∀ parts own change, change.OfLayout → P (answer parts own change)) :
    match standardRules.get? node.kind with
    | some rule => P ((rule node scope).run answer)
    | none => True := by
  have hchildren : ∀ s ∈ ChatMarkup.layout,
      P (answer node.children (fun _ h => .child h) (.joined s)) :=
    fun s hs => hanswer _ _ _ (ofLayout_joined hs)
  have hinline := hchildren "" (by decide)
  have hblocks := hchildren "\n\n" (by decide)
  cases node with
  | leaf l =>
    cases l with
    | inlineCode code => exact hP.codeSpan (by simpa [Node.wellDelimited] using hn)
    | codeBlock language code => exact hP.codeFence language code
    | image url alt =>
      have hlabel : P (Rule.imageLabel scope.style alt) :=
        hP.append (hP.append (hP.escape _) (hP.layout " " (by decide))) (hP.escape _)
      exact hP.linkTo url hlabel
    | thematicBreak => exact hP.escape _
    | lineBreak => exact hP.layout "\n" (by decide)
    | text s => exact hP.escape s
    | html source => exact hP.codeSpan (by simpa [Node.wellDelimited] using hn)
    | footnoteReference label => trivial
  | container c children =>
    cases c with
    | document => exact hP.trim hblocks
    | paragraph => exact hinline
    | heading level => exact hP.headingText scope.style level hinline
    | emphasis => exact hP.marked (by decide) hinline
    | strong => exact hP.marked (by decide) hinline
    | strikethrough => exact hP.marked (by decide) hinline
    | link url => exact hP.linkTo url hinline
    | blockquote => exact hquote.resolve_left nofun hblocks
    | list ordered start =>
      -- each item is asked for on its own, one level deeper
      show P ((Recipe.askEach _ _ _).run answer)
      rw [Recipe.run_askEach]
      refine hP.listText scope ordered start children fun s hs => ?_
      obtain ⟨parts, -, rfl⟩ := List.mem_map.1 hs
      exact hanswer _ _ _ ⟨rfl, "\n", by decide, rfl⟩
    | listItem checked => trivial
    | table => exact absurd hn nofun
    | tableRow =>
      have hcells := hchildren " | " (by decide)
      exact hP.append (hP.append (hP.layout "| " (by decide)) hcells) (hP.layout " |" (by decide))
    | tableCell => exact hinline
    | footnoteDefinition label => trivial

/-! ## Whole documents -/

theorem standard_top (hP : TextClosed P) (style : Style) :
    Standard P (Renderer.top style standardRules) :=
  ⟨rfl, hP.layout "\n\n" (by decide)⟩

theorem standard_apply (hP : TextClosed P) {r : Renderer} (hr : Standard P r) {change : Change Rule}
    (hchange : change.OfLayout) : Standard P (r.apply change) := by
  obtain ⟨hrules, join, hmem, hjoin⟩ := hchange
  refine ⟨?_, ?_⟩
  · simp only [Renderer.apply, hrules, hr.1]
    refine KindTable.ext ?_
    funext kind
    rfl
  · simp only [Renderer.apply, Scope.separator, hjoin]
    exact hP.layout join hmem

/-- **What the standard rules write of a node is in the class**, if the class is closed under
quoting or there is no quote. -/
theorem writeNode (hP : TextClosed P) {r : Renderer} (hr : Standard P r) (node : Node)
    (hn : node.everywhere Node.wellDelimited = true)
    (hquote : node.everywhere Node.isUnquoted = true ∨ ∀ {s : String}, P s → P (Text.quote s)) :
    P (r.writeNode node) := by
  have hhere := ((Node.everywhere_iff node).1 hn).1
  have hquoteHere := hquote.imp_left fun h => ((Node.everywhere_iff node).1 h).1
  have hquoteInside := fun part (hpart : Node.Part part node) =>
    hquote.imp_left (Node.everywhere_of_part hpart)
  rw [Renderer.writeNode_eq, hr.1]
  have hrun := hP.run_standard hhere hquoteHere r.toScope
    (fun parts _ change => (r.apply change).write parts) fun parts own change hchange => by
      refine hP.intercalate (hP.standard_apply hr hchange).2 fun s hs => ?_
      obtain ⟨part, hpart, rfl⟩ := List.mem_map.1 hs
      have hsmaller := (own part hpart).sizeOf_lt
      exact writeNode hP (hP.standard_apply hr hchange) part
        (Node.everywhere_of_part (own part hpart) hn) (hquoteInside part (own part hpart))
  cases hrule : standardRules.get? node.kind with
  | some rule =>
    rw [hrule] at hrun
    exact hrun
  | none =>
    refine hP.intercalate hr.2 fun s hs => ?_
    obtain ⟨child, hchild, rfl⟩ := List.mem_map.1 hs
    have hsmaller := Node.sizeOf_lt_of_mem_children hchild
    exact writeNode hP hr child (Node.everywhere_of_part (.child hchild) hn)
      (hquoteInside child (.child hchild))
termination_by sizeOf node

theorem write (hP : TextClosed P) {r : Renderer} (hr : Standard P r) {nodes : List Node}
    (hn : ∀ node ∈ nodes, node.everywhere Node.wellDelimited = true)
    (hquote : (∀ node ∈ nodes, node.everywhere Node.isUnquoted = true) ∨
      ∀ {s : String}, P s → P (Text.quote s)) : P (r.write nodes) := by
  refine hP.intercalate hr.2 fun s hs => ?_
  obtain ⟨node, hnode, rfl⟩ := List.mem_map.1 hs
  exact hP.writeNode hr node (hn node hnode) (hquote.imp_left fun h => h node hnode)

end TextClosed

namespace RuleClosed

theorem writeNode (hP : RuleClosed P) {r : Renderer} (hr : Standard P r) (node : Node)
    (hn : node.everywhere Node.wellDelimited = true) : P (r.writeNode node) :=
  hP.toTextClosed.writeNode hr node hn (Or.inr hP.quote)

theorem write (hP : RuleClosed P) {r : Renderer} (hr : Standard P r) {nodes : List Node}
    (hn : ∀ node ∈ nodes, node.everywhere Node.wellDelimited = true) : P (r.write nodes) :=
  hP.toTextClosed.write hr hn (Or.inr hP.quote)

/-! ## Messages -/

/-- The fragments that the standard dividers make are in the class. -/
theorem fragment (hP : RuleClosed P) {r : Renderer} (hr : Standard P r) {node : Node}
    (hn : node.everywhere Node.wellDelimited = true) {divider : Divider}
    (hd : standardDividers.get? node.kind = some divider) (limit : Nat) :
    ∀ fragment ∈ divider r node limit, P fragment := by
  intro fragment hf
  rcases standardDividers_cases hd hf with
    ⟨language, code, slice, rfl, rfl⟩ | ⟨children, child, rfl, hchild, rfl, -⟩
  · exact hP.codeFence language slice
  · have hpart : Node.Part child (.container .blockquote children) := .child hchild
    refine hP.quote (hP.write hr fun node hnode => ?_)
    rw [List.mem_singleton.1 hnode]
    exact Node.everywhere_of_part hpart hn

/-- **The messages of a split with the standard rules and dividers are in the class.** -/
theorem split (hP : RuleClosed P) {r : Renderer} (hr : Standard P r) (limit : Nat)
    {nodes : List Node} (hn : ∀ node ∈ nodes, node.everywhere Node.wellDelimited = true) :
    ∀ message ∈ splitNodes r limit nodes, P message := by
  intro message hm
  obtain ⟨group, hg, rfl⟩ := List.mem_map.1 hm
  refine hP.intercalate (hP.layout "\n\n" (by decide)) fun piece hp => ?_
  obtain ⟨node, hnode, hpiece⟩ := exists_node_of_mem_groups hg hp
  obtain ⟨-, ⟨rfl, -⟩ | ⟨-, divider, hd, hmem⟩⟩ := piecesOf_cases hpiece
  · refine hP.write hr fun n hmem => ?_
    rw [List.mem_singleton.1 hmem]
    exact hn node hnode
  · exact hP.fragment hr (hn node hnode) hd limit piece hmem

end RuleClosed

end ChatMarkup
