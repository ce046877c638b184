import ChatMarkup.Proofs.Document.Gathered
import ChatMarkup.Proofs.Event.Written

/-!
# Documents written as events

The way back from nodes to events: each node becomes the tree of events that a Markdown reader would
tell of it. A document in normal form that is written in this way is read back as it was, so normal
form is all that documents from events have in common.

Results:
* `placements_tag`: a written container gives the container.
* `placementsOf_treesOf`: written nodes give the nodes, each at the place that it was written for.
* `blocksOf_eventsOfBlocks`: what is written is read back.
-/

namespace ChatMarkup

/-! ## Writing -/

/-- The level of a heading, from its number. There are six, and other numbers go to the nearest. -/
def HeadingLevel.ofNat (number : Nat) : HeadingLevel where
  number := max 1 (min number 6)
  one_le := by omega
  le_six := by omega

/-- The tag of a container. No tag opens a document, so inside another one it is a construct of
which only the content counts. -/
def Container.tag : Container → Tag
  | .document => .extension
  | .paragraph => .paragraph
  | .heading level => .heading (.ofNat level)
  | .emphasis => .emphasis
  | .strong => .strong
  | .strikethrough => .strikethrough
  | .link url => .link .inline url
  | .blockquote => .blockquote
  | .list _ start => .list start
  | .listItem _ => .item
  | .table => .table
  | .tableRow => .tableRow
  | .tableCell => .tableCell
  | .footnoteDefinition label => .footnoteDefinition label

/-- The check box at the beginning of a list item, if it has one. -/
def Container.checkBox : Container → List Tree
  | .listItem (some checked) => [.content (.task checked)]
  | _ => []

/-- The tree of events of a leaf. Html among blocks is a block of html. -/
def Leaf.tree (amongBlocks : Bool) : Leaf → Tree
  | .inlineCode code => .content (.code code)
  | .codeBlock language code => .tagged (.codeBlock language) [.content (.text (code ++ "\n"))]
  | .image url alt => .tagged (.image .inline url) (alt.toList.map fun s => .content (.text s))
  | .thematicBreak => .content .rule
  | .lineBreak => .content .hardBreak
  | .text s => .content (.text s)
  | .html source =>
    if amongBlocks then .tagged .htmlBlock [.content (.html source)]
    else .content (.inlineHtml source)
  | .footnoteReference label => .content (.footnoteReference label)

mutual

/-- The tree of events of a node that stands among blocks or in a line of text. -/
def Node.tree (amongBlocks : Bool) : Node → Tree
  | .leaf l => l.tree amongBlocks
  | .container c children => .tagged c.tag (c.checkBox ++ treesOf c.holdsBlocks children)

/-- The trees of events of neighbouring nodes. -/
def treesOf (amongBlocks : Bool) : List Node → List Tree
  | [] => []
  | node :: rest => node.tree amongBlocks :: treesOf amongBlocks rest

end

/-- The events of a document, from its blocks. -/
def eventsOfBlocks (blocks : List Node) : List Event :=
  Tree.eventsOf (treesOf true blocks)

/-! ## Reading children back -/

/-- How the events of a node place it. Html runs along a line of text where one is expected. -/
def Node.placement (amongBlocks : Bool) (node : Node) : Placement where
  node := node
  inline := node.isInline || (node.kind == .html && !amongBlocks)

/-- **A tag gathers its children again** from what they placed. -/
theorem Tag.gather_placement {tag : Tag} {amongBlocks : Bool} {children : List Node}
    (htag : tag.holdsText = !amongBlocks) (h : Siblings amongBlocks children) :
    tag.gather (children.map (Node.placement amongBlocks)) = children := by
  have hnodes : (children.map (Node.placement amongBlocks)).map Placement.node = children := by
    rw [List.map_map]
    exact List.map_id children
  rw [Tag.gather_eq_map (hnodes.symm ▸ h.apart), hnodes]
  intro htext p hp
  obtain ⟨child, hchild, rfl⟩ := List.mem_map.1 hp
  have hamong : amongBlocks = true := by simpa [htext] using htag
  simp [Node.placement, isInline_of_isBlock (h.blocks hamong child hchild), hamong]

/-! ## Check boxes -/

mutual

/-- What is written of a node has no check box for the item around it. -/
theorem checked?_tree (amongBlocks : Bool) (node : Node) :
    (node.tree amongBlocks).checked? = none := by
  cases node with
  | leaf l =>
    cases l with
    | html source => cases amongBlocks <;> rfl
    | image url alt => cases alt <;> rfl
    | _ => rfl
  | container c children =>
    have hchildren := checkedOf?_treesOf c.holdsBlocks children
    cases c with
    | listItem checked => rfl
    | _ => exact hchildren

theorem checkedOf?_treesOf (amongBlocks : Bool) (nodes : List Node) :
    checkedOf? (treesOf amongBlocks nodes) = none := by
  cases nodes with
  | nil => rfl
  | cons node rest =>
    rw [treesOf, checkedOf?, checked?_tree amongBlocks node, checkedOf?_treesOf amongBlocks rest]
    rfl

end

/-- The check box that was written is the one that the item has. -/
theorem checkedOf?_checkBox (checked : Option Bool) (amongBlocks : Bool) (nodes : List Node) :
    checkedOf? ((Container.listItem checked).checkBox ++ treesOf amongBlocks nodes) = checked := by
  cases checked with
  | none => exact checkedOf?_treesOf amongBlocks nodes
  | some state =>
    show (checkedOf? (treesOf amongBlocks nodes) <|> some state) = some state
    rw [checkedOf?_treesOf]
    rfl

/-- A check box places nothing. -/
theorem placementsOf_checkBox (c : Container) (trees : List Tree) :
    placementsOf (c.checkBox ++ trees) = placementsOf trees := by
  unfold Container.checkBox
  split <;> rfl

/-! ## Reading nodes back -/

theorem placements_leaf {amongBlocks : Bool} {l : Leaf} (hvalues : l.isNormal = true)
    (hblock : amongBlocks = true → (Node.leaf l).isBlock = true) :
    (l.tree amongBlocks).placements = [(Node.leaf l).placement amongBlocks] := by
  cases l with
  | codeBlock language code =>
    have hlanguage : language.bind Text.firstWord? = language := by
      cases language with
      | none => rfl
      | some word => exact Text.firstWord?_of_isWord hvalues
    have hcode : Text.dropEndNewline (sourceOf [.content (.text (code ++ "\n"))]) = code := by
      rw [sourceOf, sourceOf, String.append_empty]
      exact Text.dropEndNewline_append_newline code
    show [Placement.asBlock (.leaf (.codeBlock (language.bind Text.firstWord?) _))] = _
    rw [hlanguage, hcode]
    rfl
  | image url alt =>
    cases alt with
    | none => rfl
    | some s =>
      have hshown : shown? (Node.plainTexts [.text s]) = some s := by
        have hs : s ≠ "" := by simpa [Leaf.isNormal] using hvalues
        simp [Node.plainTexts, Node.plainText, Leaf.plainText, shown?, hs]
      show [Placement.inText (.leaf (.image url (shown? (Node.plainTexts [.text s]))))] = _
      rw [hshown]
      rfl
  | html source =>
    cases amongBlocks with
    | false => rfl
    | true =>
      have hsource : Text.dropEndNewlines (sourceOf [.content (.html source)]) = source := by
        rw [sourceOf, sourceOf, String.append_empty]
        exact Text.dropEndNewlines_eq_self (by simpa [Node.isBlock] using hblock rfl)
      show [Placement.asBlock (.leaf (.html _))] = _
      rw [hsource]
      rfl
  | _ => rfl

theorem holdsText_tag {c : Container} (h : c.isNormal = true) :
    c.tag.holdsText = !c.holdsBlocks := by
  cases c with
  | document => exact absurd h nofun
  | _ => rfl

/-- **A written container gives the container**, with the children that were gathered. -/
theorem placements_tag {c : Container} (hvalues : c.isNormal = true) (amongBlocks : Bool)
    (children gathered : List Node) :
    c.tag.placements (c.checkBox ++ treesOf c.holdsBlocks children) gathered =
      [(Node.container c gathered).placement amongBlocks] := by
  cases c with
  | document => exact absurd hvalues nofun
  | heading level =>
    have hlevel : max 1 (min level 6) = level := by
      simp only [Container.isNormal, Bool.and_eq_true, decide_eq_true_eq] at hvalues
      omega
    show [Placement.asBlock (.container (.heading (max 1 (min level 6))) gathered)] = _
    rw [hlevel]
    rfl
  | list ordered start =>
    have hordered : start.isSome = ordered := (beq_iff_eq.1 hvalues).symm
    show [Placement.asBlock (.container (.list start.isSome start) gathered)] = _
    rw [hordered]
    rfl
  | listItem checked =>
    show [Placement.asBlock (.container (.listItem (checkedOf? _)) gathered)] = _
    rw [checkedOf?_checkBox]
    rfl
  | _ => rfl

mutual

/-- A written node in normal form gives the node, at the place that it was written for. -/
theorem placements_tree {amongBlocks : Bool} {node : Node}
    (hnormal : node.everywhere Node.isNormal = true)
    (hblock : amongBlocks = true → node.isBlock = true) :
    (node.tree amongBlocks).placements = [node.placement amongBlocks] := by
  cases node with
  | leaf l => exact placements_leaf hnormal hblock
  | container c children =>
    obtain ⟨hvalues, hsiblings, hinside⟩ := everywhere_container.1 hnormal
    have hgathered : c.tag.gather (placementsOf (c.checkBox ++ treesOf c.holdsBlocks children)) =
        children := by
      rw [placementsOf_checkBox, placementsOf_treesOf hinside hsiblings.blocks]
      exact Tag.gather_placement (holdsText_tag hvalues) hsiblings
    rw [Node.tree, Tree.placements, hgathered]
    exact placements_tag hvalues amongBlocks children children

/-- **Written nodes in normal form give the nodes**, at the place that they were written for. -/
theorem placementsOf_treesOf {amongBlocks : Bool} {nodes : List Node}
    (hnormal : ∀ node ∈ nodes, node.everywhere Node.isNormal = true)
    (hblocks : amongBlocks = true → ∀ node ∈ nodes, node.isBlock = true) :
    placementsOf (treesOf amongBlocks nodes) = nodes.map (Node.placement amongBlocks) := by
  cases nodes with
  | nil => rfl
  | cons node rest =>
    have hnode := placements_tree (hnormal node List.mem_cons_self)
      fun hb => hblocks hb node List.mem_cons_self
    have hrest := placementsOf_treesOf (fun n hn => hnormal n (List.mem_cons_of_mem node hn))
      fun hb n hn => hblocks hb n (List.mem_cons_of_mem node hn)
    rw [treesOf, placementsOf, hnode, hrest]
    rfl

end

/-- **A document in normal form is read back from its events.** -/
theorem blocksOf_eventsOfBlocks {nodes : List Node} (h : NormalForest nodes) :
    blocksOf (eventsOfBlocks nodes) = nodes := by
  rw [blocksOf, eventsOfBlocks, Tree.ofEvents_eventsOf,
    placementsOf_treesOf h.inside h.siblings.blocks]
  -- a document gathers its blocks as a quote does
  exact Tag.gather_placement (show Tag.blockquote.holdsText = !true from rfl) h.siblings

/-- A heading with a line of text of many kinds, a quoted check list with a list and code inside it,
a table with html in a cell, and html on its own. -/
theorem blocksOf_eventsOfBlocks_checklist :
    let line : List Node :=
      [.text "a ", .container .emphasis [.text "b", .leaf .lineBreak, .leaf (.html "<i>\n")],
        .text "", .leaf (.image "u" (some "alt")), .leaf (.image "u" none),
        .container (.link "mailto:u") [.leaf (.inlineCode "c")], .leaf (.footnoteReference "n")]
    let code : List Node :=
      [.leaf (.codeBlock (some "go") "x\n"), .leaf (.codeBlock none ""), .leaf .thematicBreak]
    let inner : Node := .container (.list true (some 0)) [.container (.listItem none) code]
    let items : List Node :=
      [.container (.listItem (some true)) [.container .paragraph line, inner],
        .container (.listItem (some false)) []]
    let row : Node := .container .tableRow [.container .tableCell [.leaf (.html "<b>\n")]]
    let nodes : List Node :=
      [.container (.heading 6) line, .container .blockquote [.container (.list false none) items],
        .container .table [row], .leaf (.html "<hr>\n<hr>"),
        .container (.footnoteDefinition "n") [.container .paragraph []]]
    NormalForest nodes ∧ blocksOf (eventsOfBlocks nodes) = nodes := by
  intro line code inner items row nodes
  have h : NormalForest nodes := ⟨by decide, by decide⟩
  exact ⟨h, blocksOf_eventsOfBlocks h⟩

end ChatMarkup
