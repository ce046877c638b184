import ChatMarkup.Proofs.Document.Gathered

/-!
# Documents from events are in normal form

Whatever events come, also tags that stay open, closings with nothing to close and extensions: the
blocks that they give are a document in normal form. The walk goes up a tree of events and keeps
that all placements are sound: their nodes are in normal form, and those that are to stand between
blocks can.

Results:
* `Tag.sound_placements`: what a tag gives is sound if its children are in normal form.
* `sound_placementsOf`: what trees of events give is sound.
* `blocksOf_normalForest`: all documents from events are in normal form.
-/

namespace ChatMarkup

/-! ## Content and tags -/

theorem sound_inText {node : Node} (h : node.everywhere Node.isNormal = true) :
    (Placement.inText node).Sound :=
  ⟨h, nofun⟩

/-- A leaf that is a block, with values that go together, can stand between blocks. -/
theorem sound_asBlock_leaf {l : Leaf} (hvalues : l.isNormal = true)
    (hblock : (Node.leaf l).isBlock = true) : (Placement.asBlock (.leaf l)).Sound :=
  ⟨hvalues, fun _ => hblock⟩

theorem Content.sound_placements (c : Content) : ∀ p ∈ c.placements, p.Sound := by
  cases c with
  | text s => exact List.forall_mem_singleton.2 (sound_inText rfl)
  | code s => exact List.forall_mem_singleton.2 (sound_inText rfl)
  | html s =>
    have hend := Text.getLast?_dropEndNewlines s
    exact List.forall_mem_singleton.2 (sound_asBlock_leaf rfl (by simpa [Node.isBlock] using hend))
  | inlineHtml s => exact List.forall_mem_singleton.2 (sound_inText rfl)
  | math s => exact List.forall_mem_nil _
  | footnoteReference label => exact List.forall_mem_singleton.2 (sound_inText rfl)
  | softBreak => exact List.forall_mem_singleton.2 (sound_inText rfl)
  | hardBreak => exact List.forall_mem_singleton.2 (sound_inText rfl)
  | rule => exact List.forall_mem_singleton.2 (sound_asBlock_leaf rfl rfl)
  | task checked => exact List.forall_mem_nil _

theorem shown?_ne_some_empty (s : String) : shown? s ≠ some "" := by
  unfold shown?
  split
  · exact nofun
  · rename_i hne
    intro h
    rw [Option.some.inj h] at hne
    exact hne rfl

/-- **What a tag gives is sound** if its children are in normal form. -/
theorem Tag.sound_placements (tag : Tag) (inside : List Tree) {children : List Node}
    (hsiblings : Siblings (!tag.holdsText) children)
    (hinside : ∀ child ∈ children, child.everywhere Node.isNormal = true) :
    ∀ p ∈ tag.placements inside children, p.Sound := by
  have hblock : ∀ c : Container, c.holdsBlocks = (!tag.holdsText) → c.isNormal = true →
      c.kind.isInline = false →
      ∀ p ∈ [Placement.asBlock (.container c children)], p.Sound := fun c hholds hvalues hkind =>
    List.forall_mem_singleton.2
      ⟨everywhere_container.2 ⟨hvalues, hholds ▸ hsiblings, hinside⟩, fun _ => by
        simp [Placement.asBlock, Node.isBlock, Node.isInline, Node.kind, hkind]⟩
  have hinline : ∀ c : Container, c.holdsBlocks = (!tag.holdsText) → c.isNormal = true →
      ∀ p ∈ [Placement.inText (.container c children)], p.Sound := fun c hholds hvalues =>
    List.forall_mem_singleton.2
      (sound_inText (everywhere_container.2 ⟨hvalues, hholds ▸ hsiblings, hinside⟩))
  cases tag with
  | paragraph => exact hblock .paragraph rfl rfl rfl
  | heading level =>
    have hlevel : (Container.heading level.number).isNormal = true := by
      simp [Container.isNormal, level.one_le, level.le_six]
    exact hblock (.heading level.number) rfl hlevel rfl
  | blockquote => exact hblock .blockquote rfl rfl rfl
  | codeBlock info =>
    have hlanguage : (info.bind Text.firstWord?).all Text.isWord = true := by
      cases hword : info.bind Text.firstWord? with
      | none => rfl
      | some word =>
        obtain ⟨s, -, hs⟩ := Option.bind_eq_some_iff.1 hword
        exact Text.isWord_of_firstWord? hs
    exact List.forall_mem_singleton.2 (sound_asBlock_leaf hlanguage rfl)
  | htmlBlock =>
    have hend := Text.getLast?_dropEndNewlines (sourceOf inside)
    exact List.forall_mem_singleton.2 (sound_asBlock_leaf rfl (by simpa [Node.isBlock] using hend))
  | list start => exact hblock (.list start.isSome start) rfl (by simp [Container.isNormal]) rfl
  | item => exact hblock (.listItem (checkedOf? inside)) rfl rfl rfl
  | footnoteDefinition label => exact hblock (.footnoteDefinition label) rfl rfl rfl
  | table => exact hblock .table rfl rfl rfl
  | tableHead => exact hblock .tableRow rfl rfl rfl
  | tableRow => exact hblock .tableRow rfl rfl rfl
  | tableCell => exact hblock .tableCell rfl rfl rfl
  | emphasis => exact hinline .emphasis rfl rfl
  | strong => exact hinline .strong rfl rfl
  | strikethrough => exact hinline .strikethrough rfl rfl
  | link form url => exact hinline (.link (linkTarget form url)) rfl rfl
  | image form url =>
    have halt : (shown? (Node.plainTexts children) != some "") = true :=
      bne_iff_ne.2 (shown?_ne_some_empty _)
    exact List.forall_mem_singleton.2 (sound_inText halt)
  | extension =>
    -- an extension gathered blocks, and they go on as blocks
    intro p hp
    obtain ⟨child, hchild, rfl⟩ := List.mem_map.1 hp
    exact ⟨hinside child hchild, fun _ => hsiblings.blocks rfl child hchild⟩

/-! ## Whole documents -/

mutual

theorem Tree.sound_placements (tree : Tree) : ∀ p ∈ tree.placements, p.Sound := by
  cases tree with
  | content c => exact c.sound_placements
  | tagged tag inside =>
    obtain ⟨hsiblings, hinside⟩ := tag.gather_normal (sound_placementsOf inside)
    exact tag.sound_placements inside hsiblings hinside

/-- **What trees of events give to what is around them is sound.** -/
theorem sound_placementsOf (trees : List Tree) : ∀ p ∈ placementsOf trees, p.Sound := by
  cases trees with
  | nil => exact List.forall_mem_nil _
  | cons tree rest =>
    rw [placementsOf]
    exact List.forall_mem_append.2 ⟨tree.sound_placements, sound_placementsOf rest⟩

end

/-- **All documents from events are in normal form**, whatever the events are. -/
theorem blocksOf_normalForest (events : List Event) : NormalForest (blocksOf events) := by
  have hblocks : ∀ node ∈ blocksOf events, _ :=
    blocks_wrapRuns (fun _ hnode => absurd hnode List.not_mem_nil)
      (sound_placementsOf (Tree.ofEvents events))
  exact ⟨siblings_of_blocks true fun node hnode => (hblocks node hnode).1,
    fun node hnode => (hblocks node hnode).2⟩

end ChatMarkup
