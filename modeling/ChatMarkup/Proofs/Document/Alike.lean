import ChatMarkup.Proofs.Document.Shown
import ChatMarkup.Proofs.Event.Hole

/-!
# Events that say the same

A Markdown reader is free in how it tells a text: in one event or in many, and with the end of a
line as an event of its own or inside a text. The document is the same. Trees that can stand for
each other next to any others (`Alike`) can do so at any depth, so it is enough to look at what a
tag gathers from them.

Results:
* `Tag.placements_congr`: what a tag gives depends on the trees inside it by their source and by the
  check box that they have for an item, and else by the children that were gathered.
* `Tag.gather_text_append`: a tag gathers a text in two parts as it gathers the text.
* `Alike.fill`: trees that can stand for each other can do so at any place.
* `blocksOf_recut`: a document does not depend on how its text is cut into events.
-/

namespace ChatMarkup

/-! ## Trees next to others -/

theorem placementsOf_append (before after : List Tree) :
    placementsOf (before ++ after) = placementsOf before ++ placementsOf after := by
  induction before with
  | nil => rfl
  | cons tree rest ih => simp [placementsOf, ih]

theorem sourceOf_append (before after : List Tree) :
    sourceOf (before ++ after) = sourceOf before ++ sourceOf after := by
  fun_induction sourceOf before <;> simp_all [sourceOf, String.append_assoc]

theorem checkedOf?_append (before after : List Tree) :
    checkedOf? (before ++ after) = (checkedOf? after <|> checkedOf? before) := by
  induction before with
  | nil => simp [checkedOf?]
  | cons tree rest ih =>
    rw [List.cons_append, checkedOf?, checkedOf?, ih]
    cases checkedOf? after <;> rfl

/-- A check box in a tag belongs to what is around the tag, unless the tag is an item. -/
theorem Tree.checked?_tagged (tag : Tag) (inside : List Tree) :
    (Tree.tagged tag inside).checked? = if tag = .item then none else checkedOf? inside := by
  cases tag <;> rfl

/-- **What a tag gives** depends on the trees inside it by little: a tag that holds source takes
their source, and an item takes their check box. -/
theorem Tag.placements_congr (tag : Tag) {first second : List Tree}
    (hsource : tag.holdsSource = true → sourceOf first = sourceOf second)
    (hchecked : checkedOf? first = checkedOf? second) (children : List Node) :
    tag.placements first children = tag.placements second children := by
  cases tag with
  | codeBlock info => rw [Tag.placements, hsource rfl, Tag.placements]
  | htmlBlock => rw [Tag.placements, hsource rfl, Tag.placements]
  | item => rw [Tag.placements, hchecked, Tag.placements]
  | _ => rfl

/-! ## Texts in two parts -/

theorem mergeTexts_cons_congr (node : Node) {first second : List Node}
    (h : mergeTexts first = mergeTexts second) :
    mergeTexts (node :: first) = mergeTexts (node :: second) := by
  cases node with
  | container c children => simp only [mergeTexts, h]
  | leaf l => cases l <;> simp only [mergeTexts, h]

/-- A text in two parts is merged as the text is. -/
theorem mergeTexts_text_append (before after : List Node) (s t : String) :
    mergeTexts (before ++ .text (s ++ t) :: after) =
      mergeTexts (before ++ .text s :: .text t :: after) := by
  induction before with
  | nil =>
    rw [List.nil_append, List.nil_append, mergeTexts, mergeTexts, mergeTexts]
    -- the second part has become longer if a text follows
    cases mergeTexts after with
    | nil => rfl
    | cons next rest =>
      split
      · rw [String.append_assoc]
      · rfl
  | cons node rest ih => exact mergeTexts_cons_congr node ih

theorem paragraphOf_of_ne_nil {run : List Node} (h : run ≠ []) :
    paragraphOf run = [.container .paragraph (mergeTexts run)] := by
  cases run with
  | nil => exact absurd rfl h
  | cons node rest => rfl

/-- A run that is open holds a text in two parts as it holds the text. -/
theorem wrapRuns_text_append (new run : List Node) (s t : String) (placed : List Placement) :
    wrapRuns (new ++ .text (s ++ t) :: run) placed =
      wrapRuns (new ++ .text t :: .text s :: run) placed := by
  have hclosed : ∀ new : List Node, paragraphOf (new ++ .text (s ++ t) :: run).reverse =
      paragraphOf (new ++ .text t :: .text s :: run).reverse := fun new => by
    rw [paragraphOf_of_ne_nil (by simp), paragraphOf_of_ne_nil (by simp)]
    simpa using mergeTexts_text_append run.reverse new.reverse s t
  induction placed generalizing new with
  | nil => exact hclosed new
  | cons p rest ih =>
    rw [wrapRuns, wrapRuns]
    split
    · exact ih (p.node :: new)
    · rw [hclosed]

/-- **A tag gathers a text in two parts as it gathers the text**, whatever is around it. -/
theorem Tag.gather_text_append (tag : Tag) (before after : List Placement) (s t : String) :
    tag.gather (before ++ .inText (.text (s ++ t)) :: after) =
      tag.gather (before ++ .inText (.text s) :: .inText (.text t) :: after) := by
  have hwrapped : ∀ run : List Node,
      wrapRuns run (before ++ .inText (.text (s ++ t)) :: after) =
        wrapRuns run (before ++ .inText (.text s) :: .inText (.text t) :: after) := by
    induction before with
    | nil => exact fun run => wrapRuns_text_append [] run s t after
    | cons p rest ih =>
      intro run
      rw [List.cons_append, List.cons_append, wrapRuns, wrapRuns, ih, ih]
  unfold Tag.gather
  split
  · simpa [Placement.inText] using
      mergeTexts_text_append (before.map Placement.node) (after.map Placement.node) s t
  · exact hwrapped []

/-! ## Trees that can stand for each other -/

/-- Trees that can stand for each other next to any others, where no source is read: a tag gathers
the same children from both, and an item takes the same check box. -/
structure Alike (first second : List Tree) : Prop where
  gathered : ∀ (tag : Tag) (before after : List Placement),
    tag.gather (before ++ placementsOf first ++ after) =
      tag.gather (before ++ placementsOf second ++ after)
  checked : checkedOf? first = checkedOf? second

namespace Alike

variable {first second : List Tree}

theorem of_placementsOf_eq (hplaced : placementsOf first = placementsOf second)
    (hchecked : checkedOf? first = checkedOf? second) : Alike first second :=
  ⟨fun tag before after => by rw [hplaced], hchecked⟩

theorem between (h : Alike first second) (before after : List Tree) :
    Alike (before ++ first ++ after) (before ++ second ++ after) where
  gathered tag left right := by
    have := h.gathered tag (left ++ placementsOf before) (placementsOf after ++ right)
    simpa [placementsOf_append] using this
  checked := by rw [checkedOf?_append, checkedOf?_append, h.checked, checkedOf?_append,
    checkedOf?_append]

/-- Inside a tag that reads no source of them, trees that can stand for each other are alike. -/
theorem tagged (h : Alike first second) (tag : Tag)
    (hsource : tag.holdsSource = true → sourceOf first = sourceOf second) :
    Alike [.tagged tag first] [.tagged tag second] := by
  have hgathered := h.gathered tag [] []
  rw [List.nil_append, List.append_nil, List.nil_append, List.append_nil] at hgathered
  refine of_placementsOf_eq ?_ ?_
  · simp only [placementsOf, Tree.placements, hgathered,
      tag.placements_congr hsource h.checked]
  · simp only [checkedOf?, Tree.checked?_tagged, h.checked]

/-- What the tag around a hole reads as its source does not come from deeper holes. -/
theorem sourceOf_fill (hole : Tree.Hole) (h : hole.tags = [] → sourceOf first = sourceOf second) :
    sourceOf (hole.fill first) = sourceOf (hole.fill second) := by
  cases hole with
  | here before after => simp only [Tree.Hole.fill, sourceOf_append, h rfl]
  | within before tag hole after => simp only [Tree.Hole.fill, sourceOf_append, sourceOf]

/-- **Trees that can stand for each other can do so at any place** where the innermost tag reads no
source, or the same one. -/
theorem fill (h : Alike first second) (hole : Tree.Hole)
    (hsource : hole.tags.head?.any Tag.holdsSource = true → sourceOf first = sourceOf second) :
    Alike (hole.fill first) (hole.fill second) := by
  induction hole with
  | here before after => exact h.between before after
  | within before tag hole after ih =>
    rw [Tree.Hole.tags] at hsource
    have hinner : Alike (hole.fill first) (hole.fill second) := by
      refine ih fun hhead => hsource ?_
      rw [List.head?_append]
      cases htags : hole.tags with
      | nil => simp [htags] at hhead
      | cons innermost around => simpa [htags] using hhead
    have hread : tag.holdsSource = true →
        sourceOf (hole.fill first) = sourceOf (hole.fill second) := by
      refine fun htag => sourceOf_fill hole fun hnil => hsource ?_
      simpa [hnil] using htag
    have := (hinner.tagged tag hread).between before after
    simpa [Tree.Hole.fill] using this

end Alike

/-- **Events that can stand for each other** give the same document, at any place where the
innermost open tag reads no source, or the same one. -/
theorem blocksOf_eq_of_alike {first second : List Tree} (h : Alike first second)
    (before after : List Event)
    (hsource : (openTags [] before).head?.any Tag.holdsSource = true →
      sourceOf first = sourceOf second) :
    blocksOf (before ++ Tree.eventsOf first ++ after) =
      blocksOf (before ++ Tree.eventsOf second ++ after) := by
  obtain ⟨hole, htags, hfill⟩ := Tree.exists_hole before after
  have hgathered := (h.fill hole (htags ▸ hsource)).gathered .blockquote [] []
  rw [List.append_nil, List.append_nil] at hgathered
  rw [blocksOf, blocksOf, hfill, hfill]
  -- a document gathers its blocks as a quote does
  exact hgathered

/-! ## Texts -/

theorem alike_text_append (s t : String) :
    Alike [.content (.text (s ++ t))] [.content (.text s), .content (.text t)] where
  gathered tag before after := by
    simpa [placementsOf, Tree.placements, Content.placements] using
      tag.gather_text_append before after s t
  checked := rfl

/-- **A document does not depend on how its text is cut into events.** Whatever comes before and
after, and whatever tags are open: a text can come in two parts, each of which may be empty, and the
end of a line can be a text of its own, unless the innermost open tag holds source. -/
theorem blocksOf_recut (before after : List Event) :
    (∀ s t : String,
      blocksOf (before ++ [.content (.text (s ++ t))] ++ after) =
        blocksOf (before ++ [.content (.text s), .content (.text t)] ++ after)) ∧
      ((openTags [] before).head?.any Tag.holdsSource = false →
        blocksOf (before ++ [.content .softBreak] ++ after) =
          blocksOf (before ++ [.content (.text "\n")] ++ after)) := by
  constructor
  · intro s t
    refine blocksOf_eq_of_alike (alike_text_append s t) before after fun _ => ?_
    simp [sourceOf]
  · intro hplain
    have halike : Alike [.content .softBreak] [.content (.text "\n")] :=
      .of_placementsOf_eq rfl rfl
    exact blocksOf_eq_of_alike halike before after fun hsource => absurd hsource (by simp [hplain])

/-- A text in two parts in a block of code that stays open, and the end of a line in an item behind
a closing with nothing to close, with code around the item. -/
theorem blocksOf_recut_item_in_code :
    let before : List Event := [.closing, .opening (.codeBlock none), .content (.text "x")]
    let inItem : List Event := before ++ [.opening .item, .content (.text "a")]
    let after : List Event := [.content (.text "b"), .closing, .content .softBreak]
    blocksOf (before ++ [.content (.text ("" ++ "c"))] ++ after) =
        blocksOf (before ++ [.content (.text ""), .content (.text "c")] ++ after) ∧
      (openTags [] inItem).head?.any Tag.holdsSource = false ∧
      blocksOf (inItem ++ [.content .softBreak] ++ after) =
        blocksOf (inItem ++ [.content (.text "\n")] ++ after) := by
  intro before inItem after
  have hplain : (openTags [] inItem).head?.any Tag.holdsSource = false := by decide
  exact ⟨(blocksOf_recut before after).1 "" "c", hplain, (blocksOf_recut inItem after).2 hplain⟩

end ChatMarkup
