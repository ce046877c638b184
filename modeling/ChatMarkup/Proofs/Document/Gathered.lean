import ChatMarkup.Document.Assembly
import ChatMarkup.Proofs.Document.NormalForm

/-!
# Children that a tag gathers

What is placed inside a tag becomes the children of a node: texts that are neighbours are merged,
and where blocks are expected, runs of inline nodes are wrapped into paragraphs. Both give children
in normal form, and leave alone what is in normal form already.

Results:
* `isChain_mergeTexts`, `mergeTexts_eq_self`: after merging no two texts are neighbours, and texts
  that are apart are not merged.
* `blocks_wrapRuns`, `wrapRuns_of_blocks`: where blocks are expected, only blocks come out, and
  blocks are not wrapped.
* `Tag.gather_normal`, `Tag.gather_eq_map`: the same for the children of any tag.
* `ReadsThrough.gather`: what sees neither where texts are cut nor the paragraphs around runs is
  read of the children as of what was placed.
-/

namespace ChatMarkup

/-! ## Neighbouring texts -/

/-- **After merging, no two texts are neighbours.** -/
theorem isChain_mergeTexts (nodes : List Node) :
    (mergeTexts nodes).IsChain Node.CanPrecede := by
  fun_induction mergeTexts nodes with
  | case1 => exact .nil
  | case2 s rest t merged hmerged ih =>
    -- a longer text is at the place where a text was
    rw [hmerged] at ih
    obtain ⟨hfirst, hrest⟩ := List.isChain_cons.1 ih
    exact List.isChain_cons.2 ⟨hfirst, hrest⟩
  | case3 s rest hother ih =>
    refine List.isChain_cons.2 ⟨fun next hnext hboth => ?_, ih⟩
    obtain ⟨t, rfl⟩ := exists_eq_text_of_kind hboth.2
    obtain ⟨merged, hmerged⟩ := List.head?_eq_some_iff.1 hnext
    exact hother t merged hmerged
  | case4 node rest hother ih =>
    refine List.isChain_cons.2 ⟨fun next _ hboth => ?_, ih⟩
    obtain ⟨s, rfl⟩ := exists_eq_text_of_kind hboth.1
    exact hother s rfl

/-- Merging makes texts and nothing else. -/
theorem eq_text_or_mem_of_mem_mergeTexts {node : Node} {nodes : List Node}
    (h : node ∈ mergeTexts nodes) : (∃ s, node = .text s) ∨ node ∈ nodes := by
  fun_induction mergeTexts nodes with
  | case1 => exact absurd h List.not_mem_nil
  | case2 s rest t merged hmerged ih =>
    rcases List.mem_cons.1 h with rfl | hmem
    · exact Or.inl ⟨s ++ t, rfl⟩
    · have hrest : node ∈ mergeTexts rest := hmerged ▸ List.mem_cons_of_mem _ hmem
      exact (ih hrest).imp_right (List.mem_cons_of_mem _)
  | case3 s rest hother ih =>
    rcases List.mem_cons.1 h with rfl | hmem
    · exact Or.inl ⟨s, rfl⟩
    · exact (ih hmem).imp_right (List.mem_cons_of_mem _)
  | case4 first rest hother ih =>
    rcases List.mem_cons.1 h with rfl | hmem
    · exact Or.inr List.mem_cons_self
    · exact (ih hmem).imp_right (List.mem_cons_of_mem _)

theorem everywhere_of_mem_mergeTexts {nodes : List Node}
    (h : ∀ node ∈ nodes, node.everywhere Node.isNormal = true) :
    ∀ node ∈ mergeTexts nodes, node.everywhere Node.isNormal = true := by
  intro node hnode
  rcases eq_text_or_mem_of_mem_mergeTexts hnode with ⟨s, rfl⟩ | hmem
  · rfl
  · exact h node hmem

/-- **Texts that are apart are not merged.** -/
theorem mergeTexts_eq_self {nodes : List Node} (h : nodes.IsChain Node.CanPrecede) :
    mergeTexts nodes = nodes := by
  fun_induction mergeTexts nodes with
  | case1 => rfl
  | case2 s rest t merged hmerged ih =>
    -- the texts that would be merged are neighbours
    obtain ⟨hfirst, hrest⟩ := List.isChain_cons.1 h
    have hnext : Node.text t ∈ rest.head? := by
      rw [← ih hrest, hmerged]
      exact rfl
    exact absurd ⟨rfl, rfl⟩ (hfirst _ hnext)
  | case3 s rest hother ih => rw [ih (List.isChain_cons.1 h).2]
  | case4 node rest hother ih => rw [ih (List.isChain_cons.1 h).2]

/-! ## Sound placements -/

/-- A placement that keeps a document in normal form: its node is in normal form, and is a block if
it is to stand between blocks. -/
structure Placement.Sound (placed : Placement) : Prop where
  inside : placed.node.everywhere Node.isNormal = true
  block : placed.inline = false → placed.node.isBlock = true

/-! ## Runs of inline nodes -/

theorem everywhere_paragraph {nodes : List Node}
    (h : ∀ node ∈ nodes, node.everywhere Node.isNormal = true) :
    (Node.container .paragraph (mergeTexts nodes)).everywhere Node.isNormal = true :=
  everywhere_container.2
    ⟨rfl, ⟨isChain_mergeTexts nodes, nofun⟩, everywhere_of_mem_mergeTexts h⟩

theorem blocks_paragraphOf {run : List Node}
    (h : ∀ node ∈ run, node.everywhere Node.isNormal = true) :
    ∀ node ∈ paragraphOf run, node.isBlock = true ∧ node.everywhere Node.isNormal = true := by
  intro node hnode
  unfold paragraphOf at hnode
  split at hnode
  · exact absurd hnode List.not_mem_nil
  · rw [List.mem_singleton.1 hnode]
    exact ⟨rfl, everywhere_paragraph h⟩

/-- **Where blocks are expected, only blocks come out**, all in normal form: the runs of inline
nodes become paragraphs. -/
theorem blocks_wrapRuns {run : List Node} {placed : List Placement}
    (hrun : ∀ node ∈ run, node.everywhere Node.isNormal = true) (h : ∀ p ∈ placed, p.Sound) :
    ∀ node ∈ wrapRuns run placed, node.isBlock = true ∧ node.everywhere Node.isNormal = true := by
  have hopen : ∀ run : List Node, (∀ node ∈ run, node.everywhere Node.isNormal = true) →
      ∀ node ∈ run.reverse, node.everywhere Node.isNormal = true :=
    fun run hrun node hnode => hrun node (List.mem_reverse.1 hnode)
  induction placed generalizing run with
  | nil => exact blocks_paragraphOf (hopen run hrun)
  | cons p rest ih =>
    have hp := h p List.mem_cons_self
    have hrest := fun q hq => h q (List.mem_cons_of_mem p hq)
    rw [wrapRuns]
    split
    · refine ih (fun node hnode => ?_) hrest
      rcases List.mem_cons.1 hnode with rfl | hmem
      · exact hp.inside
      · exact hrun node hmem
    · rename_i hblock
      intro node hnode
      rcases List.mem_append.1 hnode with hmem | hmem
      · exact blocks_paragraphOf (hopen run hrun) node hmem
      rcases List.mem_cons.1 hmem with rfl | hmem
      · exact ⟨hp.block (by simpa using hblock), hp.inside⟩
      · exact ih (fun node hnode => absurd hnode List.not_mem_nil) hrest node hmem

/-- **Blocks are not wrapped.** -/
theorem wrapRuns_of_blocks {placed : List Placement} (h : ∀ p ∈ placed, p.inline = false) :
    wrapRuns [] placed = placed.map Placement.node := by
  induction placed with
  | nil => rfl
  | cons p rest ih =>
    rw [wrapRuns, h p List.mem_cons_self, ih fun q hq => h q (List.mem_cons_of_mem p hq)]
    rfl

/-! ## Children of a tag -/

/-- **A tag gathers children in normal form** from sound placements. -/
theorem Tag.gather_normal (tag : Tag) {placed : List Placement} (h : ∀ p ∈ placed, p.Sound) :
    Siblings (!tag.holdsText) (tag.gather placed) ∧
      ∀ child ∈ tag.gather placed, child.everywhere Node.isNormal = true := by
  unfold Tag.gather
  cases tag.holdsText with
  | true =>
    refine ⟨⟨isChain_mergeTexts _, nofun⟩, everywhere_of_mem_mergeTexts fun node hnode => ?_⟩
    obtain ⟨p, hp, rfl⟩ := List.mem_map.1 hnode
    exact (h p hp).inside
  | false =>
    have hblocks : ∀ node ∈ wrapRuns [] placed, _ :=
      blocks_wrapRuns (fun _ hnode => absurd hnode List.not_mem_nil) h
    exact ⟨siblings_of_blocks _ fun node hnode => (hblocks node hnode).1,
      fun node hnode => (hblocks node hnode).2⟩

/-- **A tag leaves nodes alone** whose texts are apart and which stand where they are expected. -/
theorem Tag.gather_eq_map {tag : Tag} {placed : List Placement}
    (hapart : (placed.map Placement.node).IsChain Node.CanPrecede)
    (hblocks : tag.holdsText = false → ∀ p ∈ placed, p.inline = false) :
    tag.gather placed = placed.map Placement.node := by
  unfold Tag.gather
  cases htext : tag.holdsText with
  | true => exact mergeTexts_eq_self hapart
  | false => exact wrapRuns_of_blocks (hblocks htext)

/-! ## Reading through what was gathered -/

/-- A way to read nodes, piece by piece, that sees neither where texts are cut nor a paragraph
around nodes. -/
structure ReadsThrough {α : Type} (read : List Node → α) (join : α → α → α) : Prop where
  append (before after : List Node) : read (before ++ after) = join (read before) (read after)
  texts (s t : String) (rest : List Node) :
    read (.text (s ++ t) :: rest) = read (.text s :: .text t :: rest)
  paragraph (children : List Node) : read [.container .paragraph children] = read children

namespace ReadsThrough

variable {α : Type} {read : List Node → α} {join : α → α → α}

theorem cons (h : ReadsThrough read join) (node : Node) (rest : List Node) :
    read (node :: rest) = join (read [node]) (read rest) :=
  h.append [node] rest

theorem mergeTexts (h : ReadsThrough read join) (nodes : List Node) :
    read (mergeTexts nodes) = read nodes := by
  fun_induction ChatMarkup.mergeTexts nodes with
  | case1 => rfl
  | case2 s rest t merged hmerged ih =>
    rw [h.texts, h.cons (.text s), ← hmerged, ih, ← h.cons]
  | case3 s rest hother ih => rw [h.cons, ih, ← h.cons]
  | case4 node rest hother ih => rw [h.cons, ih, ← h.cons]

theorem paragraphOf (h : ReadsThrough read join) (run : List Node) :
    read (paragraphOf run) = read run := by
  unfold ChatMarkup.paragraphOf
  split
  · rfl
  · rw [h.paragraph, h.mergeTexts]

/-- Runs are read in their paragraphs as they are read in a line, the open run before all else. -/
theorem wrapRuns (h : ReadsThrough read join) (run : List Node) (placed : List Placement) :
    read (wrapRuns run placed) = read (run.reverse ++ placed.map Placement.node) := by
  induction placed generalizing run with
  | nil => rw [ChatMarkup.wrapRuns, h.paragraphOf, List.map_nil, List.append_nil]
  | cons p rest ih =>
    rw [ChatMarkup.wrapRuns]
    split
    · rw [ih, List.reverse_cons, List.append_assoc]
      rfl
    · rw [h.append, h.paragraphOf, h.cons, ih, List.reverse_nil, List.nil_append, ← h.cons,
        ← h.append, List.map_cons]

/-- **The children that a tag gathers are read as what was placed inside it.** -/
theorem gather (h : ReadsThrough read join) (tag : Tag) (placed : List Placement) :
    read (tag.gather placed) = read (placed.map Placement.node) := by
  unfold Tag.gather
  split
  · exact h.mergeTexts _
  · rw [h.wrapRuns, List.reverse_nil, List.nil_append]

end ReadsThrough

end ChatMarkup
