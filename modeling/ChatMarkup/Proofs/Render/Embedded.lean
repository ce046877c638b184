import ChatMarkup.Proofs.Message.SelfContained

/-!
# What the text of a part keeps inside the text of the whole

The standard rules put the texts of children into the text of their node and never drop any of it
but white space. So what a text keeps when more is put around it, when it is quoted and when it is
trimmed (`TextKept`), the text of a node has from the text of any of its children.

Results:
* `TextKept.intercalate`, `TextKept.enclosed`: one text among others, and one between two.
* `TextKept.writeNode_of_child`: what is kept of a child.
-/

namespace ChatMarkup

/-- `Q` stays true of a text when more is put around it, as the standard rules do. All texts are
such as can be read to their end. -/
structure TextKept (Q : String → Prop) : Prop where
  append_left : ∀ {s t : String}, Completes .text s.toList → Completes .text t.toList → Q s →
    Q (s ++ t)
  append_right : ∀ {s t : String}, Completes .text s.toList → Completes .text t.toList → Q t →
    Q (s ++ t)
  linkTo : ∀ {label : String} (url : String), Completes .text label.toList → Q label →
    Q (linkTo label url)
  quote : ∀ {s : String}, Completes .text s.toList → Q s → Q (Text.quote s)
  trim : ∀ {s : String}, Completes .text s.toList → Q s → Q (Text.trim s)

/-- What is written for an item of a list is what is written of the item where it stands. -/
theorem Renderer.write_itemContents {r : Renderer} (hr : r.rules = standardRules) (item : Node) :
    r.write (Rule.itemContents item) = r.writeNode item := by
  unfold Rule.itemContents
  split
  · rw [writeNode_eq, hr]
    rfl
  · rw [write_singleton]

namespace TextKept

variable {Q : String → Prop} {s t : String}

/-- A text among others, with separators between them. -/
theorem intercalate (hQ : TextKept Q) {sep : String} (hsep : Completes .text sep.toList)
    {ss : List String} (hss : ∀ s ∈ ss, Completes .text s.toList) (hmem : s ∈ ss) (hs : Q s) :
    Q (sep.intercalate ss) := by
  induction ss with
  | nil => exact absurd hmem List.not_mem_nil
  | cons first rest ih =>
    have hfirst := hss first List.mem_cons_self
    have hrest := fun t ht => hss t (List.mem_cons_of_mem first ht)
    by_cases hnil : rest = []
    · rw [hnil, List.mem_singleton] at hmem
      rw [hnil, String.intercalate_singleton, ← hmem]
      exact hs
    · have hline := completes_ruleClosed.append hfirst hsep
      have hothers := completes_ruleClosed.intercalate hsep hrest
      rw [String.intercalate_cons_of_ne_nil hnil]
      rcases List.mem_cons.1 hmem with rfl | hmem
      · exact hQ.append_left hline hothers (hQ.append_left hfirst hsep hs)
      · exact hQ.append_right hline hothers (ih hrest hmem)

/-- A text between two others. -/
theorem enclosed (hQ : TextKept Q) {opening closing : String}
    (hopening : Completes .text opening.toList) (hclosing : Completes .text closing.toList)
    (hread : Completes .text s.toList) (hs : Q s) : Q (opening ++ s ++ closing) :=
  hQ.append_left (completes_ruleClosed.append hopening hread) hclosing
    (hQ.append_right hopening hread hs)

theorem headingText (hQ : TextKept Q) (style : Style) (level : Nat)
    (hread : Completes .text s.toList) (hs : Q s) : Q (Rule.headingText style level s) := by
  have hmark := completes_ruleClosed.layout "*" (by decide)
  have hspace := completes_ruleClosed.layout " " (by decide)
  unfold Rule.headingText
  split
  · rename_i glyph _
    have hglyph := completes_ruleClosed.append hmark (completes_ruleClosed.escape glyph)
    exact hQ.enclosed (completes_ruleClosed.append hglyph hspace) hmark hread hs
  · exact hQ.enclosed hmark hmark hread hs

/-- The text of an item in the lines of its list. -/
theorem listText (hQ : TextKept Q) (scope : Scope) (ordered : Bool) (start : Option Nat)
    {items : List Node} {texts : List String} (hlength : texts.length = items.length)
    (htexts : ∀ s ∈ texts, Completes .text s.toList) (hmem : s ∈ texts) (hs : Q s) :
    Q (Rule.listText scope ordered start items texts) := by
  obtain ⟨index, hindex, rfl⟩ := List.mem_iff_getElem.1 hmem
  have hline : index < (items.zip texts).length := by
    rw [List.length_zip]
    omega
  refine hQ.intercalate (completes_ruleClosed.layout "\n" (by decide)) (fun line hline => ?_)
    (List.mem_mapIdx.2 ⟨index, hline, rfl⟩) ?_
  · obtain ⟨other, hother, rfl⟩ := List.mem_mapIdx.1 hline
    have htext := htexts _ (List.of_mem_zip (List.getElem_mem hother)).2
    exact completes_ruleClosed.append (completes_ruleClosed.escape _)
      (completes_ruleClosed.trim htext)
  · rw [List.getElem_zip]
    exact hQ.append_right (completes_ruleClosed.escape _)
      (completes_ruleClosed.trim (htexts _ hmem)) (hQ.trim (htexts _ hmem) hs)

/-- **What is kept of a child**, wherever it is written, is kept of its node. -/
theorem writeNode_of_child (hQ : TextKept Q) {node child : Node} (hchild : child ∈ node.children)
    (hwell : node.everywhere Node.wellDelimited = true)
    (hkept : ∀ {r : Renderer}, r.Readable → Q (r.writeNode child)) {r : Renderer}
    (hr : r.Readable) : Q (r.writeNode node) := by
  have hparts : ∀ part ∈ node.children, part.everywhere Node.wellDelimited = true :=
    fun part hpart => Node.everywhere_of_part (.child hpart) hwell
  have hread {r' : Renderer} (hr' : r'.Readable) :=
    completes_ruleClosed.write hr' hparts
  have hwritten {r' : Renderer} (hr' : r'.Readable) : Q (r'.write node.children) := by
    refine hQ.intercalate hr'.2 (fun s hs => ?_) (List.mem_map_of_mem hchild) (hkept hr')
    obtain ⟨part, hpart, rfl⟩ := List.mem_map.1 hs
    exact completes_ruleClosed.writeNode hr' part (hparts part hpart)
  have hjoined (sep : String) (hsep : sep ∈ layout) : (r.apply (.joined sep)).Readable :=
    completes_ruleClosed.standard_apply hr (RuleClosed.ofLayout_joined hsep)
  have hblocks := hjoined "\n\n" (by decide)
  have hinline := hjoined "" (by decide)
  have hlayout := completes_ruleClosed.layout
  rw [Renderer.writeNode_eq, hr.1]
  cases node with
  | leaf l => exact absurd hchild List.not_mem_nil
  | container c children =>
    cases c with
    | document => exact hQ.trim (hread hblocks) (hwritten hblocks)
    | paragraph | tableCell => exact hwritten hinline
    | heading level => exact hQ.headingText r.style level (hread hinline) (hwritten hinline)
    | emphasis | strong | strikethrough =>
      exact hQ.enclosed (hlayout _ (by decide)) (hlayout _ (by decide)) (hread hinline)
        (hwritten hinline)
    | link url => exact hQ.linkTo url (hread hinline) (hwritten hinline)
    | blockquote => exact hQ.quote (hread hblocks) (hwritten hblocks)
    | list ordered start =>
      -- each item is written where it stands, one level deeper
      have hitems : (r.apply (.andThen .nested (.joined "\n"))).Readable :=
        completes_ruleClosed.standard_apply hr ⟨rfl, "\n", by decide, rfl⟩
      show Q ((Recipe.askEach _ _ _).run _)
      rw [Recipe.run_askEach, List.map_map]
      refine hQ.listText r.toScope ordered start (by simp) (fun s hs => ?_)
        (List.mem_map_of_mem (List.mem_attach children ⟨child, hchild⟩)) ?_
      · obtain ⟨⟨item, hitem⟩, -, rfl⟩ := List.mem_map.1 hs
        exact completes_ruleClosed.write hitems fun part hpart =>
          Node.everywhere_of_part (Rule.part_of_mem_itemContents hitem hpart) hwell
      · have hitem := hkept hitems
        rwa [← Renderer.write_itemContents hitems.1] at hitem
    | listItem _ | footnoteDefinition _ => exact hwritten hr
    | table => exact absurd ((Node.everywhere_iff _).1 hwell).1 nofun
    | tableRow =>
      have hcells := hjoined " | " (by decide)
      exact hQ.enclosed (hlayout "| " (by decide)) (hlayout " |" (by decide)) (hread hcells)
        (hwritten hcells)

end TextKept

end ChatMarkup
