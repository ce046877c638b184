import ChatMarkup.Converter
import ChatMarkup.Proofs.Dialect.Escaped
import ChatMarkup.Proofs.Message.Limit
import ChatMarkup.Proofs.Text.Lines
import ChatMarkup.Proofs.Text.Slices

/-!
# Documents that can be delivered

The standard dividers bring code and quotes under a limit, as far as they can. Code is cut so that
each slice fits a message together with a fence of its own. That is reckoned before the slice is
escaped, so it is a promise only for code in which nothing is escaped, and only if any character
has room in a fence. A quote is divided into its children, which are not divided further. When all
nodes of a document are within these bounds (`Deliverable`) or short anyway, so are the messages.

Results:
* `units_codeFence`: the units that a fence takes are those that the divider for code reckons with.
* `units_le_of_mem_code`, `units_le_of_mem_quote`: how long fragments can be.
* `units_le_of_mem_piecesOf`: the pieces of a deliverable node all fit a message.
* `split_fits_of_deliverable`: so do the messages of a document of such nodes, in any order.
-/

namespace ChatMarkup

/-- A node of which the standard dividers make pieces of at most `limit` units. -/
inductive Node.Deliverable (r : Renderer) (limit : Nat) : Node → Prop
  /-- The node fits a message as it is. -/
  | whole {node : Node} (fits : Text.units (r.write [node]) ≤ limit) : Deliverable r limit node
  /-- Code without escapes, with room for any character in a fence of its language. -/
  | code {language : Option String} {code : String} (backtick : '\x60' ∉ code.toList)
      (backslash : '\\' ∉ code.toList)
      (room : 8 + Text.units (Grammar.text.escape (language.getD "")) ≤ limit - 2) :
      Deliverable r limit (.leaf (.codeBlock language code))
  /-- A quote that shows something, with children that each fit a message as a quote. -/
  | quote {children : List Node} (shown : ∃ child ∈ children, r.write [child] ≠ "")
      (fits : ∀ child ∈ children, Text.units (Text.quote (r.write [child])) ≤ limit) :
      Deliverable r limit (.container .blockquote children)

/-! ## Fences -/

/-- **The units that a fence takes** are those of the escaped code and those reckoned with. -/
theorem units_codeFence (language : Option String) (code : String) :
    Text.units (codeFence language code) =
      Divider.fenceUnits language + Text.units (Grammar.code.escape code) := by
  have hopening : Text.units "\x60\x60\x60" = 3 := by decide
  have hnewline : Text.units "\n" = 1 := by decide
  have hclosing : Text.units "\n\x60\x60\x60" = 4 := by decide
  simp only [codeFence, Divider.fenceUnits, Text.units_append, hopening, hnewline, hclosing]
  omega

/-- Code in which nothing is escaped takes its own units. -/
theorem units_escape_code {code : String} (hbacktick : '\x60' ∉ code.toList)
    (hbackslash : '\\' ∉ code.toList) :
    Text.units (Grammar.code.escape code) = Text.units code := by
  have hnone : code.toList.countP (· ∈ Grammar.code.reserved) = 0 := by
    rw [List.countP_eq_zero]
    intro c hc
    have hplain : c ≠ '\x60' ∧ c ≠ '\\' := by
      constructor
      · rintro rfl
        exact hbacktick hc
      · rintro rfl
        exact hbackslash hc
    simpa [Grammar.reserved] using hplain
  rw [Grammar.units_escape, hnone, Nat.add_zero]

section Fragments

variable {r : Renderer} {limit : Nat} {fragment : String}

/-- **A fragment of code fits a message**: its slice leaves room for the fence. -/
theorem units_le_of_mem_code {language : Option String} {code : String}
    (hbacktick : '\x60' ∉ code.toList) (hbackslash : '\\' ∉ code.toList)
    (hroom : Divider.fenceUnits language + 2 ≤ limit)
    (hfragment : fragment ∈ Divider.code r (.leaf (.codeBlock language code)) limit) :
    Text.units fragment ≤ limit := by
  obtain ⟨slice, hslice, rfl⟩ := List.mem_map.1 hfragment
  have hlength : Text.units slice ≤ limit - Divider.fenceUnits language :=
    Text.units_le_of_mem_slices (by omega) hslice
  have hplain : Text.units (Grammar.code.escape slice) = Text.units slice := by
    refine units_escape_code ?_ ?_
    · exact fun hc => hbacktick (Text.mem_toList_of_mem_slices hslice hc)
    · exact fun hc => hbackslash (Text.mem_toList_of_mem_slices hslice hc)
  rw [units_codeFence, hplain]
  omega

/-- Code is not divided only if there is none or no room in a fence. -/
theorem eq_empty_of_code_eq_nil {language : Option String} {code : String}
    (hroom : Divider.fenceUnits language < limit)
    (hnil : Divider.code r (.leaf (.codeBlock language code)) limit = []) : code = "" := by
  by_cases hempty : code = ""
  · exact hempty
  · have hslices : Text.slices (limit - Divider.fenceUnits language) code ≠ [] :=
      Text.slices_ne_nil (by omega) hempty
    exact absurd (List.map_eq_nil_iff.1 hnil) hslices

/-- **A fragment of a quote fits a message** if each child does as a quote. -/
theorem units_le_of_mem_quote {children : List Node}
    (hfits : ∀ child ∈ children, Text.units (Text.quote (r.write [child])) ≤ limit)
    (hfragment : fragment ∈ Divider.quote r (.container .blockquote children) limit) :
    Text.units fragment ≤ limit := by
  obtain ⟨child, hchild, rfl⟩ := List.mem_map.1 (List.mem_filter.1 hfragment).1
  exact hfits child hchild

/-- A quote is not divided only if no child shows anything. -/
theorem eq_empty_of_quote_eq_nil {children : List Node}
    (hnil : Divider.quote r (.container .blockquote children) limit = []) :
    ∀ child ∈ children, r.write [child] = "" := by
  intro child hchild
  by_cases hempty : r.write [child] = ""
  · exact hempty
  · have hquoted := Text.quote_ne_empty hempty
    have hleft := List.filter_eq_nil_iff.1 hnil _ (List.mem_map_of_mem hchild)
    exact absurd (by simpa using hleft) hquoted

end Fragments

/-! ## Pieces and messages -/

section Messages

variable {s : Splitter} {r : Renderer} {nodes : List Node} {node : Node}

/-- The room that code needs, in the units that the divider for code reckons with. -/
theorem fenceUnits_add_two_le {language : Option String} {limit : Nat}
    (room : 8 + Text.units (Grammar.text.escape (language.getD "")) ≤ limit - 2) :
    Divider.fenceUnits language + 2 ≤ limit := by
  unfold Divider.fenceUnits
  omega

/-- A deliverable node that nothing divides fits a message as it is. -/
theorem units_le_of_undivided (hs : s.dividers = standardDividers) (hr : r.rules = standardRules)
    (h : node.Deliverable r s.limit) (hundivided : s.Undivided r node) :
    Text.units (r.write [node]) ≤ s.limit := by
  unfold Splitter.Undivided at hundivided
  rw [hs] at hundivided
  cases h with
  | whole fits => exact fits
  | @code language code backtick backslash room =>
    rcases hundivided with hnone | ⟨divider, hdivider, hnil⟩
    · cases hnone
    · -- there is no code, and the fence itself fits
      obtain rfl := Option.some.inj hdivider
      have hroom := fenceUnits_add_two_le room
      obtain rfl := eq_empty_of_code_eq_nil (by omega) hnil
      have hwritten : r.write [.leaf (.codeBlock language "")] = codeFence language "" := by
        rw [Renderer.write_singleton, Renderer.writeNode_eq, hr]
        rfl
      have hempty : Text.units (Grammar.code.escape "") = 0 := by decide
      rw [hwritten, units_codeFence, hempty]
      omega
  | quote shown fits =>
    rcases hundivided with hnone | ⟨divider, hdivider, hnil⟩
    · cases hnone
    · obtain rfl := Option.some.inj hdivider
      obtain ⟨child, hchild, hshown⟩ := shown
      exact absurd (eq_empty_of_quote_eq_nil hnil child hchild) hshown

/-- A fragment of a deliverable node that is too long itself fits a message. -/
theorem units_le_of_mem_fragments {limit : Nat} (h : node.Deliverable r limit)
    (hlong : limit < Text.units (r.write [node])) {divider : Divider}
    (hdivider : standardDividers.get? node.kind = some divider) :
    ∀ fragment ∈ divider r node limit, Text.units fragment ≤ limit := by
  intro fragment hfragment
  cases h with
  | whole fits => omega
  | code backtick backslash room =>
    obtain rfl := Option.some.inj hdivider
    exact units_le_of_mem_code backtick backslash (fenceUnits_add_two_le room) hfragment
  | quote shown fits =>
    obtain rfl := Option.some.inj hdivider
    exact units_le_of_mem_quote fits hfragment

/-- **The pieces of a deliverable node all fit a message.** -/
theorem units_le_of_mem_piecesOf (hs : s.dividers = standardDividers)
    (hr : r.rules = standardRules) (h : node.Deliverable r s.limit) :
    ∀ piece ∈ s.piecesOf r node, Text.units piece ≤ s.limit := by
  intro piece hpiece
  obtain ⟨-, ⟨rfl, hfits | hundivided⟩ | ⟨hlong, divider, hdivider, hmem⟩⟩ := piecesOf_cases hpiece
  · exact hfits
  · exact units_le_of_undivided hs hr h hundivided
  · exact units_le_of_mem_fragments h hlong (hs ▸ hdivider) piece hmem

end Messages

/-- When all pieces fit a message, so do all messages. -/
theorem units_le_of_mem_split {ρ : Type} [Writer ρ] {s : Splitter ρ} {r : ρ} {nodes : List Node}
    (h : ∀ node ∈ nodes, ∀ piece ∈ s.piecesOf r node, Text.units piece ≤ s.limit) :
    ∀ message ∈ s.split r nodes, Text.units message ≤ s.limit := by
  intro message hmessage
  obtain ⟨group, hgroup, rfl⟩ := List.mem_map.1 hmessage
  cases finished_of_mem_groups hgroup with
  | fits _ hle => exact hle
  | @alone piece hlong =>
    obtain ⟨node, hnode, hpiece⟩ := exists_node_of_mem_groups hgroup (List.mem_singleton_self piece)
    have hfits := h node hnode piece hpiece
    omega

/-- **Deliverable documents are delivered.** For all styles and limits, when each node of a document
fits a message, is code without escapes and with room in a fence, or is a quote of children that
each fit, then every message of its split with the standard rules and dividers is within the
limit. -/
theorem split_fits_of_deliverable (style : Style) (limit : Nat) {nodes : List Node}
    (h : ∀ node ∈ nodes, node.Deliverable (.top style standardRules) limit) :
    ∀ message ∈ splitNodes (.top style standardRules) limit nodes,
      Text.units message ≤ limit := by
  let s : Splitter := { limit := limit }
  have hpieces : ∀ node ∈ nodes, ∀ piece ∈ s.piecesOf (.top style standardRules) node,
      Text.units piece ≤ s.limit := by
    intro node hnode
    exact units_le_of_mem_piecesOf rfl rfl (h node hnode)
  exact units_le_of_mem_split hpieces

/-- A short paragraph, a fence that is divided between two wide characters and a quote that is
divided between its children, of which one shows nothing. -/
theorem split_fits_of_deliverable_mixed :
    let r := Renderer.top {} standardRules
    let short : Node := .container .paragraph [.text "a.b"]
    let fence : Node := .leaf (.codeBlock (some "c+") "😀😀\nx😀")
    let quoted : Node := .container .blockquote
      [.container .paragraph [.text "one two"], .leaf (.footnoteReference "n"),
        .container .paragraph [.text "three\nfour"]]
    (∀ node ∈ [short, fence, quoted, short], node.Deliverable r 14) ∧
      14 < Text.units (r.write [fence]) ∧ 14 < Text.units (r.write [quoted]) ∧
      ∀ message ∈ splitNodes r 14 [short, fence, quoted, short], Text.units message ≤ 14 := by
  intro r short fence quoted
  have hshort : short.Deliverable r 14 := .whole (by decide +kernel)
  have hfence : fence.Deliverable r 14 := .code (by decide) (by decide) (by decide)
  have hquoted : quoted.Deliverable r 14 := .quote (by decide +kernel) (by decide +kernel)
  have hall : ∀ node ∈ [short, fence, quoted, short], node.Deliverable r 14 := by
    simp only [List.forall_mem_cons, List.not_mem_nil, false_implies, implies_true, and_true]
    exact ⟨hshort, hfence, hquoted, hshort⟩
  exact ⟨hall, by decide +kernel, by decide +kernel, split_fits_of_deliverable {} 14 hall⟩

end ChatMarkup
