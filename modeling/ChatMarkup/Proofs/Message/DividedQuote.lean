import ChatMarkup.Message.Divider
import ChatMarkup.Proofs.Render.Place
import ChatMarkup.Proofs.Text.Lines

/-!
# Quotes that were divided

The divider for quotes quotes each child on its own, where a whole quote is quoted after its
children were written together. Still it makes the same lines, because marks are put on each line by
itself. Only the blank lines between the children, which have a mark in the whole quote, are in no
fragment.

Results:
* `quote_fragments`: the fragments of a quote, when no child is lost.
* `write_blockquote_eq_quote`: how a whole quote is written, from the texts of its children.
* `write_blockquote_eq_fragments`: the whole quote and its fragments.
-/

namespace ChatMarkup

variable {r : Renderer} {children : List Node}

/-- When each child shows something, each has a fragment. -/
theorem quote_fragments (hshown : ∀ child ∈ children, r.write [child] ≠ "") (limit : Nat) :
    Divider.quote r (.container .blockquote children) limit =
      (children.map fun child => r.write [child]).map Text.quote := by
  rw [List.map_map]
  refine List.filter_eq_self.2 fun fragment hfragment => ?_
  obtain ⟨child, hchild, rfl⟩ := List.mem_map.1 hfragment
  have hquoted : Text.quote (r.write [child]) ≠ "" := Text.quote_ne_empty (hshown child hchild)
  simpa using hquoted

/-- A whole quote at a place with blank lines between neighbours is written from the texts that its
children have there. -/
theorem write_blockquote_eq_quote (hr : r.rules = standardRules) (hsep : r.separator = "\n\n")
    (children : List Node) :
    r.write [.container .blockquote children] =
      Text.quote ("\n\n".intercalate (children.map fun child => r.write [child])) := by
  rw [Renderer.write_singleton, Renderer.writeNode_eq, hr]
  show Text.quote ((r.apply (.joined "\n\n")).write children) = _
  rw [← hsep, Renderer.write_joined_separator hr, Renderer.write_eq_intercalate]

/-- **A divided quote is the whole quote, but for the blank lines between its children.** For all
quotes whose children each show something, all styles and all limits: the whole quote is its
fragments with a marked blank line between them, and the fragments are, one for each child, the
text of the child with a mark on each of its lines. -/
theorem write_blockquote_eq_fragments (style : Style) (limit : Nat)
    (hshown : ∀ child ∈ children, (Renderer.top style standardRules).write [child] ≠ "") :
    let r := Renderer.top style standardRules
    let fragments := Divider.quote r (.container .blockquote children) limit
    r.write [.container .blockquote children] = "\n>\n".intercalate fragments ∧
      fragments.map Text.unquote? = children.map fun child => some (r.write [child]) := by
  intro r fragments
  have hfragments : fragments = (children.map fun child => r.write [child]).map Text.quote :=
    quote_fragments hshown limit
  rw [hfragments]
  constructor
  · have htexts : ∀ text ∈ children.map fun child => r.write [child], text ≠ "" := by
      intro text htext
      obtain ⟨child, hchild, rfl⟩ := List.mem_map.1 htext
      exact hshown child hchild
    rw [write_blockquote_eq_quote rfl rfl, Text.quote_intercalate htexts]
  · rw [List.map_map, List.map_map]
    refine List.map_congr_left fun child _ => ?_
    rw [Function.comp_apply, Function.comp_apply, Text.unquote?_quote]

/-- A paragraph over two lines, a quote, code with a blank line and a footnote in one quote. -/
theorem write_blockquote_eq_fragments_nested :
    let r := Renderer.top {} standardRules
    let lines : Node := .container .paragraph [.text "a", .leaf .lineBreak, .text "b."]
    let children := [lines, .container .blockquote [lines, lines],
      .leaf (.codeBlock none "x\n\n\x60"), .container (.footnoteDefinition "1") [lines, lines]]
    let fragments := Divider.quote r (.container .blockquote children) 4
    (∀ child ∈ children, r.write [child] ≠ "") ∧
      r.write [.container .blockquote children] = "\n>\n".intercalate fragments ∧
      fragments.map Text.unquote? = children.map fun child => some (r.write [child]) := by
  intro r lines children fragments
  have hshown : ∀ child ∈ children, r.write [child] ≠ "" := by decide +kernel
  exact ⟨hshown, write_blockquote_eq_fragments {} 4 hshown⟩

end ChatMarkup
