import ChatMarkup.Proofs.Message.Pieces
import ChatMarkup.Render.Standard

/-!
# What of a node reaches the messages

A node that shows something has a piece in the messages, with one exception: a divider may make
fragments of a node that is too long, all of them empty. That there are fragments is decided before
the empty ones are left out, so then nothing of the node is left. The standard dividers never do so.

Results:
* `piecesOf_eq_nil_iff`: which nodes give no piece.
* `split_keeps_shown_nodes`: the messages have a piece of every other node.
* `split_loses_html_paragraph`: a paragraph of html that is divided into the words of its text.
* `exists_piece_of_standard`: with the standard dividers no node is lost.
-/

namespace ChatMarkup

variable {ρ : Type} [Writer ρ]

/-- The fragments of a node that is too long are all empty, but there are some. -/
def Splitter.Loses (s : Splitter ρ) (r : ρ) (node : Node) : Prop :=
  s.limit < Text.units (Writer.write r [node]) ∧
    ∃ divider, s.dividers.get? node.kind = some divider ∧
      divider r node s.limit ≠ [] ∧ ∀ fragment ∈ divider r node s.limit, fragment = ""

/-- **Which nodes give no piece**: those that show nothing, and those that a divider loses. -/
theorem piecesOf_eq_nil_iff (s : Splitter ρ) (r : ρ) (node : Node) :
    s.piecesOf r node = [] ↔ Writer.write r [node] = "" ∨ s.Loses r node := by
  unfold Splitter.piecesOf Splitter.Loses
  generalize Writer.write r [node] = text
  by_cases hempty : text = ""
  · simp [hempty]
  by_cases hfit : Text.units text ≤ s.limit
  · simp [hempty, hfit, Nat.not_lt.2 hfit]
  have hover : s.limit < Text.units text := Nat.lt_of_not_le hfit
  cases s.dividers.get? node.kind with
  | none => simp [hempty, hfit]
  | some divider =>
    by_cases hnil : divider r node s.limit = []
    · simp [hempty, hfit, hnil]
    · simp [hempty, hfit, hover, hnil]

/-- A node that gives a piece gives one that is not empty. -/
theorem exists_mem_piecesOf_iff (s : Splitter ρ) (r : ρ) (node : Node) :
    (∃ piece ∈ s.piecesOf r node, piece ≠ "") ↔ s.piecesOf r node ≠ [] := by
  constructor
  · rintro ⟨piece, hpiece, -⟩
    exact List.ne_nil_of_mem hpiece
  · intro hne
    obtain ⟨piece, hpiece⟩ := List.exists_mem_of_ne_nil _ hne
    exact ⟨piece, hpiece, (piecesOf_cases hpiece).1⟩

/-- **The messages have a piece of every node**, except of nodes that show nothing and of nodes that
a divider loses. -/
theorem split_keeps_shown_nodes (s : Splitter ρ) (r : ρ) (nodes : List Node) :
    (∃ groups, IsCut (nodes.flatMap (s.piecesOf r)) groups ∧
        s.split r nodes = groups.map messageOf) ∧
      ∀ node, (∃ piece ∈ s.piecesOf r node, piece ≠ "") ↔
        Writer.write r [node] ≠ "" ∧ ¬ s.Loses r node := by
  refine ⟨⟨s.groups r nodes, groups_isCut s r nodes, rfl⟩, fun node => ?_⟩
  rw [exists_mem_piecesOf_iff, ← not_or, ← piecesOf_eq_nil_iff]

/-- A paragraph of html shows the html, but it has no text that could be divided into words, and
nothing of it is left. -/
theorem split_loses_html_paragraph :
    let words : Divider := fun _ node _ =>
      (node.plainText.toList.splitOn ' ').map String.ofList
    let s : Splitter := { limit := 5, dividers := standardDividers.insert .paragraph words }
    let r := Renderer.top {} standardRules
    let node : Node := .container .paragraph [.leaf (.html "<b>bold</b>")]
    r.write [node] ≠ "" ∧ s.piecesOf r node = [] ∧ s.split r [node] = [] := by
  intro words s r node
  have hshown : r.write [node] ≠ "" := by decide +kernel
  have hloses : s.Loses r node :=
    ⟨by decide +kernel, words, rfl, by decide +kernel, by decide +kernel⟩
  have hpieces : s.piecesOf r node = [] := (piecesOf_eq_nil_iff s r node).2 (Or.inr hloses)
  exact ⟨hshown, hpieces, by decide +kernel⟩

/-! ## Standard dividers -/

theorem codeFence_ne_empty (language : Option String) (code : String) :
    codeFence language code ≠ "" := by
  simp [codeFence]

/-- A standard divider makes no empty fragment: code has a fence around it, and quotes of nothing
are left out by the divider itself. -/
theorem fragment_ne_empty_of_standard {node : Node} {divider : Divider ρ}
    (hd : standardDividers.get? node.kind = some divider) (r : ρ) (limit : Nat) :
    ∀ fragment ∈ divider r node limit, fragment ≠ "" := by
  intro fragment hf
  rcases standardDividers_cases hd hf with
    ⟨language, code, slice, -, rfl⟩ | ⟨children, child, -, -, -, hshown⟩
  · exact codeFence_ne_empty language slice
  · exact hshown

/-- **With the standard dividers nothing is lost**: the messages have a piece of every node that
shows something. -/
theorem exists_piece_of_standard {s : Splitter ρ} (hs : s.dividers = standardDividers) {r : ρ}
    {node : Node} (hshown : Writer.write r [node] ≠ "") :
    ∃ piece ∈ s.piecesOf r node, piece ≠ "" := by
  refine (exists_mem_piecesOf_iff s r node).2 fun hnil => ?_
  rcases (piecesOf_eq_nil_iff s r node).1 hnil with hempty | ⟨-, divider, hd, hne, hall⟩
  · exact hshown hempty
  · obtain ⟨fragment, hf⟩ := List.exists_mem_of_ne_nil _ hne
    exact fragment_ne_empty_of_standard (hs ▸ hd) r s.limit fragment hf (hall fragment hf)

end ChatMarkup
