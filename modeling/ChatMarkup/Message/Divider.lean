import ChatMarkup.Dialect.Code
import ChatMarkup.Render.Renderer
import ChatMarkup.Text.Lines
import ChatMarkup.Text.Units

/-!
# Dividing blocks that are too long

A divider breaks a node that is too long for one message into fragments, each well formed on its
own. Fragments need not fit a message themselves. A divider that gives no fragments cannot break the
node up.

To divide a node and to split a document it need only be known what text nodes have, not how it
comes about. So a divider works at places of any type at which nodes can be written; renderers are
such places.

Results:
* `standardDividers_cases`: what a fragment of the standard dividers is.
-/

namespace ChatMarkup

/-- Places where nodes can be written. -/
class Writer (ρ : Type) where
  /-- The text of neighbouring nodes at a place. -/
  write : ρ → List Node → String

instance : Writer Renderer := ⟨Renderer.write⟩

@[simp] theorem Writer.write_renderer (r : Renderer) (nodes : List Node) :
    Writer.write r nodes = r.write nodes := rfl

/-- Breaks a node into fragments, given the place where it is written and the longest message
allowed. -/
abbrev Divider (ρ : Type := Renderer) := ρ → Node → Nat → List String

namespace Divider

variable {ρ : Type}

/-- The units that a code fence in a language takes besides its code. -/
def fenceUnits (language : Option String) : Nat :=
  Text.units (Grammar.text.escape (language.getD "")) + 8

/-- Cuts code into slices that leave room for a fence around each. Characters that need escaping can
still make a fragment longer than allowed. -/
def code : Divider ρ := fun _ node limit =>
  match node with
  | .leaf (.codeBlock language code) =>
    (Text.slices (limit - fenceUnits language) code).map (codeFence language)
  | _ => []

/-- Quotes each child of a quote on its own. A child with nothing to show gives no fragment. -/
def quote [Writer ρ] : Divider ρ := fun r node _ =>
  match node with
  | .container .blockquote children =>
    (children.map fun child => Text.quote (Writer.write r [child])).filter (!·.isEmpty)
  | _ => []

end Divider

variable {ρ : Type} [Writer ρ]

/-- The dividers for code blocks and for quotes. -/
def standardDividers : KindTable (Divider ρ) where
  get?
    | .codeBlock => some Divider.code
    | .blockquote => some Divider.quote
    | _ => none

/-- A fragment of the standard dividers is a slice of code in a fence, or a child of a quote that
shows something, quoted. -/
theorem standardDividers_cases {r : ρ} {node : Node} {limit : Nat} {divider : Divider ρ}
    {fragment : String} (hd : standardDividers.get? node.kind = some divider)
    (hf : fragment ∈ divider r node limit) :
    (∃ language code slice, node = .leaf (.codeBlock language code) ∧
      fragment = codeFence language slice) ∨
    (∃ children child, node = .container .blockquote children ∧ child ∈ children ∧
      fragment = Text.quote (Writer.write r [child]) ∧ fragment ≠ "") := by
  cases node with
  | leaf l =>
    cases l with
    | codeBlock language code =>
      obtain rfl := Option.some.inj hd
      obtain ⟨slice, -, rfl⟩ := List.mem_map.1 hf
      exact .inl ⟨language, code, slice, rfl, rfl⟩
    | _ => cases hd
  | container c children =>
    cases c with
    | blockquote =>
      obtain rfl := Option.some.inj hd
      obtain ⟨hquoted, hshown⟩ := List.mem_filter.1 hf
      obtain ⟨child, hchild, rfl⟩ := List.mem_map.1 hquoted
      exact .inr ⟨children, child, rfl, hchild, rfl, by simpa using hshown⟩
    | _ => cases hd

end ChatMarkup
