import ChatMarkup.Proofs.Dialect.Completes
import ChatMarkup.Proofs.Render.Closure

/-!
# Messages that can be read on their own

Whatever texts, codes, languages, destinations and marks a document has, a reader of what is
written of it gets through and is back in text at the end, and so it does with each message of a
split. The cuts between messages, the marks of quotes and the trimming do not change that.

Results:
* `completes_ruleClosed`: the texts that can be read to their end are closed under what the standard
  rules do.
* `write_split_selfContained`: documents and their messages can be read on their own.
-/

namespace ChatMarkup

/-- **The standard rules do not leave the texts that can be read to their end.** -/
theorem completes_ruleClosed : RuleClosed fun s => Completes .text s.toList where
  layout s hs := by
    have hall : ∀ s ∈ layout, s.toList.all (· ∉ Place.text.special) = true := by decide
    have hplain : ∀ c ∈ s.toList, c ∉ Place.text.special := fun c hc => by
      simpa using List.all_eq_true.1 (hall s hs) c hc
    have h := Completes.append_bare hplain .nil
    rwa [List.append_nil] at h
  append hs ht := by
    rw [String.toList_append]
    exact hs.append ht
  escape := completes_escape_text
  codeSpan := completes_codeSpan
  codeFence := completes_codeFence
  linkTo url h := completes_linkTo h url
  quote := completes_quote
  trim := completes_trim

/-- A renderer with the standard rules, in a place where what is written can be read. -/
abbrev Renderer.Readable (r : Renderer) : Prop :=
  RuleClosed.Standard (fun s => Completes .text s.toList) r

/-- **Every message can be read on its own**: for all documents without tables and empty code, all
styles and all limits, the reader takes in what the standard rules write, and each message of a
split, completely, and is back in text at the end. -/
theorem write_split_selfContained (style : Style) (limit : Nat) {nodes : List Node}
    (h : ∀ node ∈ nodes, node.everywhere Node.wellDelimited = true) :
    SelfContained ((Renderer.top style standardRules).write nodes) ∧
      ∀ message ∈ splitNodes (.top style standardRules) limit nodes, SelfContained message := by
  have htop := completes_ruleClosed.standard_top style
  refine ⟨exists_read_of_completes (completes_ruleClosed.write htop h), fun message hm => ?_⟩
  exact exists_read_of_completes (completes_ruleClosed.split htop limit h message hm)

/-- A quoted link whose destination goes over a line and whose label has code ending in a backslash,
and a fence with fences inside it that is divided. -/
theorem write_split_selfContained_quoted_link :
    let code : Node := .leaf (.inlineCode "\x60\n\\")
    let link : Node := .container (.link "a)\n>b\\") [code]
    let quoted : Node := .container .blockquote [.container .paragraph [link]]
    let fence : Node := .leaf (.codeBlock (some "\x60") "\x60\x60\x60\n\\\n\x60\x60\x60")
    (∀ node ∈ [quoted, fence], node.everywhere Node.wellDelimited = true) ∧
      SelfContained ((Renderer.top {} standardRules).write [quoted, fence]) ∧
        ∀ message ∈ splitNodes (.top {} standardRules) 12 [quoted, fence],
          SelfContained message := by
  intro code link quoted fence
  have h : ∀ node ∈ [quoted, fence], node.everywhere Node.wellDelimited = true := by decide
  exact ⟨h, write_split_selfContained {} 12 h⟩

end ChatMarkup
