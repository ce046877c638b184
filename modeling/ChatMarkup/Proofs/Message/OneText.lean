import ChatMarkup.Converter
import ChatMarkup.Proofs.Message.Fewest
import ChatMarkup.Proofs.Render.Place

/-!
# Messages and the document as one text

A document can be had as one text or as messages. When no block has to be divided, both come from
the texts of the same blocks, joined with blank lines between them. But the one text is made with
the texts of all blocks, also of those that show nothing, and is trimmed in the end; the messages
are made without empty texts, and nothing is trimmed. So they agree just when that makes no
difference.

Results:
* `messageOf_filter_eq_trim_iff`: when joining without empty texts is the same as joining all and
  trimming.
* `write_document_eq_trim_intercalate`: how a document is written, from the texts of its blocks.
* `render_eq_trim_messageOf`: the one text, from the texts of the blocks.
* `messageOf_split_of_fits`: the messages, from the texts of the blocks.
* `messageOf_split_eq_render_iff`: when the two agree.
* `messageOf_split_ne_render_of_empty_quote`: an empty quote between two paragraphs.
-/

namespace ChatMarkup

/-! ## Empty texts at the ends -/

/-- White space between the texts of a message. -/
theorem isBlank_of_mem_separator : ∀ c ∈ "\n\n".toList, Text.isBlank c = true := by
  intro c hc
  obtain rfl : c = '\n' := by simpa using hc
  rfl

theorem trim_messageOf_cons_empty (texts : List String) :
    Text.trim (messageOf ("" :: texts)) = Text.trim (messageOf texts) := by
  by_cases hnil : texts = []
  · simp [hnil]
  · rw [messageOf_cons_of_ne_nil "" hnil, String.empty_append,
      Text.trim_append_left isBlank_of_mem_separator]

theorem trim_messageOf_concat_empty (texts : List String) :
    Text.trim (messageOf (texts ++ [""])) = Text.trim (messageOf texts) := by
  by_cases hnil : texts = []
  · simp [hnil]
  · rw [messageOf_append_of_ne_nil hnil (List.cons_ne_nil "" []), messageOf_singleton,
      String.append_empty, Text.trim_append_right _ isBlank_of_mem_separator]

/-- **Empty texts at the ends of a message are trimmed away.** -/
theorem trim_messageOf_surrounded {before after : List String} (hbefore : ∀ s ∈ before, s = "")
    (hafter : ∀ s ∈ after, s = "") (texts : List String) :
    Text.trim (messageOf (before ++ texts ++ after)) = Text.trim (messageOf texts) := by
  rw [List.eq_replicate_of_mem hbefore, List.eq_replicate_of_mem hafter]
  generalize before.length = m, after.length = n
  induction m with
  | zero =>
    rw [List.replicate_zero, List.nil_append]
    induction n with
    | zero => rw [List.replicate_zero, List.append_nil]
    | succ n ih =>
      rw [List.replicate_succ', ← List.append_assoc, trim_messageOf_concat_empty, ih]
  | succ m ih =>
    rw [List.replicate_succ, List.cons_append, List.cons_append, trim_messageOf_cons_empty, ih]

/-- Texts are empty ones at both ends, and between them texts that neither begin nor end with an
empty one. -/
theorem exists_core (texts : List String) :
    ∃ before core after, texts = before ++ core ++ after ∧ (∀ s ∈ before, s = "") ∧
      (∀ s ∈ after, s = "") ∧ core.head? ≠ some "" ∧ core.getLast? ≠ some "" := by
  let isEmpty : String → Bool := fun s => s == ""
  have hall : ∀ l : List String, ∀ s ∈ l.takeWhile isEmpty, s = "" := fun l s hs =>
    beq_iff_eq.1 (List.all_eq_true.1 List.all_takeWhile s hs)
  let rest := texts.dropWhile isEmpty
  refine ⟨texts.takeWhile isEmpty, Text.dropEnd isEmpty rest,
    (rest.reverse.takeWhile isEmpty).reverse, ?_, hall texts,
    fun s hs => hall _ s (List.mem_reverse.1 hs), fun hfirst => ?_, fun hlast => ?_⟩
  · rw [List.append_assoc, Text.dropEnd_append_takeWhile, List.takeWhile_append_dropWhile]
  · have hstop := List.head?_dropWhile_not isEmpty texts
    rw [Text.head?_of_head?_dropEnd hfirst] at hstop
    exact absurd hstop (by decide)
  · exact absurd (Text.getLast?_dropEnd hlast) (by decide)

/-! ## Empty texts elsewhere -/

/-- The units of texts, with those of a separator after each. -/
def spacedUnits : List String → Nat
  | [] => 0
  | s :: rest => Text.units s + 2 + spacedUnits rest

/-- A message has a separator after each of its texts but the last. -/
theorem units_messageOf_add_two {texts : List String} (h : texts ≠ []) :
    Text.units (messageOf texts) + 2 = spacedUnits texts := by
  induction texts with
  | nil => exact absurd rfl h
  | cons s rest ih =>
    by_cases hnil : rest = []
    · simp [hnil, spacedUnits]
    · have htwo : Text.units "\n\n" = 2 := by decide
      rw [messageOf_cons_of_ne_nil s hnil, spacedUnits, ← ih hnil, Text.units_append,
        Text.units_append, htwo]
      omega

/-- An empty text has no units but those of its separator. -/
theorem spacedUnits_filter_add (texts : List String) :
    spacedUnits (texts.filter (· ≠ "")) + 2 * texts.count "" = spacedUnits texts := by
  induction texts with
  | nil => rfl
  | cons s rest ih =>
    by_cases hs : s = ""
    · have hzero : Text.units "" = 0 := rfl
      rw [hs, List.filter_cons_of_neg (by decide), List.count_cons_self, spacedUnits, hzero]
      omega
    · rw [List.filter_cons_of_pos (by simpa using hs), List.count_cons_of_ne hs, spacedUnits,
        spacedUnits]
      omega

/-- **A message without its empty texts is another message**, if it has some. -/
theorem filter_eq_self_of_messageOf_eq {texts : List String} (hne : texts.filter (· ≠ "") ≠ [])
    (h : messageOf (texts.filter (· ≠ "")) = messageOf texts) : texts.filter (· ≠ "") = texts := by
  have htexts : texts ≠ [] := fun hnil => hne (by rw [hnil]; rfl)
  have hsum := spacedUnits_filter_add texts
  rw [← units_messageOf_add_two hne, ← units_messageOf_add_two htexts, h] at hsum
  have hcount : texts.count "" = 0 := by omega
  have hnotin : "" ∉ texts := List.count_eq_zero.1 hcount
  refine List.filter_eq_self.2 fun s hs => ?_
  have hs' : s ≠ "" := fun he => hnotin (he ▸ hs)
  simpa using hs'

/-! ## Ends of messages -/

theorem head?_messageOf_cons {s : String} (hs : s ≠ "") (rest : List String) :
    (messageOf (s :: rest)).toList.head? = s.toList.head? := by
  by_cases hnil : rest = []
  · rw [hnil, messageOf_singleton]
  · obtain ⟨c, cs, hcs⟩ := List.exists_cons_of_ne_nil (show s.toList ≠ [] by simpa using hs)
    rw [messageOf_cons_of_ne_nil s hnil, String.append_assoc, String.toList_append, hcs]
    rfl

theorem getLast?_messageOf_concat {s : String} (hs : s ≠ "") (init : List String) :
    (messageOf (init ++ [s])).toList.getLast? = s.toList.getLast? := by
  by_cases hnil : init = []
  · rw [hnil, List.nil_append, messageOf_singleton]
  · have hlast : s.toList ≠ [] := by simpa using hs
    rw [messageOf_append_of_ne_nil hnil (List.cons_ne_nil s []), messageOf_singleton,
      String.toList_append, List.getLast?_append, List.getLast?_eq_some_getLast hlast]
    rfl

/-- A message begins and ends as it does without its empty texts, if its first and last text are
not empty. -/
theorem trimmed_messageOf_of_filter {texts : List String} (hfirst : texts.head? ≠ some "")
    (hlast : texts.getLast? ≠ some "")
    (h : Text.Trimmed (messageOf (texts.filter (· ≠ "")))) : Text.Trimmed (messageOf texts) where
  first c hc := by
    cases texts with
    | nil => exact h.first c hc
    | cons s rest =>
      have hs : s ≠ "" := fun he => hfirst (by rw [he]; rfl)
      refine h.first c ?_
      rwa [List.filter_cons_of_pos (by simpa using hs), head?_messageOf_cons hs,
        ← head?_messageOf_cons hs rest]
  last c hc := by
    rcases List.eq_nil_or_concat texts with rfl | ⟨init, s, rfl⟩
    · exact h.last c hc
    · have hs : s ≠ "" := fun he => hlast (by rw [he]; simp)
      refine h.last c ?_
      rw [List.concat_eq_append] at hc ⊢
      rwa [List.filter_append, List.filter_cons_of_pos (by simpa using hs), List.filter_nil,
        getLast?_messageOf_concat hs, ← getLast?_messageOf_concat hs init]

/-! ## Empty texts left out -/

theorem filter_eq_nil_iff_forall (texts : List String) :
    texts.filter (· ≠ "") = [] ↔ ∀ s ∈ texts, s = "" := by
  simp [List.filter_eq_nil_iff]

/-- Texts that stand around all that are not empty are empty. -/
theorem forall_eq_empty_of_surrounding {texts before after : List String}
    (h : before ++ texts.filter (· ≠ "") ++ after = texts) :
    (∀ s ∈ before, s = "") ∧ ∀ s ∈ after, s = "" := by
  have hlength := congrArg (fun l => (l.filter (· ≠ "")).length) h
  simp only [List.filter_append, List.filter_filter, List.length_append, Bool.and_self] at hlength
  have hbefore : before.filter (· ≠ "") = [] := List.length_eq_zero_iff.1 (by omega)
  have hafter : after.filter (· ≠ "") = [] := List.length_eq_zero_iff.1 (by omega)
  exact ⟨(filter_eq_nil_iff_forall before).1 hbefore, (filter_eq_nil_iff_forall after).1 hafter⟩

/-- **When to leave out empty texts is to trim**: when the message has no white space at its ends
then, and all empty texts were before or after the others. -/
theorem messageOf_filter_eq_trim_iff (texts : List String) :
    messageOf (texts.filter (· ≠ "")) = Text.trim (messageOf texts) ↔
      Text.Trimmed (messageOf (texts.filter (· ≠ ""))) ∧ texts.filter (· ≠ "") <:+: texts := by
  constructor
  · intro h
    have htrimmed : Text.Trimmed (messageOf (texts.filter (· ≠ ""))) :=
      h ▸ Text.trimmed_trim (messageOf texts)
    refine ⟨htrimmed, ?_⟩
    obtain ⟨before, core, after, hcore, hbefore, hafter, hfirst, hlast⟩ := exists_core texts
    have hfilter : texts.filter (· ≠ "") = core.filter (· ≠ "") := by
      rw [hcore, List.filter_append, List.filter_append,
        (filter_eq_nil_iff_forall before).2 hbefore, (filter_eq_nil_iff_forall after).2 hafter,
        List.nil_append, List.append_nil]
    rw [hfilter] at h htrimmed ⊢
    by_cases hnil : core.filter (· ≠ "") = []
    · rw [hnil]
      exact List.nil_infix
    -- between the ends nothing is trimmed, so there the messages are the same
    have hmessage : messageOf (core.filter (· ≠ "")) = messageOf core := by
      rw [h, hcore, trim_messageOf_surrounded hbefore hafter]
      exact Text.trim_eq_self (trimmed_messageOf_of_filter hfirst hlast htrimmed)
    rw [filter_eq_self_of_messageOf_eq hnil hmessage, hcore]
    exact List.infix_append before core after
  · rintro ⟨htrimmed, before, after, htexts⟩
    obtain ⟨hbefore, hafter⟩ := forall_eq_empty_of_surrounding htexts
    have hall := trim_messageOf_surrounded hbefore hafter (texts.filter (· ≠ ""))
    rw [htexts, Text.trim_eq_self htrimmed] at hall
    exact hall.symm

/-! ## Documents -/

/-- A document is written as its blocks are written one by one, empty ones included, with blank
lines between them, and trimmed. -/
theorem write_document {r : Renderer} (hr : r.rules = standardRules) (hsep : r.separator = "\n\n")
    (blocks : List Node) :
    r.write [.container .document blocks] =
      Text.trim (messageOf (blocks.map fun node => r.write [node])) := by
  have hwrite : r.write blocks = messageOf (blocks.map fun node => r.write [node]) := by
    rw [Renderer.write_eq_intercalate, hsep]
    rfl
  rw [Renderer.write_singleton, Renderer.writeNode_eq, hr]
  show Text.trim ((r.apply (.joined "\n\n")).write blocks) = _
  rw [← hsep, Renderer.write_joined_separator hr, hwrite]

/-- **A document is written as its blocks are, one by one.** For all blocks and styles: a document
is the texts of its blocks, each written alone, joined with blank lines, those of blocks that show
nothing included, and trimmed. And at the top it makes no difference to any nodes whether blank
lines between neighbours are asked for or not. -/
theorem write_document_eq_trim_intercalate (style : Style) :
    let r := Renderer.top style standardRules
    (∀ blocks : List Node, r.write [.container .document blocks] =
        Text.trim ("\n\n".intercalate (blocks.map fun block => r.write [block]))) ∧
      ∀ nodes : List Node, (r.apply (.joined "\n\n")).write nodes = r.write nodes := by
  intro r
  constructor
  · intro blocks
    exact write_document rfl rfl blocks
  · intro nodes
    exact Renderer.write_joined_separator (r := r) rfl nodes

/-- **The one text of a document**, from the texts of its blocks: all of them are joined, and the
message is trimmed. -/
theorem render_eq_trim_messageOf {c : Converter} (hc : c.rules = .empty) (events : List Event) :
    c.render events =
      Text.trim (messageOf ((blocksOf events).map fun node => c.renderer.write [node])) := by
  have hr : c.renderer.rules = standardRules := by
    show standardRules.overlay c.rules = standardRules
    rw [hc, KindTable.overlay_empty]
  rw [Converter.render, documentOf, write_document hr rfl, Text.trim_trim]

/-- **The messages of a document**, from the texts of its blocks: those that are not empty are
joined, and nothing is trimmed. -/
theorem messageOf_split_of_fits {ρ : Type} [Writer ρ] {s : Splitter ρ} {r : ρ} {nodes : List Node}
    (hfit : ∀ node ∈ nodes, Text.units (Writer.write r [node]) ≤ s.limit) :
    messageOf (s.split r nodes) = messageOf (Writer.shown r nodes) := by
  have hcut := groups_isCut s r nodes
  rw [Splitter.split, messageOf_map_messageOf hcut.nil_notMem, hcut.flatten_eq,
    flatMap_piecesOf_of_fits hfit]

/-- **When the messages joined are the one text.** If every block fits a message and no rule is
replaced, the two agree just when the messages joined have no white space at their ends and no block
that shows nothing stands between two that show something. -/
theorem messageOf_split_eq_render_iff {c : Converter} (hc : c.rules = .empty) {limit : Nat}
    {events : List Event}
    (hfit : ∀ node ∈ blocksOf events, Text.units (c.renderer.write [node]) ≤ limit) :
    messageOf (c.split limit events) = c.render events ↔
      Text.Trimmed (messageOf (c.split limit events)) ∧
        Writer.shown c.renderer (blocksOf events) <:+:
          (blocksOf events).map fun node => c.renderer.write [node] := by
  have hsplit : messageOf (c.split limit events) =
      messageOf (Writer.shown c.renderer (blocksOf events)) :=
    messageOf_split_of_fits (s := c.splitter limit) hfit
  rw [hsplit, render_eq_trim_messageOf hc]
  exact messageOf_filter_eq_trim_iff _

/-- A heading and a paragraph in messages of their own, with an empty quote after them. -/
theorem messageOf_split_eq_render_iff_heading :
    let c : Converter := {}
    let events : List Event :=
      [.opening (.heading { number := 2 }), .content (.text "a.b"), .closing, .opening .paragraph,
        .content (.code "c"), .closing, .opening .blockquote, .closing]
    c.rules = .empty ∧
      (∀ node ∈ blocksOf events, Text.units (c.renderer.write [node]) ≤ 9) ∧
      messageOf (c.split 9 events) = c.render events := by
  intro c events
  have hfit : ∀ node ∈ blocksOf events, Text.units (c.renderer.write [node]) ≤ 9 := by
    decide +kernel
  have htrimmed : Text.Trimmed (messageOf (c.split 9 events)) := by decide +kernel
  have hinfix : Writer.shown c.renderer (blocksOf events) <:+:
      (blocksOf events).map fun node => c.renderer.write [node] :=
    ⟨[], [""], by decide +kernel⟩
  exact ⟨rfl, hfit, (messageOf_split_eq_render_iff rfl hfit).2 ⟨htrimmed, hinfix⟩⟩

/-- An empty quote between two paragraphs is left out of the messages, but in the one text there are
blank lines for it. -/
theorem messageOf_split_ne_render_of_empty_quote :
    let c : Converter := {}
    let events : List Event :=
      [.opening .paragraph, .content (.text "a"), .closing, .opening .blockquote, .closing,
        .opening .paragraph, .content (.text "b"), .closing]
    (∀ node ∈ blocksOf events, Text.units (c.renderer.write [node]) ≤ 4096) ∧
      c.split 4096 events = ["a\n\nb"] ∧ c.render events = "a\n\n\n\nb" ∧
      messageOf (c.split 4096 events) ≠ c.render events := by
  decide +kernel

end ChatMarkup
