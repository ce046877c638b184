import ChatMarkup.Converter

/-!
# What was set last

A user creates converters, copies them and sets things in them, in whatever order. A converter keeps
only what it holds now. Its history is kept here beside it, and copied along with it, to say what
that is: for each kind the rule that was set last in this converter, by itself or in a table of
rules, else the standard one, and so for dividers and for the style. Nothing else is left of the
order in which things were set.

Tables of rules are laid over each other entry by entry, in no order that is known. It does not
matter which it is.

Results:
* `view_foldl`: what is held after some steps is what they said last, else what was held before.
* `foldl_insert_eq_overlay`: the entries of a table may be inserted in any order.
* `converters_eq_map_histories`: every converter is as if its own history had been all there was.
* `converter_holds_what_was_set_last`: what each converter holds, and what comes of it.
-/

namespace ChatMarkup

/-! ## The last word -/

section LastSaid

variable {α β σ : Type}

/-- What was said last, as far as anything was said. -/
def lastSaid? (say : β → Option α) (history : List β) : Option α :=
  history.reverse.findSome? say

theorem lastSaid?_cons (say : β → Option α) (b : β) (later : List β) :
    lastSaid? say (b :: later) = (lastSaid? say later <|> say b) := by
  rw [lastSaid?, lastSaid?, List.reverse_cons, List.findSome?_append, List.findSome?_singleton]
  cases later.reverse.findSome? say <;> rfl

theorem lastSaid?_eq_none_iff {say : β → Option α} {history : List β} :
    lastSaid? say history = none ↔ ∀ b ∈ history, say b = none := by
  simp [lastSaid?]

theorem exists_of_lastSaid? {say : β → Option α} {history : List β} {a : α}
    (h : lastSaid? say history = some a) : ∃ b ∈ history, say b = some a := by
  obtain ⟨b, hb, hsay⟩ := List.exists_of_findSome?_eq_some h
  exact ⟨b, List.mem_reverse.1 hb, hsay⟩

/-- **What is held after some steps is what they said last**, else what was held before, if each
step leaves what it says, or what was held if it says nothing. -/
theorem view_foldl (view : σ → Option α) {say : β → Option α} {step : σ → β → σ}
    (hstep : ∀ s b, view (step s b) = (say b <|> view s)) (s : σ) (history : List β) :
    view (history.foldl step s) = (lastSaid? say history <|> view s) := by
  induction history generalizing s with
  | nil => rfl
  | cons b later ih =>
    rw [List.foldl_cons, ih, hstep, lastSaid?_cons]
    cases lastSaid? say later <;> rfl

end LastSaid

/-! ## Tables, entry by entry -/

namespace KindTable

variable {α : Type}

/-- Two tables, one over the other, when it is known what the upper one has for each kind. -/
theorem overlay_eq_of_get? {upper : KindTable α} {held : Kind → Option α}
    (h : ∀ kind, upper.get? kind = held kind) (lower : KindTable α) :
    lower.overlay upper = ⟨fun kind => held kind <|> lower.get? kind⟩ := by
  refine KindTable.ext (funext fun kind => ?_)
  rw [get?_overlay, h kind]

/-- A list has the entries of a table, in whatever order. -/
def IsListedBy (table : KindTable α) (entries : List (Kind × α)) : Prop :=
  ∀ kind entry, (kind, entry) ∈ entries ↔ table.get? kind = some entry

/-- What an entry says about a kind. -/
def entryFor? (kind : Kind) (entry : Kind × α) : Option α :=
  if kind = entry.1 then some entry.2 else none

theorem entryFor?_eq_some {kind : Kind} {entry : Kind × α} {a : α}
    (h : entryFor? kind entry = some a) : entry = (kind, a) := by
  unfold entryFor? at h
  split at h
  · rename_i hkind
    rw [hkind, ← Option.some.inj h]
  · cases h

theorem IsListedBy.lastSaid?_eq {table : KindTable α} {entries : List (Kind × α)}
    (h : table.IsListedBy entries) (kind : Kind) :
    lastSaid? (entryFor? kind) entries = table.get? kind := by
  cases hlast : lastSaid? (entryFor? kind) entries with
  | some a =>
    obtain ⟨entry, hentry, hsays⟩ := exists_of_lastSaid? hlast
    rw [entryFor?_eq_some hsays] at hentry
    exact ((h kind a).1 hentry).symm
  | none =>
    cases hget : table.get? kind with
    | none => rfl
    | some a =>
      have hsays := lastSaid?_eq_none_iff.1 hlast (kind, a) ((h kind a).2 hget)
      simp [entryFor?] at hsays

/-- **The entries of a table may be inserted in any order**: that lays the table over another. -/
theorem foldl_insert_eq_overlay {upper : KindTable α} {entries : List (Kind × α)}
    (h : upper.IsListedBy entries) (lower : KindTable α) :
    entries.foldl (fun table entry => table.insert entry.1 entry.2) lower =
      lower.overlay upper := by
  refine KindTable.ext (funext fun kind => ?_)
  have hstep (table : KindTable α) (entry : Kind × α) :
      (table.insert entry.1 entry.2).get? kind = (entryFor? kind entry <|> table.get? kind) := by
    unfold entryFor?
    rw [get?_insert]
    split <;> rfl
  have hview := view_foldl (fun table : KindTable α => table.get? kind) hstep lower entries
  rwa [h.lastSaid?_eq, ← get?_overlay] at hview

end KindTable

/-! ## Settings -/

/-- One thing that a user sets in a converter. -/
inductive Setting
  | style (style : Style)
  | rule (kind : Kind) (rule : Rule)
  | rules (rules : KindTable Rule)
  | divider (kind : Kind) (divider : Divider)

namespace Setting

/-- The style that a setting asks for. -/
def style? : Setting → Option Style
  | .style s => some s
  | _ => none

/-- The rule for a kind that a setting asks for. -/
def rule? (k : Kind) : Setting → Option Rule
  | .rule kind r => if k = kind then some r else none
  | .rules table => table.get? k
  | _ => none

/-- The divider for a kind that a setting asks for. -/
def divider? (k : Kind) : Setting → Option Divider
  | .divider kind d => if k = kind then some d else none
  | _ => none

end Setting

namespace Converter

/-- A converter in which one more thing is set. -/
def set (c : Converter) : Setting → Converter
  | .style style => c.withStyle style
  | .rule kind rule => c.withRule kind rule
  | .rules rules => c.withRules rules
  | .divider kind divider => c.withDivider kind divider

/-- The converter in which some things were set, and nothing else. -/
def ofHistory (history : List Setting) : Converter :=
  history.foldl set {}

theorem ofHistory_concat (history : List Setting) (setting : Setting) :
    ofHistory (history ++ [setting]) = (ofHistory history).set setting := by
  rw [ofHistory, List.foldl_append]
  rfl

theorem style_set (c : Converter) (setting : Setting) :
    some (c.set setting).style = (setting.style? <|> some c.style) := by
  cases setting <;> rfl

theorem get?_rules_set (k : Kind) (c : Converter) (setting : Setting) :
    (c.set setting).rules.get? k = (setting.rule? k <|> c.rules.get? k) := by
  cases setting with
  | rule kind rule =>
    show (c.rules.insert kind rule).get? k = _
    rw [KindTable.get?_insert, Setting.rule?]
    split <;> rfl
  | _ => rfl

theorem get?_dividers_set (k : Kind) (c : Converter) (setting : Setting) :
    (c.set setting).dividers.get? k = (setting.divider? k <|> c.dividers.get? k) := by
  cases setting with
  | divider kind divider =>
    show (c.dividers.insert kind divider).get? k = _
    rw [KindTable.get?_insert, Setting.divider?]
    split <;> rfl
  | _ => rfl

theorem style_ofHistory (history : List Setting) :
    (ofHistory history).style = (lastSaid? Setting.style? history).getD {} := by
  have hview := view_foldl (fun c : Converter => some c.style) style_set {} history
  refine Option.some.inj (hview.trans ?_)
  cases lastSaid? Setting.style? history <;> rfl

theorem get?_rules_ofHistory (history : List Setting) (k : Kind) :
    (ofHistory history).rules.get? k = lastSaid? (Setting.rule? k) history := by
  have hview := view_foldl (fun c : Converter => c.rules.get? k) (get?_rules_set k) {} history
  simpa [ofHistory] using hview

theorem get?_dividers_ofHistory (history : List Setting) (k : Kind) :
    (ofHistory history).dividers.get? k = lastSaid? (Setting.divider? k) history := by
  have hview := view_foldl (fun c : Converter => c.dividers.get? k) (get?_dividers_set k) {} history
  simpa [ofHistory] using hview

/-- **A converter writes by what was set last**: in the style and by the rules that its history says
last, and by the standard ones where it says nothing. -/
theorem renderer_ofHistory (history : List Setting) :
    (ofHistory history).renderer =
      .top ((lastSaid? Setting.style? history).getD {})
        ⟨fun k => lastSaid? (Setting.rule? k) history <|> standardRules.get? k⟩ := by
  rw [renderer, style_ofHistory,
    KindTable.overlay_eq_of_get? (get?_rules_ofHistory history) standardRules]

/-- **A converter splits by what was set last.** -/
theorem splitter_ofHistory (history : List Setting) (limit : Nat) :
    (ofHistory history).splitter limit =
      { limit := limit
        dividers := ⟨fun k =>
          lastSaid? (Setting.divider? k) history <|> standardDividers.get? k⟩ } := by
  rw [splitter, KindTable.overlay_eq_of_get? (get?_dividers_ofHistory history) standardDividers]

theorem foldl_withRule (c : Converter) (entries : List (Kind × Rule)) :
    entries.foldl (fun c entry => c.withRule entry.1 entry.2) c =
      { c with
        rules := entries.foldl (fun rules entry => rules.insert entry.1 entry.2) c.rules } := by
  induction entries generalizing c with
  | nil => rfl
  | cons entry rest ih => exact ih _

/-- It does not matter in which order the entries of a converter's tables are laid over others:
those of rules that are set, and those of its own rules and dividers over the standard ones. -/
structure MergesInAnyOrder (c : Converter) : Prop where
  withRules : ∀ rules entries, KindTable.IsListedBy rules entries →
    entries.foldl (fun c entry => c.withRule entry.1 entry.2) c = c.withRules rules
  renderer : ∀ entries, c.rules.IsListedBy entries →
    entries.foldl (fun rules entry => rules.insert entry.1 entry.2) standardRules = c.renderer.rules
  splitter : ∀ limit entries, c.dividers.IsListedBy entries →
    entries.foldl (fun dividers entry => dividers.insert entry.1 entry.2) standardDividers =
      (c.splitter limit).dividers

theorem mergesInAnyOrder (c : Converter) : c.MergesInAnyOrder where
  withRules rules entries h := by
    rw [foldl_withRule, KindTable.foldl_insert_eq_overlay h, Converter.withRules]
  renderer entries h := KindTable.foldl_insert_eq_overlay h standardRules
  splitter limit entries h := KindTable.foldl_insert_eq_overlay h standardDividers

end Converter

/-! ## Many converters -/

/-- What a user does. The converters there are have numbers, in the order they came about. -/
inductive Action
  | create
  /-- Makes a copy of a converter, with a number of its own. -/
  | copy (number : Nat)
  | set (number : Nat) (setting : Setting)

/-- What an action does to what is known of each converter, where `fresh` is known of a new one and
`change` says how a setting changes what is known. -/
def Action.run {α : Type} (fresh : α) (change : α → Setting → α) (known : List α) :
    Action → List α
  | create => known ++ [fresh]
  | copy number => known ++ known[number]?.toList
  | set number setting => known.modify number (change · setting)

/-- The converters there are after some actions. -/
def converters (actions : List Action) : List Converter :=
  actions.foldl (Action.run {} Converter.set) []

/-- What was set in each of the converters, and before in what it is a copy of. -/
def histories (actions : List Action) : List (List Setting) :=
  actions.foldl (Action.run [] fun history setting => history ++ [setting]) []

/-- What can be told, of each converter, from what is known of it, stays so with every action. -/
theorem Action.map_run {α β : Type} (f : α → β) (fresh : α) {change : α → Setting → α}
    {change' : β → Setting → β}
    (hchange : ∀ a setting, f (change a setting) = change' (f a) setting)
    (known : List α) (action : Action) :
    (action.run fresh change known).map f = action.run (f fresh) change' (known.map f) := by
  cases action with
  | create => simp [run]
  | copy number =>
    rw [run, run, List.map_append, List.getElem?_map, Option.toList_map]
  | set number setting =>
    refine List.ext_getElem? fun index => ?_
    simp only [run, List.getElem?_map, List.getElem?_modify]
    cases known[index]? with
    | none => rfl
    | some a =>
      by_cases hnumber : number = index
      · simp [hnumber, hchange]
      · simp [hnumber]

/-- **Every converter is as if its own history had been all there was.** -/
theorem converters_eq_map_histories (actions : List Action) :
    converters actions = (histories actions).map Converter.ofHistory := by
  show actions.foldl (Action.run {} Converter.set) (List.map Converter.ofHistory []) = _
  refine List.foldl_hom (List.map Converter.ofHistory) fun known action => ?_
  exact (Action.map_run Converter.ofHistory [] Converter.ofHistory_concat known action).symm

/-- Two histories end alike: what they say last is the same, of the style and for each kind. -/
structure EndAlike (history history' : List Setting) : Prop where
  style : lastSaid? Setting.style? history = lastSaid? Setting.style? history'
  rule : ∀ k, lastSaid? (Setting.rule? k) history = lastSaid? (Setting.rule? k) history'
  divider : ∀ k, lastSaid? (Setting.divider? k) history = lastSaid? (Setting.divider? k) history'

theorem EndAlike.renderer_eq {history history' : List Setting} (h : EndAlike history history') :
    (Converter.ofHistory history).renderer = (Converter.ofHistory history').renderer := by
  simp only [Converter.renderer_ofHistory, h.style, h.rule]

theorem EndAlike.splitter_eq {history history' : List Setting} (h : EndAlike history history')
    (limit : Nat) :
    (Converter.ofHistory history).splitter limit =
      (Converter.ofHistory history').splitter limit := by
  simp only [Converter.splitter_ofHistory, h.divider]

/-- **The last setting wins.** For all that a user does with converters, in whatever order: each
converter has a history, of what was set in it and before in what it is a copy of. It writes in the
style that was set last in its history, else in the standard one, and each kind by the rule that was
set last for it, by itself or in a table of rules, else by the standard one, if there is one. It
splits with the dividers that were set last, in the same way. So two converters whose histories say
the same last, of the style and for each kind, write and split all documents alike, however else
their histories differ. And in which order tables are merged, entry by entry, cannot be seen. -/
theorem converter_holds_what_was_set_last (actions : List Action) {number : Nat} {c : Converter}
    (hc : (converters actions)[number]? = some c) :
    ∃ history, (histories actions)[number]? = some history ∧
      c.renderer = .top ((lastSaid? Setting.style? history).getD {})
        ⟨fun k => lastSaid? (Setting.rule? k) history <|> standardRules.get? k⟩ ∧
      (∀ limit, c.splitter limit =
        { limit := limit
          dividers := ⟨fun k =>
            lastSaid? (Setting.divider? k) history <|> standardDividers.get? k⟩ }) ∧
      (∀ (actions' : List Action) (number' : Nat) (c' : Converter) (history' : List Setting),
        (converters actions')[number']? = some c' → (histories actions')[number']? = some history' →
          EndAlike history history' →
            ∀ events, c.render events = c'.render events ∧
              ∀ limit, c.split limit events = c'.split limit events) ∧
      c.MergesInAnyOrder := by
  have hall {actions : List Action} {number : Nat} {c : Converter}
      (hc : (converters actions)[number]? = some c) :
      ∃ history, (histories actions)[number]? = some history ∧ Converter.ofHistory history = c := by
    rw [converters_eq_map_histories, List.getElem?_map] at hc
    exact Option.map_eq_some_iff.1 hc
  obtain ⟨history, hhistory, rfl⟩ := hall hc
  refine ⟨history, hhistory, Converter.renderer_ofHistory history,
    Converter.splitter_ofHistory history, ?_, Converter.mergesInAnyOrder _⟩
  intro actions' number' c' history' hc' hhistory' halike events
  obtain ⟨_, hsame, rfl⟩ := hall hc'
  obtain rfl := Option.some.inj (hhistory'.symm.trans hsame)
  refine ⟨?_, fun limit => ?_⟩
  · rw [Converter.render, Converter.render, halike.renderer_eq]
  · rw [Converter.split, Converter.split, halike.renderer_eq, halike.splitter_eq]

/-- A copy in which a rule is replaced by one in a table, and a converter in which the same things
are set in another order, with a style that does not last. -/
theorem converter_holds_what_was_set_last_copied :
    let hidden : Rule := fun _ _ => .text ""
    let shown : Rule := fun node _ => .text node.plainText
    let rules := (KindTable.empty.insert .text shown).insert .html hidden
    let dashes : Style := { bullet := "-" }
    let actions : List Action :=
      [.create, .set 0 (.rule .text hidden), .copy 0, .set 0 (.rule .html shown),
        .set 1 (.rules rules), .set 1 (.style dashes)]
    let actions' : List Action :=
      [.create, .create, .set 0 (.style { bullet := "+" }), .set 0 (.rule .html hidden),
        .set 0 (.style dashes), .set 0 (.rule .text shown)]
    let history : List Setting := [.rule .text hidden, .rules rules, .style dashes]
    let history' : List Setting :=
      [.style { bullet := "+" }, .rule .html hidden, .style dashes, .rule .text shown]
    let events : List Event :=
      [.opening (.list none), .opening .item, .content (.text "a."), .content (.inlineHtml "<b>"),
        .closing, .closing]
    ∃ c c', ((converters actions)[1]? = some c ∧ (histories actions)[1]? = some history) ∧
      ((converters actions')[0]? = some c' ∧ (histories actions')[0]? = some history') ∧
      EndAlike history history' ∧ c.render events = c'.render events ∧
      c.render events = "\\- a." := by
  intro hidden shown rules dashes actions actions' history history' events
  let c := Converter.ofHistory history
  let c' := Converter.ofHistory history'
  have hc : (converters actions)[1]? = some c := rfl
  have hc' : (converters actions')[0]? = some c' := rfl
  have halike : EndAlike history history' :=
    ⟨rfl, fun k => by cases k <;> rfl, fun k => by cases k <;> rfl⟩
  obtain ⟨_, hhistory, -, -, hsame, -⟩ := converter_holds_what_was_set_last actions hc
  obtain rfl : history = _ := Option.some.inj hhistory
  refine ⟨c, c', ⟨hc, rfl⟩, ⟨hc', rfl⟩, halike, ?_, ?_⟩
  · exact (hsame actions' 0 c' history' hc' rfl halike events).1
  · decide +kernel

end ChatMarkup
