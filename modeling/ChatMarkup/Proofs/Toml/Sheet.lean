import ChatMarkup.Proofs.Toml.Written

/-!
# Sheets of settings

A sheet is a list of texts under names, and after them tables of texts. A sheet is written line by
line, and its text is read back as the entries of the sheet: each entry line adds to the table that
the last header leads to, and each header begins a table after what there is. That no name stands
for two things is part of a sheet, and just what lets each of these steps succeed.

Results:
* `Items.alter_of_notMem`, `Items.alter_append_singleton`: a change at a new name and at the last
  one.
* `foldlM_entryLines`, `foldlM_tableLines`: what runs of entry lines and of whole tables define.
* `Sheet.parse?_text`: a sheet, read as a text, gives its entries.
* `Sheet.inRange_of_mem_toEntries`: all its values are in range.
-/

namespace ChatMarkup.Toml

/-! ## Items -/

namespace Items

variable {items : Items} {name : String} {f : Option Item → Option Item}

/-- A name that is new comes last. -/
theorem alter_of_notMem (h : name ∉ items.map Prod.fst) :
    alter name f items = (f none).map fun item => items ++ [(name, item)] := by
  induction items with
  | nil => rfl
  | cons entry items ih =>
    obtain ⟨n, item⟩ := entry
    rw [List.map_cons, List.mem_cons, not_or] at h
    rw [alter, if_neg (Ne.symm h.1), ih h.2, Option.map_map]
    rfl

/-- What a name that comes last stands for is changed there. -/
theorem alter_append_singleton (h : name ∉ items.map Prod.fst) (item : Item) :
    alter name f (items ++ [(name, item)]) =
      (f (some item)).map fun item => items ++ [(name, item)] := by
  induction items with
  | nil => simp [alter]
  | cons entry items ih =>
    obtain ⟨n, other⟩ := entry
    rw [List.map_cons, List.mem_cons, not_or] at h
    rw [List.cons_append, alter, if_neg (Ne.symm h.1), ih h.2, Option.map_map]
    rfl

/-- A new name in a table gets its value. -/
theorem define_of_notMem (h : name ∉ items.map Prod.fst) (v : Value) :
    define ⟨[], name⟩ v items = some (items ++ [(name, .value v)]) := by
  rw [define, assign, if_pos rfl, alter_of_notMem h]
  rfl

/-- A header leads to the table that it has begun. -/
theorem within_append_singleton (h : name ∉ items.map Prod.fst) (g : Items → Option Items)
    (inner : Items) :
    within g [name] (items ++ [(name, .table .header inner)]) =
      (g inner).map fun inner => items ++ [(name, .table .header inner)] := by
  rw [within, alter_append_singleton h]
  show ((within g [] inner).map _).map _ = _
  rw [within, Option.map_map]
  rfl

/-- A header with a new name begins a table. -/
theorem beginTable_of_notMem (h : name ∉ items.map Prod.fst) :
    beginTable ⟨[], name⟩ items = some (items ++ [(name, .table .header [])]) := by
  rw [beginTable, within, alter_of_notMem h]
  rfl

end Items

/-- The entries of a finished table are its items, each with its value. -/
theorem entriesOf_eq_map (items : Items) :
    entriesOf items = items.map fun entry => (entry.1, entry.2.toValue) := by
  induction items with
  | nil => rfl
  | cons entry items ih => rw [entriesOf, ih, List.map_cons]

/-- The entries with a name are looked up before their values are changed. -/
theorem lookup_map_value {α β : Type} (g : α → β) (entries : List (String × α)) (name : String) :
    (entries.map fun entry => (entry.1, g entry.2)).lookup name = (entries.lookup name).map g := by
  induction entries with
  | nil => rfl
  | cons entry entries ih =>
    rw [List.map_cons, List.lookup_cons, List.lookup_cons, ih]
    cases name == entry.1 <;> rfl

/-- Entries are in range if all their values are. -/
theorem entriesInRange_iff {entries : Entries} :
    entriesInRange entries = true ↔ ∀ entry ∈ entries, entry.2.inRange = true := by
  induction entries with
  | nil => exact iff_of_true rfl nofun
  | cons entry entries ih =>
    rw [entriesInRange, Bool.and_eq_true, ih, List.forall_mem_cons]

/-! ## Sheets -/

/-- The lines of entries. -/
def entryLines (entries : List (String × String)) : List PlainLine :=
  entries.map fun entry => .entry entry.1 entry.2

/-- The lines of tables: a header before the entries of each. -/
def tableLines (tables : List (String × List (String × String))) : List PlainLine :=
  tables.flatMap fun table => .table table.1 :: entryLines table.2

/-- Entries of texts. -/
def textEntries (entries : List (String × String)) : Entries :=
  entries.map fun entry => (entry.1, .string entry.2)

theorem inRange_of_mem_textEntries {entries : List (String × String)} {entry : String × Value}
    (h : entry ∈ textEntries entries) : entry.2.inRange = true := by
  obtain ⟨_, -, rfl⟩ := List.mem_map.1 h
  rfl

/-- Settings on a sheet: texts, and then tables of texts. -/
structure Sheet where
  entries : List (String × String)
  tables : List (String × List (String × String))
  /-- All names can stand without quotes. -/
  isBare_name : ∀ line ∈ entryLines entries ++ tableLines tables, IsBare line.name
  /-- No name stands for two things. -/
  nodup_names : (entries.map Prod.fst ++ tables.map Prod.fst).Nodup
  nodup_tableNames : ∀ table ∈ tables, (table.2.map Prod.fst).Nodup

namespace Sheet

/-- The lines of a sheet. -/
def lines (sheet : Sheet) : List PlainLine :=
  entryLines sheet.entries ++ tableLines sheet.tables

/-- A sheet as a text, line by line. -/
def text (sheet : Sheet) : String :=
  String.ofList (sheet.lines.flatMap PlainLine.written)

/-- The entries that a sheet stands for. -/
def toEntries (sheet : Sheet) : Entries :=
  textEntries sheet.entries ++ sheet.tables.map fun table => (table.1, .table (textEntries table.2))

end Sheet

/-! ## Reading a sheet -/

/-- The items that entries of texts become. -/
def textItems (entries : List (String × String)) : Items :=
  entries.map fun entry => (entry.1, .value (.string entry.2))

/-- The item that a table of texts becomes. -/
def tableItem (table : String × List (String × String)) : String × Item :=
  (table.1, .table .header (textItems table.2))

theorem entriesOf_textItems (entries : List (String × String)) :
    entriesOf (textItems entries) = textEntries entries := by
  rw [entriesOf_eq_map, textItems, List.map_map]
  rfl

/-- The names of a list that goes on with a new one. -/
theorem notMem_of_nodup_append_cons {items : Items} {name : String} {names : List String}
    (h : (items.map Prod.fst ++ name :: names).Nodup) : name ∉ items.map Prod.fst := fun hname =>
  (List.nodup_append.1 h).2.2 name hname name List.mem_cons_self rfl

/-- **Lines of entries, one after the other, fill the table that the header leads to.** The rest of
the items is around that table, as `place` says. -/
theorem foldlM_entryLines {place : Items → Items} {header : List String}
    (hplace : ∀ g inner, Items.within g header (place inner) = (g inner).map place)
    {inner : Items} {entries : List (String × String)}
    (h : (inner.map Prod.fst ++ entries.map Prod.fst).Nodup) :
    ((entryLines entries).map PlainLine.toLine).foldlM Definitions.add? ⟨place inner, header⟩ =
      some ⟨place (inner ++ textItems entries), header⟩ := by
  induction entries generalizing inner with
  | nil => rw [show textItems [] = [] from rfl, List.append_nil]; rfl
  | cons entry entries ih =>
    obtain ⟨name, text⟩ := entry
    rw [List.map_cons] at h
    have hstep : Definitions.add? ⟨place inner, header⟩ (.entry ⟨[], name⟩ (.string text)) =
        some ⟨place (inner ++ [(name, .value (.string text))]), header⟩ := by
      rw [Definitions.add?, hplace, Items.define_of_notMem (notMem_of_nodup_append_cons h)]
      rfl
    have hrest := @ih (inner ++ [(name, .value (.string text))])
      (by rw [List.map_append, List.append_assoc]; exact h)
    rw [List.append_assoc] at hrest
    have hlines : (entryLines ((name, text) :: entries)).map PlainLine.toLine =
        .entry ⟨[], name⟩ (.string text) :: (entryLines entries).map PlainLine.toLine := rfl
    rw [hlines, List.foldlM_cons, hstep, Option.bind_eq_bind, Option.bind_some]
    exact hrest

/-- **Tables, one after the other, come after what there is.** -/
theorem foldlM_tableLines {items : Items} {header : List String}
    {tables : List (String × List (String × String))}
    (h : (items.map Prod.fst ++ tables.map Prod.fst).Nodup)
    (hinner : ∀ table ∈ tables, (table.2.map Prod.fst).Nodup) :
    (((tableLines tables).map PlainLine.toLine).foldlM Definitions.add? ⟨items, header⟩).map
      (·.items) = some (items ++ tables.map tableItem) := by
  induction tables generalizing items header with
  | nil => simp [tableLines]
  | cons table tables ih =>
    obtain ⟨name, entries⟩ := table
    rw [List.map_cons] at h
    rw [List.forall_mem_cons] at hinner
    have hname := notMem_of_nodup_append_cons h
    have hheader : Definitions.add? ⟨items, header⟩ (.table ⟨[], name⟩) =
        some ⟨items ++ [(name, .table .header [])], [name]⟩ := by
      rw [Definitions.add?, Items.beginTable_of_notMem hname]
      rfl
    have hentries := @foldlM_entryLines _ _ (Items.within_append_singleton hname) [] entries
      hinner.1
    have hrest := @ih (items ++ [tableItem (name, entries)]) [name]
      (by rw [List.map_append, List.append_assoc]; exact h) hinner.2
    have hlines : (tableLines ((name, entries) :: tables)).map PlainLine.toLine =
        .table ⟨[], name⟩ :: ((entryLines entries).map PlainLine.toLine ++
          (tableLines tables).map PlainLine.toLine) := by
      rw [← List.map_append]
      rfl
    rw [hlines, List.foldlM_cons, hheader, Option.bind_eq_bind, Option.bind_some,
      List.foldlM_append, hentries, Option.bind_eq_bind, Option.bind_some]
    rw [List.append_assoc] at hrest
    exact hrest

namespace Sheet

/-- The items that a sheet becomes. -/
def items (sheet : Sheet) : Items :=
  textItems sheet.entries ++ sheet.tables.map tableItem

theorem foldlM_lines (sheet : Sheet) :
    ((sheet.lines.map PlainLine.toLine).foldlM Definitions.add? ⟨[], []⟩).map (·.items) =
      some sheet.items := by
  have hentries := @foldlM_entryLines id [] (fun g inner => by simp [Items.within]) []
    sheet.entries (List.nodup_append.1 sheet.nodup_names).1
  have hnames : (textItems sheet.entries).map Prod.fst = sheet.entries.map Prod.fst := by
    rw [textItems, List.map_map]
    rfl
  rw [lines, List.map_append, List.foldlM_append,
    show (⟨[], []⟩ : Definitions) = ⟨id [], []⟩ from rfl, hentries, Option.bind_eq_bind,
    Option.bind_some]
  exact foldlM_tableLines (hnames.symm ▸ sheet.nodup_names) sheet.nodup_tableNames

theorem entriesOf_items (sheet : Sheet) : entriesOf sheet.items = sheet.toEntries := by
  rw [items, entriesOf_eq_map, List.map_append, ← entriesOf_eq_map, entriesOf_textItems,
    List.map_map, toEntries]
  congr 1
  refine List.map_congr_left fun table _ => ?_
  show (table.1, Value.table (entriesOf (textItems table.2))) = _
  rw [entriesOf_textItems]

/-- **A sheet, read as a text, gives its entries.** -/
theorem parse?_text (sheet : Sheet) : parse? sheet.text = some sheet.toEntries := by
  have hlines : lines? sheet.text.toList = some (sheet.lines.map PlainLine.toLine) := by
    rw [text, String.toList_ofList]
    exact PlainLine.lines?_flatMap_written sheet.isBare_name
  -- What stands at the start of a sheet is no byte order mark.
  have hstart : ∀ rest, sheet.text.toList ≠ '\ufeff' :: rest := by
    intro rest hrest
    rw [text, String.toList_ofList] at hrest
    cases hsheet : sheet.lines with
    | nil => rw [hsheet] at hrest; cases hrest
    | cons line lines =>
      have hline : line ∈ sheet.lines := hsheet ▸ List.mem_cons_self
      obtain ⟨c, cs, hcs, hc⟩ := PlainLine.exists_written_eq_cons (sheet.isBare_name line hline)
      rw [hsheet, List.flatMap_cons, hcs] at hrest
      obtain ⟨rfl, -⟩ := List.cons.inj hrest
      rcases hc with hc | hc
      · exact absurd hc (by decide)
      · exact absurd hc (by decide)
  have hfold := sheet.foldlM_lines
  obtain ⟨defs, hdefs, hitems⟩ := Option.map_eq_some_iff.1 hfold
  unfold parse?
  split
  · rename_i rest hrest
    exact absurd hrest (hstart rest)
  · simp [hlines, hdefs, hitems, entriesOf_items]

/-! ## The entries of a sheet -/

theorem lookup_toEntries (sheet : Sheet) (name : String) :
    sheet.toEntries.lookup name =
      ((sheet.entries.lookup name).map Value.string).or
        ((sheet.tables.lookup name).map fun entries => .table (textEntries entries)) := by
  have htables := lookup_map_value (fun entries => Value.table (textEntries entries))
    sheet.tables name
  rw [toEntries, List.lookup_append, textEntries, lookup_map_value, htables]

/-- All values of a sheet are in range. -/
theorem inRange_of_mem_toEntries {sheet : Sheet} {entry : String × Value}
    (h : entry ∈ sheet.toEntries) : entry.2.inRange = true := by
  rcases List.mem_append.1 h with h | h
  · exact inRange_of_mem_textEntries h
  · obtain ⟨table, -, rfl⟩ := List.mem_map.1 h
    exact entriesInRange_iff.2 fun entry => inRange_of_mem_textEntries

end Sheet

end ChatMarkup.Toml
