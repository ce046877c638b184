import ChatMarkup.Toml.Expression

/-!
# TOML texts

A TOML text is a list of lines: keys with their values, and headers that say which table the lines
after them belong to.

Out of scope: what is wrong with a text that is not well formed, and where.
-/

namespace ChatMarkup.Toml

/-- What one line of a text says. -/
inductive Line
  | entry (key : Key) (value : Value)
  /-- A header, which begins a table. -/
  | table (key : Key)
  /-- A double header, which begins one more of the tables that share a name. -/
  | element (key : Key)

/-- How deep arrays and inline tables may stand inside each other. -/
def maxDepth : Nat := 80

/-- One line, without what may end it. -/
def line? : Reader Line
  | '[' :: '[' :: rest => do
    let (key, left) ← key? maxNames (skipSpaces rest)
    return (.element key, ← expect? ']' (← expect? ']' (skipSpaces left)))
  | '[' :: rest => do
    let (key, left) ← key? maxNames (skipSpaces rest)
    return (.table key, ← expect? ']' (skipSpaces left))
  | cs => do
    let ((key, v), left) ← pair? (fun cs => some (skipSpaces cs)) (value? maxDepth) cs
    return (.entry key v, left)

/-- The lines of a text, without blank ones. -/
def lines? (cs : List Char) : Option (List Line) :=
  match skipFiller false cs with
  | none => none
  | some [] => some []
  | some (c :: rest) =>
    match line? (c :: rest) with
    | none => none
    | some (line, left) =>
      match lineEnd? left with
      | none => none
      | some left => if left.length < cs.length then (lines? left).map (line :: ·) else none
termination_by cs.length

/-- What a text has defined so far, and the table that its next line belongs to. -/
structure Definitions where
  items : Items
  header : List String

/-- The definitions after one more line. -/
def Definitions.add? (defs : Definitions) : Line → Option Definitions
  | .entry key v =>
    (Items.within (Items.define key v) defs.header defs.items).map (⟨·, defs.header⟩)
  | .table key => (Items.beginTable key defs.items).map (⟨·, key.path ++ [key.name]⟩)
  | .element key => (Items.beginElement key defs.items).map (⟨·, key.path ++ [key.name]⟩)

/-- The entries of a TOML text, or `none` if it is not well formed. A byte order mark at its start
is skipped. -/
def parse? (text : String) : Option Entries := do
  let cs := match text.toList with
    | '\ufeff' :: rest => rest
    | cs => cs
  let defs ← (← lines? cs).foldlM Definitions.add? ⟨[], []⟩
  return entriesOf defs.items

end ChatMarkup.Toml
