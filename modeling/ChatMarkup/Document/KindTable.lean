import ChatMarkup.Document.Kind

/-!
# Tables by kind

A table holds at most one entry for each kind of node. It is its own look-up function, so two tables
with the same entries are the same table, however they came about, and no order of their entries is
kept.

Results:
* `get?_insert`, `get?_erase`: an insertion or removal is seen at its own kind only.
* `get?_overlay`: where two tables are laid one over the other, the entries of the upper one are
  seen.
* `overlay_empty`, `empty_overlay`: a table without entries hides and shows nothing.
-/

namespace ChatMarkup

/-- At most one entry for each kind of node. -/
@[ext] structure KindTable (α : Type) where
  get? : Kind → Option α

namespace KindTable

variable {α : Type}

/-- The table without entries. -/
def empty : KindTable α := ⟨fun _ => none⟩

instance : Inhabited (KindTable α) := ⟨empty⟩

/-- The table with `entry` as the entry for `kind`, whatever was there before. -/
def insert (table : KindTable α) (kind : Kind) (entry : α) : KindTable α :=
  ⟨fun k => if k = kind then some entry else table.get? k⟩

/-- The table without an entry for `kind`. -/
def erase (table : KindTable α) (kind : Kind) : KindTable α :=
  ⟨fun k => if k = kind then none else table.get? k⟩

/-- The table `upper` laid over the table `lower`. -/
def overlay (lower upper : KindTable α) : KindTable α :=
  ⟨fun k => upper.get? k <|> lower.get? k⟩

/-- The table of a list of entries, of which a later one replaces an earlier one of its kind. -/
def ofList (entries : List (Kind × α)) : KindTable α :=
  entries.foldl (fun table entry => table.insert entry.1 entry.2) empty

/-- Whether there is an entry for `kind`. -/
def contains (table : KindTable α) (kind : Kind) : Bool :=
  (table.get? kind).isSome

/-- The kinds that have an entry, in order. -/
def kinds (table : KindTable α) : List Kind :=
  Kind.all.filter table.contains

/-- The number of entries. -/
def size (table : KindTable α) : Nat :=
  table.kinds.length

/-- Whether there is no entry. -/
def isEmpty (table : KindTable α) : Bool :=
  table.kinds.isEmpty

/-- One line that names the kinds with an entry, under a title for the table. -/
def summary (title : String) (table : KindTable α) : String :=
  title ++ " \x7b kinds: [" ++ ", ".intercalate (table.kinds.map Kind.name) ++ "] \x7d"

@[simp] theorem get?_empty (k : Kind) : (empty : KindTable α).get? k = none := rfl

@[simp] theorem get?_insert (table : KindTable α) (kind k : Kind) (entry : α) :
    (table.insert kind entry).get? k = if k = kind then some entry else table.get? k := rfl

@[simp] theorem get?_erase (table : KindTable α) (kind k : Kind) :
    (table.erase kind).get? k = if k = kind then none else table.get? k := rfl

@[simp] theorem get?_overlay (lower upper : KindTable α) (k : Kind) :
    (lower.overlay upper).get? k = (upper.get? k <|> lower.get? k) := rfl

@[simp] theorem overlay_empty (lower : KindTable α) : lower.overlay empty = lower := rfl

@[simp] theorem empty_overlay (upper : KindTable α) : empty.overlay upper = upper := by
  refine KindTable.ext (funext fun k => ?_)
  rw [get?_overlay, get?_empty]
  cases upper.get? k <;> rfl

end KindTable

end ChatMarkup
