import ChatMarkup.Toml.Value

/-!
# Tables that are being defined

A TOML text defines its tables line by line, and the same table can be reached in several ways: by a
header, by longer headers, by dotted keys. What may be added where depends on how a table came
about, so a table is kept with its origin until the whole text is read. An inline table, like any
other value, is closed at once.
-/

namespace ChatMarkup.Toml

/-- A dotted key: the names that lead to a table, and a name in that table. -/
structure Key where
  path : List String
  name : String
deriving DecidableEq

/-- How a table came about. -/
inductive Origin
  /-- By a header of its own, which may come only once. -/
  | header
  /-- By the header of a table inside it. -/
  | implied
  /-- By a dotted key. -/
  | dotted
deriving DecidableEq

/-- What a name stands for while a text is read. -/
inductive Item
  | value (value : Value)
  | table (origin : Origin) (items : List (String × Item))
  /-- The tables that double headers began, latest first. -/
  | tables (elements : List (List (String × Item)))

/-- The names that are defined so far. -/
abbrev Items := List (String × Item)

namespace Items

/-- Replaces what a name stands for by what `f` makes of it, or fails with it. A new name comes
last. -/
def alter (name : String) (f : Option Item → Option Item) : Items → Option Items
  | [] => (f none).map fun item => [(name, item)]
  | (n, item) :: rest =>
    if n = name then (f (some item)).map fun item => (n, item) :: rest
    else (alter name f rest).map ((n, item) :: ·)

/-- Changes the table that the names of a header lead to. Of several tables that share a name it is
the latest. -/
def within (f : Items → Option Items) : List String → Items → Option Items
  | [], items => f items
  | name :: path, items =>
    items.alter name fun
      | none => (within f path []).map (.table .implied)
      | some (.table origin inner) => (within f path inner).map (.table origin)
      | some (.tables (latest :: earlier)) =>
        (within f path latest).map fun t => .tables (t :: earlier)
      | _ => none

/-- Begins a table with a header. A table that other headers implied can still get its own. -/
def beginTable (key : Key) : Items → Option Items :=
  within
    (alter key.name fun
      | none => some (.table .header [])
      | some (.table .implied inner) => some (.table .header inner)
      | _ => none)
    key.path

/-- Begins one more of the tables that share a name, with a double header. -/
def beginElement (key : Key) : Items → Option Items :=
  within
    (alter key.name fun
      | none => some (.tables [[]])
      | some (.tables elements) => some (.tables ([] :: elements))
      | _ => none)
    key.path

/-- Gives a name a value, in the table that the names before it lead to. Dotted keys lead through
tables that have no header, and end in one that a dotted key defined, or right in the table where
they stand; `fresh` tells whether the table reached so far is such a one. -/
def assign (fresh : Bool) (name : String) (value : Value) : List String → Items → Option Items
  | [], items =>
    if fresh then
      items.alter name fun
        | none => some (.value value)
        | some _ => none
    else none
  | n :: path, items =>
    items.alter n fun
      | none => (assign true name value path []).map (.table .dotted)
      | some (.table .dotted inner) => (assign true name value path inner).map (.table .dotted)
      | some (.table .implied inner) => (assign false name value path inner).map (.table .implied)
      | some (.tables (latest :: earlier)) =>
        (assign false name value path latest).map fun t => .tables (t :: earlier)
      | _ => none

/-- Gives a dotted key a value, in the table where the key stands. -/
def define (key : Key) (value : Value) (items : Items) : Option Items :=
  assign true key.name value key.path items

end Items

mutual

/-- The value of a finished item. -/
def Item.toValue : Item → Value
  | .value v => v
  | .table _ items => .table (entriesOf items)
  | .tables elements => .array (elementsOf [] elements)

/-- The entries of a finished table. -/
def entriesOf : Items → Entries
  | [] => []
  | (name, item) :: rest => (name, item.toValue) :: entriesOf rest

/-- The finished tables that share a name, earliest first, followed by those in `done`. -/
def elementsOf (done : List Value) : List Items → List Value
  | [] => done
  | items :: rest => elementsOf (.table (entriesOf items) :: done) rest

end

end ChatMarkup.Toml
