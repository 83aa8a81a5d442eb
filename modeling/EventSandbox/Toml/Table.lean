import EventSandbox.Toml.Value

/-!
# EventSandbox.Toml.Table — tables under construction

While a file is read, a table remembers how it came about, since that decides what may still be
added to it:

1. a table with a **header** of its own takes no second header and no dotted key from outside;
2. a table **implied** by the header of a table inside it may still get a header;
3. a table made by a **dotted** key takes further dotted keys and no header.

A list of tables grows by one with each of its headers; what follows concerns its last table. No
key is set twice.
-/

namespace EventSandbox.Toml

/-- How a table came about. -/
inductive Origin
  | header
  | implied
  | dotted
deriving DecidableEq, Repr

/-- What stands under a key. -/
inductive Item
  | value (v : Value)
  | table (origin : Origin) (entries : List (String × Item))
  /-- A list of tables, the last first. -/
  | tables (elements : List (List (String × Item)))
deriving Repr

/-- The entries of a table under construction. -/
abbrev Entries := List (String × Item)

namespace Entries

/-- Changes what stands under a key, if the change is possible. -/
def update (change : Option Item → Option Item) (key : String) : Entries → Option Entries
  | [] => (change none).map fun item => [(key, item)]
  | (k, item) :: rest =>
    if k = key then (change (some item)).map fun item => (k, item) :: rest
    else (update change key rest).map ((k, item) :: ·)

/-- Changes the table that a path of headers leads to; tables that are missing are implied. -/
def within (change : Entries → Option Entries) : (path : List String) → Entries → Option Entries
  | [], entries => change entries
  | key :: path, entries =>
    entries.update
      (fun
        | none => (within change path []).map (.table .implied)
        | some (.table origin inner) => (within change path inner).map (.table origin)
        | some (.tables (last :: earlier)) =>
          (within change path last).map fun last => .tables (last :: earlier)
        | some _ => none)
      key

/-- Gives a table its header. -/
def openTable (key : String) : Entries → Option Entries :=
  update
    (fun
      | none => some (.table .header [])
      | some (.table .implied inner) => some (.table .header inner)
      | some _ => none)
    key

/-- Starts a further table of a list. -/
def openElement (key : String) : Entries → Option Entries :=
  update
    (fun
      | none => some (.tables [[]])
      | some (.tables elements) => some (.tables ([] :: elements))
      | some _ => none)
    key

/-- Sets the value under a dotted key. The tables on the way to it must have no header of their
own, and the last of them must come from a dotted key. -/
def assign (v : Value) : (key : String) → (path : List String) → Entries → Option Entries
  | key, [], entries =>
    entries.update (fun | none => some (.value v) | some _ => none) key
  | key, next :: path, entries =>
    entries.update
      (fun
        | none => (assign v next path []).map (.table .dotted)
        | some (.table .dotted inner) => (assign v next path inner).map (.table .dotted)
        | some (.table .implied inner) =>
          if path.isEmpty then none else (assign v next path inner).map (.table .implied)
        | some (.tables (last :: earlier)) =>
          if path.isEmpty then none
          else (assign v next path last).map fun last => .tables (last :: earlier)
        | some _ => none)
      key

end Entries

/-! ## Finished tables -/

mutual

/-- The value that an item has become. -/
def Item.close : Item → Value
  | .value v => v
  | .table _ entries => .table (closeEntries entries)
  | .tables elements => .array (closeElements elements).reverse

/-- The entries of a finished table. -/
def closeEntries : List (String × Item) → List (String × Value)
  | [] => []
  | (key, item) :: rest => (key, item.close) :: closeEntries rest

/-- The tables of a finished list, the last first. -/
def closeElements : List (List (String × Item)) → List Value
  | [] => []
  | entries :: rest => .table (closeEntries entries) :: closeElements rest

end

end EventSandbox.Toml
