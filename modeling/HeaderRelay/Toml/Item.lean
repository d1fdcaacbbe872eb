/-!
# What a settings text in TOML says

* `Toml.Item` — a value, a table, or an array of tables;
* `Toml.Table` — entries in the order in which they were made, and how the table came about;
* `Toml.Table.update` — changes the table at the end of a path, making the tables on the way;
* `Toml.Table.define` — a `key = value` line;
* `Toml.Header` — where `[header]` and `[[header]]` lines lead;
* `Toml.Table.ofLines` — the table that all lines of a text amount to.

A table may be defined once only, and none may be extended by means of another kind than the one
that made it.
-/

namespace HeaderRelay
namespace Toml

/-! ## Values and tables -/

/-- How a table came about. -/
inductive TableKind where
  /-- It has a header of its own, or braces, or is the whole text. -/
  | explicit
  /-- It lies on the path of a header. -/
  | implied
  /-- It lies on the path of a dotted key. -/
  | dotted
  deriving DecidableEq, Repr

inductive Item where
  | string (text : String)
  | integer (n : Int)
  /-- Numbers with a fraction or an exponent are kept as written. -/
  | float (text : String)
  | boolean (b : Bool)
  /-- Dates and times are kept as written. -/
  | dateTime (text : String)
  | array (items : List Item)
  /-- A table in braces, which nothing outside the braces can extend. -/
  | inlineTable (entries : List (String × Item))
  | table (kind : TableKind) (entries : List (String × Item))
  /-- An array of tables that have headers, in order. -/
  | tables (elements : List (List (String × Item)))

structure Table where
  kind : TableKind
  entries : List (String × Item)

namespace Table

def empty (kind : TableKind) : Table where
  kind
  entries := []

def find? (table : Table) (key : String) : Option Item :=
  table.entries.lookup key

/-- Replaces the entry under `key`, or makes it the last one. -/
def set (table : Table) (key : String) (item : Item) : Table :=
  if (table.find? key).isSome then
    { table with
      entries := table.entries.map fun entry => if entry.1 = key then (key, item) else entry }
  else
    { table with entries := table.entries ++ [(key, item)] }

def toItem (table : Table) : Item :=
  .table table.kind table.entries

/-! ## Paths -/

/-- Changes the table at the end of `path`. Missing tables on the way are made with the kind
`made`. A dotted key does not enter a table with a header of its own; in an array of tables the
path goes on in the last one. -/
def update (made : TableKind) (change : Table → Option Table) :
    (path : List String) → Table → Option Table
  | [], table => change table
  | key :: path, table =>
      match table.find? key with
      | none =>
          (update made change path (empty made)).map fun t => table.set key t.toItem
      | some (.table kind entries) =>
          if made = .dotted ∧ kind = .explicit then
            none
          else
            (update made change path { kind, entries }).map fun t => table.set key t.toItem
      | some (.tables elements) =>
          match elements.getLast? with
          | none => none
          | some entries =>
              (update made change path { kind := .explicit, entries }).map fun t =>
                table.set key (.tables (elements.dropLast ++ [t.entries]))
      | some _ => none

/-- Enters `item` under `key`, where nothing may be yet. -/
def insert (key : String) (item : Item) (table : Table) : Option Table :=
  match table.find? key with
  | none => some (table.set key item)
  | some _ => none

/-- Enters `item` under a key with dots in it, whose last part is `key`. The table that takes it
is one that dotted keys made, unless there are no dots. -/
def define (path : List String) (key : String) (item : Item) (table : Table) : Option Table :=
  table.update .dotted
    (fun t => if path ≠ [] ∧ t.kind ≠ .dotted then none else t.insert key item) path

/-- The table at the end of `path`, as it is or as it would be made. -/
def reach : (path : List String) → Table → Option Table
  | [], table => some table
  | key :: path, table =>
      match table.find? key with
      | none => reach path (empty .implied)
      | some (.table kind entries) => reach path { kind, entries }
      | some (.tables elements) =>
          match elements.getLast? with
          | none => none
          | some entries => reach path { kind := .explicit, entries }
      | some _ => none

end Table

/-! ## Lines -/

/-- Where a `[header]` or `[[header]]` line leads. -/
inductive Header where
  | table (path : List String) (key : String)
  | element (path : List String) (key : String)
  deriving DecidableEq, Repr

/-- The table that a header opens: a new one, or one that earlier headers only implied. -/
def Header.opens? (root : Table) : Header → Option Table
  | table path key => do
      match (← root.reach path).find? key with
      | none => some (Table.empty .explicit)
      | some (.table .implied entries) => some { kind := .explicit, entries }
      | some _ => none
  | element path key => do
      match (← root.reach path).find? key with
      | none => some (Table.empty .explicit)
      | some (.tables _) => some (Table.empty .explicit)
      | some _ => none

/-- Puts the table that a header opened in its place, once its lines are read. -/
def Header.closes? (root opened : Table) : Header → Option Table
  | table path key => root.update .implied (fun t => some (t.set key opened.toItem)) path
  | element path key =>
      root.update .implied
        (fun t => match t.find? key with
          | none => some (t.set key (.tables [opened.entries]))
          | some (.tables elements) =>
              some (t.set key (.tables (elements ++ [opened.entries])))
          | some _ => none)
        path

inductive Line where
  | blank
  | header (header : Header)
  /-- The value of a key, whose last part stands apart. -/
  | entry (path : List String) (key : String) (item : Item)

/-- A text read up to some line: what is settled, and the table that is still open. -/
structure Draft where
  root : Table
  /-- The header of the open table; `none` before the first header, where it is the whole. -/
  header : Option Header
  opened : Table

namespace Draft

def start : Draft where
  root := .empty .explicit
  header := none
  opened := .empty .explicit

/-- Everything read so far, as one table. -/
def settle (draft : Draft) : Option Table :=
  match draft.header with
  | none => some draft.opened
  | some header => header.closes? draft.root draft.opened

def add (draft : Draft) : Line → Option Draft
  | .blank => some draft
  | .entry path key item => do
      let opened ← draft.opened.define path key item
      return { draft with opened }
  | .header header => do
      let root ← draft.settle
      let opened ← header.opens? root
      return { root, header := some header, opened }

end Draft

/-- The table that a list of lines amounts to, unless they contradict each other. -/
def Table.ofLines (lines : List Line) : Option Table := do
  let draft ← lines.foldlM Draft.add Draft.start
  draft.settle

end Toml
end HeaderRelay
