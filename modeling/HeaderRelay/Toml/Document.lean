import HeaderRelay.Toml.Scalar

/-!
# Whole settings texts

* `Toml.value` — any value, nested to a given depth at most;
* `Toml.line` — one line of a text, or several where a value runs over line ends;
* `Toml.parse` — the table that a text says, or `none` where it says nothing coherent.
-/

namespace HeaderRelay
namespace Toml

open Scanner

/-! ## Values -/

/-- Elements between brackets. Line ends and comments may stand between them, and a comma after
the last. -/
def array (element : Scanner Item) : Scanner Item := do
  char '['
  let items ← separated (do gap; let item ← element; gap; return item) (char ',')
  let _ ← if items.isEmpty then pure none else optional (char ',')
  gap
  char ']'
  return .array items

/-- A key with dots, an equals sign and a value. -/
def assignment (element : Scanner Item) : Scanner (List String × String × Item) := do
  let (path, key) ← keyPath
  char '='
  blanks
  let item ← element
  return (path, key, item)

/-- Assignments between braces, all on one line. -/
def inlineTable (element : Scanner Item) : Scanner Item := do
  char '\x7b'
  let entries ← separated (do let entry ← assignment element; blanks; return entry) (char ',')
  blanks
  char '\x7d'
  let table := entries.foldlM (fun (table : Table) (path, key, item) => table.define path key item)
    (Table.empty .explicit)
  match table with
  | some table => return .inlineTable table.entries
  | none => fail

/-- A value in which arrays and inline tables nest at most `depth` deep. -/
def value : (depth : Nat) → Scanner Item
  | 0 => scalar
  | depth + 1 => scalar <|> array (value depth) <|> inlineTable (value depth)

/-! ## Lines -/

def elementHeader : Scanner Header := do
  keyword "[["
  let (path, key) ← keyPath
  keyword "]]"
  return .element path key

def tableHeader : Scanner Header := do
  char '['
  let (path, key) ← keyPath
  char ']'
  return .table path key

/-- A line with its end. -/
def line : Scanner Line := do
  blanks
  match ← peek? with
  | none => fail
  | some '[' =>
      let next := (← get).take 2
      let header ← if next = ['[', '['] then elementHeader else tableHeader
      trailing
      return .header header
  | some c =>
      if c = '#' ∨ c = '\n' ∨ c = '\r' then
        trailing
        return .blank
      else
        let (path, key, item) ← assignment (value (nestingLimit - 1))
        trailing
        return .entry path key item

/-- A byte order mark may stand in front. -/
def document : Scanner (List Line) := do
  let _ ← optional (keyword "\ufeff")
  let lines ← many line
  blanks
  return lines

/-- The table that `text` says. -/
def parse (text : String) : Option Table :=
  (runAll document text).bind Table.ofLines

end Toml
end HeaderRelay
