import HeaderRelay.Compression.Codec
import HeaderRelay.Toml.Document

/-!
# The settings file

The file is TOML. Its one setting is `table_reference` in the section `codec`: the name of a
policy. Other keys are nobody's business and are ignored.

* `Settings` — what the file settles;
* `Settings.parse` — the settings in a text, `none` where it is no TOML or names no policy.
-/

namespace HeaderRelay
namespace Tool

structure Settings where
  policy : ReferencePolicy := .standard
  deriving DecidableEq, Repr

namespace Settings

open Toml

/-- Nothing inside. -/
def isVoid : Item → Bool
  | .array items => items.isEmpty
  | .tables elements => elements.isEmpty
  | .inlineTable entries => entries.isEmpty
  | .table _ entries => entries.isEmpty
  | _ => false

/-- A choice without content, written as the one key of a table. -/
def choice? : List (String × Item) → Option ReferencePolicy
  | [(name, content)] => if isVoid content then ReferencePolicy.ofName? name else none
  | _ => none

/-- A policy is a string with its name, or a table whose one key is its name. -/
def policy? : Item → Option ReferencePolicy
  | .string name => ReferencePolicy.ofName? name
  | .inlineTable entries => choice? entries
  | .table _ entries => choice? entries
  | _ => none

/-- The settings of a section given by keys. -/
def ofEntries? (entries : List (String × Item)) : Option Settings :=
  match entries.lookup "table_reference" with
  | none => some {}
  | some item => (policy? item).map fun policy => { policy }

/-- The settings of a section given by position; the policy comes first. -/
def ofItems? : List Item → Option Settings
  | [] => some {}
  | item :: _ => (policy? item).map fun policy => { policy }

/-- The settings of a section. A date or time has none of the keys, like a table without them. -/
def ofSection? : Item → Option Settings
  | .table _ entries => ofEntries? entries
  | .inlineTable entries => ofEntries? entries
  | .array items => ofItems? items
  | .tables elements => ofItems? (elements.map (Item.table .explicit))
  | .dateTime _ => some {}
  | _ => none

/-- What a whole table settles; without a section, nothing but the standard. -/
def ofTable? (table : Table) : Option Settings :=
  match table.find? "codec" with
  | none => some {}
  | some item => ofSection? item

def parse (text : String) : Option Settings :=
  (Toml.parse text).bind ofTable?

end Settings
end Tool
end HeaderRelay
