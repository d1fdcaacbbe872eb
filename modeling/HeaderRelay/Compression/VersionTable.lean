/-!
# Recently used versions

Neighbouring headers mostly repeat one of a few versions, so both ends of a connection keep the
last ones seen, most recent first, and a record names a version by its place.

* `VersionTable.save` — a version enters at the front and the table keeps its size;
* `VersionTable.mark` — an entry moves to the front;
* `VersionTable.indexOf?` — the first place of a version.
-/

namespace HeaderRelay

/-- Versions, most recently used first. -/
abbrev VersionTable : Type :=
  List Int32

namespace VersionTable

/-- Most entries that a table keeps. -/
def capacity : Nat := 7

/-- Puts `version` in front, whether or not it is there already; the last entry leaves a table
that overflows. -/
def save (table : VersionTable) (version : Int32) : VersionTable :=
  (version :: table).take capacity

/-- Moves the entry at `index` to the front; nothing happens when there is none. -/
def mark (table : VersionTable) (index : Nat) : VersionTable :=
  match table[index]? with
  | some version => version :: table.eraseIdx index
  | none => table

/-- The first place where `version` stands. -/
def indexOf? (table : VersionTable) (version : Int32) : Option Nat :=
  table.idxOf? version

theorem length_save_le (table : VersionTable) (version : Int32) :
    (table.save version).length ≤ capacity := by
  simp only [save, List.length_take]
  exact Nat.min_le_left _ _

theorem length_mark (table : VersionTable) (index : Nat) :
    (table.mark index).length = table.length := by
  unfold mark
  split
  case h_1 version h =>
    have hlt : index < table.length := by
      rw [List.getElem?_eq_some_iff] at h
      exact h.1
    rw [List.length_cons, List.length_eraseIdx_of_lt hlt]
    omega
  case h_2 => rfl

end VersionTable
end HeaderRelay
