import HeaderRelay.Tool.FileTree

/-!
# Files in memory keep what is written

Writing to a path either fails, whatever the content, or it replaces one file, which is then read
through the same path.

* `entry_set_self`, `entry_set_of_ne` — what stands in a tree after one place was changed;
* `descend_set`, `locate_set` — a file that was written is in nobody's way;
* `Target`, `Target.write_eq` — the paths that can be written;
* `Target.read_set` — what was written to a path is read from it.
-/

namespace HeaderRelay
namespace Tool
namespace FileTree

variable {tree : FileTree} {place : List String}

/-! ## One place changed -/

theorem lookup_filter_ne (entries : List (List String × Entry)) {other : List String}
    (h : other ≠ place) :
    (entries.filter (·.1 ≠ place)).lookup other = entries.lookup other := by
  induction entries with
  | nil => rfl
  | cons head entries ih =>
      by_cases hhead : head.1 = place
      · -- the entry that goes is not the one that is looked up
        have hother : (other == head.1) = false := beq_eq_false_iff_ne.2 (hhead ▸ h)
        rw [List.filter_cons_of_neg (by simp [hhead]), ih, List.lookup_cons, hother]
      · rw [List.filter_cons_of_pos (by simp [hhead]), List.lookup_cons, List.lookup_cons, ih]

theorem entry_set_self (h : place ≠ []) (entry : Entry) :
    entry? (tree.set place entry) place = some entry := by
  simp [set, entry?, h]

theorem entry_set_of_ne {other : List String} (h : other ≠ place) (entry : Entry) :
    entry? (tree.set place entry) other = tree.entry? other := by
  have hother : (other == place) = false := beq_eq_false_iff_ne.2 h
  simp only [set, entry?, List.lookup_cons, hother, lookup_filter_ne tree.entries h]

theorem child_set_of_ne {here : List String} {name : String} (h : here ++ [name] ≠ place)
    (entry : Entry) : (tree.set place entry).child here name = tree.child here name := by
  simp only [child, entry_set_of_ne h]

theorem child_set_self {here : List String} {name : String} {old : Option Entry}
    (h : tree.child here name = .ok old) (entry : Entry) :
    (tree.set (here ++ [name]) entry).child here name = .ok (some entry) := by
  have hplace : here ++ [name] ≠ [] :=
    List.append_ne_nil_of_right_ne_nil here (List.cons_ne_nil name [])
  unfold child at h ⊢
  rw [entry_set_self hplace]
  split at h
  · cases h
  · exact if_neg ‹_›

theorem entry_of_child {here : List String} {name : String} {entry : Option Entry}
    (h : tree.child here name = .ok entry) : tree.entry? (here ++ [name]) = entry := by
  unfold child at h
  split at h
  · cases h
  · exact Except.ok.inj h

/-! ## Ways past it -/

section NewFile

variable (content : List UInt8)

/-- No way leads through a place that is no directory. -/
theorem descend_set (hplace : tree.entry? place ≠ some .directory) {here there parts : List String}
    (h : tree.descend here parts = .ok there) :
    (tree.set place (.file content)).descend here parts = .ok there := by
  induction parts generalizing here with
  | nil => exact h
  | cons part rest ih =>
      unfold descend at h ⊢
      by_cases hdot : part = "."
      · rw [if_pos hdot] at h ⊢
        exact ih h
      · rw [if_neg hdot] at h ⊢
        by_cases hdots : part = ".."
        · rw [if_pos hdots] at h ⊢
          exact ih h
        · rw [if_neg hdots] at h ⊢
          split at h
          case h_1 hchild =>
            -- the way leads on through a directory, which is another place
            have hhere : here ++ [part] ≠ place := by
              rintro rfl
              exact hplace (entry_of_child hchild)
            rw [child_set_of_ne hhere, hchild]
            exact ih h
          case h_2 => cases h
          case h_3 => cases h
          case h_4 => cases h

theorem locate_set (hplace : tree.entry? place ≠ some .directory) {text : String} {found : Place}
    (h : tree.locate text = .ok found) :
    (tree.set place (.file content)).locate text = .ok found := by
  unfold locate at h ⊢
  by_cases hempty : text = ""
  · rw [if_pos hempty] at h
    cases h
  · rw [if_neg hempty] at h ⊢
    by_cases hzero : text.toList.contains '\x00'
    · rw [if_pos hzero] at h
      cases h
    · rw [if_neg hzero] at h ⊢
      by_cases hlong : text.utf8ByteSize > maxPathBytes
      · rw [if_pos hlong] at h
        cases h
      · rw [if_neg hlong] at h ⊢
        -- the parts of the path are the same in every tree
        dsimp only at h ⊢
        cases hdescend : tree.descend [] (Path.ofString text).parents with
        | error e =>
            rw [hdescend] at h
            cases h
        | ok here =>
            rw [hdescend] at h
            rw [descend_set content hplace hdescend]
            exact h

end NewFile

/-! ## Writing and reading -/

/-- The path leads to a place where a file stands or can be made. -/
inductive Target (tree : FileTree) (text : String) : (place : List String) → Prop where
  | mk {here : List String} {name : String} {entry : Option Entry} :
      tree.locate text = .ok (.named here name false) → tree.child here name = .ok entry →
      entry ≠ some .directory → Target tree text (here ++ [name])

theorem Target.write_eq {text : String} (h : tree.Target text place) (content : List UInt8) :
    tree.write text content = .ok (tree.set place (.file content)) := by
  cases h with
  | mk hlocate hchild hentry =>
      simp only [write, hlocate, hchild, bind, Except.bind, Bool.false_eq_true, if_false, hentry]
      rfl

theorem Target.read_set {text : String} (h : tree.Target text place) (content : List UInt8) :
    (tree.set place (.file content)).read text = .ok content := by
  cases h with
  | mk hlocate hchild hentry =>
      rw [← entry_of_child hchild] at hentry
      simp only [read, resolve, locate_set content hentry hlocate, child_set_self hchild, bind,
        Except.bind, Bool.false_eq_true, if_false]
      rfl

end FileTree
end Tool
end HeaderRelay
