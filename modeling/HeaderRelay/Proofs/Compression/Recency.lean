import HeaderRelay.Proofs.Compression.Lockstep

/-!
# The writer's table holds what any other holds

A payload that the writer did not make may put a version in full where the table has it, and its
table then holds versions twice and forgets others early. The writer's own table never does: the
distinct versions of any table for the same headers stand at its front, in the same order.

* `VersionTable.promote` — a version in front of the others;
* `promoted_by_save`, `promoted_by_mark` — what the two movements do to the distinct versions;
* `Context.Leads` — what the writer's context and that of a reader of the same headers have in
  common;
* `Leads.step` — one more header preserves it.
-/

namespace HeaderRelay

/-! ## Distinct elements -/

section Distinct

variable {α : Type} [BEq α] [LawfulBEq α]

/-- First occurrences are kept among the elements that a filter lets pass. -/
theorem eraseDups_filter (p : α → Bool) (l : List α) :
    (l.filter p).eraseDups = l.eraseDups.filter p := by
  -- without its copies of the head, a tail may be much shorter, but never longer
  induction hlength : l.length using Nat.strongRecOn generalizing l with
  | ind length ih =>
      cases l with
      | nil => rfl
      | cons a l =>
          have hshorter : (l.filter fun b => !b == a).length < length := by
            rw [← hlength]
            exact Nat.lt_succ_of_le (List.length_filter_le _ _)
          have htail := ih _ hshorter (l.filter fun b => !b == a) rfl
          have hswap : (l.filter fun b => !b == a).filter p =
              (l.filter p).filter fun b => !b == a := by
            rw [List.filter_filter, List.filter_filter]
            exact List.filter_congr fun b _ => Bool.and_comm _ _
          rw [hswap] at htail
          rw [List.eraseDups_cons]
          by_cases ha : p a = true
          · rw [List.filter_cons_of_pos ha, List.eraseDups_cons, htail,
              List.filter_cons_of_pos ha]
          · rw [List.filter_cons_of_neg ha, List.filter_cons_of_neg ha, ← htail]
            congr 1
            -- what passes the filter is not the head, which does not
            refine (List.filter_eq_self.2 ?_).symm
            intro b hb
            have hpb : p b = true := (List.mem_filter.1 hb).2
            have hne : b ≠ a := by
              intro heq
              rw [heq] at hpb
              exact ha hpb
            simpa using hne

theorem eraseDups_prefix {front l : List α} (h : front <+: l) :
    front.eraseDups <+: l.eraseDups := by
  rcases h with ⟨back, rfl⟩
  rw [List.eraseDups_append]
  exact List.prefix_append _ _

theorem length_eraseDups_le (l : List α) : l.eraseDups.length ≤ l.length := by
  induction l with
  | nil => exact Nat.le_refl _
  | cons a l ih =>
      rw [List.eraseDups_cons, eraseDups_filter]
      exact Nat.succ_le_succ (Nat.le_trans (List.length_filter_le _ _) ih)

end Distinct

namespace VersionTable

/-- `version` in front, and only there. -/
def promote (version : Int32) (table : VersionTable) : VersionTable :=
  version :: table.filter fun other => !other == version

theorem eraseDups_cons_eq_promote (version : Int32) (table : VersionTable) :
    (version :: table : List Int32).eraseDups = promote version table.eraseDups := by
  rw [List.eraseDups_cons, eraseDups_filter, promote]

theorem promote_prefix {front table : VersionTable} (h : front <+: table) (version : Int32) :
    promote version front <+: promote version table := by
  rw [promote, promote, List.cons_prefix_cons]
  exact ⟨rfl, h.filter _⟩

/-- A version in full comes to the front of the distinct ones, the last of which may be lost. -/
theorem promoted_by_save (table : VersionTable) (version : Int32) :
    (table.save version).eraseDups <+: promote version table.eraseDups := by
  rw [← eraseDups_cons_eq_promote]
  exact eraseDups_prefix (List.take_prefix _ _)

theorem filter_eraseIdx {table : VersionTable} {index : Nat} {version : Int32}
    (h : table[index]? = some version) :
    (table.eraseIdx index).filter (fun other => !other == version) =
      table.filter fun other => !other == version := by
  induction table generalizing index with
  | nil => simp at h
  | cons head table ih =>
      cases index with
      | zero =>
          have heq : head = version := by simpa using h
          simp [heq]
      | succ index =>
          have htail : table[index]? = some version := by simpa using h
          rw [List.eraseIdx_cons_succ, List.filter_cons, List.filter_cons, ih htail]

/-- An entry comes to the front of the distinct versions, and none is lost. -/
theorem promoted_by_mark {table : VersionTable} {index : Nat} {version : Int32}
    (h : table[index]? = some version) :
    (table.mark index).eraseDups = promote version table.eraseDups := by
  have hmark : table.mark index = version :: table.eraseIdx index := by
    simp only [mark, h]
  rw [hmark, List.eraseDups_cons, filter_eraseIdx h, eraseDups_filter, promote]

/-! ## Tables without repetitions -/

theorem nodup_promote {table : VersionTable} (h : table.Nodup) (version : Int32) :
    (promote version table).Nodup := by
  refine List.nodup_cons.2 ⟨?_, h.filter _⟩
  intro hmem
  have hne := (List.mem_filter.1 hmem).2
  simp at hne

theorem mark_eq_promote {table : VersionTable} (hnodup : table.Nodup) {index : Nat}
    {version : Int32} (h : table[index]? = some version) :
    table.mark index = promote version table := by
  have hmark : table.mark index = version :: table.eraseIdx index := by
    simp only [mark, h]
  -- the entry that moves is the only copy
  have hgone : (table.eraseIdx index).filter (fun other => !other == version) =
      table.eraseIdx index := by
    refine List.filter_eq_self.2 ?_
    intro other hmem
    rcases List.mem_eraseIdx_iff_getElem?.1 hmem with ⟨place, hne, hplace⟩
    have hother : other ≠ version := by
      intro heq
      rw [heq, ← h] at hplace
      have hlt : index < table.length := (List.getElem?_eq_some_iff.1 h).1
      exact hne ((List.getElem?_inj hlt hnodup).1 hplace.symm).symm
    simpa using hother
  rw [hmark, ← hgone, filter_eraseIdx h, promote]

theorem save_eq_promote {table : VersionTable} {version : Int32} (h : version ∉ table) :
    table.save version = (promote version table).take capacity := by
  have hfilter : (table.filter fun other => !other == version) = table := by
    refine List.filter_eq_self.2 ?_
    intro other hmem
    have hne : other ≠ version := fun heq => h (heq ▸ hmem)
    simpa using hne
  rw [promote, hfilter, save]

end VersionTable

/-! ## Writer and reader -/

/-- A writer and a reader of the same headers, who need not see the same records: they remember the
same header, and the writer's table, which has no version twice, begins with the distinct versions
of the reader's. -/
structure Context.Leads (writer reader : Context) : Prop where
  nodup : writer.versions.Nodup
  bounded : writer.IsBounded
  readerBounded : reader.IsBounded
  distinct : reader.versions.eraseDups <+: writer.versions
  previous : reader.previous = writer.previous
  hasher : reader.hasher = writer.hasher

namespace RecordForm

/-- Whatever form a version comes in, it comes to the front of the reader's distinct versions. -/
theorem promoted_by_tableAfter {form : RecordForm} {table : VersionTable} {version : Int32}
    (h : form.version? table = some version) :
    (form.tableAfter table).eraseDups <+: VersionTable.promote version table.eraseDups := by
  unfold version? at h
  cases hversion : form.version with
  | some literal =>
      have heq : literal = version := by simpa [hversion] using h
      rw [tableAfter_eq_save hversion, heq]
      exact VersionTable.promoted_by_save table version
  | none =>
      have hentry : table[form.bitfield.index]? = some version := by simpa [hversion] using h
      have hmark : (form.tableAfter table).eraseDups =
          VersionTable.promote version table.eraseDups := by
        rw [tableAfter_eq_mark hversion, VersionTable.promoted_by_mark hentry]
      exact hmark ▸ List.prefix_refl _

theorem length_tableAfter_le (form : RecordForm) {table : VersionTable}
    (h : table.length ≤ VersionTable.capacity) :
    (form.tableAfter table).length ≤ VersionTable.capacity := by
  cases hversion : form.version with
  | some version =>
      rw [tableAfter_eq_save hversion]
      exact VersionTable.length_save_le table version
  | none =>
      rw [tableAfter_eq_mark hversion, VersionTable.length_mark]
      exact h

end RecordForm

namespace Context

/-- The writer's table, unless it holds a version twice: the header's version comes to the front,
and the last one leaves a table that overflows. -/
theorem versions_compress {ctx : Context} (hnodup : ctx.versions.Nodup) (hbounded : ctx.IsBounded)
    {first : Bool} (hfirst : first = true → ctx.versions = []) (header : BlockHeader) :
    (ctx.compress first header).2.versions =
      (VersionTable.promote header.version ctx.versions).take VersionTable.capacity := by
  cases first with
  | true =>
      have hempty : ctx.versions = [] := hfirst rfl
      rw [compress_true]
      exact VersionTable.save_eq_promote (by rw [hempty]; exact List.not_mem_nil)
  | false =>
      rw [compress_false]
      rcases ctx.referTo_cases header.version with ⟨index, hrefer, hentry⟩ | ⟨hrefer, hnew⟩
      · rw [hrefer]
        have hmark := VersionTable.mark_eq_promote hnodup hentry
        -- an entry that moves makes no table overflow
        have hfull : (VersionTable.promote header.version ctx.versions).length ≤
            VersionTable.capacity := by
          rw [← hmark, VersionTable.length_mark]
          exact hbounded
        rw [List.take_of_length_le hfull]
        exact hmark
      · rw [hrefer]
        exact VersionTable.save_eq_promote hnew

theorem snapshot_compress (ctx : Context) (first : Bool) (header : BlockHeader) :
    (ctx.compress first header).2.previous = ctx.previous ∧
      (ctx.compress first header).2.hasher = ctx.hasher := by
  rcases ctx.compress_cases first header with ⟨_, hsave⟩ | ⟨index, _, hmark, _⟩
  · rw [hsave]
    exact ⟨rfl, rfl⟩
  · rw [hmark]
    exact ⟨rfl, rfl⟩

theorem leads_fresh (hasher : Hasher) : (fresh hasher).Leads (fresh hasher) where
  nodup := List.nodup_nil
  bounded := isBounded_fresh hasher
  readerBounded := isBounded_fresh hasher
  distinct := List.prefix_refl _
  previous := rfl
  hasher := rfl

/-- The writer's record of a header and any other form that means the same header leave the two
ends as they were to each other. -/
theorem Leads.step {writer reader : Context} (h : writer.Leads reader) {policy : ReferencePolicy}
    {first : Bool} (hfirst : first = true → writer.versions = []) {form : RecordForm}
    {header : BlockHeader} (hspells : form.Spells policy reader first header) :
    ((writer.compress first header).2.advance header).Leads (form.next reader header) := by
  have hversions := versions_compress h.nodup h.bounded hfirst header
  have hversion := (RecordForm.header?_eq_some_iff.1 hspells.meaning).1
  have hlength := form.length_tableAfter_le h.readerBounded
  have hhasher : (writer.compress first header).2.hasher = writer.hasher :=
    (writer.snapshot_compress first header).2
  refine ⟨?_, ?_, hlength, ?_, ?_, ?_⟩
  · show (writer.compress first header).2.versions.Nodup
    rw [hversions]
    exact (VersionTable.nodup_promote h.nodup header.version).sublist (List.take_sublist _ _)
  · exact (h.bounded.compress first header).advance header
  · show (form.tableAfter reader.versions).eraseDups <+: (writer.compress first header).2.versions
    rw [hversions, List.prefix_take_iff]
    -- both tables have the version in front now, and eviction cuts the reader's no later
    have hreader := RecordForm.promoted_by_tableAfter hversion
    have hwriter := VersionTable.promote_prefix h.distinct header.version
    exact ⟨hreader.trans hwriter, Nat.le_trans (length_eraseDups_le _) hlength⟩
  · simp only [RecordForm.next, advance, Snapshot.ofHeader, hhasher, h.hasher]
  · simp only [RecordForm.next, advance, hhasher, h.hasher]

end Context
end HeaderRelay
