import HeaderRelay.Proofs.Batch.Canonical
import HeaderRelay.Proofs.Batch.History
import HeaderRelay.Proofs.Batch.Selectors

/-!
# Versions that stand in the table twice

The writer looks a version up before it saves it, and its table holds no version twice. A reader
saves every version that is written in full, also one that its table holds already. Such a payload
is read, and the copy takes the place of another version.

* `nodup_save_iff`, `nodup_tableAfter_iff` — what one record does to a table without repetitions;
* `Batch.NeverRepeats` — no record puts in full what the table goes on to hold;
* `nodup_tableBehind_iff` — a table without repetitions stays one exactly behind such records;
* `Spells.leads` — whatever is read, the distinct versions are the last ones used;
* `versions_repeat_iff` — what the table of a batch that was read may hold;
* `versions_repeat` — a batch of two headers that leaves one version in it twice.
-/

namespace HeaderRelay

/-! ## One record -/

namespace VersionTable

/-- Saving drops all entries but the first six, and repeats one of these or none. -/
theorem nodup_save_iff {table : VersionTable} (h : table.Nodup) (version : Int32) :
    (table.save version).Nodup ↔ version ∉ table.take 6 := by
  have hsave : table.save version = version :: table.take 6 := rfl
  rw [hsave, List.nodup_cons]
  exact and_iff_left (h.sublist (List.take_sublist 6 table))

theorem nodup_mark_iff (table : VersionTable) (index : Nat) :
    (table.mark index).Nodup ↔ table.Nodup :=
  (table.perm_mark index).nodup_iff

end VersionTable

theorem RecordForm.nodup_tableAfter_iff (form : RecordForm) {table : VersionTable}
    (h : table.Nodup) :
    (form.tableAfter table).Nodup ↔
      ∀ version, form.version = some version → version ∉ table.take 6 := by
  cases hversion : form.version with
  | some version =>
      rw [tableAfter_eq_save hversion, VersionTable.nodup_save_iff h]
      simp
  | none =>
      rw [tableAfter_eq_mark hversion, VersionTable.nodup_mark_iff]
      simp [h]

/-! ## Records in a row -/

namespace Batch

/-- No record puts a version in full that the table, read from `table` on, holds and does not lose
to it. -/
def NeverRepeats (table : VersionTable) (forms : List RecordForm) : Prop :=
  ∀ (n : Nat) (form : RecordForm) (version : Int32),
    forms[n]? = some form → form.version = some version →
      version ∉ (tableBehind table (forms.take n)).take 6

theorem tableBehind_take_succ {forms : List RecordForm} {n : Nat} {form : RecordForm}
    (h : forms[n]? = some form) (table : VersionTable) :
    tableBehind table (forms.take (n + 1)) =
      form.tableAfter (tableBehind table (forms.take n)) := by
  rw [List.take_add_one, h]
  simp [tableBehind]

/-- Nothing is repeated at any point exactly if no record repeats anything. -/
theorem nodup_tableBehind_iff {table : VersionTable} (h : table.Nodup) (forms : List RecordForm) :
    (∀ n, (tableBehind table (forms.take n)).Nodup) ↔ NeverRepeats table forms := by
  constructor
  · -- one record further, the table would hold a repeated version twice
    intro hnodup n form version hform hversion
    have hnext := hnodup (n + 1)
    rw [tableBehind_take_succ hform, form.nodup_tableAfter_iff (hnodup n)] at hnext
    exact hnext version hversion
  · -- on the number of records read so far
    intro hnever n
    induction n with
    | zero => exact h
    | succ n ih =>
        cases hform : forms[n]? with
        | some form =>
            rw [tableBehind_take_succ hform, form.nodup_tableAfter_iff ih]
            exact fun version hversion => hnever n form version hform hversion
        | none =>
            -- there are no more records
            rw [List.take_add_one, hform]
            simpa using ih

/-- Reader and writer of the same headers stay as they are to each other, whatever the reader is
given. -/
theorem Spells.leads {policy : ReferencePolicy} {writer reader last : Context} {first : Bool}
    {forms : List RecordForm} {headers : List BlockHeader}
    (h : Spells policy reader first forms headers last) (hleads : writer.Leads reader)
    (hfirst : first = true → writer.versions = []) :
    (recordsFrom writer first headers).2.Leads last := by
  induction h generalizing writer with
  | nil => exact hleads
  | @cons reader last first form header forms headers hform _ ih =>
      rw [recordsFrom_cons]
      exact ih (hleads.step hfirst hform) (fun hfalse => Bool.noConfusion hfalse)

theorem versions_finalContext (codec : Codec) (headers : List BlockHeader) :
    (finalContext codec headers).versions = (recentVersions headers).take 7 :=
  congrArg Context.versions (recordsFrom_behind codec.hasher [] headers).2

/-! ## Whole batches -/

/-- Of whatever payload is read, the distinct versions in the table are the last ones used, in
order. The table holds one of them twice, at some point of the batch, exactly if a record puts in
full what is among the first six entries. What the writer makes is never of that kind. -/
theorem versions_repeat_iff {codec : Codec} {ctx : Context} {payload : List UInt8}
    {headers : List BlockHeader} {t : Decoding} (h : decodeIn codec ctx payload = .ok headers t) :
    t.context.versions.length ≤ 7 ∧
    t.context.versions.eraseDups <+: (recentVersions headers).take 7 ∧
    (∃ (parse : Parse) (last : Context),
      parse.bytes = payload ∧ parse.Accepts codec headers last) ∧
    (∀ (parse : Parse) (last : Context), parse.bytes = payload →
      parse.Accepts codec headers last →
        t.context.versions = tableBehind [] parse.forms ∧
        ((∀ n, (tableBehind [] (parse.forms.take n)).Nodup) ↔ NeverRepeats [] parse.forms) ∧
        (NeverRepeats [] parse.forms → t.context.versions.Nodup)) ∧
    ∀ (encoded : Encoded) (tail : List UInt8), encode codec headers = .ok encoded →
      payload = encoded.bytes ++ tail →
        t.context.versions = (recentVersions headers).take 7 ∧ t.context.versions.Nodup := by
  have hwriter := versions_finalContext codec headers
  rcases exists_parse_of_decodeIn h with ⟨parse, last, hbytes, haccepts⟩
  have hleads : (finalContext codec headers).Leads t.context := by
    rw [haccepts.context_eq (hbytes ▸ h)]
    exact haccepts.spells.leads (Context.leads_fresh codec.hasher) fun _ => rfl
  refine ⟨hleads.readerBounded, hwriter ▸ hleads.distinct, ⟨parse, last, hbytes, haccepts⟩,
    ?_, ?_⟩
  · clear hbytes haccepts
    rintro parse last rfl haccepts
    have hversions : t.context.versions = tableBehind [] parse.forms := by
      rw [haccepts.context_eq h]
      exact haccepts.spells.versions_last
    have hnodup := nodup_tableBehind_iff List.nodup_nil parse.forms
    refine ⟨hversions, hnodup, ?_⟩
    intro hnever
    -- the whole batch is the last of its beginnings
    have hwhole := hnodup.2 hnever parse.forms.length
    rw [List.take_length] at hwhole
    rw [hversions]
    exact hwhole
  · rintro encoded tail hencode rfl
    have hbound := length_le_of_encode hencode
    rcases encode_of_length_le hbound codec with ⟨written, hwritten, hrecords⟩
    cases hencode.symm.trans hwritten
    rw [hrecords, ← bytes_written] at h
    have hlast := (written_accepts codec codec rfl hbound tail).context_eq h
    rw [hlast]
    exact ⟨hwriter, hwriter ▸ (nodup_recentVersions headers).sublist (List.take_sublist 7 _)⟩

/-- Two versions in turn, named by their places where they come back: the table holds each once. -/
theorem versions_repeat_iff_returning :
    ∃ t,
      decodeIn ⟨.strict, fun _ => Hash.zero⟩ (.fresh BlockHeader.sha256d)
          (Parse.bytes ⟨3, [3], [⟨0x38, some 4, some Hash.zero, Hash.zero, .full 7, some 1, 2⟩,
            ⟨0x00, some 5, none, Hash.zero, .offset 5, none, 3⟩,
            ⟨0x02, none, none, Hash.zero, .offset 5, none, 4⟩], [9]⟩) =
        .ok [⟨4, Hash.zero, Hash.zero, 7, 1, 2⟩, ⟨5, Hash.zero, Hash.zero, 12, 1, 3⟩,
          ⟨4, Hash.zero, Hash.zero, 17, 1, 4⟩] t ∧
      t.context.versions = [4, 5] ∧ t.context.versions.Nodup := by
  have haccepts : Parse.Accepts ⟨.strict, fun _ => Hash.zero⟩
      [⟨4, Hash.zero, Hash.zero, 7, 1, 2⟩, ⟨5, Hash.zero, Hash.zero, 12, 1, 3⟩,
        ⟨4, Hash.zero, Hash.zero, 17, 1, 4⟩] _
      ⟨3, [3], [⟨0x38, some 4, some Hash.zero, Hash.zero, .full 7, some 1, 2⟩,
        ⟨0x00, some 5, none, Hash.zero, .offset 5, none, 3⟩,
        ⟨0x02, none, none, Hash.zero, .offset 5, none, 4⟩], [9]⟩ :=
    { size := CompactSize.form_encode 3
      bounded := by decide
      count := rfl
      spells :=
        .cons ⟨by decide, ⟨by decide, by decide, rfl, rfl, rfl⟩, rfl⟩
          (.cons ⟨by decide, ⟨by decide, by decide, rfl, rfl, rfl⟩, rfl⟩
            (.cons ⟨by decide, ⟨by decide, by decide, rfl, rfl, rfl⟩, rfl⟩ .nil)) }
  have hdecode := decodeIn_accepted haccepts (.fresh BlockHeader.sha256d)
  rcases versions_repeat_iff hdecode with ⟨_, _, _, hparse, _⟩
  rcases hparse _ _ rfl haccepts with ⟨hversions, _, hnodup⟩
  refine ⟨_, hdecode, hversions, hnodup ?_⟩
  -- the second record is the only one behind the first that puts a version in full
  rintro (_ | _ | _ | n) form version hform hversion
  · cases hform
    cases hversion
    decide
  · cases hform
    cases hversion
    decide
  · cases hform
    cases hversion
  · simp at hform

/-- The second record puts in full the version that the first one left in the table. -/
theorem versions_repeat :
    ∃ t,
      decodeIn {} (Codec.context {})
          (Parse.bytes ⟨2, [2], [⟨0x38, some 4, some Hash.zero, Hash.zero, .full 7, some 1, 2⟩,
            ⟨0x08, some 4, some Hash.zero, Hash.zero, .offset 0, none, 3⟩], []⟩) =
        .ok [⟨4, Hash.zero, Hash.zero, 7, 1, 2⟩, ⟨4, Hash.zero, Hash.zero, 7, 1, 3⟩] t ∧
      t.context.versions = [4, 4] ∧ ¬ t.context.versions.Nodup := by
  have haccepts : Parse.Accepts {}
      [⟨4, Hash.zero, Hash.zero, 7, 1, 2⟩, ⟨4, Hash.zero, Hash.zero, 7, 1, 3⟩] _
      ⟨2, [2], [⟨0x38, some 4, some Hash.zero, Hash.zero, .full 7, some 1, 2⟩,
        ⟨0x08, some 4, some Hash.zero, Hash.zero, .offset 0, none, 3⟩], []⟩ :=
    { size := CompactSize.form_encode 2
      bounded := by decide
      count := rfl
      spells :=
        .cons ⟨by decide, ⟨by decide, by decide, rfl, rfl, rfl⟩, rfl⟩
          (.cons ⟨by decide, ⟨by decide, by decide, rfl, rfl, rfl⟩, rfl⟩ .nil) }
  have hdecode := decodeIn_accepted haccepts (Codec.context {})
  have hversions : tableBehind []
      [⟨0x38, some 4, some Hash.zero, Hash.zero, .full 7, some 1, 2⟩,
        ⟨0x08, some 4, some Hash.zero, Hash.zero, .offset 0, none, 3⟩] = [4, 4] := by decide
  have hlast := haccepts.spells.versions_last.trans hversions
  exact ⟨_, hdecode, hlast, fun hnodup => absurd (hlast ▸ hnodup) (by decide)⟩

end Batch
end HeaderRelay
