import HeaderRelay.Proofs.Compression.RecordForm

/-!
# Two ends in lock step

The writer looks a version up and moves it to the front; the reader is told the place and does the
same. Both tables stay equal only if every record means to the reader what the writer took it for.

* `Context.Reachable` — the contexts that the operations on contexts lead to;
* `Record.form` — what stands in the payload when a record is written;
* `compress_cases` — what becomes of the version when a header is written;
* `compress_spells` — the record of a header means that header, and leads to the writer's context.
-/

namespace HeaderRelay

/-! ## Reachable contexts -/

namespace Context

/-- The contexts that the operations on contexts lead to. -/
inductive Reachable : Context → Prop where
  | fresh (hasher : Hasher) : Reachable (fresh hasher)
  | save {ctx : Context} (version : Int32) : Reachable ctx → Reachable (ctx.save version)
  | mark {ctx : Context} (index : Nat) : Reachable ctx → Reachable (ctx.mark index)
  | advance {ctx : Context} (header : BlockHeader) : Reachable ctx → Reachable (ctx.advance header)
  | reset {ctx : Context} : Reachable ctx → Reachable ctx.reset

/-- The table is one that selectors can point into. -/
def IsBounded (ctx : Context) : Prop :=
  ctx.versions.length ≤ VersionTable.capacity

theorem isBounded_fresh (hasher : Hasher) : (fresh hasher).IsBounded :=
  Nat.zero_le _

theorem isBounded_save (ctx : Context) (version : Int32) : (ctx.save version).IsBounded :=
  VersionTable.length_save_le ctx.versions version

theorem IsBounded.mark {ctx : Context} (h : ctx.IsBounded) (index : Nat) :
    (ctx.mark index).IsBounded := by
  have hlength : (ctx.mark index).versions.length = ctx.versions.length :=
    VersionTable.length_mark ctx.versions index
  unfold IsBounded
  rwa [hlength]

theorem IsBounded.advance {ctx : Context} (h : ctx.IsBounded) (header : BlockHeader) :
    (ctx.advance header).IsBounded := h

theorem Reachable.isBounded {ctx : Context} (h : Reachable ctx) : ctx.IsBounded := by
  induction h with
  | fresh hasher => exact isBounded_fresh hasher
  | save version _ _ => exact isBounded_save _ version
  | mark index _ ih => exact ih.mark index
  | advance header _ ih => exact ih.advance header
  | reset _ _ => exact isBounded_fresh _

theorem referTo_cases (ctx : Context) (version : Int32) :
    (∃ index, ctx.referTo version = (.entry index, ctx.mark index) ∧
      ctx.versions[index]? = some version) ∨
    (ctx.referTo version = (.literal version, ctx.save version) ∧ version ∉ ctx.versions) := by
  unfold referTo VersionTable.indexOf?
  cases hplace : ctx.versions.idxOf? version with
  | some index =>
      rw [List.idxOf?_eq_some_iff] at hplace
      rcases hplace with ⟨hlt, heq, _⟩
      refine Or.inl ⟨index, rfl, ?_⟩
      rw [List.getElem?_eq_getElem hlt, heq]
  | none =>
      rw [List.idxOf?_eq_none_iff] at hplace
      exact Or.inr ⟨rfl, hplace⟩

end Context

/-! ## Records as forms -/

def VersionField.literal? : VersionField → Option Int32
  | literal version => some version
  | entry _ => none

/-- Of a place that a table can have, the selector does not wrap around. -/
theorem VersionField.selector_entry {index : Nat} (h : index < VersionTable.capacity) :
    (entry index).selector.val = index + 1 :=
  Nat.mod_eq_of_lt (Nat.succ_lt_succ h)

namespace Record

/-- What stands in the payload when the record is written. -/
def form (record : Record) : RecordForm where
  lead := record.bitfield.toByte
  version := record.version.literal?
  prevBlock := record.prevBlock
  merkleRoot := record.merkleRoot
  time := record.time
  bits := record.bits
  nonce := record.nonce

theorem bitfield_form (record : Record) : record.form.bitfield = record.bitfield :=
  Bitfield.ofByte_toByte record.bitfield

theorem bytes_form (record : Record) : record.form.bytes = record.bytes := by
  have hversion : (record.version.literal?.map Writer.i32).getD [] = record.version.bytes := by
    cases record.version with
    | literal version => rfl
    | entry index => rfl
  unfold RecordForm.bytes RecordForm.bodyBytes RecordForm.fieldBytes bytes
  simp only [form, hversion]

/-- A record whose version is in full, or stands in the table, has the fields that it announces to
readers of either policy. -/
theorem fits_form (record : Record) {tableLength : Nat}
    (hlength : tableLength ≤ VersionTable.capacity)
    (hentry : ∀ index, record.version = .entry index → index < tableLength)
    (policy : ReferencePolicy) : record.form.Fits policy tableLength := by
  have hselector : record.form.bitfield.selector = record.version.selector := by
    rw [bitfield_form]
    rfl
  cases hversion : record.version with
  | literal version =>
      have hsome : record.form.version.isSome := by
        simp [form, hversion, VersionField.literal?]
      have hzero : record.form.bitfield.selector.val = 0 := by
        rw [hselector, hversion]
        rfl
      refine ⟨⟨fun _ => Or.inl hzero, fun _ => hsome⟩, fun _ => ?_, ?_, ?_, ?_⟩
      · rw [hzero]
        exact Nat.zero_le _
      all_goals
        rw [bitfield_form]
        rfl
  | entry index =>
      have hnone : ¬ record.form.version.isSome := by
        simp [form, hversion, VersionField.literal?]
      have hlt : index < tableLength := hentry index hversion
      have hsucc : record.form.bitfield.selector.val = index + 1 := by
        rw [hselector, hversion]
        exact VersionField.selector_entry (Nat.lt_of_lt_of_le hlt hlength)
      have hdue : ¬ record.form.bitfield.LiteralDue policy tableLength := by
        intro hdue
        rcases hdue with hzero | ⟨_, hshort⟩
        · rw [hsucc] at hzero
          exact Nat.succ_ne_zero index hzero
        · rw [hsucc] at hshort
          exact Nat.not_lt.2 hlt hshort
      refine ⟨⟨fun h => absurd h hnone, fun h => absurd h hdue⟩, fun _ => ?_, ?_, ?_, ?_⟩
      · rw [hsucc]
        exact hlt
      all_goals
        rw [bitfield_form]
        rfl

end Record

/-! ## What a record means -/

/-- What of a header follows from the snapshot is left out. -/
def Record.against (previous : Snapshot) (version : VersionField) (header : BlockHeader) :
    Record where
  version
  prevBlock := if header.prevBlock = previous.hash then none else some header.prevBlock
  merkleRoot := header.merkleRoot
  time := TimeField.since previous.timestamp header.timestamp
  bits := if header.bits = previous.bits then none else some header.bits
  nonce := header.nonce

theorem getD_if_eq {α : Type} [DecidableEq α] (a default : α) :
    (if a = default then none else some a).getD default = a := by
  by_cases h : a = default
  · rw [if_pos h]
    exact h.symm
  · rw [if_neg h]
    rfl

theorem Record.header_against (previous : Snapshot) (version : VersionField)
    (header : BlockHeader) :
    (against previous version header).form.header previous header.version = header := by
  have hprevBlock := getD_if_eq header.prevBlock previous.hash
  have htime := TimeField.resolve_since previous.timestamp header.timestamp
  have hbits := getD_if_eq header.bits previous.bits
  simp only [RecordForm.header, form, against, hprevBlock, htime, hbits]

namespace Context

theorem compress_true (ctx : Context) (header : BlockHeader) :
    ctx.compress true header = (.explicit header, ctx.save header.version) := rfl

theorem compress_false (ctx : Context) (header : BlockHeader) :
    ctx.compress false header =
      (.against ctx.previous (ctx.referTo header.version).1 header,
        (ctx.referTo header.version).2) := rfl

/-- The version goes into the record in full and is saved, or by its place and is marked. -/
theorem compress_cases (ctx : Context) (first : Bool) (header : BlockHeader) :
    ((ctx.compress first header).1.version = .literal header.version ∧
      (ctx.compress first header).2 = ctx.save header.version) ∨
    ∃ index, (ctx.compress first header).1.version = .entry index ∧
      (ctx.compress first header).2 = ctx.mark index ∧
      ctx.versions[index]? = some header.version := by
  cases first with
  | true => exact Or.inl ⟨rfl, rfl⟩
  | false =>
      rw [compress_false]
      rcases ctx.referTo_cases header.version with ⟨index, hrefer, hentry⟩ | ⟨hrefer, _⟩
      · rw [hrefer]
        exact Or.inr ⟨index, rfl, rfl, hentry⟩
      · rw [hrefer]
        exact Or.inl ⟨rfl, rfl⟩

/-- The record of a header means that header, and leads the reader where the writer went. -/
theorem compress_spells {ctx : Context} (hbounded : ctx.IsBounded) (policy : ReferencePolicy)
    (first : Bool) (header : BlockHeader) :
    (ctx.compress first header).1.form.Spells policy ctx first header ∧
      (ctx.compress first header).1.form.after ctx = (ctx.compress first header).2 := by
  cases first with
  | true =>
      have hfits := Record.fits_form (.explicit header) hbounded
        (fun index h => VersionField.noConfusion h) policy
      have hlead : (Record.explicit header).form.lead &&& 0x3F = 0x38 :=
        (Bitfield.ofByte_eq_explicit_iff _).1 (Record.bitfield_form _)
      exact ⟨⟨fun _ => hlead, hfits, rfl⟩, RecordForm.after_eq_save rfl ctx⟩
  | false =>
      rw [compress_false]
      rcases ctx.referTo_cases header.version with ⟨index, hrefer, hentry⟩ | ⟨hrefer, _⟩
      · rw [hrefer]
        -- the reader finds at the place what the writer found there
        have hlt : index < ctx.versions.length := (List.getElem?_eq_some_iff.1 hentry).1
        have hfits := Record.fits_form (.against ctx.previous (.entry index) header)
          hbounded (fun place h => by cases h; exact hlt) policy
        have hindex : (Record.against ctx.previous (.entry index) header).form.bitfield.index =
            index := by
          rw [Record.bitfield_form]
          have hselector : (VersionField.entry index).selector.val = index + 1 :=
            VersionField.selector_entry (Nat.lt_of_lt_of_le hlt hbounded)
          exact congrArg (· - 1) hselector
        refine ⟨⟨fun h => Bool.noConfusion h, hfits, ?_⟩, ?_⟩
        · have hversion : (Record.against ctx.previous (.entry index) header).form.version?
              ctx.versions = some header.version := by
            rw [← hindex] at hentry
            exact hentry
          exact RecordForm.header?_eq_some_iff.2
            ⟨hversion, Record.header_against ctx.previous _ header⟩
        · rw [RecordForm.after_eq_mark rfl, hindex]
      · rw [hrefer]
        have hfits := Record.fits_form
          (.against ctx.previous (.literal header.version) header) hbounded
          (fun place h => VersionField.noConfusion h) policy
        refine ⟨⟨fun h => Bool.noConfusion h, hfits, ?_⟩, RecordForm.after_eq_save rfl ctx⟩
        exact congrArg some (Record.header_against ctx.previous _ header)

theorem IsBounded.compress {ctx : Context} (h : ctx.IsBounded) (first : Bool)
    (header : BlockHeader) : (ctx.compress first header).2.IsBounded := by
  rcases ctx.compress_cases first header with ⟨_, hsave⟩ | ⟨index, _, hmark, _⟩
  · rw [hsave]
    exact isBounded_save ctx header.version
  · rw [hmark]
    exact h.mark index

end Context

end HeaderRelay
