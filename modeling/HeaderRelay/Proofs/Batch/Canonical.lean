import HeaderRelay.Proofs.Batch.RoundTrip
import HeaderRelay.Proofs.Compression.Omission

/-!
# Payloads that the writer makes

Of the payloads that are read as the same headers, the writer makes one. It is the one whose count
is in its shortest form, whose reserved bits are zero, and in which every record behind the first
leaves out exactly what follows from the header before it and from the version table.

* `RecordForm.IsMinimal` — a record leaves out what it can;
* `Spells.eq_of_lead_eq` — forms that mean the same header differ in their first bytes;
* `eq_form_iff_isMinimal` — a form is the writer's exactly if it is minimal;
* `Parse.Canonical` — the payloads in question;
* `written_iff_canonical` — these are the writer's.
-/

namespace HeaderRelay

/-! ## Forms and their first bytes -/

namespace TimeField

/-- Two offsets lead to the same timestamp only if they are the same, even if they wrap around. -/
theorem offset_inj {previous : UInt32} {a b : Int16}
    (h : (offset a).resolve previous = (offset b).resolve previous) : a = b := by
  have hsum := congrArg UInt32.toNat h
  simp only [resolve, UInt32.ofInt, UInt32.toNat_ofNat'] at hsum
  have ha := And.intro a.le_toInt a.toInt_lt
  have hb := And.intro b.le_toInt b.toInt_lt
  apply Int16.toInt_inj.1
  omega

theorem eq_of_resolve_eq {previous : UInt32} {a b : TimeField} (hfull : a.isFull = b.isFull)
    (h : a.resolve previous = b.resolve previous) : a = b := by
  cases a with
  | full timestamp =>
      cases b with
      | full timestamp' => exact congrArg full h
      | offset seconds => cases hfull
  | offset seconds =>
      cases b with
      | full timestamp => cases hfull
      | offset seconds' => exact congrArg offset (offset_inj h)

end TimeField

theorem eq_of_isSome_eq_of_getD_eq {α : Type} {a b : Option α} {default : α}
    (hsome : a.isSome = b.isSome) (hvalue : a.getD default = b.getD default) : a = b := by
  cases a with
  | none =>
      cases b with
      | none => rfl
      | some b => cases hsome
  | some a =>
      cases b with
      | none => cases hsome
      | some b => exact congrArg some hvalue

namespace RecordForm

variable {policy : ReferencePolicy} {ctx : Context} {first : Bool} {form other : RecordForm}
  {header : BlockHeader}

theorem getD_version {table : VersionTable} {version : Int32}
    (h : form.version? table = some version) : form.version.getD version = version := by
  cases hversion : form.version with
  | none => rfl
  | some literal => simpa [version?, hversion] using h

/-- Forms that mean the same header in the same place are told apart by their first bytes. -/
theorem Spells.eq_of_lead_eq (h : form.Spells policy ctx first header)
    (hother : other.Spells policy ctx first header) (hlead : form.lead = other.lead) :
    form = other := by
  have hbitfield : form.bitfield = other.bitfield := congrArg Bitfield.ofByte hlead
  rcases header?_eq_some_iff.1 h.meaning with ⟨hform, hheader⟩
  rcases header?_eq_some_iff.1 hother.meaning with ⟨hform', hheader'⟩
  have hsame := hheader.trans hheader'.symm
  -- the first byte says which fields are there, and the header says what is in them
  have hversion : form.version = other.version := by
    have hsome : form.version.isSome = other.version.isSome := by
      rw [Bool.eq_iff_iff, h.fits.version, hother.fits.version, hbitfield]
    exact eq_of_isSome_eq_of_getD_eq hsome ((getD_version hform).trans (getD_version hform').symm)
  have hprevBlock : form.prevBlock = other.prevBlock := by
    have hsome : form.prevBlock.isSome = other.prevBlock.isSome := by
      rw [h.fits.prevBlock, hother.fits.prevBlock, hbitfield]
    exact eq_of_isSome_eq_of_getD_eq hsome (congrArg BlockHeader.prevBlock hsame)
  have htime : form.time = other.time := by
    have hfull : form.time.isFull = other.time.isFull := by
      rw [h.fits.time, hother.fits.time, hbitfield]
    exact TimeField.eq_of_resolve_eq hfull (congrArg BlockHeader.timestamp hsame)
  have hbits : form.bits = other.bits := by
    have hsome : form.bits.isSome = other.bits.isSome := by
      rw [h.fits.bits, hother.fits.bits, hbitfield]
    exact eq_of_isSome_eq_of_getD_eq hsome (congrArg BlockHeader.bits hsame)
  have hmerkleRoot : form.merkleRoot = other.merkleRoot := congrArg BlockHeader.merkleRoot hsame
  have hnonce : form.nonce = other.nonce := congrArg BlockHeader.nonce hsame
  cases form
  cases other
  simp only at hlead hversion hprevBlock hmerkleRoot htime hbits hnonce
  simp only [hlead, hversion, hprevBlock, hmerkleRoot, htime, hbits, hnonce]

end RecordForm

/-! ## Records that leave out what they can -/

namespace RecordForm

/-- Behind `previous`, for a reader with the version table `table`, the form announces those fields
of `header` that do not follow from what came before, and no others. -/
structure IsMinimal (hasher : Hasher) (table : VersionTable) (previous header : BlockHeader)
    (form : RecordForm) : Prop where
  unknown : form.bitfield.selector.val = 0 ↔ header.version ∉ table
  -- of several places in the table, the first
  known : form.bitfield.selector.val ≠ 0 →
    table.idxOf? header.version = some (form.bitfield.selector.val - 1)
  prevBlock : form.bitfield.hasPrevBlock ↔ header.prevBlock ≠ hasher previous
  time : form.bitfield.hasFullTimestamp ↔
    ¬ ((-32768 : Int) ≤ header.timestamp.toNat - previous.timestamp.toNat ∧
      (header.timestamp.toNat - previous.timestamp.toNat : Int) ≤ 32767)
  bits : form.bitfield.hasBits ↔ header.bits ≠ previous.bits

/-- A form that means the writer's header is the writer's form if the bitfields agree. -/
theorem eq_form_iff_bitfield {policy : ReferencePolicy} {ctx : Context} {first : Bool}
    {form : RecordForm} {header : BlockHeader} (hbounded : ctx.IsBounded)
    (h : form.Spells policy ctx first header) :
    form = (ctx.compress first header).1.form ↔
      form.lead &&& 0xC0 = 0 ∧ form.bitfield = (ctx.compress first header).1.bitfield := by
  have hwriter := (ctx.compress_spells hbounded policy first header).1
  refine Iff.trans ⟨?_, ?_⟩ (Bitfield.eq_toByte_iff form.lead _)
  · intro heq
    exact congrArg RecordForm.lead heq
  · intro hlead
    exact h.eq_of_lead_eq hwriter hlead

theorem eq_form_iff_of_first {policy : ReferencePolicy} {ctx : Context} {form : RecordForm}
    {header : BlockHeader} (hbounded : ctx.IsBounded) (h : form.Spells policy ctx true header) :
    form = (ctx.compress true header).1.form ↔ form.lead &&& 0xC0 = 0 := by
  have hexplicit : form.bitfield = Bitfield.explicit :=
    (Bitfield.ofByte_eq_explicit_iff form.lead).2 (h.explicit rfl)
  rw [eq_form_iff_bitfield hbounded h]
  exact and_iff_left hexplicit

/-- The writer's form of a header behind another one is the minimal form that means it. -/
theorem eq_form_iff_isMinimal {policy : ReferencePolicy} {ctx : Context} {form : RecordForm}
    {previous header : BlockHeader} (hbounded : ctx.IsBounded)
    (hprevious : ctx.previous = .ofHeader ctx.hasher previous)
    (h : form.Spells policy ctx false header) :
    form = (ctx.compress false header).1.form ↔
      form.lead &&& 0xC0 = 0 ∧ form.IsMinimal ctx.hasher ctx.versions previous header := by
  rcases ctx.bitfield_compress hbounded header with ⟨hselector, hprevBlock, htime, hbits⟩
  rw [hprevious] at hprevBlock htime hbits
  rw [eq_form_iff_bitfield hbounded h, Bitfield.eq_iff, hselector, hprevBlock, htime, hbits,
    VersionTable.eq_selectorOf_iff]
  refine and_congr_right fun _ => ?_
  constructor
  · rintro ⟨⟨hunknown, hknown⟩, hprevBlock, htime, hbits⟩
    exact ⟨hunknown, hknown, hprevBlock, htime, hbits⟩
  · rintro ⟨hunknown, hknown, hprevBlock, htime, hbits⟩
    exact ⟨⟨hunknown, hknown⟩, hprevBlock, htime, hbits⟩

end RecordForm

/-! ## Records in a row -/

namespace Batch

/-- The version table of a reader that has read the forms, starting with `table`. -/
def tableBehind (table : VersionTable) (forms : List RecordForm) : VersionTable :=
  forms.foldl (fun table form => form.tableAfter table) table

/-- This is the table of the context in which reading the forms ends. -/
theorem Spells.versions_last {policy : ReferencePolicy} {ctx last : Context} {first : Bool}
    {forms : List RecordForm} {headers : List BlockHeader}
    (h : Spells policy ctx first forms headers last) :
    last.versions = tableBehind ctx.versions forms := by
  induction h with
  | nil => rfl
  | cons _ _ ih => exact ih

/-- All records but the first are minimal where they stand. -/
def RunsMinimal (hasher : Hasher) (table : VersionTable) (forms : List RecordForm)
    (headers : List BlockHeader) : Prop :=
  ∀ (i : Nat) (form : RecordForm) (previous header : BlockHeader),
    forms[i + 1]? = some form → headers[i]? = some previous → headers[i + 1]? = some header →
      form.IsMinimal hasher (tableBehind table (forms.take (i + 1))) previous header

theorem runsMinimal_of_length_le {hasher : Hasher} {table : VersionTable}
    {forms : List RecordForm} {headers : List BlockHeader} (h : forms.length ≤ 1) :
    RunsMinimal hasher table forms headers := by
  intro i form previous header hform
  have hnone : forms[i + 1]? = none :=
    List.getElem?_eq_none (Nat.le_trans h (Nat.le_add_left 1 i))
  rw [hnone] at hform
  cases hform

theorem runsMinimal_cons_iff {hasher : Hasher} {table : VersionTable} {before form : RecordForm}
    {previous header : BlockHeader} {forms : List RecordForm} {headers : List BlockHeader} :
    RunsMinimal hasher table (before :: form :: forms) (previous :: header :: headers) ↔
      form.IsMinimal hasher (before.tableAfter table) previous header ∧
        RunsMinimal hasher (before.tableAfter table) (form :: forms) (header :: headers) := by
  constructor
  · intro h
    refine ⟨h 0 form previous header rfl rfl rfl, ?_⟩
    intro i form' previous' header' hform hprevious hheader
    exact h (i + 1) form' previous' header' hform hprevious hheader
  · rintro ⟨hform, hforms⟩ i form' previous' header' hform' hprevious' hheader'
    cases i with
    | zero =>
        cases hform'
        cases hprevious'
        cases hheader'
        exact hform
    | succ i => exact hforms i form' previous' header' hform' hprevious' hheader'

section Written

variable {policy : ReferencePolicy} {ctx last : Context} {first : Bool}
  {forms : List RecordForm} {headers : List BlockHeader}

/-- If a form is the writer's, reader and writer go on in the same context. -/
theorem next_eq_of_eq_form {form : RecordForm} {header : BlockHeader} (hbounded : ctx.IsBounded)
    (h : form = (ctx.compress first header).1.form) :
    form.next ctx header = (ctx.compress first header).2.advance header := by
  rw [← RecordForm.advance_after, h, (ctx.compress_spells hbounded .lenient first header).2]

/-- Forms in a row have the bytes of the writer's records only if they are the writer's. -/
theorem Spells.formBytes_eq_iff (h : Spells policy ctx first forms headers last)
    (hbounded : ctx.IsBounded) :
    formBytes forms = formBytes ((recordsFrom ctx first headers).1.map Record.form) ↔
      forms = (recordsFrom ctx first headers).1.map Record.form := by
  refine ⟨?_, fun heq => congrArg formBytes heq⟩
  intro hbytes
  induction h with
  | nil => rfl
  | @cons ctx last first form header forms headers hform _ ih =>
      have hwriter := (ctx.compress_spells hbounded policy first header).1
      rw [recordsFrom_cons, List.map_cons, formBytes_cons, formBytes_cons] at hbytes
      -- equal bytes begin with equal first bytes, and these make the first forms equal
      have hhead : form = (ctx.compress first header).1.form := by
        refine hform.eq_of_lead_eq hwriter ?_
        simp only [RecordForm.bytes, List.cons_append] at hbytes
        exact (List.cons.inj hbytes).1
      have hnext := next_eq_of_eq_form hbounded hhead
      rw [← hhead, List.append_cancel_left_eq, ← hnext] at hbytes
      have hbounded' : (form.next ctx header).IsBounded := by
        rw [hnext]
        exact (hbounded.compress first header).advance header
      rw [recordsFrom_cons, List.map_cons, ← hhead, ← hnext, ← ih hbounded' hbytes]

/-- Forms behind a first one are the writer's if no reserved bit is set and all are minimal. -/
theorem Spells.eq_written_iff (h : Spells policy ctx first forms headers last)
    (hfirst : first = false) (hbounded : ctx.IsBounded) {table : VersionTable}
    {before : RecordForm} {previous : BlockHeader} (htable : before.tableAfter table = ctx.versions)
    (hprevious : ctx.previous = .ofHeader ctx.hasher previous) :
    forms = (recordsFrom ctx first headers).1.map Record.form ↔
      (∀ form ∈ forms, form.lead &&& 0xC0 = 0) ∧
        RunsMinimal ctx.hasher table (before :: forms) (previous :: headers) := by
  induction h generalizing table before previous with
  | nil =>
      exact iff_of_true rfl ⟨List.forall_mem_nil _, runsMinimal_of_length_le (Nat.le_refl 1)⟩
  | @cons ctx last first form header forms headers hform _ ih =>
      subst hfirst
      have hhead := RecordForm.eq_form_iff_isMinimal hbounded hprevious hform
      rw [recordsFrom_cons, List.map_cons, List.cons.injEq, hhead, List.forall_mem_cons,
        runsMinimal_cons_iff, htable, and_and_and_comm]
      -- the rest is compared only if this form is the writer's, and then in the same context
      have hrest (hminimal : form.lead &&& 0xC0 = 0 ∧
          form.IsMinimal ctx.hasher ctx.versions previous header) :
          forms = (recordsFrom ((ctx.compress false header).2.advance header) false headers).1.map
              Record.form ↔
            (∀ form ∈ forms, form.lead &&& 0xC0 = 0) ∧
              RunsMinimal ctx.hasher ctx.versions (form :: forms) (header :: headers) := by
        have hnext := next_eq_of_eq_form hbounded (hhead.2 hminimal)
        have hbounded' := (hbounded.compress false header).advance header
        rw [← hnext] at hbounded' ⊢
        exact ih rfl hbounded' rfl rfl
      exact and_congr_right hrest

/-- The forms of a batch are the writer's if no reserved bit is set and all are minimal. -/
theorem Spells.eq_records_iff {codec : Codec}
    (h : Spells policy codec.context true forms headers last) :
    forms = (records codec headers).map Record.form ↔
      (∀ form ∈ forms, form.lead &&& 0xC0 = 0) ∧ RunsMinimal codec.hasher [] forms headers := by
  have hbounded : codec.context.IsBounded := Context.isBounded_fresh codec.hasher
  unfold records
  cases h with
  | nil =>
      exact iff_of_true rfl ⟨List.forall_mem_nil _, runsMinimal_of_length_le (Nat.zero_le 1)⟩
  | @cons _ last _ form header forms headers hform hforms =>
      have hhead := RecordForm.eq_form_iff_of_first hbounded hform
      rw [recordsFrom_cons, List.map_cons, List.cons.injEq, hhead, List.forall_mem_cons,
        and_assoc]
      have hrest (hlead : form.lead &&& 0xC0 = 0) :
          forms = (recordsFrom ((codec.context.compress true header).2.advance header) false
              headers).1.map Record.form ↔
            (∀ form ∈ forms, form.lead &&& 0xC0 = 0) ∧
              RunsMinimal codec.hasher [] (form :: forms) (header :: headers) := by
        have hnext := next_eq_of_eq_form hbounded (hhead.2 hlead)
        have hbounded' := (hbounded.compress true header).advance header
        rw [← hnext] at hbounded' ⊢
        exact hforms.eq_written_iff rfl hbounded' rfl rfl
      exact and_congr_right hrest

end Written

/-! ## Payloads -/

/-- The payload spends nothing: its count is in the shortest form, its reserved bits are zero, and
all records but the first are minimal behind the headers and the table that they follow. -/
structure Parse.Canonical (hasher : Hasher) (headers : List BlockHeader) (parse : Parse) :
    Prop where
  size : ∀ bytes, CompactSize.Form parse.count bytes → parse.size.length ≤ bytes.length
  reserved : ∀ form ∈ parse.forms, form.lead &&& 0xC0 = 0
  minimal : RunsMinimal hasher [] parse.forms headers

theorem Parse.Accepts.encodeLength_eq {codec : Codec} {parse : Parse} {headers : List BlockHeader}
    {last : Context} (h : parse.Accepts codec headers last) :
    CompactSize.encodeLength headers = CompactSize.encode parse.count := by
  have hcount : headers.length = parse.count.toNat := by
    rw [← h.spells.length_eq, h.count]
  rw [CompactSize.encodeLength, hcount, UInt64.ofNat_toNat]

theorem Parse.Accepts.length_le {codec : Codec} {parse : Parse} {headers : List BlockHeader}
    {last : Context} (h : parse.Accepts codec headers last) : headers.length ≤ maxHeaders := by
  rw [← h.spells.length_eq, h.count]
  exact h.bounded

theorem Parse.take_length (parse : Parse) :
    parse.bytes.take parse.length = parse.size ++ formBytes parse.forms := by
  rw [bytes, behindSize, ← List.append_assoc, length, ← List.length_append, List.take_left']
  rfl

/-- What was read of a payload is what the writer makes of the headers exactly if it is
canonical. -/
theorem Parse.Accepts.written_eq_iff {codec : Codec} {parse : Parse} {headers : List BlockHeader}
    {last : Context} (h : parse.Accepts codec headers last) :
    CompactSize.encodeLength headers ++ (records codec headers).flatMap Record.bytes =
        parse.size ++ formBytes parse.forms ↔
      parse.Canonical codec.hasher headers := by
  have hforms := h.spells.formBytes_eq_iff (Context.isBounded_fresh codec.hasher)
  have hrecords := h.spells.eq_records_iff
  -- the count ends where its only form does, and the records begin there
  rw [← formBytes_map_form, h.encodeLength_eq, h.size.encode_append_eq_iff]
  constructor
  · rintro ⟨hsize, heq⟩
    rcases hrecords.1 (hforms.1 heq.symm) with ⟨hreserved, hminimal⟩
    exact ⟨hsize, hreserved, hminimal⟩
  · rintro ⟨hsize, hreserved, hminimal⟩
    rw [← hrecords.2 ⟨hreserved, hminimal⟩]
    exact ⟨hsize, rfl⟩

/-- A payload that is read as `headers` can be taken apart, and however this is done, the writer
makes of these headers exactly the part that was read if and only if it is canonical. -/
theorem written_iff_canonical {codec : Codec} {payload : List UInt8} {headers : List BlockHeader}
    {s : Reading} (h : decode codec payload = .ok headers s) :
    (∃ (parse : Parse) (last : Context),
      parse.bytes = payload ∧ parse.Accepts codec headers last) ∧
    ∃ encoded, encode codec headers = .ok encoded ∧
      ∀ (parse : Parse) (last : Context), parse.bytes = payload →
        parse.Accepts codec headers last →
          parse.length = s.offset ∧
          (encoded.bytes = payload.take s.offset ↔ parse.Canonical codec.hasher headers) := by
  rcases exists_parse_of_decode h with ⟨parse, last, hbytes, haccepts⟩
  rcases encode_of_length_le haccepts.length_le codec with ⟨encoded, hencode, hencoded⟩
  refine ⟨⟨parse, last, hbytes, haccepts⟩, encoded, hencode, ?_⟩
  clear hbytes haccepts
  rintro parse last rfl haccepts
  have hoffset : parse.length = s.offset := by
    rw [decode_accepted haccepts] at h
    cases h
    rfl
  rw [hencoded, ← hoffset, parse.take_length]
  exact ⟨rfl, haccepts.written_eq_iff⟩

/-- Two headers five seconds apart, the second of which names its version by its place: the writer
makes what stands in front of the last byte. -/
theorem written_iff_canonical_chained :
    ∃ s encoded,
      decode ⟨.strict, fun _ => Hash.zero⟩
          (Parse.bytes ⟨2, [2], [⟨0x38, some 4, some Hash.zero, Hash.zero, .full 7, some 1, 2⟩,
            ⟨1, none, none, Hash.zero, .offset 5, none, 3⟩], [9]⟩) =
        .ok [⟨4, Hash.zero, Hash.zero, 7, 1, 2⟩, ⟨4, Hash.zero, Hash.zero, 12, 1, 3⟩] s ∧
      encode ⟨.strict, fun _ => Hash.zero⟩
          [⟨4, Hash.zero, Hash.zero, 7, 1, 2⟩, ⟨4, Hash.zero, Hash.zero, 12, 1, 3⟩] =
        .ok encoded ∧
      encoded.bytes =
        (Parse.bytes ⟨2, [2], [⟨0x38, some 4, some Hash.zero, Hash.zero, .full 7, some 1, 2⟩,
          ⟨1, none, none, Hash.zero, .offset 5, none, 3⟩], [9]⟩).take s.offset := by
  have hsize : CompactSize.Form 2 [2] := CompactSize.form_encode 2
  have haccepts : Parse.Accepts ⟨.strict, fun _ => Hash.zero⟩
      [⟨4, Hash.zero, Hash.zero, 7, 1, 2⟩, ⟨4, Hash.zero, Hash.zero, 12, 1, 3⟩] _
      ⟨2, [2], [⟨0x38, some 4, some Hash.zero, Hash.zero, .full 7, some 1, 2⟩,
        ⟨1, none, none, Hash.zero, .offset 5, none, 3⟩], [9]⟩ :=
    { size := hsize
      bounded := by decide
      count := rfl
      spells :=
        .cons ⟨by decide, ⟨by decide, by decide, rfl, rfl, rfl⟩, rfl⟩
          (.cons ⟨by decide, ⟨by decide, by decide, rfl, rfl, rfl⟩, rfl⟩ .nil) }
  have hcanonical : Parse.Canonical (fun _ => Hash.zero)
      [⟨4, Hash.zero, Hash.zero, 7, 1, 2⟩, ⟨4, Hash.zero, Hash.zero, 12, 1, 3⟩]
      ⟨2, [2], [⟨0x38, some 4, some Hash.zero, Hash.zero, .full 7, some 1, 2⟩,
        ⟨1, none, none, Hash.zero, .offset 5, none, 3⟩], [9]⟩ := by
    refine ⟨hsize.eq_encode_iff.1 (by decide), by decide, ?_⟩
    rintro (_ | i) form previous header hform hprevious hheader
    · cases hform
      cases hprevious
      cases hheader
      exact ⟨by decide, by decide, by decide, by decide, by decide⟩
    · simp at hform
  have hdecode := decode_accepted haccepts
  rcases (written_iff_canonical hdecode).2 with ⟨encoded, hencode, hwritten⟩
  rcases hwritten _ _ rfl haccepts with ⟨_, hiff⟩
  exact ⟨_, encoded, hdecode, hencode, hiff.2 hcanonical⟩

end Batch
end HeaderRelay
