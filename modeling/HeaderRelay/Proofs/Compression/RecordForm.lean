import HeaderRelay.Compression.Codec
import HeaderRelay.Proofs.Wire.Steps

/-!
# Written forms of a record

A payload may spell a header in more ways than `Record` has: with reserved bits set, or with a
version in full where a lenient reader misses a table entry. A `RecordForm` is what stands in the
payload, field by field; which fields stand there depends on the first byte, on the size of the
version table and on the policy.

* `RecordForm`, `RecordForm.bytes` — the fields of a record in a payload;
* `RecordForm.Fits` — the fields are the ones that the first byte announces;
* `RecordForm.header?`, `RecordForm.next` — the header that a form means in a context, and the
  context for the record behind it;
* `RecordForm.Spells` — the form means the header to a reader of the given policy;
* `RecordForm.length_bytes` — the length of a form, field by field;
* `decode_form` — a form is read as the header that it means, byte for byte.
-/

namespace HeaderRelay

/-! ## Timestamps -/

theorem ofInt_toNat (n : UInt32) : UInt32.ofInt n.toNat = n := by
  apply UInt32.toNat_inj.1
  have hlt := n.toNat_lt
  simp only [UInt32.ofInt, UInt32.toNat_ofNat']
  omega

theorem toUInt32_eq_ofInt (n : Int32) : n.toUInt32 = UInt32.ofInt n.toInt := by
  apply UInt32.toNat_inj.1
  -- a negative number stands for itself plus `2 ^ 32`
  have hcond := BitVec.toInt_eq_toNat_cond n.toBitVec
  have hlt := n.toBitVec.isLt
  have hnat : n.toUInt32.toNat = n.toBitVec.toNat := rfl
  have hint : n.toInt = n.toBitVec.toInt := rfl
  rw [hnat, hint, hcond]
  simp only [UInt32.ofInt, UInt32.toNat_ofNat']
  split <;> omega

namespace TimeField

/-- The timestamp that a field means after `previous`: offsets count modulo `2 ^ 32`. -/
def resolve (previous : UInt32) : TimeField → UInt32
  | full timestamp => timestamp
  | offset seconds => UInt32.ofInt (previous.toNat + seconds.toInt)

theorem resolve_offset (previous : UInt32) (seconds : Int16) :
    (offset seconds).resolve previous = previous + seconds.toInt32.toUInt32 := by
  rw [resolve, UInt32.ofInt_add, ofInt_toNat, toUInt32_eq_ofInt, Int16.toInt_toInt32]

/-- The difference of two timestamps fits in 16 bits with a sign. -/
def IsShort (previous timestamp : UInt32) : Prop :=
  (-32768 : Int) ≤ timestamp.toNat - previous.toNat ∧
    (timestamp.toNat - previous.toNat : Int) ≤ 32767

instance (previous timestamp : UInt32) : Decidable (IsShort previous timestamp) :=
  inferInstanceAs (Decidable (_ ∧ _))

theorem since_of_isShort {previous timestamp : UInt32} (h : IsShort previous timestamp) :
    since previous timestamp = offset (Int16.ofInt (timestamp.toNat - previous.toNat)) :=
  if_pos h

theorem since_of_not_isShort {previous timestamp : UInt32} (h : ¬ IsShort previous timestamp) :
    since previous timestamp = full timestamp :=
  if_neg h

theorem resolve_since (previous timestamp : UInt32) :
    (since previous timestamp).resolve previous = timestamp := by
  by_cases h : IsShort previous timestamp
  · -- a short difference is added without wrapping around
    have hsum : (previous.toNat : Int) + (timestamp.toNat - previous.toNat) = timestamp.toNat := by
      omega
    unfold IsShort at h
    rw [since_of_isShort h, resolve, Int16.toInt_ofInt_of_le (by omega) (by omega), hsum,
      ofInt_toNat]
  · rw [since_of_not_isShort h, resolve]

end TimeField

/-! ## Forms -/

namespace Bitfield

/-- The place of the version table that a selector other than zero names. -/
def index (bitfield : Bitfield) : Nat :=
  bitfield.selector.val - 1

theorem hasLiteralVersion_eq (bitfield : Bitfield) :
    bitfield.hasLiteralVersion = decide (bitfield.selector.val = 0) := by
  have h : ∀ selector : Fin 8, (selector == 0) = decide (selector.val = 0) := by decide
  exact h bitfield.selector

/-- The version follows in full: the selector says so, or a lenient reader finds that the table is
too short for it. -/
def LiteralDue (policy : ReferencePolicy) (tableLength : Nat) (bitfield : Bitfield) : Prop :=
  bitfield.selector.val = 0 ∨ policy = .lenient ∧ tableLength < bitfield.selector.val

instance (policy : ReferencePolicy) (tableLength : Nat) (bitfield : Bitfield) :
    Decidable (bitfield.LiteralDue policy tableLength) :=
  inferInstanceAs (Decidable (_ ∨ _ ∧ _))

theorem index_lt_of_not_literalDue {policy : ReferencePolicy} {tableLength : Nat}
    {bitfield : Bitfield} (hdue : ¬ bitfield.LiteralDue policy tableLength)
    (hknown : policy = .strict → bitfield.selector.val ≤ tableLength) :
    bitfield.selector.val ≠ 0 ∧ bitfield.index < tableLength := by
  have hselector : bitfield.selector.val ≠ 0 := fun hzero => hdue (Or.inl hzero)
  have hle : bitfield.selector.val ≤ tableLength := by
    cases policy with
    | strict => exact hknown rfl
    | lenient => exact Nat.not_lt.1 fun hlt => hdue (Or.inr ⟨rfl, hlt⟩)
  refine ⟨hselector, ?_⟩
  unfold index
  omega

/-- Only the reserved bits of an explicit first byte are free. -/
theorem ofByte_eq_explicit_iff (lead : UInt8) :
    ofByte lead = explicit ↔ lead &&& 0x3F = 0x38 := by
  rw [← toByte_ofByte]
  constructor
  · intro h
    rw [h]
    decide
  · intro h
    have hback : ofByte (ofByte lead).toByte = ofByte 0x38 := by rw [h]
    rw [ofByte_toByte] at hback
    rw [hback]
    decide

/-- What is reported when a version follows that the table should have held. -/
def recovery (tableLength : Nat) (bitfield : Bitfield) : List Event :=
  if tableLength < bitfield.selector.val then
    [.versionRecovered bitfield.index tableLength]
  else
    []

end Bitfield

/-- A record as it stands in a payload: the first byte as it came, and the fields behind it. -/
structure RecordForm where
  lead : UInt8
  -- the version, where it is written in full
  version : Option Int32
  prevBlock : Option Hash
  merkleRoot : Hash
  time : TimeField
  bits : Option UInt32
  nonce : UInt32
  deriving DecidableEq

namespace RecordForm

def bitfield (form : RecordForm) : Bitfield :=
  .ofByte form.lead

def fieldBytes (form : RecordForm) : List UInt8 :=
  (form.prevBlock.map Hash.bytes).getD [] ++ (form.merkleRoot.bytes ++
    (form.time.bytes ++ ((form.bits.map Writer.u32).getD [] ++ Writer.u32 form.nonce)))

def bodyBytes (form : RecordForm) : List UInt8 :=
  (form.version.map Writer.i32).getD [] ++ form.fieldBytes

def bytes (form : RecordForm) : List UInt8 :=
  form.lead :: form.bodyBytes

/-- The fields that stand in the payload are the ones that the first byte announces to a reader
with the given policy and a version table of the given length. -/
structure Fits (policy : ReferencePolicy) (tableLength : Nat) (form : RecordForm) : Prop where
  version : form.version.isSome ↔ form.bitfield.LiteralDue policy tableLength
  -- a strict reader knows every version that it is referred to
  known : policy = .strict → form.bitfield.selector.val ≤ tableLength
  prevBlock : form.prevBlock.isSome = form.bitfield.hasPrevBlock
  time : form.time.isFull = form.bitfield.hasFullTimestamp
  bits : form.bits.isSome = form.bitfield.hasBits

/-! ## Meaning -/

/-- The version in full, or else the one at its place in the table. -/
def version? (form : RecordForm) (table : VersionTable) : Option Int32 :=
  match form.version with
  | some version => some version
  | none => table[form.bitfield.index]?

/-- The header with the given version; what the form leaves out comes from `previous`. -/
def header (form : RecordForm) (previous : Snapshot) (version : Int32) : BlockHeader where
  version
  prevBlock := form.prevBlock.getD previous.hash
  merkleRoot := form.merkleRoot
  timestamp := form.time.resolve previous.timestamp
  bits := form.bits.getD previous.bits
  nonce := form.nonce

def header? (form : RecordForm) (ctx : Context) : Option BlockHeader :=
  (form.version? ctx.versions).map (form.header ctx.previous)

theorem header?_eq_some_iff {form : RecordForm} {ctx : Context} {header : BlockHeader} :
    form.header? ctx = some header ↔
      form.version? ctx.versions = some header.version ∧
        form.header ctx.previous header.version = header := by
  unfold header?
  rw [Option.map_eq_some_iff]
  constructor
  · rintro ⟨version, hversion, rfl⟩
    exact ⟨hversion, rfl⟩
  · rintro ⟨hversion, hheader⟩
    exact ⟨header.version, hversion, hheader⟩

/-- The table in which the form's version is the most recent one: a version in full is put in
front of the others, of which the last one may have to leave, and an entry moves to the front. -/
def tableAfter (form : RecordForm) (table : VersionTable) : VersionTable :=
  match form.version with
  | some version => (version :: table).take 7
  | none =>
      match table[form.bitfield.index]? with
      | some version => version :: table.eraseIdx form.bitfield.index
      | none => table

/-- The context with the form's version used; its snapshot stays as it is. -/
def after (form : RecordForm) (ctx : Context) : Context :=
  { ctx with versions := form.tableAfter ctx.versions }

/-- The context for the record behind a form that means `header`. -/
def next (form : RecordForm) (ctx : Context) (header : BlockHeader) : Context where
  versions := form.tableAfter ctx.versions
  previous := { hash := ctx.hasher header, timestamp := header.timestamp, bits := header.bits }
  hasher := ctx.hasher

theorem tableAfter_eq_save {form : RecordForm} {version : Int32} (h : form.version = some version)
    (table : VersionTable) : form.tableAfter table = table.save version := by
  simp only [tableAfter, h, VersionTable.save, VersionTable.capacity]

theorem tableAfter_eq_mark {form : RecordForm} (h : form.version = none) (table : VersionTable) :
    form.tableAfter table = table.mark form.bitfield.index := by
  cases hentry : table[form.bitfield.index]? with
  | some version => simp only [tableAfter, VersionTable.mark, h, hentry]
  | none => simp only [tableAfter, VersionTable.mark, h, hentry]

theorem after_eq_save {form : RecordForm} {version : Int32} (h : form.version = some version)
    (ctx : Context) : form.after ctx = ctx.save version :=
  congrArg (fun versions => { ctx with versions }) (tableAfter_eq_save h ctx.versions)

theorem after_eq_mark {form : RecordForm} (h : form.version = none) (ctx : Context) :
    form.after ctx = ctx.mark form.bitfield.index :=
  congrArg (fun versions => { ctx with versions }) (tableAfter_eq_mark h ctx.versions)

theorem advance_after (form : RecordForm) (ctx : Context) (header : BlockHeader) :
    (form.after ctx).advance header = form.next ctx header := rfl

/-- Read in `ctx`, the form means `header`: it is explicit where it has to be, it has the fields
that it announces, and those it leaves out follow from the context. -/
structure Spells (policy : ReferencePolicy) (ctx : Context) (first : Bool) (form : RecordForm)
    (header : BlockHeader) : Prop where
  explicit : first = true → form.lead &&& 0x3F = 0x38
  fits : form.Fits policy ctx.versions.length
  meaning : form.header? ctx = some header

/-- What is reported of the form when it is read. -/
def events (tableLength : Nat) (form : RecordForm) : List Event :=
  form.bitfield.recovery tableLength ++
    [.recordDecoded form.bitfield.toByte form.bytes.length]

theorem Fits.exists_header {policy : ReferencePolicy} {ctx : Context} {form : RecordForm}
    (h : form.Fits policy ctx.versions.length) : ∃ header, form.header? ctx = some header := by
  cases hversion : form.version with
  | some version =>
      exact ⟨form.header ctx.previous version, by simp [header?, version?, hversion]⟩
  | none =>
      have hdue : ¬ form.bitfield.LiteralDue policy ctx.versions.length := by
        rw [← h.version, hversion]
        decide
      have hindex : form.bitfield.index < ctx.versions.length :=
        (Bitfield.index_lt_of_not_literalDue hdue h.known).2
      exact ⟨form.header ctx.previous ctx.versions[form.bitfield.index],
        by simp [header?, version?, hversion, hindex]⟩

end RecordForm

/-! ## Lengths -/

theorem TimeField.length_bytes (time : TimeField) :
    time.bytes.length = if time.isFull then 4 else 2 := by
  cases time with
  | full timestamp => exact Writer.length_u32 timestamp
  | offset seconds => exact Writer.length_i16 seconds

theorem length_optional {α : Type} {write : α → List UInt8} {width : Nat}
    (hwrite : ∀ a, (write a).length = width) (value : Option α) :
    ((value.map write).getD []).length = if value.isSome then width else 0 := by
  cases value with
  | none => rfl
  | some a => exact hwrite a

theorem RecordForm.length_bytes (form : RecordForm) :
    form.bytes.length =
      (if form.version.isSome then 4 else 0) + ((if form.prevBlock.isSome then 32 else 0) +
        (32 + (form.time.bytes.length + ((if form.bits.isSome then 4 else 0) + 4)))) + 1 := by
  simp only [bytes, bodyBytes, fieldBytes, List.length_cons, List.length_append,
    length_optional Writer.length_i32, length_optional Hash.length_bytes,
    length_optional Writer.length_u32, Hash.length_bytes, Writer.length_u32]

/-! ## Reading -/

namespace RecordReader

variable {α : Type} {step : Reader α} {s : Decoding} {t : Reading}

theorem offset_apply (s : Decoding) : offset s = .ok s.reading.offset s := rfl

theorem getContext_apply (s : Decoding) : getContext s = .ok s.context s := rfl

theorem get_apply (s : Decoding) : (get : RecordReader Decoding) s = .ok s s := rfl

theorem ofReader_of_ok {a : α} (h : step s.reading = .ok a t) :
    ofReader step s = .ok a { s with reading := t } := by
  simp only [ofReader, h]

theorem ofReader_of_error {e : DecodeError} (h : step s.reading = .error e t) :
    ofReader step s = .error e { s with reading := t } := by
  simp only [ofReader, h]

theorem exists_of_ofReader_error {t : Decoding} {e : DecodeError}
    (h : ofReader step s = .error e t) :
    (∃ r, step s.reading = .error e r) ∧ t.context = s.context := by
  cases hstep : step s.reading with
  | ok a r => cases h.symm.trans (ofReader_of_ok hstep)
  | error e' r =>
      cases h.symm.trans (ofReader_of_error hstep)
      exact ⟨⟨r, rfl⟩, rfl⟩

end RecordReader

namespace Codec

open RecordReader

section Versions

variable {policy : ReferencePolicy} {bitfield : Bitfield}

theorem readVersion_of_literalDue {s : Decoding}
    (h : bitfield.LiteralDue policy s.context.versions.length) :
    readVersion policy bitfield s =
      readLiteralVersion
        { s with reading := s.reading.noting (bitfield.recovery s.context.versions.length) } := by
  unfold readVersion Bitfield.recovery Reading.noting
  by_cases hzero : bitfield.selector.val = 0
  · simp [Bitfield.hasLiteralVersion_eq, hzero]
  · have hliteral : bitfield.hasLiteralVersion = false := by
      simp [Bitfield.hasLiteralVersion_eq, hzero]
    rcases h with hzero' | ⟨rfl, hlt⟩
    · exact absurd hzero' hzero
    · -- the lenient reader notes that the entry is missing, and goes on with a literal
      have hnone : s.context.versions[bitfield.selector.val - 1]? = none := by
        rw [List.getElem?_eq_none_iff]
        omega
      simp only [hliteral, hlt, if_true, Array.appendList_cons, Array.appendList_nil]
      show readVersionEntry .lenient (bitfield.selector.val - 1) s = _
      unfold readVersionEntry
      rw [bind_of_ok (getContext_apply s)]
      simp only [hnone]
      rfl

theorem readVersion_entry {s : Decoding} {version : Int32}
    (hselector : bitfield.selector.val ≠ 0)
    (hentry : s.context.versions[bitfield.index]? = some version) :
    readVersion policy bitfield s =
      .ok version { s with context := s.context.mark bitfield.index } := by
  have hliteral : bitfield.hasLiteralVersion = false := by
    simp [Bitfield.hasLiteralVersion_eq, hselector]
  unfold Bitfield.index at hentry
  unfold readVersion readVersionEntry
  simp only [hliteral]
  rw [if_neg Bool.false_ne_true, bind_of_ok (getContext_apply s)]
  simp only [hentry]
  rfl

theorem readVersion_missing {s : Decoding} (hlt : s.context.versions.length < bitfield.selector.val) :
    readVersion .strict bitfield s =
      .error (.missingVersion bitfield.index s.context.versions.length) s := by
  have hliteral : bitfield.hasLiteralVersion = false := by
    simp [Bitfield.hasLiteralVersion_eq, Nat.ne_of_gt (Nat.zero_lt_of_lt hlt)]
  have hnone : s.context.versions[bitfield.selector.val - 1]? = none := by
    rw [List.getElem?_eq_none_iff]
    omega
  unfold readVersion readVersionEntry
  simp only [hliteral]
  rw [if_neg Bool.false_ne_true, bind_of_ok (getContext_apply s)]
  simp only [hnone]
  rfl

theorem readLiteralVersion_write (version : Int32) (rest : List UInt8) (offset : Nat)
    (log : Array Event) (ctx : Context) :
    readLiteralVersion
        { reading := { offset, rest := Writer.i32 version ++ rest, log }, context := ctx } =
      .ok version
        { reading := { offset := offset + (Writer.i32 version).length, rest, log }
          context := ctx.save version } := by
  unfold readLiteralVersion
  rw [bind_of_ok (ofReader_of_ok (Reader.i32_yields "version" version rest offset log))]
  rfl

end Versions

theorem readTimestamp_yields {full : Bool} {time : TimeField} (h : time.isFull = full)
    (previous : UInt32) : (readTimestamp full previous).Yields time.bytes (time.resolve previous) := by
  subst h
  cases time with
  | full timestamp => exact Reader.u32_yields "timestamp" timestamp
  | offset seconds =>
      rw [TimeField.resolve_offset]
      exact (Reader.i16_yields "timestamp offset" seconds).map

/-- The fields as a plain sequence of steps, two of which may be replaced by a known value. -/
theorem readFields_eq (bitfield : Bitfield) (previous : Snapshot) (version : Int32) :
    readFields bitfield previous version =
      (if bitfield.hasPrevBlock then Reader.hash "prev_block" else pure previous.hash) >>=
        fun prevBlock => Reader.hash "merkle_root" >>= fun merkleRoot =>
          readTimestamp bitfield.hasFullTimestamp previous.timestamp >>= fun timestamp =>
            (if bitfield.hasBits then Reader.u32 "bits" else pure previous.bits) >>= fun bits =>
              Reader.u32 "nonce" >>= fun nonce =>
                pure { version, prevBlock, merkleRoot, timestamp, bits, nonce } := by
  rcases bitfield with ⟨selector, hasPrevBlock, hasFullTimestamp, hasBits⟩
  cases hasPrevBlock <;> cases hasBits <;> rfl

theorem readFields_yields {policy : ReferencePolicy} {tableLength : Nat} {form : RecordForm}
    (h : form.Fits policy tableLength) (previous : Snapshot) (version : Int32) :
    (readFields form.bitfield previous version).Yields form.fieldBytes
      (form.header previous version) := by
  rw [readFields_eq]
  refine (Reader.Yields.optional (Reader.hash_yields "prev_block") h.prevBlock _).bind ?_
  refine (Reader.hash_yields "merkle_root" form.merkleRoot).bind ?_
  refine (readTimestamp_yields h.time previous.timestamp).bind ?_
  refine (Reader.Yields.optional (Reader.u32_yields "bits") h.bits _).bind ?_
  exact (Reader.u32_yields "nonce" form.nonce).map

theorem readVersion_form {policy : ReferencePolicy} {ctx : Context} {form : RecordForm}
    {version : Int32} (hfits : form.Fits policy ctx.versions.length)
    (hversion : form.version? ctx.versions = some version) (rest : List UInt8) (offset : Nat)
    (log : Array Event) :
    readVersion policy form.bitfield
        { reading := { offset, rest := (form.version.map Writer.i32).getD [] ++ rest, log }
          context := ctx } =
      .ok version
        { reading := {
            offset := offset + ((form.version.map Writer.i32).getD []).length
            rest
            log := log ++ form.bitfield.recovery ctx.versions.length }
          context := form.after ctx } := by
  cases hliteral : form.version with
  | some literal =>
      -- a literal is written only where the reader expects one
      have hdue : form.bitfield.LiteralDue policy ctx.versions.length := by
        rw [← hfits.version, hliteral]
        rfl
      have heq : literal = version := by
        simpa [RecordForm.version?, hliteral] using hversion
      subst heq
      rw [readVersion_of_literalDue hdue, RecordForm.after_eq_save hliteral]
      exact readLiteralVersion_write literal rest offset _ ctx
  | none =>
      have hdue : ¬ form.bitfield.LiteralDue policy ctx.versions.length := by
        rw [← hfits.version, hliteral]
        decide
      have hselector : form.bitfield.selector.val ≠ 0 := fun hzero => hdue (Or.inl hzero)
      have hentry : ctx.versions[form.bitfield.index]? = some version := by
        simpa [RecordForm.version?, hliteral] using hversion
      have hindex : form.bitfield.index < ctx.versions.length :=
        (List.getElem?_eq_some_iff.1 hentry).1
      -- the entry is there, so there is nothing to recover from
      have hheld : ¬ ctx.versions.length < form.bitfield.selector.val := by
        unfold Bitfield.index at hindex
        omega
      rw [readVersion_entry hselector hentry, RecordForm.after_eq_mark hliteral]
      simp [Bitfield.recovery, hheld]

/-- What follows the first byte of a form that fits is read as the header that it means. -/
theorem readBody_form {policy : ReferencePolicy} {ctx : Context} {form : RecordForm}
    {header : BlockHeader} (hfits : form.Fits policy ctx.versions.length)
    (hheader : form.header? ctx = some header) (rest : List UInt8) (offset : Nat)
    (log : Array Event) :
    readBody policy form.bitfield
        { reading := { offset, rest := form.bodyBytes ++ rest, log }, context := ctx } =
      .ok header
        { reading := {
            offset := offset + form.bodyBytes.length
            rest
            log := log ++ form.bitfield.recovery ctx.versions.length }
          context := form.after ctx } := by
  rcases RecordForm.header?_eq_some_iff.1 hheader with ⟨hversion, hmeaning⟩
  have hafter : form.header (form.after ctx).previous header.version = header := hmeaning
  -- reading the version moves the table, and leaves the snapshot to the fields behind it
  have hfields := readFields_yields hfits (form.after ctx).previous header.version rest
    (offset + ((form.version.map Writer.i32).getD []).length)
    (log ++ form.bitfield.recovery ctx.versions.length)
  rw [hafter, Nat.add_assoc, ← List.length_append] at hfields
  unfold readBody RecordForm.bodyBytes
  rw [List.append_assoc, bind_of_ok (readVersion_form hfits hversion _ offset log),
    bind_of_ok (getContext_apply _)]
  exact ofReader_of_ok hfields

/-- The end of `decode`, once the first byte is accepted. -/
def finish (policy : ReferencePolicy) (start : Nat) (bitfield : Bitfield) :
    RecordReader (BlockHeader × Nat) := do
  let header ← readBody policy bitfield
  let length := (← offset) - start
  report (.recordDecoded bitfield.toByte length)
  return (header, length)

theorem finish_of_ok {policy : ReferencePolicy} {bitfield : Bitfield} {s t : Decoding}
    {header : BlockHeader} (h : readBody policy bitfield s = .ok header t) (start : Nat) :
    finish policy start bitfield s =
      .ok (header, t.reading.offset - start)
        { t with
          reading := { t.reading with
            log := t.reading.log.push
              (.recordDecoded bitfield.toByte (t.reading.offset - start)) } } := by
  unfold finish
  rw [bind_of_ok h]
  rfl

theorem finish_of_error {policy : ReferencePolicy} {bitfield : Bitfield} {s t : Decoding}
    {e : DecodeError} (h : readBody policy bitfield s = .error e t) (start : Nat) :
    finish policy start bitfield s = .error e t := by
  unfold finish
  rw [bind_of_error h]

theorem decode_cons (codec : Codec) {first : Bool} {lead : UInt8}
    (hfirst : first = true → lead &&& 0x3F = 0x38) (rest : List UInt8)
    (offset : Nat) (log : Array Event) (ctx : Context) :
    codec.decode first { reading := { offset, rest := lead :: rest, log }, context := ctx } =
      finish codec.policy offset (.ofByte lead)
        { reading := { offset := offset + 1, rest, log }, context := ctx } := by
  have hpass : ¬ (first = true ∧ Bitfield.ofByte lead ≠ Bitfield.explicit) := fun h =>
    h.2 ((Bitfield.ofByte_eq_explicit_iff lead).2 (hfirst h.1))
  unfold decode
  rw [bind_of_ok (offset_apply _),
    bind_of_ok (ofReader_of_ok (Reader.u8_cons "bitfield" lead rest offset log)),
    if_neg hpass]
  rfl

/-- A form is read as the header that it means, whatever follows it. -/
theorem decode_form {codec : Codec} {first : Bool} {ctx : Context} {form : RecordForm}
    {header : BlockHeader} (h : form.Spells codec.policy ctx first header) (rest : List UInt8)
    (offset : Nat) (log : Array Event) :
    codec.decode first
        { reading := { offset, rest := form.bytes ++ rest, log }, context := ctx } =
      .ok (header, form.bytes.length)
        { reading := {
            offset := offset + form.bytes.length
            rest
            log := log ++ form.events ctx.versions.length }
          context := form.after ctx } := by
  -- the length of the record counts from in front of the first byte
  have hbody := finish_of_ok (readBody_form h.fits h.meaning rest (offset + 1) log) offset
  have hend : offset + 1 + form.bodyBytes.length = offset + form.bytes.length := by
    simp only [RecordForm.bytes, List.length_cons]
    omega
  simp only [hend, Nat.add_sub_cancel_left] at hbody
  rw [RecordForm.bytes, List.cons_append, decode_cons codec h.explicit]
  rw [RecordForm.events, log_append, Array.appendList_cons, Array.appendList_nil]
  exact hbody

end Codec

end HeaderRelay
