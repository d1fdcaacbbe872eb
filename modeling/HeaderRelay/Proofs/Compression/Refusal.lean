import HeaderRelay.Proofs.Compression.RecordForm

/-!
# Refused records

Whatever bytes lie ahead, they begin with a form that the reader accepts or there is a first thing
wrong with them, and that is what the reader reports.

* `Bitfield.fields` — the fields that a first byte announces, in order;
* `RecordForm.Refused` — the first thing wrong with the bytes ahead;
* `form_or_refused` — one of the two is the case;
* `decode_refused` — what is wrong is what the reader reports;
* `exists_bytes_of_decode`, `exists_form_of_decode` — what is read begins with a form.
-/

namespace HeaderRelay

/-! ## Announced fields -/

namespace Bitfield

def laterFields (bitfield : Bitfield) : List Field :=
  (if bitfield.hasPrevBlock then [⟨"prev_block", 32⟩] else []) ++ ([⟨"merkle_root", 32⟩] ++
    ([if bitfield.hasFullTimestamp then ⟨"timestamp", 4⟩ else ⟨"timestamp offset", 2⟩] ++
      ((if bitfield.hasBits then [⟨"bits", 4⟩] else []) ++ [⟨"nonce", 4⟩])))

/-- The fields behind the first byte, for a reader with the given policy and a version table of
the given length. -/
def fields (policy : ReferencePolicy) (tableLength : Nat) (bitfield : Bitfield) : List Field :=
  (if bitfield.LiteralDue policy tableLength then [⟨"version", 4⟩] else []) ++
    bitfield.laterFields

theorem total_laterFields (bitfield : Bitfield) :
    Field.total bitfield.laterFields =
      (if bitfield.hasPrevBlock then 32 else 0) + (32 +
        ((if bitfield.hasFullTimestamp then 4 else 2) +
          ((if bitfield.hasBits then 4 else 0) + 4))) := by
  rcases bitfield with ⟨selector, hasPrevBlock, hasFullTimestamp, hasBits⟩
  cases hasPrevBlock <;> cases hasFullTimestamp <;> cases hasBits <;> rfl

end Bitfield

/-! ## Refusals -/

namespace RecordForm

/-- The first thing wrong with the bytes that begin at `offset`, for a reader with the given
policy and a version table of the given length. -/
inductive Refused (policy : ReferencePolicy) (first : Bool) (tableLength offset : Nat) :
    List UInt8 → DecodeError → Prop where
  | noLead : Refused policy first tableLength offset [] (.truncated "bitfield" offset 1 0)
  -- the first record of a batch leaves something out
  | compressedFirst {lead : UInt8} {body : List UInt8} : first = true → lead &&& 0x3F ≠ 0x38 →
      Refused policy first tableLength offset (lead :: body) (.compressedFirst (lead &&& 0x3F))
  -- a strict reader is referred to a version that it does not know
  | missingVersion {lead : UInt8} {body : List UInt8} : (first = true → lead &&& 0x3F = 0x38) →
      policy = .strict → tableLength < (Bitfield.ofByte lead).selector.val →
      Refused policy first tableLength offset (lead :: body)
        (.missingVersion ((Bitfield.ofByte lead).selector.val - 1) tableLength)
  -- a field is not whole, and all fields before it are
  | truncated {lead : UInt8} {body : List UInt8} {n : Nat} {missing : Field} :
      (first = true → lead &&& 0x3F = 0x38) →
      (policy = .strict → (Bitfield.ofByte lead).selector.val ≤ tableLength) →
      firstMissing ((Bitfield.ofByte lead).fields policy tableLength) body.length =
        some (n, missing) →
      Refused policy first tableLength offset (lead :: body)
        (.truncated missing.name (offset + 1 + n) missing.width (body.length - n))

end RecordForm

/-! ## Enough bytes for a form -/

namespace RecordForm

theorem exists_time_append {full : Bool} {bytes : List UInt8} {more : Nat}
    (h : (if full then 4 else 2) + more ≤ bytes.length) :
    ∃ (time : TimeField) (rest : List UInt8), time.isFull = full ∧ bytes = time.bytes ++ rest ∧
      more ≤ rest.length := by
  cases full with
  | true =>
      rcases exists_u32_append (Nat.le_of_add_right_le h) with ⟨timestamp, rest, rfl⟩
      exact ⟨.full timestamp, rest, rfl, rfl,
        le_length_of_append (Writer.length_u32 timestamp) h⟩
  | false =>
      rcases exists_i16_append (Nat.le_of_add_right_le h) with ⟨seconds, rest, rfl⟩
      exact ⟨.offset seconds, rest, rfl, rfl,
        le_length_of_append (Writer.length_i16 seconds) h⟩

theorem exists_form_append {policy : ReferencePolicy} {tableLength : Nat} {lead : UInt8}
    {body : List UInt8}
    (hknown : policy = .strict → (Bitfield.ofByte lead).selector.val ≤ tableLength)
    (h : firstMissing ((Bitfield.ofByte lead).fields policy tableLength) body.length = none) :
    ∃ (form : RecordForm) (rest : List UInt8),
      form.lead = lead ∧ form.Fits policy tableLength ∧ lead :: body = form.bytes ++ rest := by
  rw [firstMissing_eq_none_iff, Bitfield.fields, Field.total_append,
    Bitfield.total_laterFields] at h
  -- the fields are cut off one by one, and the others still fit in what is left
  have hversion :
      Field.total (if (Bitfield.ofByte lead).LiteralDue policy tableLength
        then [⟨"version", 4⟩] else []) =
        if decide ((Bitfield.ofByte lead).LiteralDue policy tableLength) then 4 else 0 := by
    by_cases hdue : (Bitfield.ofByte lead).LiteralDue policy tableLength <;> simp [hdue]
  rw [hversion] at h
  rcases exists_optional_append exists_i32_append Writer.length_i32 h with
    ⟨version, rest, hversionDue, rfl, hlater⟩
  rcases exists_optional_append exists_hash_append Hash.length_bytes hlater with
    ⟨prevBlock, rest, hprevBlock, rfl, hmerkle⟩
  rcases exists_hash_append (Nat.le_of_add_right_le hmerkle) with ⟨merkleRoot, rest, rfl⟩
  rcases exists_time_append (le_length_of_append merkleRoot.length_bytes hmerkle) with
    ⟨time, rest, htime, rfl, htail⟩
  rcases exists_optional_append exists_u32_append Writer.length_u32 htail with
    ⟨bits, rest, hbits, rfl, hnonce⟩
  rcases exists_u32_append hnonce with ⟨nonce, rest, rfl⟩
  refine ⟨{ lead, version, prevBlock, merkleRoot, time, bits, nonce }, rest, rfl, ?_, ?_⟩
  · exact
      { version := by rw [hversionDue]; exact decide_eq_true_iff
        known := hknown
        prevBlock := hprevBlock
        time := htime
        bits := hbits }
  · simp [bytes, bodyBytes, fieldBytes]

/-- The bytes ahead begin with a form that is accepted, or something is wrong with them. -/
theorem form_or_refused (policy : ReferencePolicy) (first : Bool) (tableLength offset : Nat)
    (ahead : List UInt8) :
    (∃ (form : RecordForm) (rest : List UInt8),
      (first = true → form.lead &&& 0x3F = 0x38) ∧ form.Fits policy tableLength ∧
        ahead = form.bytes ++ rest) ∨
      ∃ e, Refused policy first tableLength offset ahead e := by
  cases ahead with
  | nil => exact Or.inr ⟨_, Refused.noLead⟩
  | cons lead body =>
      -- in the order in which the reader looks: first record, selector, fields
      by_cases hfirst : first = true → lead &&& 0x3F = 0x38
      · by_cases hknown : policy = .strict → (Bitfield.ofByte lead).selector.val ≤ tableLength
        · cases hmissing : firstMissing ((Bitfield.ofByte lead).fields policy tableLength)
              body.length with
          | some found => exact Or.inr ⟨_, Refused.truncated hfirst hknown hmissing⟩
          | none =>
              rcases exists_form_append hknown hmissing with ⟨form, rest, rfl, hfits, heq⟩
              exact Or.inl ⟨form, rest, hfirst, hfits, heq⟩
        · simp only [Classical.not_imp, Nat.not_le] at hknown
          exact Or.inr ⟨_, Refused.missingVersion hfirst hknown.1 hknown.2⟩
      · simp only [Classical.not_imp] at hfirst
        exact Or.inr ⟨_, Refused.compressedFirst hfirst.1 hfirst.2⟩

end RecordForm

/-! ## Reading -/

namespace Codec

open RecordReader

theorem readFields_needs (bitfield : Bitfield) (previous : Snapshot) (version : Int32) :
    (readFields bitfield previous version).Needs bitfield.laterFields := by
  have htime : (readTimestamp bitfield.hasFullTimestamp previous.timestamp).Needs
      [if bitfield.hasFullTimestamp then ⟨"timestamp", 4⟩ else ⟨"timestamp offset", 2⟩] := by
    cases bitfield.hasFullTimestamp with
    | true => exact Reader.u32_needs "timestamp"
    | false => exact (Reader.i16_needs "timestamp offset").map
  rw [readFields_eq]
  refine (Reader.Needs.optional (Reader.hash_needs "prev_block") _).bind fun prevBlock => ?_
  refine (Reader.hash_needs "merkle_root").bind fun merkleRoot => ?_
  refine htime.bind fun timestamp => ?_
  refine (Reader.Needs.optional (Reader.u32_needs "bits") _).bind fun bits => ?_
  exact (Reader.u32_needs "nonce").map

theorem readLiteralVersion_of_some {s : Decoding} {n : Nat} {missing : Field}
    (h : firstMissing [⟨"version", 4⟩] s.reading.remaining = some (n, missing)) :
    readLiteralVersion s =
      .error (s.reading.lacking n missing) { s with reading := s.reading.skip n } :=
  bind_of_error (ofReader_of_error ((Reader.i32_needs "version" s.reading).1 n missing h))

theorem readLiteralVersion_of_none {s : Decoding}
    (h : firstMissing [⟨"version", 4⟩] s.reading.remaining = none) :
    ∃ version, readLiteralVersion s =
      .ok version { reading := s.reading.skip 4, context := s.context.save version } := by
  rcases (Reader.i32_needs "version" s.reading).2 h with ⟨version, hread⟩
  exact ⟨version, bind_of_ok (ofReader_of_ok hread)⟩

/-- A field behind the first byte that is not whole is reported. -/
theorem readBody_truncated {policy : ReferencePolicy} {bitfield : Bitfield} {s : Decoding}
    {n : Nat} {missing : Field}
    (hknown : policy = .strict → bitfield.selector.val ≤ s.context.versions.length)
    (h : firstMissing (bitfield.fields policy s.context.versions.length) s.reading.remaining =
      some (n, missing)) :
    ∃ t, readBody policy bitfield s = .error (s.reading.lacking n missing) t := by
  have hlater (version : Int32) (u : Decoding) {m : Nat} {lost : Field}
      (hversion : readVersion policy bitfield s = .ok version u)
      (hmissing : firstMissing bitfield.laterFields u.reading.remaining = some (m, lost)) :
      ∃ t, readBody policy bitfield s = .error (u.reading.lacking m lost) t := by
    refine ⟨{ u with reading := u.reading.skip m }, ?_⟩
    refine (bind_of_ok hversion).trans ?_
    exact ofReader_of_error
      ((readFields_needs bitfield u.context.previous version u.reading).1 m lost hmissing)
  by_cases hdue : bitfield.LiteralDue policy s.context.versions.length
  · -- a version comes first: it is cut off, or something behind it is
    rw [Bitfield.fields, if_pos hdue] at h
    have hread := readVersion_of_literalDue hdue
    cases hfront : firstMissing [⟨"version", 4⟩] s.reading.remaining with
    | some found =>
        rcases found with ⟨m, lost⟩
        rw [firstMissing_append_of_some hfront] at h
        cases h
        exact ⟨_, bind_of_error (hread.trans (readLiteralVersion_of_some hfront))⟩
    | none =>
        rw [firstMissing_append_of_none hfront] at h
        simp only [Option.map_eq_some_iff, Prod.exists, Prod.mk.injEq] at h
        rcases h with ⟨m, lost, hmissing, rfl, rfl⟩
        -- what is noted on the way to the version does not move the reading
        let noted : Decoding :=
          { s with reading := s.reading.noting (bitfield.recovery s.context.versions.length) }
        have hnone : firstMissing [⟨"version", 4⟩] noted.reading.remaining = none := hfront
        rcases readLiteralVersion_of_none hnone with ⟨version, hversion⟩
        have hbehind :
            firstMissing bitfield.laterFields (noted.reading.skip 4).remaining = some (m, lost) := by
          rw [Reading.remaining_skip]
          exact hmissing
        rcases hlater version _ (hread.trans hversion) hbehind with ⟨t, ht⟩
        refine ⟨t, ht.trans ?_⟩
        simp [noted, Reading.lacking, Reading.noting, Reading.skip, Reading.remaining,
          Nat.add_assoc, Nat.sub_sub]
  · -- the version comes from the table, at the cost of no bytes
    rw [Bitfield.fields, if_neg hdue, List.nil_append] at h
    rcases Bitfield.index_lt_of_not_literalDue hdue hknown with ⟨hselector, hindex⟩
    have hentry : readVersion policy bitfield s =
        .ok s.context.versions[bitfield.index]
          { s with context := s.context.mark bitfield.index } :=
      readVersion_entry hselector (List.getElem?_eq_getElem hindex)
    exact hlater _ { s with context := s.context.mark bitfield.index } hentry h

theorem decode_nil (codec : Codec) (first : Bool) (offset : Nat) (log : Array Event)
    (ctx : Context) :
    codec.decode first { reading := { offset, rest := [], log }, context := ctx } =
      .error (.truncated "bitfield" offset 1 0)
        { reading := { offset, rest := [], log }, context := ctx } := by
  refine (bind_of_ok (offset_apply _)).trans (bind_of_error ?_)
  exact ofReader_of_error (Reader.u8_nil "bitfield" offset log)

theorem decode_compressed (codec : Codec) {lead : UInt8} (hlead : lead &&& 0x3F ≠ 0x38)
    (rest : List UInt8) (offset : Nat) (log : Array Event) (ctx : Context) :
    codec.decode true { reading := { offset, rest := lead :: rest, log }, context := ctx } =
      .error (.compressedFirst (lead &&& 0x3F))
        { reading := { offset := offset + 1, rest, log }, context := ctx } := by
  have hstop : true = true ∧ Bitfield.ofByte lead ≠ Bitfield.explicit :=
    ⟨rfl, fun heq => hlead ((Bitfield.ofByte_eq_explicit_iff lead).1 heq)⟩
  refine (bind_of_ok (offset_apply _)).trans ?_
  refine (bind_of_ok (ofReader_of_ok (Reader.u8_cons "bitfield" lead rest offset log))).trans ?_
  rw [← Bitfield.toByte_ofByte]
  exact congrFun (if_pos hstop) _

/-- Of bytes that no form begins, the first thing wrong is reported. -/
theorem decode_refused {codec : Codec} {first : Bool} {s : Decoding} {e : DecodeError}
    (h : RecordForm.Refused codec.policy first s.context.versions.length s.reading.offset
      s.reading.rest e) :
    ∃ t, codec.decode first s = .error e t := by
  rcases s with ⟨⟨offset, rest, log⟩, ctx⟩
  cases h with
  | noLead => exact ⟨_, decode_nil codec first offset log ctx⟩
  | compressedFirst hfirst hlead =>
      subst hfirst
      exact ⟨_, decode_compressed codec hlead _ offset log ctx⟩
  | @missingVersion lead body hfirst hstrict hlt =>
      -- only the selector was looked at; no field is missed before the version is
      rw [decode_cons codec hfirst]
      have hmissing := readVersion_missing
        (s := { reading := ⟨offset + 1, body, log⟩, context := ctx }) hlt
      rw [hstrict]
      exact ⟨_, finish_of_error (bind_of_error hmissing) offset⟩
  | @truncated lead body n missing hfirst hknown hmissing =>
      rw [decode_cons codec hfirst]
      have hbody := readBody_truncated
        (s := { reading := ⟨offset + 1, body, log⟩, context := ctx }) hknown hmissing
      rcases hbody with ⟨t, ht⟩
      exact ⟨t, finish_of_error ht offset⟩

/-- What is read begins with a form that means it, of which nothing is left. -/
theorem exists_bytes_of_decode {codec : Codec} {first : Bool} {s t : Decoding}
    {header : BlockHeader} {length : Nat} (h : codec.decode first s = .ok (header, length) t) :
    ∃ (form : RecordForm) (rest : List UInt8), form.Spells codec.policy s.context first header ∧
      s.reading.rest = form.bytes ++ rest ∧ length = form.bytes.length ∧
      t = { reading := {
              offset := s.reading.offset + form.bytes.length
              rest
              log := s.reading.log ++ form.events s.context.versions.length }
            context := form.after s.context } := by
  rcases s with ⟨⟨offset, ahead, log⟩, ctx⟩
  rcases RecordForm.form_or_refused codec.policy first ctx.versions.length offset ahead with
    ⟨form, rest, hfirst, hfits, rfl⟩ | ⟨e, hrefused⟩
  · rcases hfits.exists_header with ⟨meant, hmeant⟩
    have hspells : form.Spells codec.policy ctx first meant := ⟨hfirst, hfits, hmeant⟩
    cases h.symm.trans (decode_form hspells rest offset log)
    exact ⟨form, rest, hspells, rfl, rfl, rfl⟩
  · rcases decode_refused (s := ⟨⟨offset, ahead, log⟩, ctx⟩) hrefused with ⟨u, herror⟩
    cases h.symm.trans herror

theorem exists_form_of_decode {codec : Codec} {first : Bool} {s t : Decoding}
    {header : BlockHeader} {length : Nat} (h : codec.decode first s = .ok (header, length) t) :
    ∃ form : RecordForm, form.Spells codec.policy s.context first header ∧
      t.context = form.after s.context := by
  rcases exists_bytes_of_decode h with ⟨form, _, hspells, _, _, rfl⟩
  exact ⟨form, hspells, rfl⟩

end Codec

end HeaderRelay
