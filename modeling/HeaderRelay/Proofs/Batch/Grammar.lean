import HeaderRelay.Proofs.Batch.Spelling

/-!
# The grammar of batches

A payload is a count of at most `maxHeaders`, in any of its forms, that many records, and whatever
follows. Reading stops at the first thing that is not so, and reports it.

* `Batch.Parse`, `Parse.Accepts` — a payload taken apart, and the headers that it stands for;
* `Batch.Rejects` — the first thing wrong with a payload;
* `accepted_or_rejected` — one of the two is the case;
* `decodeIn_accepted` — what is read of an accepted payload, to the byte;
* `decodeIn_of_cut`, `decodeIn_of_lt_count`, `decodeIn_of_record_error` — the three ways in which a
  payload is refused, and where they leave the context;
* `outcome_decodeIn` — a payload means the same in every context;
* `decode_iff_grammar` — exactly what the grammar accepts is read, with the meaning that it has
  there, and of anything else the first thing wrong is reported.
-/

namespace HeaderRelay
namespace Batch

/-! ## Payloads -/

/-- A payload taken apart. -/
structure Parse where
  count : UInt64
  -- the bytes of the count
  size : List UInt8
  forms : List RecordForm
  -- bytes that are ignored
  trailing : List UInt8

namespace Parse

def behindSize (parse : Parse) : List UInt8 :=
  formBytes parse.forms ++ parse.trailing

def bytes (parse : Parse) : List UInt8 :=
  parse.size ++ parse.behindSize

/-- Bytes of the count and the records. -/
def length (parse : Parse) : Nat :=
  parse.size.length + (formBytes parse.forms).length

/-- The count is small enough and is the number of records, and the records, of which the first is
explicit, mean the headers to the codec. Reading them ends in the context `last`. -/
structure Accepts (codec : Codec) (headers : List BlockHeader) (last : Context) (parse : Parse) :
    Prop where
  size : CompactSize.Form parse.count parse.size
  bounded : parse.count.toNat ≤ maxHeaders
  count : parse.forms.length = parse.count.toNat
  spells : Spells codec.policy codec.context true parse.forms headers last

/-- What is reported of a payload that begins at `offset`. -/
def events (offset : Nat) (parse : Parse) : List Event :=
  runEvents [] 0 (offset + parse.size.length) parse.forms ++
    [.batchDecoded parse.forms.length (offset + parse.length)]

def ignored (parse : Parse) : List Event :=
  if parse.trailing.isEmpty then []
  else [.trailingIgnored parse.trailing.length parse.forms.length]

end Parse

/-- The first thing wrong with a payload. -/
inductive Rejects (codec : Codec) : List UInt8 → DecodeError → Prop where
  -- the payload ends inside the count
  | size {payload : List UInt8} {e : DecodeError} : CompactSize.Cut 0 payload e →
      Rejects codec payload e
  -- the count is too large; what follows it does not matter
  | count {count : UInt64} {size rest : List UInt8} : CompactSize.Form count size →
      maxHeaders < count.toNat →
      Rejects codec (size ++ rest) (.batchTooLarge count.toNat maxHeaders)
  -- something is wrong with a record, and nothing with those before it
  | record {count : UInt64} {size rest : List UInt8} {forms : List RecordForm}
      {headers : List BlockHeader} {last : Context} {e : DecodeError} :
      CompactSize.Form count size → count.toNat ≤ maxHeaders → forms.length < count.toNat →
      Spells codec.policy codec.context true forms headers last →
      RecordForm.Refused codec.policy forms.isEmpty last.versions.length
        (size.length + (formBytes forms).length) rest e →
      Rejects codec (size ++ (formBytes forms ++ rest)) e

/-- Every payload is accepted or rejected. -/
theorem accepted_or_rejected (codec : Codec) (payload : List UInt8) :
    (∃ (parse : Parse) (headers : List BlockHeader) (last : Context),
      parse.bytes = payload ∧ parse.Accepts codec headers last) ∨
      ∃ e, Rejects codec payload e := by
  -- the count is looked at first, then its bound, then the records one by one
  rcases CompactSize.form_or_cut 0 payload with ⟨count, size, ahead, hsize, rfl⟩ | ⟨e, hcut⟩
  · by_cases hbound : count.toNat ≤ maxHeaders
    · rcases spelled_or_refused codec.policy count.toNat codec.context true size.length ahead with
        ⟨forms, headers, last, rest, hcount, hspells, rfl⟩ |
          ⟨forms, headers, last, rest, e, hcount, hspells, rfl, hrefused⟩
      · exact Or.inl ⟨⟨count, size, forms, rest⟩, headers, last, rfl,
          ⟨hsize, hbound, hcount, hspells⟩⟩
      · rw [Bool.true_and] at hrefused
        exact Or.inr ⟨e, .record hsize hbound hcount hspells hrefused⟩
    · exact Or.inr ⟨_, .count hsize (Nat.not_le.1 hbound)⟩
  · exact Or.inr ⟨e, .size hcut⟩

/-! ## Reading what is accepted -/

open RecordReader

theorem read_of_count_le (codec : Codec) {count : UInt64} {s : Decoding} {t : Reading}
    (hcount : CompactSize.read s.reading = .ok count t) (hbound : count.toNat ≤ maxHeaders) :
    read codec s =
      readRecords codec count.toNat t.offset #[] { reading := t, context := codec.context } := by
  refine (bind_of_ok (ofReader_of_ok hcount)).trans ?_
  exact congrFun (if_neg (Nat.not_lt.2 hbound)) _

theorem read_of_lt_count (codec : Codec) {count : UInt64} {s : Decoding} {t : Reading}
    (hcount : CompactSize.read s.reading = .ok count t) (hbound : maxHeaders < count.toNat) :
    read codec s =
      .error (.batchTooLarge count.toNat maxHeaders) { s with reading := t } := by
  refine (bind_of_ok (ofReader_of_ok hcount)).trans ?_
  exact congrFun (if_pos hbound) _

/-- The records of an accepted payload are read, and nothing behind them. -/
theorem read_accepted {codec : Codec} {parse : Parse} {headers : List BlockHeader}
    {last : Context} (h : parse.Accepts codec headers last) (offset : Nat) (log : Array Event)
    (ctx : Context) :
    read codec { reading := { offset, rest := parse.bytes, log }, context := ctx } =
      .ok headers
        { reading := {
            offset := offset + parse.length
            rest := parse.trailing
            log := log ++ parse.events offset }
          context := last } := by
  have hsize := CompactSize.read_form h.size parse.behindSize offset log
  have hrecords := readRecords_spelled h.spells 0 (offset + parse.size.length) #[] rfl
    parse.trailing (offset + parse.size.length) log
  rw [Nat.add_zero, h.count] at hrecords
  -- whatever `ctx` was, the records are read in a fresh context
  have hread := read_of_count_le codec
    (s := { reading := ⟨offset, parse.bytes, log⟩, context := ctx }) hsize h.bounded
  refine (hread.trans hrecords).trans ?_
  have hlength : ((#[] : Array BlockHeader) ++ headers).size = parse.forms.length := by
    simp [h.spells.length_eq]
  have hheaders : ((#[] : Array BlockHeader) ++ headers).toList = headers := by simp
  rw [readRecords_zero, hlength, hheaders, Parse.events, log_append, Parse.length,
    Nat.add_assoc offset]
  rfl

theorem readPayload_of_read {codec : Codec} {headers : List BlockHeader} {s t : Decoding}
    (h : read codec s = .ok headers t) :
    readPayload codec s =
      .ok headers
        { t with
          reading := t.reading.noting
            (if t.reading.atEnd then []
             else [.trailingIgnored t.reading.remaining headers.length]) } := by
  refine (bind_of_ok h).trans ((bind_of_ok (get_apply t)).trans ?_)
  by_cases hend : t.reading.atEnd = true
  · rw [if_pos hend, if_pos hend]
    rfl
  · rw [if_neg hend, if_neg hend]
    rfl

/-- The headers of an accepted payload are read, whatever the context was before; the context
ends as the records leave it. -/
theorem decodeIn_accepted {codec : Codec} {parse : Parse} {headers : List BlockHeader}
    {last : Context} (h : parse.Accepts codec headers last) (ctx : Context) :
    decodeIn codec ctx parse.bytes =
      .ok headers
        { reading := {
            offset := parse.length
            rest := parse.trailing
            log := (parse.events 0 ++ parse.ignored).toArray }
          context := last } := by
  have hread := readPayload_of_read (read_accepted h 0 #[] ctx)
  have hlog : (#[] : Array Event) ++ parse.events 0 ++ parse.ignored =
      (parse.events 0 ++ parse.ignored).toArray := by
    rw [← log_append]
    simp
  rw [Nat.zero_add, ← h.spells.length_eq] at hread
  rw [← hlog]
  exact hread

theorem Parse.Accepts.context_eq {codec : Codec} {ctx last : Context} {parse : Parse}
    {headers : List BlockHeader} {t : Decoding} (h : parse.Accepts codec headers last)
    (hread : decodeIn codec ctx parse.bytes = .ok headers t) : t.context = last := by
  cases hread.symm.trans (decodeIn_accepted h ctx)
  rfl

theorem decode_of_decodeIn_ok {codec : Codec} {payload : List UInt8} {headers : List BlockHeader}
    {t : Decoding} (h : decodeIn codec codec.context payload = .ok headers t) :
    decode codec payload = .ok headers t.reading := by
  have hstep : readPayload codec { reading := .start payload, context := codec.context } =
      .ok headers t := h
  show withFresh codec (readPayload codec) (.start payload) = _
  simp only [withFresh, hstep]

theorem decode_of_decodeIn_error {codec : Codec} {payload : List UInt8} {e : DecodeError}
    {t : Decoding} (h : decodeIn codec codec.context payload = .error e t) :
    decode codec payload = .error e t.reading := by
  have hstep : readPayload codec { reading := .start payload, context := codec.context } =
      .error e t := h
  show withFresh codec (readPayload codec) (.start payload) = _
  simp only [withFresh, hstep]

/-! ## Reading what is rejected -/

/-- A payload that ends inside its count is refused before the context is touched. -/
theorem decodeIn_of_cut {codec : Codec} {payload : List UInt8} {e : DecodeError}
    (h : CompactSize.Cut 0 payload e) (ctx : Context) :
    ∃ s, decodeIn codec ctx payload = .error e { reading := s, context := ctx } := by
  have hcut : CompactSize.Cut (Reading.start payload).offset (Reading.start payload).rest e := h
  have hread := CompactSize.read_of_cut hcut
  exact ⟨_, bind_of_error (bind_of_error (ofReader_of_error hread))⟩

/-- So is a payload whose count is too large. -/
theorem decodeIn_of_lt_count {codec : Codec} {count : UInt64} {size : List UInt8}
    (hsize : CompactSize.Form count size) (hbound : maxHeaders < count.toNat)
    (rest : List UInt8) (ctx : Context) :
    ∃ s, decodeIn codec ctx (size ++ rest) =
      .error (.batchTooLarge count.toNat maxHeaders) { reading := s, context := ctx } := by
  have hcount := CompactSize.read_form hsize rest 0 #[]
  exact ⟨_, bind_of_error (read_of_lt_count codec
    (s := { reading := .start (size ++ rest), context := ctx }) hcount hbound)⟩

/-- A record that is refused behind others ends the reading of the payload where it stops. -/
theorem decodeIn_of_record_error {codec : Codec} {count : UInt64} {size rest : List UInt8}
    {forms : List RecordForm} {headers : List BlockHeader} {last : Context} {e : DecodeError}
    {t : Decoding} (hsize : CompactSize.Form count size) (hbound : count.toNat ≤ maxHeaders)
    (hless : forms.length < count.toNat)
    (hspells : Spells codec.policy codec.context true forms headers last)
    (herror : codec.decode forms.isEmpty
      { reading := {
          offset := size.length + (formBytes forms).length
          rest
          log := (#[] : Array Event) ++ runEvents [] 0 size.length forms }
        context := last } = .error e t)
    (ctx : Context) :
    decodeIn codec ctx (size ++ (formBytes forms ++ rest)) = .error e t := by
  have hcount := CompactSize.read_form hsize (formBytes forms ++ rest) 0 #[]
  have hread := read_of_count_le codec
    (s := { reading := .start (size ++ (formBytes forms ++ rest)), context := ctx })
    hcount hbound
  -- the records that are spelled out are read; one more is asked for
  rcases Nat.exists_eq_add_of_lt hless with ⟨more, hmore⟩
  have hrecords := readRecords_spelled hspells (more + 1) (0 + size.length) #[] rfl rest
    (0 + size.length) #[]
  rw [← Nat.add_assoc, ← hmore] at hrecords
  have hempty : ((#[] : Array BlockHeader) ++ headers).isEmpty = forms.isEmpty := by
    have hsize : ((#[] : Array BlockHeader) ++ headers).size = forms.length := by
      simp [hspells.length_eq]
    rw [Array.isEmpty, hsize]
    cases forms with
    | nil => rfl
    | cons form forms => rfl
  rw [← hempty, ← Nat.zero_add size.length] at herror
  exact bind_of_error (hread.trans (hrecords.trans (readRecords_succ_of_error herror)))

/-- What is wrong with a payload is what is reported, whatever the context was before. -/
theorem decodeIn_rejected {codec : Codec} {payload : List UInt8} {e : DecodeError}
    (h : Rejects codec payload e) (ctx : Context) :
    ∃ t, decodeIn codec ctx payload = .error e t := by
  cases h with
  | size hcut =>
      rcases decodeIn_of_cut hcut ctx with ⟨s, hs⟩
      exact ⟨_, hs⟩
  | @count count size rest hsize hbound =>
      rcases decodeIn_of_lt_count hsize hbound rest ctx with ⟨s, hs⟩
      exact ⟨_, hs⟩
  | @record count size rest forms headers last e hsize hbound hless hspells hrefused =>
      rcases Codec.decode_refused (s := ⟨⟨size.length + (formBytes forms).length, rest,
        (#[] : Array Event) ++ runEvents [] 0 size.length forms⟩, last⟩) hrefused with ⟨t, ht⟩
      exact ⟨t, decodeIn_of_record_error hsize hbound hless hspells ht ctx⟩

/-! ## Exactly the grammar -/

theorem decode_accepted {codec : Codec} {parse : Parse} {headers : List BlockHeader}
    {last : Context} (h : parse.Accepts codec headers last) :
    decode codec parse.bytes =
      .ok headers
        { offset := parse.length
          rest := parse.trailing
          log := (parse.events 0 ++ parse.ignored).toArray } :=
  decode_of_decodeIn_ok (decodeIn_accepted h codec.context)

theorem decode_rejected {codec : Codec} {payload : List UInt8} {e : DecodeError}
    (h : Rejects codec payload e) : ∃ s, decode codec payload = .error e s := by
  rcases decodeIn_rejected h codec.context with ⟨t, ht⟩
  exact ⟨t.reading, decode_of_decodeIn_error ht⟩

/-- What a payload is read as does not depend on the context that was there before. -/
theorem outcome_decodeIn (codec : Codec) (ctx : Context) (payload : List UInt8) :
    outcome (decodeIn codec ctx payload) = outcome (decode codec payload) := by
  rcases accepted_or_rejected codec payload with
    ⟨parse, headers, last, rfl, haccepts⟩ | ⟨e, hrejects⟩
  · rw [decodeIn_accepted haccepts, decode_accepted haccepts]
    rfl
  · rcases decodeIn_rejected hrejects ctx with ⟨t, ht⟩
    rcases decode_rejected hrejects with ⟨s, hs⟩
    rw [ht, hs]
    rfl

theorem exists_parse_of_decode {codec : Codec} {payload : List UInt8}
    {headers : List BlockHeader} {s : Reading} (h : decode codec payload = .ok headers s) :
    ∃ (parse : Parse) (last : Context),
      parse.bytes = payload ∧ parse.Accepts codec headers last := by
  -- a payload is accepted or rejected, and reading tells which
  rcases accepted_or_rejected codec payload with
    ⟨parse, headers', last, rfl, haccepts⟩ | ⟨e, hrejects⟩
  · rw [decode_accepted haccepts] at h
    cases h
    exact ⟨parse, last, rfl, haccepts⟩
  · rcases decode_rejected hrejects with ⟨s', herror⟩
    rw [h] at herror
    cases herror

theorem exists_parse_of_decodeIn {codec : Codec} {ctx : Context} {payload : List UInt8}
    {headers : List BlockHeader} {t : Decoding} (h : decodeIn codec ctx payload = .ok headers t) :
    ∃ (parse : Parse) (last : Context),
      parse.bytes = payload ∧ parse.Accepts codec headers last := by
  have hfresh : outcome (decode codec payload) = .ok headers := by
    rw [← outcome_decodeIn codec ctx, h, outcome_ok]
  rcases exists_of_outcome_ok hfresh with ⟨s, hdecode⟩
  exact exists_parse_of_decode hdecode

theorem rejects_of_decode {codec : Codec} {payload : List UInt8} {e : DecodeError} {s : Reading}
    (h : decode codec payload = .error e s) : Rejects codec payload e := by
  rcases accepted_or_rejected codec payload with
    ⟨parse, headers, last, rfl, haccepts⟩ | ⟨e', hrejects⟩
  · rw [decode_accepted haccepts] at h
    cases h
  · rcases decode_rejected hrejects with ⟨s', herror⟩
    rw [h] at herror
    cases herror
    exact hrejects

/-- A payload is read as `headers` exactly if it is a count of at most `maxHeaders`, that many
records that mean `headers`, and anything at all; and reading reports an error exactly if that is
the first thing wrong with the payload. -/
theorem decode_iff_grammar (codec : Codec) (payload : List UInt8) :
    (∀ headers : List BlockHeader,
      (∃ s, decode codec payload = .ok headers s) ↔
        ∃ (parse : Parse) (last : Context),
          parse.bytes = payload ∧ parse.Accepts codec headers last) ∧
    (∀ e : DecodeError,
      (∃ s, decode codec payload = .error e s) ↔ Rejects codec payload e) := by
  refine ⟨fun headers => ⟨?_, ?_⟩, fun e => ⟨?_, ?_⟩⟩
  · rintro ⟨s, hdecode⟩
    exact exists_parse_of_decode hdecode
  · rintro ⟨parse, last, rfl, haccepts⟩
    exact ⟨_, decode_accepted haccepts⟩
  · rintro ⟨s, hdecode⟩
    exact rejects_of_decode hdecode
  · intro hrejects
    exact decode_rejected hrejects

end Batch
end HeaderRelay
