import HeaderRelay.Proofs.Batch.Extent
import HeaderRelay.Proofs.Batch.RoundTrip
import HeaderRelay.Proofs.Wire.Grammars

/-!
# What is reported of a batch

A reader reports each record with its first byte and its length, then with its place, and at the end
the whole batch. The places are those of the records. What is given as the size of the batch is the
place where it ends, though, and so is right only in front of a payload. The writer reports what the
reader does, but for the first record, over which it passes.

* `Event.location?`, `Event.total?`, `Event.written?`, `Event.read?` — the numbers in a line;
* `Batch.places` — records that follow one another, each with its number and its length;
* `filterMap_runEvents_cons` — what one record contributes to any of these;
* `Turn.exists_form`, `Turns.exists_forms`, `exists_last_turn` — the records behind a reader's turns,
  and what was reported of them;
* `Reported`, `records_are_located` — batches that are read, wherever they begin;
* `written_of_encode`, `read_written` — what either end reports of a batch that is written;
* `reports_agree_behind_first` — batches that are written and read back.
-/

namespace HeaderRelay

/-! ## Lines -/

namespace Event

/-- Number, place and length of a record. -/
def location? : Event → Option (Nat × Nat × Nat)
  | recordLocated index offset length => some (index, offset, length)
  | _ => none

/-- How many headers came from how many bytes, which two events say in the same words. -/
def total? : Event → Option (Nat × Nat)
  | batchDecoded headers offset => some (headers, offset)
  | payloadListed headers length => some (headers, length)
  | _ => none

/-- First byte and length of a record that was written. -/
def written? : Event → Option (UInt8 × Nat)
  | recordEncoded bitfield length => some (bitfield, length)
  | _ => none

/-- First byte and length of a record that was read. -/
def read? : Event → Option (UInt8 × Nat)
  | recordDecoded bitfield length => some (bitfield, length)
  | _ => none

end Event

/-- First byte and length of a record. -/
def Record.summary (record : Record) : UInt8 × Nat :=
  (record.bitfield.toByte, record.bytes.length)

namespace Batch

/-! ## Records in a row -/

/-- Records of the given lengths, of which the first has the number `index` and begins at `start`,
and every other one begins where the one before it ends. -/
def places : (index start : Nat) → (lengths : List Nat) → List (Nat × Nat × Nat)
  | _, _, [] => []
  | index, start, length :: lengths =>
      (index, start, length) :: places (index + 1) (start + length) lengths

/-- The last one ends where all of them do. -/
theorem end_of_getLast?_places {start index stop last place length : Nat}
    {forms : List RecordForm} (hstop : start + (formBytes forms).length = stop)
    (h : (places index start (forms.map fun form => form.bytes.length)).getLast? =
      some (last, place, length)) : place + length = stop := by
  induction forms generalizing index start with
  | nil => cases h
  | cons form forms ih =>
      rw [formBytes_cons, List.length_append, ← Nat.add_assoc] at hstop
      cases forms with
      | nil =>
          cases h
          exact hstop
      | cons form' forms =>
          rw [List.map_cons, places, List.map_cons, places, List.getLast?_cons_cons] at h
          exact ih hstop h

section Lines

variable {β : Type} {line? : Event → Option β}

/-- Beside its two lines a record has at most the recovery of a version. -/
theorem filterMap_runEvents_cons
    (hrecovered : ∀ index tableLength, line? (.versionRecovered index tableLength) = none)
    (table : VersionTable) (index start : Nat) (form : RecordForm) (forms : List RecordForm) :
    (runEvents table index start (form :: forms)).filterMap line? =
      [Event.recordDecoded form.bitfield.toByte form.bytes.length,
          .recordLocated index start form.bytes.length].filterMap line? ++
        (runEvents (form.tableAfter table) (index + 1) (start + form.bytes.length)
          forms).filterMap line? := by
  have hrecovery : (form.bitfield.recovery table.length).filterMap line? = [] := by
    unfold Bitfield.recovery
    split
    · rw [List.filterMap_cons_none (hrecovered _ _), List.filterMap_nil]
    · rfl
  rw [runEvents, RecordForm.events, List.append_assoc, List.filterMap_append, hrecovery,
    List.nil_append, ← List.filterMap_append]
  rfl

end Lines

theorem locations_runEvents (table : VersionTable) (index start : Nat) (forms : List RecordForm) :
    (runEvents table index start forms).filterMap Event.location? =
      places index start (forms.map fun form => form.bytes.length) := by
  induction forms generalizing table index start with
  | nil => rfl
  | cons form forms ih =>
      rw [filterMap_runEvents_cons fun _ _ => rfl, ih]
      rfl

theorem totals_runEvents (table : VersionTable) (index start : Nat) (forms : List RecordForm) :
    (runEvents table index start forms).filterMap Event.total? = [] := by
  induction forms generalizing table index start with
  | nil => rfl
  | cons form forms ih =>
      rw [filterMap_runEvents_cons fun _ _ => rfl, ih]
      rfl

theorem read_runEvents (table : VersionTable) (index start : Nat) (forms : List RecordForm) :
    (runEvents table index start forms).filterMap Event.read? =
      forms.map fun form => (form.bitfield.toByte, form.bytes.length) := by
  induction forms generalizing table index start with
  | nil => rfl
  | cons form forms ih =>
      rw [filterMap_runEvents_cons fun _ _ => rfl, ih]
      rfl

/-! ## Records behind turns -/

section Turns

variable {codec : Codec} {p q : Progress} {k : Nat}

theorem Turn.exists_form (h : Turn codec p q) :
    ∃ (form : RecordForm) (header : BlockHeader),
      form.Spells codec.policy p.state.context p.headers.isEmpty header ∧
      q.headers = p.headers.push header ∧
      q.start = p.start + form.bytes.length ∧
      p.state.reading.rest = form.bytes ++ q.state.reading.rest ∧
      q.state.context = form.next p.state.context header ∧
      q.state.reading.log = p.state.reading.log ++
        (form.events p.state.context.versions.length ++
          [.recordLocated p.headers.size p.start form.bytes.length]) := by
  cases h with
  | @record header length t hrecord =>
      rcases Codec.exists_bytes_of_decode hrecord with ⟨form, rest, hspells, hbytes, rfl, rfl⟩
      exact ⟨form, header, hspells, rfl, rfl, hbytes, rfl, (log_append _ _ _).symm⟩

/-- What the turns went over are records that mean the headers gained, and what was reported is what
these records make a reader report. -/
theorem Turns.exists_forms (h : Turns codec k p q) :
    ∃ (forms : List RecordForm) (headers : List BlockHeader),
      Spells codec.policy p.state.context p.headers.isEmpty forms headers q.state.context ∧
      q.headers.toList = p.headers.toList ++ headers ∧
      q.start = p.start + (formBytes forms).length ∧
      p.state.reading.rest = formBytes forms ++ q.state.reading.rest ∧
      q.state.reading.log = p.state.reading.log ++
        runEvents p.state.context.versions p.headers.size p.start forms := by
  induction h with
  | @none p => exact ⟨[], [], .nil, by simp, rfl, rfl, by simp [runEvents]⟩
  | @more p q r k hturn _ ih =>
      rcases hturn.exists_form with ⟨form, header, hform, hheaders, hstart, hrest, hcontext, hlog⟩
      rcases ih with ⟨forms, headers, hforms, hheaders', hstart', hrest', hlog'⟩
      have hlater : q.headers.isEmpty = false := by
        rw [hheaders]
        simp
      rw [hlater, hcontext] at hforms
      refine ⟨form :: forms, header :: headers, .cons hform hforms, ?_, ?_, ?_, ?_⟩
      · rw [hheaders', hheaders]
        simp
      · rw [hstart', hstart, formBytes_cons, List.length_append, Nat.add_assoc]
      · rw [hrest, hrest', formBytes_cons, List.append_assoc]
      · -- the counters of the next record are those of this one, moved on by it
        have hcounters : runEvents q.state.context.versions q.headers.size q.start forms =
            runEvents (form.tableAfter p.state.context.versions) (p.headers.size + 1)
              (p.start + form.bytes.length) forms := by
          rw [hcontext, hheaders, hstart, Array.size_push]
          rfl
        rw [hlog', hlog, hcounters, ← log_append, List.append_assoc]
        rfl

/-- A batch that is read ends with the last turn, and with one line more. -/
theorem exists_last_turn {headers : List BlockHeader} {t : Decoding}
    (h : p.readOn codec k = .ok headers t) :
    ∃ q, Turns codec k p q ∧ q.headers.toList = headers ∧
      t = { q.state with
        reading := q.state.reading.noting [.batchDecoded q.headers.size q.start] } := by
  rcases exists_turns_of_ok h with ⟨q, hturns, hheaders, _⟩
  have hend := hturns.readOn_eq 0
  have hlast : q.readOn codec 0 = _ := readRecords_zero q.state
  rw [Nat.add_zero, h, hlast] at hend
  cases hend
  exact ⟨q, hturns, rfl, rfl⟩

end Turns

/-! ## Batches that are read -/

theorem log_of_read_count {count : UInt64} {s u : Reading} (h : CompactSize.read s = .ok count u) :
    u.log = s.log := by
  rcases CompactSize.read_parses.ok_iff.1 h with ⟨size, rest, _, _, rfl⟩
  rfl

/-- A batch of the given headers was read from `s` to `t`, with its records behind the count, from `u`
on; and `events` were reported of it. -/
structure Reported (codec : Codec) (headers : List BlockHeader) (s u t : Reading)
    (forms : List RecordForm) (events : List Event) : Prop where
  count : CompactSize.read s = .ok (UInt64.ofNat headers.length) u
  meaning : ∃ last, Spells codec.policy codec.context true forms headers last
  bytes : u.rest = formBytes forms ++ t.rest
  stop : u.offset + (formBytes forms).length = t.offset
  log : t.log = s.log ++ events
  locations : events.filterMap Event.location? =
    places 0 u.offset (forms.map fun form => form.bytes.length)
  -- the last record ends where the batch does
  last : ∀ index place length,
    (events.filterMap Event.location?).getLast? = some (index, place, length) →
      place + length = t.offset
  -- what is said of the bytes is where they end
  total : events.filterMap Event.total? = [(headers.length, t.offset)]

namespace Reported

variable {codec : Codec} {headers : List BlockHeader} {s u t : Reading} {forms : List RecordForm}
  {events : List Event}

theorem offset_le (h : Reported codec headers s u t forms events) : s.offset ≤ t.offset := by
  rcases CompactSize.read_parses.ok_iff.1 h.count with ⟨size, rest, _, _, rfl⟩
  rw [← h.stop, Nat.add_assoc]
  exact Nat.le_add_right _ _

/-- The size of the batch is reported in front of a payload, and nowhere else. -/
theorem size_mem_total_iff (h : Reported codec headers s u t forms events) :
    (headers.length, t.offset - s.offset) ∈ events.filterMap Event.total? ↔ s.offset = 0 := by
  have hle := h.offset_le
  rw [h.total, List.mem_singleton, Prod.mk.injEq]
  omega

theorem noting (h : Reported codec headers s u t forms events) {later : List Event}
    (hlocations : later.filterMap Event.location? = [])
    (htotal : later.filterMap Event.total? = []) :
    Reported codec headers s u (t.noting later) forms (events ++ later) where
  count := h.count
  meaning := h.meaning
  bytes := h.bytes
  stop := h.stop
  log := by rw [Reading.noting, h.log, log_append]
  locations := by rw [List.filterMap_append, hlocations, List.append_nil, h.locations]
  last := by
    rw [List.filterMap_append, hlocations, List.append_nil]
    exact h.last
  total := by
    rw [List.filterMap_append, htotal, List.append_nil]
    exact h.total

end Reported

theorem exists_reported_of_read {codec : Codec} {headers : List BlockHeader} {s t : Decoding}
    (h : read codec s = .ok headers t) :
    ∃ u forms events, Reported codec headers s.reading u t.reading forms events := by
  rcases exists_count_of_read h with ⟨count, u, hcount, _, hread⟩
  rcases exists_last_turn hread with ⟨q, hturns, rfl, rfl⟩
  rcases hturns.exists_forms with ⟨forms, headers, hforms, hheaders, hstop, hrest, hlog⟩
  have hgained : q.headers.toList = headers := hheaders
  have hsize : q.headers.size = q.headers.toList.length := q.headers.length_toList.symm
  have hlength : UInt64.ofNat q.headers.toList.length = count := by
    rw [← hsize, hturns.extent.1]
    simp [Progress.behindCount]
  -- the reader stands where the lengths of the records lead to
  have haligned : q.start = q.state.reading.offset := hturns.isAligned rfl
  have hend : u.offset + (formBytes forms).length = q.state.reading.offset :=
    hstop.symm.trans haligned
  -- the line of the batch is none of a record's, and theirs are none of the batch
  have hlocations : (runEvents [] 0 u.offset forms ++
      [Event.batchDecoded q.headers.size q.start]).filterMap Event.location? =
        places 0 u.offset (forms.map fun form => form.bytes.length) := by
    rw [List.filterMap_append, locations_runEvents]
    exact List.append_nil _
  refine ⟨u, forms, _, ?_, ?_, hrest, hend, ?_, hlocations, ?_, ?_⟩
  · rw [hlength]
    exact hcount
  · rw [hgained]
    exact ⟨_, hforms⟩
  · rw [Reading.noting, hlog, log_append, ← log_of_read_count hcount]
    rfl
  · intro index place length hlast
    rw [hlocations] at hlast
    exact end_of_getLast?_places hend hlast
  · rw [List.filterMap_append, totals_runEvents, hsize, haligned]
    rfl

/-- Bytes that are ignored are reported in words of their own. -/
theorem exists_reported_of_readPayload {codec : Codec} {headers : List BlockHeader}
    {s t : Decoding} (h : readPayload codec s = .ok headers t) :
    ∃ u forms events, Reported codec headers s.reading u t.reading forms events := by
  cases hread : read codec s with
  | ok headers' v =>
      cases h.symm.trans (readPayload_of_read hread)
      rcases exists_reported_of_read hread with ⟨u, forms, events, hreported⟩
      refine ⟨u, forms, _, hreported.noting ?_ ?_⟩
      · split <;> rfl
      · split <;> rfl
  | error e v => cases h.symm.trans (bind_of_error hread)

theorem withFresh_ok_iff {α : Type} {codec : Codec} {step : RecordReader α} {s t : Reading}
    {a : α} : withFresh codec step s = .ok a t ↔
      ∃ last, step { reading := s, context := codec.context } =
        .ok a { reading := t, context := last } := by
  unfold withFresh
  constructor
  · intro h
    split at h
    next a' t' hstep =>
      cases h
      exact ⟨t'.context, hstep⟩
    next => cases h
  · rintro ⟨last, hstep⟩
    rw [hstep]

/-- Wherever a batch is read, its records are reported in order: the first one begins behind the
count, every other one where the one before it ends, and the last one ends with the batch. What is
reported of the bytes of the whole batch is where they end, so that it is their number only if the
batch stands in front of a payload, as it does when a payload of its own is read. -/
theorem records_are_located (codec : Codec) :
    (∀ (s t : Decoding) (headers : List BlockHeader), read codec s = .ok headers t →
      ∃ u forms events, Reported codec headers s.reading u t.reading forms events ∧
        ((headers.length, t.reading.offset - s.reading.offset) ∈ events.filterMap Event.total? ↔
          s.reading.offset = 0)) ∧
    (∀ (s t : Reading) (headers : List BlockHeader),
      withFresh codec (read codec) s = .ok headers t →
        ∃ u forms events, Reported codec headers s u t forms events ∧
          ((headers.length, t.offset - s.offset) ∈ events.filterMap Event.total? ↔
            s.offset = 0)) ∧
    ∀ (ctx : Context) (payload : List UInt8) (t : Decoding) (headers : List BlockHeader),
      decodeIn codec ctx payload = .ok headers t →
        ∃ u forms, Reported codec headers (.start payload) u t.reading forms
          t.reading.log.toList := by
  refine ⟨?_, ?_, ?_⟩
  · intro s t headers h
    rcases exists_reported_of_read h with ⟨u, forms, events, hreported⟩
    exact ⟨u, forms, events, hreported, hreported.size_mem_total_iff⟩
  · intro s t headers h
    rcases withFresh_ok_iff.1 h with ⟨last, hread⟩
    rcases exists_reported_of_read hread with ⟨u, forms, events, hreported⟩
    exact ⟨u, forms, events, hreported, hreported.size_mem_total_iff⟩
  · intro ctx payload t headers h
    rcases exists_reported_of_readPayload h with ⟨u, forms, events, hreported⟩
    -- nothing was reported before the payload
    have hlog : t.reading.log.toList = events := by
      rw [hreported.log]
      simp [Reading.start]
    rw [hlog]
    exact ⟨u, forms, hreported⟩

/-- Behind three bytes that are none of its own, a batch of 121 bytes is reported as one of 124. -/
theorem records_are_located_apart :
    ∃ (bytes : List UInt8) (t u : Reading) (forms : List RecordForm) (events : List Event),
      withFresh ⟨.lenient, fun _ => Hash.zero⟩ (read ⟨.lenient, fun _ => Hash.zero⟩)
          { offset := 3, rest := bytes, log := #[] } =
        .ok [⟨4, Hash.zero, Hash.zero, 7, 1, 2⟩, ⟨4, Hash.zero, Hash.zero, 8, 1, 3⟩] t ∧
      Reported ⟨.lenient, fun _ => Hash.zero⟩
        [⟨4, Hash.zero, Hash.zero, 7, 1, 2⟩, ⟨4, Hash.zero, Hash.zero, 8, 1, 3⟩]
        { offset := 3, rest := bytes, log := #[] } u t forms events ∧
      t.log.toList.filterMap Event.location? = [(0, 4, 81), (1, 85, 39)] ∧
      t.log.toList.filterMap Event.total? = [(2, 124)] ∧
      t.offset - 3 = 121 := by
  have hbound : [(⟨4, Hash.zero, Hash.zero, 7, 1, 2⟩ : BlockHeader),
      ⟨4, Hash.zero, Hash.zero, 8, 1, 3⟩].length ≤ maxHeaders := by decide
  have haccepts := written_accepts ⟨.lenient, fun _ => Hash.zero⟩ ⟨.lenient, fun _ => Hash.zero⟩
    rfl hbound [9]
  have hread := withFresh_ok_iff.2 ⟨_, read_accepted haccepts 3 #[]
    (Codec.context ⟨.lenient, fun _ => Hash.zero⟩)⟩
  rcases records_are_located ⟨.lenient, fun _ => Hash.zero⟩ with ⟨_, hfresh, _⟩
  rcases hfresh _ _ _ hread with ⟨u, forms, events, hreported, _⟩
  exact ⟨_, _, u, forms, events, hread, hreported, by decide +kernel, by decide +kernel,
    by decide +kernel⟩

/-- An empty batch behind one other byte is a single byte, and reported as two. -/
theorem total_is_no_size :
    ∃ s t : Reading, Reader.u8 "first" (.start [0, 0]) = .ok 0 s ∧
      withFresh {} (read {}) s = .ok [] t ∧ t.offset - s.offset = 1 ∧
      t.log.toList.map Event.line = ["DEBUG decoded 0 headers from 2 bytes"] := by
  have hbound : ([] : List BlockHeader).length ≤ maxHeaders := Nat.zero_le _
  have hread := read_accepted (written_accepts {} {} rfl hbound []) 1 #[] (Codec.context {})
  exact ⟨_, _, Reader.u8_cons "first" 0 [0] 0 #[], withFresh_ok_iff.2 ⟨_, hread⟩, rfl,
    by decide +kernel⟩

/-! ## Batches that are written and read back -/

theorem length_records (codec : Codec) (headers : List BlockHeader) :
    (records codec headers).length = headers.length := by
  have hbounded := Context.isBounded_fresh codec.hasher
  have hlength := (recordsFrom_spells hbounded codec.policy true headers).length_eq
  rwa [List.length_map] at hlength

theorem summaries_form (records : List Record) :
    ((records.map Record.form).map fun form => (form.bitfield.toByte, form.bytes.length)) =
      records.map Record.summary := by
  rw [List.map_map]
  refine List.map_congr_left fun record _ => ?_
  show (record.form.bitfield.toByte, record.form.bytes.length) = record.summary
  rw [Record.bitfield_form, Record.bytes_form, Record.summary]

theorem written_encoded (records : List Record) :
    (records.map Record.encoded).filterMap Event.written? = records.map Record.summary := by
  induction records with
  | nil => rfl
  | cons record records ih =>
      rw [List.map_cons, List.map_cons, ← ih]
      rfl

/-- The writer passes over the first record. -/
theorem written_of_encode {codec : Codec} {headers : List BlockHeader} {encoded : Encoded}
    (h : encode codec headers = .ok encoded) :
    encoded.events.filterMap Event.written? =
      ((records codec headers).map Record.summary).drop 1 := by
  rw [encode, if_neg (Nat.not_lt.2 (length_le_of_encode h))] at h
  cases h
  rw [List.filterMap_append, written_encoded, List.map_drop]
  exact List.append_nil _

/-- The reader passes over none. -/
theorem read_written (codec : Codec) (headers : List BlockHeader) (trailing : List UInt8) :
    ((Parse.written codec headers trailing).events 0 ++
        (Parse.written codec headers trailing).ignored).filterMap Event.read? =
      (records codec headers).map Record.summary := by
  have hignored : (Parse.written codec headers trailing).ignored.filterMap Event.read? = [] := by
    unfold Parse.ignored
    split <;> rfl
  rw [List.filterMap_append, hignored, List.append_nil, Parse.events, List.filterMap_append,
    read_runEvents]
  exact (List.append_nil _).trans (summaries_form _)

/-- The first record is explicit, so that it has the length of a header and one byte more. -/
theorem summaries_cons (codec : Codec) (header : BlockHeader) (headers : List BlockHeader) :
    ∃ later, (records codec (header :: headers)).map Record.summary = (0x38, 81) :: later := by
  have hfirst : (Record.explicit header).summary = (0x38, 81) := by
    have hlength : (Record.explicit header).bytes.length = 81 := by
      rw [Record.bytes_explicit, List.length_cons, BlockHeader.length_bytes]
      rfl
    rw [Record.summary, hlength, Record.bitfield_explicit]
    exact congrArg (·, 81) (by decide : Bitfield.explicit.toByte = 0x38)
  rw [records, recordsFrom_cons, Context.compress_true, List.map_cons, hfirst]
  exact ⟨_, rfl⟩

/-- A batch of any headers that fit in one is written and read back, by the same codec, from in front
of any bytes and in any context. The reader reports each of its records with the first byte and the
length that it has. The writer reports the same of all but the first, so that the two reports are
equal only where there is nothing to report. -/
theorem reports_agree_behind_first (codec : Codec) (headers : List BlockHeader)
    (hbound : headers.length ≤ maxHeaders) :
    ∃ encoded, encode codec headers = .ok encoded ∧
      ∀ tail : List UInt8, ∃ after : Reading,
        decode codec (encoded.bytes ++ tail) = .ok headers after ∧
        (∀ ctx : Context, decodeIn codec ctx (encoded.bytes ++ tail) =
          .ok headers { reading := after, context := finalContext codec headers }) ∧
        after.log.toList.filterMap Event.read? = (records codec headers).map Record.summary ∧
        (after.log.toList.filterMap Event.read?).length = headers.length ∧
        (headers ≠ [] → after.log.toList.filterMap Event.read? =
          (0x38, 81) :: encoded.events.filterMap Event.written?) ∧
        (encoded.events.filterMap Event.written? = after.log.toList.filterMap Event.read? ↔
          headers = []) := by
  rcases encode_of_length_le hbound codec with ⟨encoded, hencode, hbytes⟩
  refine ⟨encoded, hencode, fun tail => ?_⟩
  have haccepts := written_accepts codec codec rfl hbound tail
  have hpayload : encoded.bytes ++ tail = (Parse.written codec headers tail).bytes := by
    rw [bytes_written, hbytes]
  rw [hpayload]
  refine ⟨_, decode_accepted haccepts, decodeIn_accepted haccepts, ?_⟩
  rw [List.toList_toArray, read_written, written_of_encode hencode, List.length_map,
    length_records]
  refine ⟨rfl, rfl, ?_⟩
  cases headers with
  | nil => exact ⟨fun h => absurd rfl h, fun _ => rfl, fun _ => rfl⟩
  | cons header headers =>
      rcases summaries_cons codec header headers with ⟨later, hsummaries⟩
      rw [hsummaries]
      refine ⟨fun _ => rfl, fun h => ?_, fun h => by cases h⟩
      -- the writer's report is shorter by one
      have hlength := congrArg List.length h
      rw [List.drop_one, List.tail_cons, List.length_cons] at hlength
      exact absurd hlength (Nat.ne_of_lt (Nat.lt_succ_self _))

/-- Two records, of which the writer reports one. -/
theorem reports_agree_behind_first_pair :
    ∃ (encoded : Encoded) (after : Reading),
      encode ⟨.lenient, fun _ => Hash.zero⟩
          [⟨4, Hash.zero, Hash.zero, 7, 1, 2⟩, ⟨4, Hash.zero, Hash.zero, 8, 1, 3⟩] =
        .ok encoded ∧
      decode ⟨.lenient, fun _ => Hash.zero⟩ (encoded.bytes ++ []) =
        .ok [⟨4, Hash.zero, Hash.zero, 7, 1, 2⟩, ⟨4, Hash.zero, Hash.zero, 8, 1, 3⟩] after ∧
      encoded.events.filterMap Event.written? = [(0x01, 39)] ∧
      after.log.toList.filterMap Event.read? = [(0x38, 81), (0x01, 39)] := by
  rcases reports_agree_behind_first ⟨.lenient, fun _ => Hash.zero⟩
      [⟨4, Hash.zero, Hash.zero, 7, 1, 2⟩, ⟨4, Hash.zero, Hash.zero, 8, 1, 3⟩] (by decide) with
    ⟨encoded, hencode, hread⟩
  rcases hread [] with ⟨after, hdecode, _, hsummaries, _, hfirst, _⟩
  have hreports : after.log.toList.filterMap Event.read? = [(0x38, 81), (0x01, 39)] := by
    rw [hsummaries]
    decide +kernel
  have hwritten := hfirst (by decide)
  rw [hreports] at hwritten
  exact ⟨encoded, after, hencode, hdecode, (List.cons.inj hwritten).2.symm, hreports⟩

/-- Of a single header the writer reports the batch alone, and the reader the record too. -/
theorem first_record_is_passed_over :
    ∃ (encoded : Encoded) (after : Reading),
      encode ⟨.lenient, fun _ => Hash.zero⟩ [⟨4, Hash.zero, Hash.zero, 7, 1, 2⟩] = .ok encoded ∧
      decode ⟨.lenient, fun _ => Hash.zero⟩ encoded.bytes =
        .ok [⟨4, Hash.zero, Hash.zero, 7, 1, 2⟩] after ∧
      encoded.events.map Event.line = ["DEBUG encoded 1 headers into 82 bytes"] ∧
      after.log.toList.map Event.line =
        ["TRACE decoded record bitfield=0x38 len=81",
          "TRACE headers2 record 0 at offset 1: 81 bytes",
          "DEBUG decoded 1 headers from 82 bytes"] := by
  have hbound : [(⟨4, Hash.zero, Hash.zero, 7, 1, 2⟩ : BlockHeader)].length ≤ maxHeaders := by
    decide
  have hdecode := decode_accepted
    (written_accepts ⟨.lenient, fun _ => Hash.zero⟩ ⟨.lenient, fun _ => Hash.zero⟩ rfl hbound [])
  rw [bytes_written, List.append_nil] at hdecode
  exact ⟨_, _, if_neg (Nat.not_lt.2 hbound), hdecode, by decide +kernel, by decide +kernel⟩

end Batch
end HeaderRelay
