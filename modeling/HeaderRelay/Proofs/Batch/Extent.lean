import HeaderRelay.Proofs.Batch.Grammar

/-!
# How far records reach

What a record's first byte says about its length is right, but for a version that a lenient reader
has to find in the payload because the table does not hold it. The lengths of a batch's records are
added up beside the reader's own offset, and the two never part.

* `RecordForm.length_eq_recordLength` — the length of a record by its first byte;
* `Codec.decode_extent` — a record that is read takes as many bytes as it says;
* `Progress`, `Turn`, `Turns` — the reading of a batch between its records;
* `Turns.readOn_eq`, `exists_turns` — reading a batch is taking turns;
* `Turns.extent` — what the running offset comes to after any number of them;
* `record_lengths_add_up` — one record, and then a batch.
-/

namespace HeaderRelay

/-! ## One record -/

namespace RecordForm

/-- A missing entry costs the four bytes of a version, which the first byte does not announce. -/
theorem length_eq_recordLength {policy : ReferencePolicy} {tableLength : Nat} {form : RecordForm}
    (h : form.Fits policy tableLength) :
    form.bytes.length = form.bitfield.recordLength +
      if form.bitfield.selector.val ≠ 0 ∧ tableLength < form.bitfield.selector.val then 4 else 0 := by
  have hversion : (if form.version.isSome then 4 else 0) =
      (if form.bitfield.hasLiteralVersion then 4 else 0) +
        if form.bitfield.selector.val ≠ 0 ∧ tableLength < form.bitfield.selector.val
          then 4 else 0 := by
    rw [Bitfield.hasLiteralVersion_eq]
    by_cases hzero : form.bitfield.selector.val = 0
    · have hsome : form.version.isSome := h.version.2 (Or.inl hzero)
      simp [hsome, hzero]
    · by_cases hmissing : tableLength < form.bitfield.selector.val
      · -- a strict reader would have refused the selector
        have hlenient : policy = .lenient := by
          cases policy with
          | lenient => rfl
          | strict => exact absurd (h.known rfl) (Nat.not_le.2 hmissing)
        have hsome : form.version.isSome := h.version.2 (Or.inr ⟨hlenient, hmissing⟩)
        simp [hsome, hzero, hmissing]
      · have hnone : ¬ form.version.isSome := by
          intro hsome
          rcases h.version.1 hsome with hzero' | ⟨_, hmissing'⟩
          · exact hzero hzero'
          · exact hmissing hmissing'
        simp [hnone, hzero, hmissing]
  rw [length_bytes, TimeField.length_bytes, hversion, h.prevBlock, h.time, h.bits,
    Bitfield.recordLength]
  omega

theorem length_bytes_bounds (form : RecordForm) :
    39 ≤ form.bytes.length ∧ form.bytes.length ≤ 81 := by
  have hfield (present : Bool) (width : Nat) : (if present then width else 0) ≤ width := by
    cases present with
    | true => exact Nat.le_refl width
    | false => exact Nat.zero_le width
  have hversion := hfield form.version.isSome 4
  have hprevBlock := hfield form.prevBlock.isSome 32
  have hbits := hfield form.bits.isSome 4
  have htime : 2 ≤ form.time.bytes.length ∧ form.time.bytes.length ≤ 4 := by
    rw [TimeField.length_bytes]
    cases form.time.isFull <;> decide
  rw [length_bytes]
  omega

end RecordForm

namespace Codec

variable {codec : Codec} {first : Bool} {s t : Decoding} {header : BlockHeader} {length : Nat}

/-- The length that a record is reported to have is the way that reading has moved on. -/
theorem offset_of_decode (h : codec.decode first s = .ok (header, length) t) :
    t.reading.offset = s.reading.offset + length := by
  rcases exists_bytes_of_decode h with ⟨form, rest, _, _, rfl, rfl⟩
  rfl

theorem length_of_decode (h : codec.decode first s = .ok (header, length) t) :
    39 ≤ length ∧ length ≤ 81 := by
  rcases exists_bytes_of_decode h with ⟨form, rest, _, _, rfl, _⟩
  exact form.length_bytes_bounds

theorem decode_extent (h : codec.decode first s = .ok (header, length) t) :
    ∃ (lead : UInt8) (body : List UInt8), s.reading.rest = lead :: body ∧
      length = (Bitfield.ofByte lead).recordLength +
        if (Bitfield.ofByte lead).selector.val ≠ 0 ∧
          s.context.versions.length < (Bitfield.ofByte lead).selector.val then 4 else 0 := by
  rcases exists_bytes_of_decode h with ⟨form, rest, hspells, hbytes, rfl, _⟩
  exact ⟨form.lead, form.bodyBytes ++ rest, hbytes, RecordForm.length_eq_recordLength hspells.fits⟩

end Codec

/-! ## Turns -/

namespace Batch

/-- A batch between two of its records. -/
structure Progress where
  /-- Where the next record begins, if the lengths of those before it are added up. -/
  start : Nat
  headers : Array BlockHeader
  state : Decoding

namespace Progress

/-- No record was read yet, and reading stands behind the count. -/
def behindCount (codec : Codec) (reading : Reading) : Progress where
  start := reading.offset
  headers := #[]
  state := { reading, context := codec.context }

/-- What comes of reading `count` records more. -/
def readOn (codec : Codec) (count : Nat) (p : Progress) :
    EStateM.Result DecodeError Decoding (List BlockHeader) :=
  readRecords codec count p.start p.headers p.state

end Progress

/-- A record is read, and the next one is said to begin behind its length. -/
inductive Turn (codec : Codec) (p : Progress) : Progress → Prop where
  | record {header : BlockHeader} {length : Nat} {t : Decoding} :
      codec.decode p.headers.isEmpty p.state = .ok (header, length) t →
      Turn codec p
        { start := p.start + length
          headers := p.headers.push header
          state := {
            reading := t.reading.noting [.recordLocated p.headers.size p.start length]
            context := t.context.advance header } }

/-- So many records are read one after the other. -/
inductive Turns (codec : Codec) : Nat → Progress → Progress → Prop where
  | none {p : Progress} : Turns codec 0 p p
  | more {p q r : Progress} {k : Nat} : Turn codec p q → Turns codec k q r →
      Turns codec (k + 1) p r

variable {codec : Codec} {p q : Progress} {k : Nat}

/-! ## Reading is taking turns -/

theorem Turn.readOn_eq (h : Turn codec p q) (count : Nat) :
    p.readOn codec (count + 1) = q.readOn codec count := by
  cases h with
  | record hrecord => exact readRecords_succ_of_ok hrecord

theorem Turns.readOn_eq (h : Turns codec k p q) (count : Nat) :
    p.readOn codec (k + count) = q.readOn codec count := by
  induction h with
  | none => rw [Nat.zero_add]
  | @more p q r k hturn _ ih =>
      rw [Nat.add_right_comm, hturn.readOn_eq, ih]

/-- Turns are taken until no record is left, or one is refused. -/
theorem exists_turns (codec : Codec) (count : Nat) (p : Progress) :
    (∃ q, Turns codec count p q) ∨
      ∃ k q e t, k < count ∧ Turns codec k p q ∧
        codec.decode q.headers.isEmpty q.state = .error e t := by
  induction count generalizing p with
  | zero => exact Or.inl ⟨p, .none⟩
  | succ count ih =>
      cases hread : codec.decode p.headers.isEmpty p.state with
      | ok result t =>
          rcases result with ⟨header, length⟩
          rcases ih _ with ⟨q, hturns⟩ | ⟨k, q, e, u, hk, hturns, herror⟩
          · exact Or.inl ⟨q, .more (.record hread) hturns⟩
          · exact Or.inr ⟨k + 1, q, e, u, Nat.succ_lt_succ hk, .more (.record hread) hturns,
              herror⟩
      | error e t => exact Or.inr ⟨0, p, e, t, Nat.zero_lt_succ count, .none, hread⟩

/-- A batch that is read takes a turn for each of its records. -/
theorem exists_turns_of_ok {count : Nat} {headers : List BlockHeader} {t : Decoding}
    (h : p.readOn codec count = .ok headers t) :
    ∃ q, Turns codec count p q ∧ q.headers.toList = headers ∧
      t.reading.offset = q.state.reading.offset := by
  rcases exists_turns codec count p with ⟨q, hturns⟩ | ⟨k, q, e, u, hk, hturns, herror⟩
  · have hend := hturns.readOn_eq 0
    rw [Nat.add_zero, h] at hend
    have hlast : q.readOn codec 0 = _ := readRecords_zero q.state
    cases hend.trans hlast
    exact ⟨q, hturns, rfl, rfl⟩
  · -- a refused record would have been the end
    rcases Nat.exists_eq_add_of_lt hk with ⟨more, rfl⟩
    have hend := hturns.readOn_eq (more + 1)
    rw [← Nat.add_assoc, h] at hend
    have hstop : q.readOn codec (more + 1) = .error e u := readRecords_succ_of_error herror
    cases hend.trans hstop

/-! ## The running offset -/

/-- The running offset is the reader's own. -/
def Progress.IsAligned (p : Progress) : Prop :=
  p.start = p.state.reading.offset

theorem Turn.isAligned (h : Turn codec p q) (hp : p.IsAligned) : q.IsAligned := by
  cases h with
  | record hrecord => exact (congrArg (· + _) hp).trans (Codec.offset_of_decode hrecord).symm

theorem Turn.extent (h : Turn codec p q) :
    q.headers.size = p.headers.size + 1 ∧ p.start + 39 ≤ q.start ∧ q.start ≤ p.start + 81 := by
  cases h with
  | record hrecord =>
      rcases Codec.length_of_decode hrecord with ⟨hmin, hmax⟩
      exact ⟨Array.size_push _, Nat.add_le_add_left hmin _, Nat.add_le_add_left hmax _⟩

theorem Turns.isAligned (h : Turns codec k p q) (hp : p.IsAligned) : q.IsAligned := by
  induction h with
  | none => exact hp
  | more hturn _ ih => exact ih (hturn.isAligned hp)

theorem Turns.extent (h : Turns codec k p q) :
    q.headers.size = p.headers.size + k ∧
      p.start + 39 * k ≤ q.start ∧ q.start ≤ p.start + 81 * k := by
  induction h with
  | none => exact ⟨rfl, Nat.le_refl _, Nat.le_refl _⟩
  | more hturn _ ih =>
      have hfirst := hturn.extent
      omega

/-! ## Batches -/

open RecordReader

theorem exists_count_of_read {s t : Decoding} {headers : List BlockHeader}
    (h : read codec s = .ok headers t) :
    ∃ (count : UInt64) (u : Reading), CompactSize.read s.reading = .ok count u ∧
      count.toNat ≤ maxHeaders ∧
      (Progress.behindCount codec u).readOn codec count.toNat = .ok headers t := by
  cases hsize : CompactSize.read s.reading with
  | ok count u =>
      by_cases hbound : count.toNat ≤ maxHeaders
      · exact ⟨count, u, rfl, hbound, (read_of_count_le codec hsize hbound).symm.trans h⟩
      · cases h.symm.trans (read_of_lt_count codec hsize (Nat.not_le.1 hbound))
  | error e u => cases h.symm.trans (bind_of_error (ofReader_of_error hsize))

/-- A record that is read is reported with the length that reading has moved on by. It is the one
that the first byte announces, with the four bytes of a version that the table should have held, and
lies between 39 and 81. So wherever a batch begins, and however far it is read, the offset that is
kept beside the reader is the reader's own, and `k` records take between `39 * k` and `81 * k` bytes
behind the count. -/
theorem record_lengths_add_up (codec : Codec) :
    (∀ (first : Bool) (s t : Decoding) (header : BlockHeader) (length : Nat),
      codec.decode first s = .ok (header, length) t →
        t.reading.offset = s.reading.offset + length ∧
        (∃ (lead : UInt8) (body : List UInt8), s.reading.rest = lead :: body ∧
          length = (Bitfield.ofByte lead).recordLength +
            if (Bitfield.ofByte lead).selector.val ≠ 0 ∧
              s.context.versions.length < (Bitfield.ofByte lead).selector.val then 4 else 0) ∧
        39 ≤ length ∧ length ≤ 81) ∧
    (∀ (s : Decoding) (count : UInt64) (u : Reading),
      CompactSize.read s.reading = .ok count u → count.toNat ≤ maxHeaders →
        read codec s = (Progress.behindCount codec u).readOn codec count.toNat ∧
        ∀ (k : Nat) (q : Progress), Turns codec k (.behindCount codec u) q →
          (∀ more, (Progress.behindCount codec u).readOn codec (k + more) =
            q.readOn codec more) ∧
          q.start = q.state.reading.offset ∧ q.headers.size = k ∧
          u.offset + 39 * k ≤ q.start ∧ q.start ≤ u.offset + 81 * k) ∧
    ∀ (s t : Decoding) (headers : List BlockHeader), read codec s = .ok headers t →
      ∃ (count : UInt64) (u : Reading) (q : Progress),
        CompactSize.read s.reading = .ok count u ∧ count.toNat = headers.length ∧
        Turns codec headers.length (.behindCount codec u) q ∧ q.headers.toList = headers ∧
        t.reading.offset = q.start ∧
        u.offset + 39 * headers.length ≤ t.reading.offset ∧
        t.reading.offset ≤ u.offset + 81 * headers.length := by
  have hturns {k : Nat} {u : Reading} {q : Progress} (h : Turns codec k (.behindCount codec u) q) :
      q.start = q.state.reading.offset ∧ q.headers.size = k ∧
        u.offset + 39 * k ≤ q.start ∧ q.start ≤ u.offset + 81 * k := by
    rcases h.extent with ⟨hsize, hmin, hmax⟩
    exact ⟨h.isAligned rfl, hsize.trans (Nat.zero_add k), hmin, hmax⟩
  refine ⟨?_, ?_, ?_⟩
  · intro first s t header length h
    exact ⟨Codec.offset_of_decode h, Codec.decode_extent h, Codec.length_of_decode h⟩
  · intro s count u hsize hbound
    exact ⟨read_of_count_le codec hsize hbound, fun k q h => ⟨h.readOn_eq, hturns h⟩⟩
  · intro s t headers h
    rcases exists_count_of_read h with ⟨count, u, hsize, _, hread⟩
    rcases exists_turns_of_ok hread with ⟨q, hq, hheaders, hoffset⟩
    rcases hturns hq with ⟨haligned, hlength, hmin, hmax⟩
    -- as many headers as the count says
    have hcount : count.toNat = headers.length := by
      rw [← hheaders, Array.length_toList, hlength]
    have hend : t.reading.offset = q.start := hoffset.trans haligned.symm
    rw [← hcount, hend]
    exact ⟨count, u, q, hsize, rfl, hq, hheaders, rfl, hmin, hmax⟩

/-- A batch of two records, of which a lenient reader finds the second one to be 43 bytes long and
not 39; it begins behind three bytes that are none of its own. -/
theorem record_lengths_add_up_recovered :
    ∃ (rest : List UInt8) (t : Decoding),
      read ⟨.lenient, fun _ => Hash.zero⟩
          { reading := { offset := 3, rest, log := #[] }, context := .fresh fun _ => Hash.zero } =
        .ok [⟨4, Hash.zero, Hash.zero, 7, 1, 2⟩, ⟨5, Hash.zero, Hash.zero, 8, 1, 3⟩] t ∧
      t.reading.offset = 3 + 1 + 81 + 43 ∧
      (∃ (count : UInt64) (u : Reading) (q : Progress),
        Turns ⟨.lenient, fun _ => Hash.zero⟩ 2 (.behindCount ⟨.lenient, fun _ => Hash.zero⟩ u) q ∧
        CompactSize.read { offset := 3, rest, log := #[] } = .ok count u ∧
        t.reading.offset = q.start ∧ t.reading.offset ≤ u.offset + 81 * 2) ∧
      ∃ (s v : Decoding),
        Codec.decode ⟨.lenient, fun _ => Hash.zero⟩ false s =
          .ok (⟨5, Hash.zero, Hash.zero, 8, 1, 3⟩, 43) v ∧
        s.context.versions.length = 1 ∧ v.reading.offset = s.reading.offset + 43 ∧
        (Bitfield.ofByte 7).recordLength + 4 = 43 := by
  have hfirst : RecordForm.Spells .lenient (.fresh fun _ => Hash.zero) true
      ⟨0x38, some 4, some Hash.zero, Hash.zero, .full 7, some 1, 2⟩
      ⟨4, Hash.zero, Hash.zero, 7, 1, 2⟩ :=
    ⟨by decide, ⟨by decide, by decide, rfl, rfl, rfl⟩, rfl⟩
  have hsecond : RecordForm.Spells .lenient ⟨[4], ⟨Hash.zero, 7, 1⟩, fun _ => Hash.zero⟩ false
      ⟨7, some 5, none, Hash.zero, .offset 1, none, 3⟩ ⟨5, Hash.zero, Hash.zero, 8, 1, 3⟩ :=
    ⟨by decide, ⟨by decide, by decide, rfl, rfl, rfl⟩, rfl⟩
  have haccepts : Parse.Accepts ⟨.lenient, fun _ => Hash.zero⟩
      [⟨4, Hash.zero, Hash.zero, 7, 1, 2⟩, ⟨5, Hash.zero, Hash.zero, 8, 1, 3⟩] _
      ⟨2, [2], [⟨0x38, some 4, some Hash.zero, Hash.zero, .full 7, some 1, 2⟩,
        ⟨7, some 5, none, Hash.zero, .offset 1, none, 3⟩], [9]⟩ :=
    { size := CompactSize.form_encode 2
      bounded := by decide
      count := rfl
      spells := .cons hfirst (.cons hsecond .nil) }
  have hread := read_accepted haccepts 3 #[] (.fresh fun _ => Hash.zero)
  have hrecord := @Codec.decode_form ⟨.lenient, fun _ => Hash.zero⟩ _ _ _ _ hsecond [9] 85 #[]
  rcases record_lengths_add_up ⟨.lenient, fun _ => Hash.zero⟩ with ⟨hone, _, hbatch⟩
  rcases hbatch _ _ _ hread with ⟨count, u, q, hsize, _, hturns, _, hend, _, hmax⟩
  exact ⟨_, _, hread, by decide +kernel, ⟨count, u, q, hturns, hsize, hend, hmax⟩,
    _, _, hrecord, rfl, (hone _ _ _ _ _ hrecord).1, rfl⟩

end Batch
end HeaderRelay
