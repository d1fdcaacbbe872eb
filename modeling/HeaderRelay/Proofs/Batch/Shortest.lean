import HeaderRelay.Proofs.Batch.RoundTrip
import HeaderRelay.Proofs.Compression.Recency

/-!
# The writer's payload is the shortest

Whatever records another payload for the same headers has, each is at least as long as the
writer's: what it leaves out follows from the context, and then the writer leaves it out as well.
The one exception is a timestamp that an offset reaches only by wrapping around, which the writer
gives in full.

* `TimeField.Wraps`, `Parse.wraps` — offsets that wrap around, and how many a payload has;
* `compress_length_le` — the writer's record is as short as any form that means the same header;
* `records_length_le` — and so are its records in a row;
* `encode_is_shortest` — the writer's payload is as short as any that is read as the same headers.
-/

namespace HeaderRelay

/-! ## Timestamps that wrap around -/

namespace TimeField

/-- The offset leads out of the range of timestamps. -/
def Wraps (previous : UInt32) : TimeField → Prop
  | full _ => False
  | offset seconds =>
      (previous.toNat : Int) + seconds.toInt < 0 ∨
        (UInt32.size : Int) ≤ (previous.toNat : Int) + seconds.toInt

instance (previous : UInt32) (time : TimeField) : Decidable (time.Wraps previous) :=
  match time with
  | full _ => inferInstanceAs (Decidable False)
  | offset _ => inferInstanceAs (Decidable (_ ∨ _))

def wrapCount (previous : UInt32) (time : TimeField) : Nat :=
  if time.Wraps previous then 1 else 0

theorem length_bytes_le (time : TimeField) : time.bytes.length ≤ 4 := by
  rw [length_bytes]
  split <;> decide

theorem isShort_of_not_wraps {previous : UInt32} {seconds : Int16}
    (h : ¬ (offset seconds).Wraps previous) :
    IsShort previous ((offset seconds).resolve previous) := by
  simp only [Wraps, UInt32.size] at h
  have hlow := seconds.le_toInt
  have hhigh := seconds.toInt_lt
  -- the sum is a timestamp as it stands
  have hexact : ((offset seconds).resolve previous).toNat =
      (previous.toNat : Int) + seconds.toInt := by
    rw [resolve, UInt32.ofInt, UInt32.toNat_ofNat']
    omega
  unfold IsShort
  rw [hexact]
  omega

/-- The writer's field for a timestamp is longer than another only where that one wraps around. -/
theorem length_since_le (previous : UInt32) (time : TimeField) :
    (since previous (time.resolve previous)).bytes.length ≤
      time.bytes.length + 2 * time.wrapCount previous := by
  have hfour := length_bytes_le (since previous (time.resolve previous))
  cases time with
  | full timestamp =>
      have hlength : (full timestamp).bytes.length = 4 := Writer.length_u32 timestamp
      omega
  | offset seconds =>
      have hlength : (offset seconds).bytes.length = 2 := Writer.length_i16 seconds
      -- a wrapped offset may cost the writer four bytes in place of two
      by_cases hwraps : (offset seconds).Wraps previous
      · rw [wrapCount, if_pos hwraps, hlength]
        exact hfour
      · rw [since_of_isShort (isShort_of_not_wraps hwraps), length_bytes, hlength]
        exact Nat.le_add_right 2 _

end TimeField

/-! ## Lengths of forms -/

theorem optional_le {α : Type} {shorter longer : Option α}
    (h : shorter.isSome → longer.isSome) (width : Nat) :
    (if shorter.isSome then width else 0) ≤ if longer.isSome then width else 0 := by
  by_cases hshorter : shorter.isSome
  · exact Nat.le_of_eq ((if_pos hshorter).trans (if_pos (h hshorter)).symm)
  · rw [if_neg hshorter]
    exact Nat.zero_le _

namespace RecordForm

/-- A form that has no field that another one has not is no longer, up to the timestamp. -/
theorem length_bytes_le {shorter longer : RecordForm} {extra : Nat}
    (hversion : shorter.version.isSome → longer.version.isSome)
    (hprevBlock : shorter.prevBlock.isSome → longer.prevBlock.isSome)
    (hbits : shorter.bits.isSome → longer.bits.isSome)
    (htime : shorter.time.bytes.length ≤ longer.time.bytes.length + extra) :
    shorter.bytes.length ≤ longer.bytes.length + extra := by
  have hversion' := optional_le hversion 4
  have hprevBlock' := optional_le hprevBlock 32
  have hbits' := optional_le hbits 4
  rw [length_bytes, length_bytes]
  omega

theorem Fits.isSome_of_explicit {policy : ReferencePolicy} {tableLength : Nat}
    {form : RecordForm} (h : form.Fits policy tableLength)
    (hlead : form.lead &&& 0x3F = 0x38) :
    form.version.isSome ∧ form.prevBlock.isSome ∧ form.time.isFull ∧ form.bits.isSome := by
  have hexplicit : form.bitfield = Bitfield.explicit :=
    (Bitfield.ofByte_eq_explicit_iff form.lead).2 hlead
  have hversion := h.version
  have hprevBlock := h.prevBlock
  have htime := h.time
  have hbits := h.bits
  rw [hexplicit] at hversion hprevBlock htime hbits
  exact ⟨hversion.2 (Or.inl rfl), hprevBlock, htime, hbits⟩

theorem mem_of_version_eq_none {form : RecordForm} {ctx : Context} {header : BlockHeader}
    (hheader : form.header? ctx = some header) (hnone : form.version = none) :
    header.version ∈ ctx.versions := by
  have hversion := (header?_eq_some_iff.1 hheader).1
  simp only [version?, hnone] at hversion
  exact List.mem_of_getElem? hversion

end RecordForm

/-! ## Record by record -/

theorem isSome_of_getD_eq {α : Type} [DecidableEq α] {value : Option α} {a default : α}
    (h : a = value.getD default) (hsome : (if a = default then none else some a).isSome) :
    value.isSome := by
  cases value with
  | none =>
      have heq : a = default := h
      simp [heq] at hsome
  | some b => rfl

/-- The writer's record is as short as any form that means the same header to a reader, but for
the two bytes that a wrapped timestamp saves. -/
theorem compress_length_le {writer reader : Context} (h : writer.Leads reader)
    {policy : ReferencePolicy} {first : Bool} {form : RecordForm} {header : BlockHeader}
    (hspells : form.Spells policy reader first header) :
    (writer.compress first header).1.bytes.length ≤
      form.bytes.length + 2 * form.time.wrapCount reader.previous.timestamp := by
  rw [← Record.bytes_form]
  cases first with
  | true =>
      -- both are explicit
      rcases hspells.fits.isSome_of_explicit (hspells.explicit rfl) with
        ⟨hversion, hprevBlock, htime, hbits⟩
      refine RecordForm.length_bytes_le (fun _ => hversion) (fun _ => hprevBlock)
        (fun _ => hbits) ?_
      rw [TimeField.length_bytes form.time, if_pos htime]
      exact Nat.le_add_right_of_le (TimeField.length_bytes_le _)
  | false =>
      -- what the form leaves out is what the writer's snapshot holds as well
      have hheader := (RecordForm.header?_eq_some_iff.1 hspells.meaning).2
      rw [h.previous] at hheader ⊢
      have hprevBlock : header.prevBlock = form.prevBlock.getD writer.previous.hash :=
        (congrArg BlockHeader.prevBlock hheader).symm
      have hbits : header.bits = form.bits.getD writer.previous.bits :=
        (congrArg BlockHeader.bits hheader).symm
      have htimestamp : header.timestamp = form.time.resolve writer.previous.timestamp :=
        (congrArg BlockHeader.timestamp hheader).symm
      rw [Context.compress_false]
      refine RecordForm.length_bytes_le ?_ (isSome_of_getD_eq hprevBlock)
        (isSome_of_getD_eq hbits) ?_
      · intro hwritten
        cases hnone : form.version with
        | some version => rfl
        | none =>
            -- the reader knows the version, and hence the writer does
            have hmem : header.version ∈ reader.versions.eraseDups :=
              List.mem_eraseDups.2 (RecordForm.mem_of_version_eq_none hspells.meaning hnone)
            rcases writer.referTo_cases header.version with ⟨index, hrefer, _⟩ | ⟨_, hnew⟩
            · rw [hrefer] at hwritten
              exact hwritten
            · exact absurd (h.distinct.subset hmem) hnew
      · have hsince := TimeField.length_since_le writer.previous.timestamp form.time
        rw [← htimestamp] at hsince
        exact hsince

namespace Batch

/-- The timestamps of forms in a row that are reached by wrapping around. -/
def wrapCount : (previous : UInt32) → List RecordForm → Nat
  | _, [] => 0
  | previous, form :: forms =>
      form.time.wrapCount previous + wrapCount (form.time.resolve previous) forms

/-- The writer's records are as short as any forms in a row that mean the same headers, but for
two bytes for each timestamp that wraps around. -/
theorem records_length_le {writer reader : Context} (h : writer.Leads reader)
    {policy : ReferencePolicy} {first : Bool} (hfirst : first = true → writer.versions = [])
    {forms : List RecordForm} {headers : List BlockHeader} {last : Context}
    (hspells : Spells policy reader first forms headers last) :
    ((recordsFrom writer first headers).1.flatMap Record.bytes).length ≤
      (formBytes forms).length + 2 * wrapCount reader.previous.timestamp forms := by
  induction hspells generalizing writer with
  | nil => exact Nat.zero_le _
  | @cons reader last first form header forms headers hform _ ih =>
      -- the step keeps the writer in the lead, so the rest is no longer either
      have hrecord := compress_length_le h hform
      have hrest := ih (h.step hfirst hform) (fun hfalse => Bool.noConfusion hfalse)
      have hheader := (RecordForm.header?_eq_some_iff.1 hform.meaning).2
      have hprevious : (form.next reader header).previous.timestamp =
          form.time.resolve reader.previous.timestamp :=
        (congrArg BlockHeader.timestamp hheader).symm
      rw [hprevious] at hrest
      rw [recordsFrom_cons, List.flatMap_cons, List.length_append, formBytes_cons,
        List.length_append, wrapCount]
      omega

/-- Records of a payload whose timestamps are reached by wrapping around. -/
def Parse.wraps (parse : Parse) : Nat :=
  wrapCount 0 parse.forms

/-- A payload that is read as `headers` can be taken apart, and however this is done, the writer has
a payload for these headers, from which they are read again, and which is as short as the part that
was read, but for two bytes for each timestamp that wraps around. Hence no payload without such
timestamps is shorter than the writer's. -/
theorem encode_is_shortest {codec : Codec} {payload : List UInt8} {headers : List BlockHeader}
    {s : Reading} (h : decode codec payload = .ok headers s) :
    (∃ (parse : Parse) (last : Context),
      parse.bytes = payload ∧ parse.Accepts codec headers last) ∧
    ∀ (parse : Parse) (last : Context), parse.bytes = payload →
      parse.Accepts codec headers last →
        parse.length = s.offset ∧
        ∃ encoded, encode codec headers = .ok encoded ∧
          outcome (decode codec encoded.bytes) = .ok headers ∧
          encoded.bytes.length ≤ s.offset + 2 * parse.wraps ∧
          (parse.wraps = 0 → encoded.bytes.length ≤ s.offset) := by
  refine ⟨exists_parse_of_decode h, ?_⟩
  rintro parse last rfl haccepts
  have hoffset : parse.length = s.offset := by
    rw [decode_accepted haccepts] at h
    cases h
    rfl
  have hcount : headers.length = parse.count.toNat := by
    rw [← haccepts.spells.length_eq, haccepts.count]
  have hbound : headers.length ≤ maxHeaders := by
    rw [hcount]
    exact haccepts.bounded
  rcases encode_of_length_le hbound codec with ⟨encoded, hencode, hbytes⟩
  have hsize : (CompactSize.encodeLength headers).length ≤ parse.size.length := by
    rw [CompactSize.encodeLength, CompactSize.length_encode, hcount, UInt64.ofNat_toNat]
    exact CompactSize.length_le_of_form haccepts.size
  have hrecords := records_length_le (Context.leads_fresh codec.hasher) (fun _ => rfl)
    haccepts.spells
  have hlength : encoded.bytes.length ≤ s.offset + 2 * parse.wraps := by
    rw [hbytes, List.length_append, ← hoffset]
    calc
      (CompactSize.encodeLength headers).length +
            ((records codec headers).flatMap Record.bytes).length
          ≤ parse.size.length + ((formBytes parse.forms).length + 2 * parse.wraps) :=
            Nat.add_le_add hsize hrecords
      _ = parse.length + 2 * parse.wraps := by
            rw [Parse.length, Nat.add_assoc]
  refine ⟨hoffset, encoded, hencode, outcome_decode_encoded hencode, hlength, ?_⟩
  intro hnone
  rwa [hnone] at hlength

/-- A count in three bytes, a reserved bit in the first record, and in the second a timestamp one
below zero: the writer saves the two bytes of the count that it spends on the timestamp. -/
theorem encode_is_shortest_wrapped :
    ∃ s encoded,
      decode ⟨.strict, fun _ => Hash.zero⟩
          (Parse.bytes ⟨2, [0xFD, 2, 0],
            [⟨0xB8, some 4, some Hash.zero, Hash.zero, .full 0, some 1, 2⟩,
              ⟨1, none, none, Hash.zero, .offset (-1), none, 3⟩], [9]⟩) =
        .ok [⟨4, Hash.zero, Hash.zero, 0, 1, 2⟩, ⟨4, Hash.zero, Hash.zero, 0xFFFFFFFF, 1, 3⟩] s ∧
      encode ⟨.strict, fun _ => Hash.zero⟩
          [⟨4, Hash.zero, Hash.zero, 0, 1, 2⟩, ⟨4, Hash.zero, Hash.zero, 0xFFFFFFFF, 1, 3⟩] =
        .ok encoded ∧
      outcome (decode ⟨.strict, fun _ => Hash.zero⟩ encoded.bytes) =
        .ok [⟨4, Hash.zero, Hash.zero, 0, 1, 2⟩, ⟨4, Hash.zero, Hash.zero, 0xFFFFFFFF, 1, 3⟩] ∧
      encoded.bytes.length ≤ s.offset + 2 := by
  have haccepts : Parse.Accepts ⟨.strict, fun _ => Hash.zero⟩
      [⟨4, Hash.zero, Hash.zero, 0, 1, 2⟩, ⟨4, Hash.zero, Hash.zero, 0xFFFFFFFF, 1, 3⟩] _
      ⟨2, [0xFD, 2, 0],
        [⟨0xB8, some 4, some Hash.zero, Hash.zero, .full 0, some 1, 2⟩,
          ⟨1, none, none, Hash.zero, .offset (-1), none, 3⟩], [9]⟩ :=
    { size := CompactSize.Form.two 2
      bounded := by decide
      count := rfl
      spells :=
        .cons ⟨by decide, ⟨by decide, by decide, rfl, rfl, rfl⟩, rfl⟩
          (.cons ⟨by decide, ⟨by decide, by decide, rfl, rfl, rfl⟩, rfl⟩ .nil) }
  have hwraps : wrapCount 0
      [⟨0xB8, some 4, some Hash.zero, Hash.zero, .full 0, some 1, 2⟩,
        ⟨1, none, none, Hash.zero, .offset (-1), none, 3⟩] = 1 := by decide
  have hdecode := decode_accepted haccepts
  rcases (encode_is_shortest hdecode).2 _ _ rfl haccepts with
    ⟨_, encoded, hencode, hagain, hlength, _⟩
  rw [Parse.wraps, hwraps] at hlength
  exact ⟨_, encoded, hdecode, hencode, hagain, hlength⟩

end Batch
end HeaderRelay
