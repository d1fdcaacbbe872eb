import HeaderRelay.Proofs.Batch.Grammar

/-!
# Strict and lenient readers

A strict and a lenient reader part at the first record that names a version beyond the table, and
nowhere else. Behind the first record of a batch the table holds a version at least, and a selector
names one of seven entries, so there are few ways of naming one that is not there.

* `Batch.SameOrMissing` — two readers come to the same, or the strict one misses an entry;
* `Codec.readVersion_sameOrMissing` — the one step in which the policy is asked for;
* `Codec.versions_ne_nil_of_decode` — a record leaves a version in the table;
* `Batch.readRecords_sameOrMissing` — records in a row;
* `Spells.strict_of_unrecovered`, `Spells.not_mem_of_strict` — records of which no entry is missing;
* `Batch.policies_differ_in_missing_entries` — whole payloads.
-/

namespace HeaderRelay

/-! ## Two readers side by side -/

namespace Batch

variable {α β : Type}

/-- The two readers come to the same, in every respect, or the strict one misses the entry at
`index` of a table that is not empty. -/
def SameOrMissing (strict lenient : EStateM.Result DecodeError Decoding α) : Prop :=
  strict = lenient ∨
    ∃ (index tableLength : Nat) (t : Decoding),
      strict = .error (.missingVersion index tableLength) t ∧
        1 ≤ tableLength ∧ tableLength ≤ index ∧ index ≤ 6

namespace SameOrMissing

theorem bind {strict lenient : RecordReader α} {next next' : α → RecordReader β} {s : Decoding}
    (hstep : SameOrMissing (strict s) (lenient s))
    (hnext : ∀ a t, strict s = .ok a t → SameOrMissing (next a t) (next' a t)) :
    SameOrMissing ((strict >>= next) s) ((lenient >>= next') s) := by
  rcases hstep with hsame | ⟨index, tableLength, t, hmissing, hbounds⟩
  · cases hstrict : strict s with
    | ok a t =>
        rw [bind_of_ok hstrict, bind_of_ok (hsame.symm.trans hstrict)]
        exact hnext a t hstrict
    | error e t =>
        rw [bind_of_error hstrict, bind_of_error (hsame.symm.trans hstrict)]
        exact Or.inl rfl
  · exact Or.inr ⟨index, tableLength, t, bind_of_error hmissing, hbounds⟩

/-- What is not asked for the policy goes on in the same way behind both readers. -/
theorem bind_same {strict lenient : RecordReader α} {s : Decoding} (next : α → RecordReader β)
    (hstep : SameOrMissing (strict s) (lenient s)) :
    SameOrMissing ((strict >>= next) s) ((lenient >>= next) s) :=
  hstep.bind fun _ _ _ => Or.inl rfl

end SameOrMissing
end Batch

/-! ## One record -/

namespace Codec

open RecordReader
open Batch (SameOrMissing)

theorem readVersion_sameOrMissing {bitfield : Bitfield} {s : Decoding}
    (hknown : bitfield.selector.val ≠ 0 → s.context.versions ≠ []) :
    SameOrMissing (readVersion .strict bitfield s) (readVersion .lenient bitfield s) := by
  by_cases hzero : bitfield.selector.val = 0
  · -- the version follows, and no policy is asked
    have hstrict : bitfield.LiteralDue .strict s.context.versions.length := Or.inl hzero
    have hlenient : bitfield.LiteralDue .lenient s.context.versions.length := Or.inl hzero
    refine Or.inl ?_
    rw [readVersion_of_literalDue hstrict, readVersion_of_literalDue hlenient]
  · by_cases hlt : s.context.versions.length < bitfield.selector.val
    · have hlength : 0 < s.context.versions.length := List.length_pos_iff.2 (hknown hzero)
      have hselector : bitfield.selector.val < 8 := bitfield.selector.isLt
      refine Or.inr ⟨bitfield.index, s.context.versions.length, s, readVersion_missing hlt,
        hlength, ?_, ?_⟩
      · exact Nat.le_sub_one_of_lt hlt
      · exact Nat.sub_le_of_le_add (Nat.le_of_lt_succ hselector)
    · have hindex : bitfield.index < s.context.versions.length :=
        Nat.lt_of_lt_of_le (Nat.sub_one_lt hzero) (Nat.not_lt.1 hlt)
      have hentry := List.getElem?_eq_getElem hindex
      refine Or.inl ?_
      rw [readVersion_entry hzero hentry, readVersion_entry hzero hentry]

theorem finish_sameOrMissing {bitfield : Bitfield} {s : Decoding}
    (hknown : bitfield.selector.val ≠ 0 → s.context.versions ≠ []) (start : Nat) :
    SameOrMissing (finish .strict start bitfield s) (finish .lenient start bitfield s) := by
  have hbody : SameOrMissing (readBody .strict bitfield s) (readBody .lenient bitfield s) :=
    (readVersion_sameOrMissing hknown).bind_same _
  exact hbody.bind_same _

/-- The first record of a batch is explicit, so that only a later one can name an entry. -/
theorem decode_sameOrMissing {hasher : Hasher} {first : Bool} {s : Decoding}
    (hknown : first = false → s.context.versions ≠ []) :
    SameOrMissing (decode ⟨.strict, hasher⟩ first s) (decode ⟨.lenient, hasher⟩ first s) := by
  rcases s with ⟨⟨offset, rest, log⟩, ctx⟩
  cases rest with
  | nil =>
      refine Or.inl ?_
      rw [decode_nil, decode_nil]
  | cons lead rest =>
      by_cases hfirst : first = true → lead &&& 0x3F = 0x38
      · rw [decode_cons _ hfirst, decode_cons _ hfirst]
        apply finish_sameOrMissing
        intro hselector
        apply hknown
        -- an explicit bitfield has no selector
        refine Bool.eq_false_iff.2 fun htrue => ?_
        have hexplicit := (Bitfield.ofByte_eq_explicit_iff lead).2 (hfirst htrue)
        exact hselector (congrArg (fun bitfield => bitfield.selector.val) hexplicit)
      · simp only [Classical.not_imp] at hfirst
        rcases hfirst with ⟨rfl, hlead⟩
        refine Or.inl ?_
        rw [decode_compressed _ hlead, decode_compressed _ hlead]

theorem versions_ne_nil_of_decode {codec : Codec} {first : Bool} {s t : Decoding}
    {header : BlockHeader} {length : Nat} (h : codec.decode first s = .ok (header, length) t) :
    t.context.versions ≠ [] := by
  rcases exists_form_of_decode h with ⟨form, hspells, hcontext⟩
  rcases RecordForm.header?_eq_some_iff.1 hspells.meaning with ⟨hversion, _⟩
  rw [hcontext]
  show form.tableAfter s.context.versions ≠ []
  cases hliteral : form.version with
  | some version =>
      rw [RecordForm.tableAfter_eq_save hliteral]
      exact List.cons_ne_nil _ _
  | none =>
      simp only [RecordForm.version?, hliteral] at hversion
      simp only [RecordForm.tableAfter, hliteral, hversion]
      exact List.cons_ne_nil _ _

end Codec

/-! ## Whole payloads -/

namespace Batch

theorem readRecords_sameOrMissing {hasher : Hasher} (count start : Nat) {acc : Array BlockHeader}
    {s : Decoding} (hknown : acc.isEmpty = false → s.context.versions ≠ []) :
    SameOrMissing (readRecords ⟨.strict, hasher⟩ count start acc s)
      (readRecords ⟨.lenient, hasher⟩ count start acc s) := by
  induction count generalizing start acc s with
  | zero => exact Or.inl rfl
  | succ count ih =>
      apply (Codec.decode_sameOrMissing hknown).bind
      rintro ⟨header, length⟩ t hdecode
      -- where both read on, the record left its version in the table
      have hversions : t.context.versions ≠ [] := Codec.versions_ne_nil_of_decode hdecode
      exact ih (start + length) fun _ => hversions

theorem read_sameOrMissing (hasher : Hasher) (s : Decoding) :
    SameOrMissing (read ⟨.strict, hasher⟩ s) (read ⟨.lenient, hasher⟩ s) := by
  have hcount : SameOrMissing (RecordReader.ofReader CompactSize.read s)
      (RecordReader.ofReader CompactSize.read s) := Or.inl rfl
  apply hcount.bind
  intro count t _
  by_cases hlt : maxHeaders < count.toNat
  · refine Or.inl ?_
    rw [if_pos hlt, if_pos hlt]
  · rw [if_neg hlt, if_neg hlt]
    exact readRecords_sameOrMissing count.toNat t.reading.offset nofun

theorem decodeIn_sameOrMissing (hasher : Hasher) (ctx : Context) (payload : List UInt8) :
    SameOrMissing (decodeIn ⟨.strict, hasher⟩ ctx payload)
      (decodeIn ⟨.lenient, hasher⟩ ctx payload) :=
  (read_sameOrMissing hasher _).bind_same _

end Batch

/-! ## Records whose entries are all there -/

theorem RecordForm.Fits.strict {tableLength : Nat} {form : RecordForm}
    (h : form.Fits .lenient tableLength) (hknown : form.bitfield.selector.val ≤ tableLength) :
    form.Fits .strict tableLength where
  version := by
    refine h.version.trans ⟨?_, ?_⟩
    · rintro (hzero | ⟨_, hlt⟩)
      · exact Or.inl hzero
      · exact absurd hlt (Nat.not_lt.2 hknown)
    · rintro (hzero | ⟨hpolicy, _⟩)
      · exact Or.inl hzero
      · cases hpolicy
  known := fun _ => hknown
  prevBlock := h.prevBlock
  time := h.time
  bits := h.bits

namespace Batch

/-- Forms that mean headers to a lenient reader, who did not have to recover any version, mean the
same to a strict one. -/
theorem Spells.strict_of_unrecovered {ctx last : Context} {first : Bool}
    {forms : List RecordForm} {headers : List BlockHeader}
    (h : Spells .lenient ctx first forms headers last) (index start : Nat)
    (hnone : ∀ selected tableLength, Event.versionRecovered selected tableLength ∉
      runEvents ctx.versions index start forms) :
    Spells .strict ctx first forms headers last := by
  induction h generalizing index start with
  | nil => exact .nil
  | @cons ctx last first form header forms headers hform _ ih =>
      -- a missing entry is reported in front of everything else about the record
      have hknown : form.bitfield.selector.val ≤ ctx.versions.length := by
        apply Nat.not_lt.1
        intro hlt
        apply hnone form.bitfield.index ctx.versions.length
        simp [runEvents, RecordForm.events, Bitfield.recovery, hlt]
      refine .cons ⟨hform.explicit, hform.fits.strict hknown, hform.meaning⟩
        (ih (index + 1) (start + form.bytes.length) ?_)
      intro selected tableLength hlater
      apply hnone selected tableLength
      rw [runEvents]
      exact List.mem_append_right _ (List.mem_cons_of_mem _ hlater)

/-- A strict reader does not recover anything. -/
theorem Spells.not_mem_of_strict {ctx last : Context} {first : Bool} {forms : List RecordForm}
    {headers : List BlockHeader} (h : Spells .strict ctx first forms headers last)
    (index start selected tableLength : Nat) :
    Event.versionRecovered selected tableLength ∉ runEvents ctx.versions index start forms := by
  induction h generalizing index start with
  | nil => exact List.not_mem_nil
  | @cons ctx last first form header forms headers hform _ ih =>
      have hheld : ¬ ctx.versions.length < form.bitfield.selector.val :=
        Nat.not_lt.2 (hform.fits.known rfl)
      intro hevent
      rw [runEvents, RecordForm.events, Bitfield.recovery, if_neg hheld, List.nil_append] at hevent
      have hlater : Event.versionRecovered selected tableLength ∈
          runEvents (form.tableAfter ctx.versions) (index + 1) (start + form.bytes.length) forms := by
        simpa using hevent
      exact ih (index + 1) (start + form.bytes.length) hlater

theorem Parse.recovered_mem_iff (parse : Parse) (selected tableLength : Nat) :
    Event.versionRecovered selected tableLength ∈
        (parse.events 0 ++ parse.ignored).toArray ↔
      Event.versionRecovered selected tableLength ∈
        runEvents [] 0 (0 + parse.size.length) parse.forms := by
  unfold Parse.events Parse.ignored
  cases parse.trailing with
  | nil => simp
  | cons byte trailing => simp

theorem Parse.Accepts.strict_of_unrecovered {hasher : Hasher} {parse : Parse}
    {headers : List BlockHeader} {last : Context}
    (h : parse.Accepts ⟨.lenient, hasher⟩ headers last)
    (hnone : ∀ selected tableLength, Event.versionRecovered selected tableLength ∉
      (parse.events 0 ++ parse.ignored).toArray) :
    parse.Accepts ⟨.strict, hasher⟩ headers last where
  size := h.size
  bounded := h.bounded
  count := h.count
  spells := by
    simp only [parse.recovered_mem_iff] at hnone
    exact h.spells.strict_of_unrecovered 0 _ hnone

/-- Of one payload, in one context, a strict and a lenient reader make the same in every respect, or
the strict one refuses an entry beyond the end of a table that holds something. What the strict one
reads is therefore read by the lenient one, and what the lenient one reads is read by the strict one
exactly if no missing entry is reported. -/
theorem policies_differ_in_missing_entries (hasher : Hasher) (ctx : Context)
    (payload : List UInt8) :
    (decodeIn ⟨.strict, hasher⟩ ctx payload = decodeIn ⟨.lenient, hasher⟩ ctx payload ∨
      ∃ (index tableLength : Nat) (t : Decoding),
        decodeIn ⟨.strict, hasher⟩ ctx payload = .error (.missingVersion index tableLength) t ∧
          1 ≤ tableLength ∧ tableLength ≤ index ∧ index ≤ 6) ∧
    (∀ (headers : List BlockHeader) (t : Decoding),
      decodeIn ⟨.strict, hasher⟩ ctx payload = .ok headers t →
        decodeIn ⟨.lenient, hasher⟩ ctx payload = .ok headers t) ∧
    (∀ (headers : List BlockHeader) (t : Decoding),
      decodeIn ⟨.lenient, hasher⟩ ctx payload = .ok headers t →
        (decodeIn ⟨.strict, hasher⟩ ctx payload = .ok headers t ↔
          ∀ selected tableLength,
            Event.versionRecovered selected tableLength ∉ t.reading.log)) := by
  have hsides := decodeIn_sameOrMissing hasher ctx payload
  refine ⟨hsides, ?_, ?_⟩
  · intro headers t hstrict
    rcases hsides with hsame | ⟨index, tableLength, u, hmissing, _⟩
    · exact hsame.symm.trans hstrict
    · cases hstrict.symm.trans hmissing
  · intro headers t hlenient
    constructor
    · intro hstrict selected tableLength
      rcases exists_parse_of_decodeIn hstrict with ⟨parse, last, rfl, haccepts⟩
      cases hstrict.symm.trans (decodeIn_accepted haccepts ctx)
      rw [parse.recovered_mem_iff]
      exact haccepts.spells.not_mem_of_strict 0 _ selected tableLength
    · intro hnone
      rcases exists_parse_of_decodeIn hlenient with ⟨parse, last, rfl, haccepts⟩
      cases hlenient.symm.trans (decodeIn_accepted haccepts ctx)
      exact decodeIn_accepted (haccepts.strict_of_unrecovered hnone) ctx

/-- Two payloads whose second record names an entry: the first one, which is there and is the same to
both readers, and the fourth one, which is not, so that the lenient reader goes on with the version
behind the first byte. -/
theorem policies_differ_in_missing_entries_fourth :
    ∃ (known missing : List UInt8) (s t u : Decoding),
      (decodeIn ⟨.lenient, fun _ => Hash.zero⟩ (.fresh BlockHeader.sha256d) known =
          .ok [⟨4, Hash.zero, Hash.zero, 0, 1, 2⟩, ⟨4, Hash.zero, Hash.zero, 600, 1, 3⟩] s ∧
        decodeIn ⟨.strict, fun _ => Hash.zero⟩ (.fresh BlockHeader.sha256d) known =
          .ok [⟨4, Hash.zero, Hash.zero, 0, 1, 2⟩, ⟨4, Hash.zero, Hash.zero, 600, 1, 3⟩] s) ∧
      decodeIn ⟨.lenient, fun _ => Hash.zero⟩ (.fresh BlockHeader.sha256d) missing =
        .ok [⟨4, Hash.zero, Hash.zero, 0, 1, 2⟩, ⟨5, Hash.zero, Hash.zero, 600, 1, 3⟩] t ∧
      decodeIn ⟨.strict, fun _ => Hash.zero⟩ (.fresh BlockHeader.sha256d) missing =
        .error (.missingVersion 3 1) u := by
  have hfirst (policy : ReferencePolicy) : RecordForm.Spells policy
      (.fresh fun _ => Hash.zero) true
      ⟨0x38, some 4, some Hash.zero, Hash.zero, .full 0, some 1, 2⟩
      ⟨4, Hash.zero, Hash.zero, 0, 1, 2⟩ :=
    ⟨by decide, ⟨by cases policy <;> decide, fun _ => Nat.zero_le _, rfl, rfl, rfl⟩, rfl⟩
  have hcount : CompactSize.Form (2 : UInt8).toUInt64 [2] := .one (by decide)
  have hknown : Parse.Accepts ⟨.lenient, fun _ => Hash.zero⟩
      [⟨4, Hash.zero, Hash.zero, 0, 1, 2⟩, ⟨4, Hash.zero, Hash.zero, 600, 1, 3⟩] _
      ⟨2, [2],
        [⟨0x38, some 4, some Hash.zero, Hash.zero, .full 0, some 1, 2⟩,
          ⟨1, none, none, Hash.zero, .offset 600, none, 3⟩], []⟩ :=
    { size := hcount
      bounded := by decide
      count := rfl
      spells := .cons (hfirst .lenient)
        (.cons ⟨by decide, ⟨by decide, by decide, rfl, rfl, rfl⟩, rfl⟩ .nil) }
  have hmissing : Parse.Accepts ⟨.lenient, fun _ => Hash.zero⟩
      [⟨4, Hash.zero, Hash.zero, 0, 1, 2⟩, ⟨5, Hash.zero, Hash.zero, 600, 1, 3⟩] _
      ⟨2, [2],
        [⟨0x38, some 4, some Hash.zero, Hash.zero, .full 0, some 1, 2⟩,
          ⟨4, some 5, none, Hash.zero, .offset 600, none, 3⟩], []⟩ :=
    { size := hcount
      bounded := by decide
      count := rfl
      spells := .cons (hfirst .lenient)
        (.cons ⟨by decide, ⟨by decide, by decide, rfl, rfl, rfl⟩, rfl⟩ .nil) }
  have hread := decodeIn_accepted hknown (.fresh BlockHeader.sha256d)
  have hlog :
      Parse.events 0
          ⟨2, [2],
            [⟨0x38, some 4, some Hash.zero, Hash.zero, .full 0, some 1, 2⟩,
              ⟨1, none, none, Hash.zero, .offset 600, none, 3⟩], []⟩ =
        [.recordDecoded 0x38 81, .recordLocated 0 1 81, .recordDecoded 1 39,
          .recordLocated 1 82 39, .batchDecoded 2 121] := by decide +kernel
  have hsame := ((policies_differ_in_missing_entries _ _ _).2.2 _ _ hread).2 (by
    rw [hlog]
    intro selected tableLength hevent
    simp [Parse.ignored] at hevent)
  have hrefused (offset : Nat) (body : List UInt8) :
      RecordForm.Refused .strict false 1 offset (4 :: body) (.missingVersion 3 1) :=
    .missingVersion nofun rfl (by decide)
  have hrejects (body : List UInt8) :
      Rejects ⟨.strict, fun _ => Hash.zero⟩ _ (.missingVersion 3 1) :=
    .record hcount (by decide) (by decide) (.cons (hfirst .strict) .nil) (hrefused _ body)
  rcases decodeIn_rejected (hrejects _) (.fresh BlockHeader.sha256d) with ⟨u, hstrict⟩
  exact ⟨_, _, _, _, u, ⟨hread, hsame⟩, decodeIn_accepted hmissing _, hstrict⟩

end Batch
end HeaderRelay
