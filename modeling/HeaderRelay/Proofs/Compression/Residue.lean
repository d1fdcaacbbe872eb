import HeaderRelay.Proofs.Compression.Refusal

/-!
# What a refused record leaves behind

The version of a record is used as soon as it is read, and a field behind it may still be missing.
Up to the version, a refused record leaves the context as it was; behind it, the version table has
moved already. The snapshot is out of reach of both.

* `DecodeError.InVersion`, `DecodeError.BehindVersion` — errors about a record up to its version, and
  about the fields behind it;
* `Codec.UsesVersion` — the context in which the version of a record is used;
* `readVersion_cases` — reading a version uses it, or leaves the context alone;
* `decode_error_cases` — and so does a refused record;
* `snapshot_of_decode_error` — which leaves the snapshot alone.
-/

namespace HeaderRelay

/-! ## Where a record fails -/

/-- The record is wrong in its first byte, or in the version that this byte calls for. -/
def DecodeError.InVersion : DecodeError → Prop
  | truncated field _ _ _ => field = "bitfield" ∨ field = "version"
  | missingVersion _ _ => True
  | compressedFirst _ => True
  | batchTooLarge _ _ => False
  | locatorTooLarge _ _ => False

theorem Bitfield.name_of_mem_laterFields {bitfield : Bitfield} {field : Field}
    (h : field ∈ bitfield.laterFields) : field.name ≠ "bitfield" ∧ field.name ≠ "version" := by
  rcases bitfield with ⟨selector, hasPrevBlock, hasFullTimestamp, hasBits⟩
  have hall : ∀ (p t b : Bool), ∀ field ∈ laterFields ⟨0, p, t, b⟩,
      field.name ≠ "bitfield" ∧ field.name ≠ "version" := by
    decide
  exact hall hasPrevBlock hasFullTimestamp hasBits field h

/-- A field behind the version, in a record with the given first byte, is cut off. -/
def DecodeError.BehindVersion (bitfield : Bitfield) (e : DecodeError) : Prop :=
  ∃ missing ∈ bitfield.laterFields, ∃ offset available,
    e = truncated missing.name offset missing.width available

theorem DecodeError.BehindVersion.not_inVersion {bitfield : Bitfield} {e : DecodeError}
    (h : e.BehindVersion bitfield) : ¬ e.InVersion := by
  rcases h with ⟨missing, hmissing, offset, available, rfl⟩
  rcases Bitfield.name_of_mem_laterFields hmissing with ⟨hlead, hversion⟩
  rintro (heq | heq)
  · exact hlead heq
  · exact hversion heq

namespace Codec

open RecordReader

/-- With the version of a record used, of which `body` lies behind the first byte, `ctx` becomes
`after`: a version in full is saved, and the entry that the first byte names is marked. -/
inductive UsesVersion (policy : ReferencePolicy) (bitfield : Bitfield) (ctx : Context) :
    (body : List UInt8) → (after : Context) → Prop where
  | saved {version : Int32} {rest : List UInt8} :
      bitfield.LiteralDue policy ctx.versions.length →
      UsesVersion policy bitfield ctx (Writer.i32 version ++ rest) (ctx.save version)
  | marked {version : Int32} {body : List UInt8} :
      ¬ bitfield.LiteralDue policy ctx.versions.length →
      ctx.versions[bitfield.index]? = some version →
      UsesVersion policy bitfield ctx body (ctx.mark bitfield.index)

/-- The table is all that moves. -/
theorem UsesVersion.snapshot {policy : ReferencePolicy} {bitfield : Bitfield} {ctx after : Context}
    {body : List UInt8} (h : UsesVersion policy bitfield ctx body after) :
    after.previous = ctx.previous ∧ after.hasher = ctx.hasher := by
  cases h with
  | saved _ => exact ⟨rfl, rfl⟩
  | marked _ _ => exact ⟨rfl, rfl⟩

theorem readVersion_cases (policy : ReferencePolicy) (bitfield : Bitfield) (s : Decoding) :
    (∃ version t, readVersion policy bitfield s = .ok version t ∧
      UsesVersion policy bitfield s.context s.reading.rest t.context) ∨
    ∃ e t, readVersion policy bitfield s = .error e t ∧ e.InVersion ∧ t.context = s.context := by
  rcases s with ⟨⟨offset, rest, log⟩, ctx⟩
  by_cases hdue : bitfield.LiteralDue policy ctx.versions.length
  · -- four bytes are there for the version, or it is cut off
    have hread := readVersion_of_literalDue (s := ⟨⟨offset, rest, log⟩, ctx⟩) hdue
    by_cases hshort : rest.length < 4
    · have hmissing : firstMissing [⟨"version", 4⟩] rest.length = some (0, ⟨"version", 4⟩) :=
        if_pos hshort
      exact Or.inr ⟨_, _, hread.trans (readLiteralVersion_of_some hmissing), Or.inr rfl, rfl⟩
    · rcases exists_i32_append (Nat.not_lt.1 hshort) with ⟨version, rest, rfl⟩
      exact Or.inl ⟨version, _, hread.trans (readLiteralVersion_write version rest offset _ ctx),
        .saved hdue⟩
  · -- the table holds the version, or a strict reader misses it
    by_cases hknown : policy = .strict → bitfield.selector.val ≤ ctx.versions.length
    · rcases Bitfield.index_lt_of_not_literalDue hdue hknown with ⟨hselector, hindex⟩
      have hentry := List.getElem?_eq_getElem hindex
      exact Or.inl ⟨_, _, readVersion_entry hselector hentry, .marked hdue hentry⟩
    · simp only [Classical.not_imp, Nat.not_le] at hknown
      rcases hknown with ⟨rfl, hlt⟩
      exact Or.inr ⟨_, _, readVersion_missing hlt, trivial, rfl⟩

theorem readBody_error_cases {policy : ReferencePolicy} {bitfield : Bitfield} {s t : Decoding}
    {e : DecodeError} (h : readBody policy bitfield s = .error e t) :
    (e.InVersion ∧ t.context = s.context) ∨
      (e.BehindVersion bitfield ∧
        UsesVersion policy bitfield s.context s.reading.rest t.context) := by
  unfold readBody at h
  rcases readVersion_cases policy bitfield s with
    ⟨version, u, hversion, huses⟩ | ⟨e', u, herror, hinVersion, hcontext⟩
  · rw [bind_of_ok hversion, bind_of_ok (getContext_apply u)] at h
    -- the fields behind the version leave alone what its use made of the context
    rcases exists_of_ofReader_error h with ⟨⟨r, hfields⟩, hcontext⟩
    rcases (readFields_needs _ _ _).exists_of_error hfields with ⟨n, missing, hmem, rfl⟩
    exact Or.inr ⟨⟨missing, hmem, _, _, rfl⟩, hcontext ▸ huses⟩
  · cases h.symm.trans (bind_of_error herror)
    exact Or.inl ⟨hinVersion, hcontext⟩

/-- A refused record leaves the context alone if it is wrong up to the version, and otherwise leaves
it as the use of the version made it. -/
theorem decode_error_cases {codec : Codec} {first : Bool} {s t : Decoding} {e : DecodeError}
    (h : codec.decode first s = .error e t) :
    (e.InVersion ∧ t.context = s.context) ∨
      ∃ (lead : UInt8) (body : List UInt8), s.reading.rest = lead :: body ∧
        e.BehindVersion (.ofByte lead) ∧
          UsesVersion codec.policy (.ofByte lead) s.context body t.context := by
  rcases s with ⟨⟨offset, rest, log⟩, ctx⟩
  cases rest with
  | nil =>
      -- not even the first byte is there
      cases h.symm.trans (decode_nil codec first offset log ctx)
      exact Or.inl ⟨Or.inl rfl, rfl⟩
  | cons lead body =>
      by_cases hfirst : first = true → lead &&& 0x3F = 0x38
      · -- the first byte is accepted, so it is what follows it that is refused
        rw [decode_cons codec hfirst] at h
        cases hbody : readBody codec.policy (.ofByte lead) ⟨⟨offset + 1, body, log⟩, ctx⟩ with
        | ok header u => cases h.symm.trans (finish_of_ok hbody offset)
        | error e' u =>
            cases h.symm.trans (finish_of_error hbody offset)
            rcases readBody_error_cases hbody with ⟨hin, hcontext⟩ | ⟨hbehind, huses⟩
            · exact Or.inl ⟨hin, hcontext⟩
            · exact Or.inr ⟨lead, body, rfl, hbehind, huses⟩
      · simp only [Classical.not_imp] at hfirst
        rcases hfirst with ⟨rfl, hlead⟩
        cases h.symm.trans (decode_compressed codec hlead body offset log ctx)
        exact Or.inl ⟨trivial, rfl⟩

theorem snapshot_of_decode_error {codec : Codec} {first : Bool} {s t : Decoding} {e : DecodeError}
    (h : codec.decode first s = .error e t) :
    t.context.previous = s.context.previous ∧ t.context.hasher = s.context.hasher := by
  rcases decode_error_cases h with ⟨_, hcontext⟩ | ⟨_, _, _, _, huses⟩
  · rw [hcontext]
    exact ⟨rfl, rfl⟩
  · exact huses.snapshot

end Codec
end HeaderRelay
