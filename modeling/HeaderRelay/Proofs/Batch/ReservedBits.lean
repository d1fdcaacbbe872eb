import HeaderRelay.Proofs.Batch.Grammar

/-!
# Reserved bits carry nothing

Two payloads that differ in reserved bits only are read alike. Which bytes have reserved bits
depends on everything that was read before them: a record begins where the one in front of it ends,
and its length depends on its first byte, on the version table and on the policy.

* `Batch.leadPlaces` — the places of the first bytes of the records of a payload;
* `SameUpToReserved` — bytes that differ in the reserved bits at some places, and in nothing else;
* `decode_lead_congr` — the reserved bits of one record make no difference;
* `readRecords_congr` — nor do those of records in a row;
* `reserved_bits_are_ignored` — nor do those of a payload, whether or not it is accepted.
-/

namespace HeaderRelay

/-! ## Places -/

namespace Batch

/-- The places of the first bytes of at most `count` records, the first of which begins at `offset`
and is read in `ctx`. Behind a record that is refused, no other begins. -/
def leadPlacesFrom (codec : Codec) :
    (count : Nat) → (first : Bool) → (offset : Nat) → (ahead : List UInt8) → Context → List Nat
  | 0, _, _, _, _ => []
  | count + 1, first, offset, ahead, ctx =>
      let s : Decoding := { reading := { offset, rest := ahead, log := #[] }, context := ctx }
      offset ::
        match codec.decode first s with
        | .ok (header, _) t =>
            leadPlacesFrom codec count false t.reading.offset t.reading.rest
              (t.context.advance header)
        | .error _ _ => []

/-- The places of the first bytes of the records of a payload, as far as it is read. -/
def leadPlaces (codec : Codec) (payload : List UInt8) : List Nat :=
  match CompactSize.read (.start payload) with
  | .ok count t =>
      if count.toNat ≤ maxHeaders then
        leadPlacesFrom codec count.toNat true t.offset t.rest codec.context
      else
        []
  | .error _ _ => []

section Places

variable {codec : Codec} {count offset : Nat} {first : Bool} {ctx : Context}

theorem leadPlacesFrom_spells {form : RecordForm} {header : BlockHeader}
    (h : form.Spells codec.policy ctx first header) (rest : List UInt8) :
    leadPlacesFrom codec (count + 1) first offset (form.bytes ++ rest) ctx =
      offset ::
        leadPlacesFrom codec count false (offset + form.bytes.length) rest
          (form.next ctx header) := by
  simp only [leadPlacesFrom, Codec.decode_form h]
  rfl

theorem leadPlacesFrom_refused {ahead : List UInt8} {e : DecodeError}
    (h : RecordForm.Refused codec.policy first ctx.versions.length offset ahead e) :
    leadPlacesFrom codec (count + 1) first offset ahead ctx = [offset] := by
  rcases Codec.decode_refused (s := ⟨⟨offset, ahead, #[]⟩, ctx⟩) h with ⟨t, ht⟩
  simp only [leadPlacesFrom, ht]

/-- No record begins before the first one does. -/
theorem le_of_mem_leadPlacesFrom {ahead : List UInt8} {place : Nat}
    (h : place ∈ leadPlacesFrom codec count first offset ahead ctx) : offset ≤ place := by
  induction count generalizing first offset ahead ctx with
  | zero => cases h
  | succ count ih =>
      rcases RecordForm.form_or_refused codec.policy first ctx.versions.length offset ahead with
        ⟨form, rest, hfirst, hfits, rfl⟩ | ⟨e, hrefused⟩
      · rcases hfits.exists_header with ⟨header, hheader⟩
        rw [leadPlacesFrom_spells ⟨hfirst, hfits, hheader⟩, List.mem_cons] at h
        rcases h with rfl | hlater
        · exact Nat.le_refl place
        · exact Nat.le_trans (Nat.le_add_right offset form.bytes.length) (ih hlater)
      · rw [leadPlacesFrom_refused hrefused, List.mem_singleton] at h
        exact Nat.le_of_eq h.symm

end Places
end Batch

/-! ## Bytes that differ in reserved bits -/

/-- The bytes `q` are those of `p`, which begin at `offset`, but for the reserved bits of some that
stand at one of the places. -/
def SameUpToReserved (places : List Nat) (offset : Nat) (p q : List UInt8) : Prop :=
  p.length = q.length ∧
    ∀ i, i < p.length → p[i]? = q[i]? ∨
      offset + i ∈ places ∧ p[i]?.map (· &&& 0x3F) = q[i]?.map (· &&& 0x3F)

instance (places : List Nat) (offset : Nat) (p q : List UInt8) :
    Decidable (SameUpToReserved places offset p q) :=
  inferInstanceAs (Decidable (_ ∧ ∀ i, i < p.length → _))

namespace SameUpToReserved

variable {places : List Nat} {offset : Nat} {p q : List UInt8}

theorem eq_of_nil (h : SameUpToReserved [] offset p q) : q = p := by
  refine (List.ext_getElem? fun i => ?_).symm
  by_cases hlt : i < p.length
  · rcases h.2 i hlt with heq | ⟨hmem, _⟩
    · exact heq
    · cases hmem
  · rw [List.getElem?_eq_none (Nat.not_lt.1 hlt),
      List.getElem?_eq_none (h.1 ▸ Nat.not_lt.1 hlt)]

theorem eq_nil (h : SameUpToReserved places offset [] q) : q = [] :=
  List.length_eq_zero_iff.1 h.1.symm

theorem of_cons {a : UInt8} (h : SameUpToReserved places offset (a :: p) q) :
    ∃ b q', q = b :: q' ∧ a &&& 0x3F = b &&& 0x3F ∧ (offset ∉ places → a = b) ∧
      SameUpToReserved places (offset + 1) p q' := by
  cases q with
  | nil => cases h.1
  | cons b q =>
      have hlead : a = b ∨ offset ∈ places ∧ a &&& 0x3F = b &&& 0x3F := by
        simpa using h.2 0 (Nat.zero_lt_succ _)
      have hrest : SameUpToReserved places (offset + 1) p q := by
        refine ⟨Nat.succ.inj h.1, ?_⟩
        intro i hi
        have hnext := h.2 (i + 1) (Nat.succ_lt_succ hi)
        simpa [Nat.add_assoc, Nat.add_comm 1 i] using hnext
      rcases hlead with rfl | ⟨hmem, hmask⟩
      · exact ⟨a, q, rfl, rfl, fun _ => rfl, hrest⟩
      · exact ⟨b, q, rfl, hmask, fun hout => absurd hmem hout, hrest⟩

/-- Bytes with no place among them are the same. -/
theorem of_append {front : List UInt8} (h : SameUpToReserved places offset (front ++ p) q)
    (hplaces : ∀ place ∈ places, offset + front.length ≤ place) :
    ∃ q', q = front ++ q' ∧ SameUpToReserved places (offset + front.length) p q' := by
  induction front generalizing offset q with
  | nil => exact ⟨q, rfl, h⟩
  | cons a front ih =>
      rcases h.of_cons with ⟨b, q', rfl, _, hsame, hrest⟩
      have hlength : offset + (a :: front).length = offset + 1 + front.length := by
        rw [List.length_cons]
        omega
      have hbehind : offset ∉ places := by
        intro hmem
        have hle := hplaces offset hmem
        omega
      rcases ih hrest (fun place hmem => hlength ▸ hplaces place hmem) with ⟨q'', rfl, htail⟩
      exact ⟨q'', by rw [hsame hbehind]; rfl, hlength ▸ htail⟩

/-- A place in front of the bytes is not one of theirs. -/
theorem of_place_lt {place : Nat} (h : SameUpToReserved (place :: places) offset p q)
    (hlt : place < offset) : SameUpToReserved places offset p q := by
  refine ⟨h.1, ?_⟩
  intro i hi
  rcases h.2 i hi with heq | ⟨hmem, hmask⟩
  · exact Or.inl heq
  · rcases List.mem_cons.1 hmem with heq | hlater
    · omega
    · exact Or.inr ⟨hlater, hmask⟩

end SameUpToReserved

/-! ## One record -/

theorem Bitfield.ofByte_congr {a b : UInt8} (h : a &&& 0x3F = b &&& 0x3F) :
    ofByte a = ofByte b := by
  calc
    ofByte a = ofByte (ofByte a).toByte := (ofByte_toByte _).symm
    _ = ofByte (ofByte b).toByte := by rw [toByte_ofByte, toByte_ofByte, h]
    _ = ofByte b := ofByte_toByte _

theorem Codec.decode_lead_congr (codec : Codec) {lead lead' : UInt8}
    (h : lead &&& 0x3F = lead' &&& 0x3F) (first : Bool) (body : List UInt8) (offset : Nat)
    (log : Array Event) (ctx : Context) :
    codec.decode first { reading := { offset, rest := lead' :: body, log }, context := ctx } =
      codec.decode first { reading := { offset, rest := lead :: body, log }, context := ctx } := by
  by_cases hfirst : first = true → lead &&& 0x3F = 0x38
  · rw [decode_cons codec hfirst, decode_cons codec (h ▸ hfirst), Bitfield.ofByte_congr h]
  · -- the byte that is reported is a masked one
    simp only [Classical.not_imp] at hfirst
    rcases hfirst with ⟨rfl, hlead⟩
    rw [decode_compressed codec hlead, decode_compressed codec (h ▸ hlead), h]

/-! ## Records in a row -/

namespace Batch

theorem readRecords_congr (codec : Codec) (count : Nat) {first : Bool} {offset : Nat}
    {ahead ahead' : List UInt8} {ctx : Context}
    (h : SameUpToReserved (leadPlacesFrom codec count first offset ahead ctx) offset ahead ahead')
    (start : Nat) (acc : Array BlockHeader) (hacc : acc.isEmpty = first) (log : Array Event) :
    readRecords codec count start acc
        { reading := { offset, rest := ahead', log }, context := ctx } =
      readRecords codec count start acc
        { reading := { offset, rest := ahead, log }, context := ctx } := by
  -- on the number of records: both readings stay at the same offset and in the same context
  induction count generalizing first offset ahead ahead' ctx start acc log with
  | zero => rw [h.eq_of_nil]
  | succ count ih =>
      rcases RecordForm.form_or_refused codec.policy first ctx.versions.length offset ahead with
        ⟨form, rest, hfirst, hfits, rfl⟩ | ⟨e, hrefused⟩
      · rcases hfits.exists_header with ⟨header, hheader⟩
        have hspells : form.Spells codec.policy ctx first header := ⟨hfirst, hfits, hheader⟩
        have hend : offset + 1 + form.bodyBytes.length = offset + form.bytes.length := by
          rw [RecordForm.bytes, List.length_cons]
          omega
        rw [leadPlacesFrom_spells hspells, RecordForm.bytes, List.cons_append] at h
        rcases h.of_cons with ⟨lead', body', rfl, hmask, _, hbody⟩
        -- the next place is behind the record, all of whose other bytes are the same
        rcases (hbody.of_place_lt (Nat.lt_succ_self offset)).of_append
            (fun place hmem => hend ▸ le_of_mem_leadPlacesFrom hmem) with ⟨rest', rfl, hrest⟩
        rw [hend] at hrest
        have hread := Codec.decode_form hspells rest offset log
        have hread' :=
          (codec.decode_lead_congr hmask first (form.bodyBytes ++ rest') offset log ctx).trans
            (Codec.decode_form hspells rest' offset log)
        rw [← hacc] at hread hread'
        rw [readRecords_succ_of_ok hread, readRecords_succ_of_ok hread']
        exact ih hrest _ _ (by simp) _
      · rw [leadPlacesFrom_refused hrefused] at h
        cases ahead with
        | nil => rw [h.eq_nil]
        | cons lead body =>
            rcases h.of_cons with ⟨lead', body', rfl, hmask, _, hbody⟩
            -- nothing behind the first byte differs, and the refusal comes to the same
            rw [(hbody.of_place_lt (Nat.lt_succ_self offset)).eq_of_nil]
            exact bind_congr_of_eq
              (hacc ▸ codec.decode_lead_congr hmask first body offset log ctx)

/-! ## Whole payloads -/

theorem leadPlaces_of_form (codec : Codec) {count : UInt64} {size : List UInt8}
    (hsize : CompactSize.Form count size) (ahead : List UInt8) :
    leadPlaces codec (size ++ ahead) =
      if count.toNat ≤ maxHeaders then
        leadPlacesFrom codec count.toNat true (0 + size.length) ahead codec.context
      else
        [] := by
  have hcount := CompactSize.read_form hsize ahead 0 #[]
  unfold leadPlaces Reading.start
  rw [hcount]

theorem leadPlaces_of_cut (codec : Codec) {payload : List UInt8} {e : DecodeError}
    (h : CompactSize.Cut 0 payload e) : leadPlaces codec payload = [] := by
  have hcut : CompactSize.Cut (Reading.start payload).offset (Reading.start payload).rest e := h
  simp only [leadPlaces, CompactSize.read_of_cut hcut]

/-- A payload and any other that differs from it in nothing but the reserved bits of first bytes of
records, wherever these are, come to the same: the same headers or the same error, in the same
place, with the same reports, and the same context. -/
theorem reserved_bits_are_ignored (codec : Codec) (ctx : Context) (payload other : List UInt8)
    (h : SameUpToReserved (leadPlaces codec payload) 0 payload other) :
    decodeIn codec ctx other = decodeIn codec ctx payload := by
  rcases CompactSize.form_or_cut 0 payload with ⟨count, size, ahead, hsize, rfl⟩ | ⟨e, hcut⟩
  · rw [leadPlaces_of_form codec hsize] at h
    by_cases hbound : count.toNat ≤ maxHeaders
    · rw [if_pos hbound] at h
      rcases h.of_append fun place hmem => le_of_mem_leadPlacesFrom hmem with
        ⟨ahead', rfl, hahead⟩
      have hrecords := readRecords_congr codec count.toNat hahead (0 + size.length) #[] rfl #[]
      -- the count is the same, and so are the records that it calls for
      have hread (tail : List UInt8) := read_of_count_le codec
        (s := { reading := .start (size ++ tail), context := ctx })
        (CompactSize.read_form hsize tail 0 #[]) hbound
      exact bind_congr_of_eq ((hread ahead').trans (hrecords.trans (hread ahead).symm))
    · rw [if_neg hbound] at h
      rw [h.eq_of_nil]
  · rw [leadPlaces_of_cut codec hcut] at h
    rw [h.eq_of_nil]

/-- All reserved bits of three records are set, of which a strict reader refuses the last one. -/
theorem reserved_bits_are_ignored_throughout :
    ∃ (payload other : List UInt8) (t : Decoding),
      leadPlaces ⟨.strict, fun _ => Hash.zero⟩ payload = [1, 82, 121] ∧
      SameUpToReserved (leadPlaces ⟨.strict, fun _ => Hash.zero⟩ payload) 0 payload other ∧
      payload[121]? = some 0x07 ∧ other[121]? = some 0xC7 ∧
      decodeIn ⟨.strict, fun _ => Hash.zero⟩ (.fresh BlockHeader.sha256d) payload =
        .error (.missingVersion 6 1) t ∧
      decodeIn ⟨.strict, fun _ => Hash.zero⟩ (.fresh BlockHeader.sha256d) other =
        .error (.missingVersion 6 1) t := by
  have hspells : Spells .strict (.fresh fun _ => Hash.zero) true
      [⟨0x38, some 4, some Hash.zero, Hash.zero, .full 7, some 1, 2⟩,
        ⟨0x01, none, none, Hash.zero, .offset 5, none, 3⟩]
      [⟨4, Hash.zero, Hash.zero, 7, 1, 2⟩, ⟨4, Hash.zero, Hash.zero, 12, 1, 3⟩] _ :=
    .cons ⟨by decide, ⟨by decide, by decide, rfl, rfl, rfl⟩, rfl⟩
      (.cons ⟨by decide, ⟨by decide, by decide, rfl, rfl, rfl⟩, rfl⟩ .nil)
  have hrefused : decodeIn ⟨.strict, fun _ => Hash.zero⟩ (.fresh BlockHeader.sha256d)
      (CompactSize.encode 3 ++
        (formBytes [⟨0x38, some 4, some Hash.zero, Hash.zero, .full 7, some 1, 2⟩,
          ⟨0x01, none, none, Hash.zero, .offset 5, none, 3⟩] ++ [0x07, 9])) =
      .error (.missingVersion 6 1) _ :=
    decodeIn_of_record_error (CompactSize.form_encode 3) (by decide) (by decide) hspells rfl _
  have hplaces : leadPlaces ⟨.strict, fun _ => Hash.zero⟩
      (CompactSize.encode 3 ++
        (formBytes [⟨0x38, some 4, some Hash.zero, Hash.zero, .full 7, some 1, 2⟩,
          ⟨0x01, none, none, Hash.zero, .offset 5, none, 3⟩] ++ [0x07, 9])) = [1, 82, 121] := by
    decide +kernel
  have hsame : SameUpToReserved [1, 82, 121] 0
      (CompactSize.encode 3 ++
        (formBytes [⟨0x38, some 4, some Hash.zero, Hash.zero, .full 7, some 1, 2⟩,
          ⟨0x01, none, none, Hash.zero, .offset 5, none, 3⟩] ++ [0x07, 9]))
      (CompactSize.encode 3 ++
        (formBytes [⟨0xF8, some 4, some Hash.zero, Hash.zero, .full 7, some 1, 2⟩,
          ⟨0xC1, none, none, Hash.zero, .offset 5, none, 3⟩] ++ [0xC7, 9])) := by
    decide +kernel
  rw [← hplaces] at hsame
  have hother := reserved_bits_are_ignored _ (.fresh BlockHeader.sha256d) _ _ hsame
  exact ⟨_, _, _, hplaces, hsame, by decide +kernel, by decide +kernel, hrefused,
    hother.trans hrefused⟩

end Batch
end HeaderRelay
