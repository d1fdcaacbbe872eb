import HeaderRelay.Proofs.Batch.Grammar
import HeaderRelay.Proofs.Compression.Residue

/-!
# What a refused batch leaves behind

The count is checked before the context is replaced, so that a payload refused for its count leaves
no trace. A payload refused for a record leaves the context as the headers in front of that record
made it, up to the version table, which the refused record may have moved.

* `Batch.RejectsCount` — the count is what is wrong with a payload;
* `Batch.Reaches` — a record of a payload, behind others that are read;
* `decodeIn_of_reaches` — what a record reached comes to if it is refused, the payload comes to;
* `exists_reaches_of_error` — a payload is refused for its count or for a record that is reached;
* `refusal_leaves` — what is left of the context in each case.
-/

namespace HeaderRelay

/-- Advancing over headers moves the snapshot to the last of them, and nothing else. -/
theorem Context.foldl_advance (ctx : Context) (headers : List BlockHeader) :
    headers.foldl advance ctx =
      { ctx with
        previous := (headers.getLast?.map (.ofHeader ctx.hasher)).getD ctx.previous } := by
  induction headers generalizing ctx with
  | nil => rfl
  | cons header headers ih =>
      rw [List.foldl_cons, ih, List.getLast?_cons]
      cases headers.getLast? with
      | none => rfl
      | some _ => rfl

namespace Batch

/-! ## Where a payload fails -/

/-- The payload ends inside its count, or the count is too large. -/
inductive RejectsCount : (payload : List UInt8) → (e : DecodeError) → Prop where
  | cut {payload : List UInt8} {e : DecodeError} :
      CompactSize.Cut 0 payload e → RejectsCount payload e
  | large {count : UInt64} {size rest : List UInt8} :
      CompactSize.Form count size → maxHeaders < count.toNat →
      RejectsCount (size ++ rest) (.batchTooLarge count.toNat maxHeaders)

/-- The payload begins with a count and with records that mean `headers`, of which there are fewer
than the count says; in `s` the record behind them is about to be read. -/
inductive Reaches (codec : Codec) :
    (payload : List UInt8) → (headers : List BlockHeader) → (s : Decoding) → Prop where
  | behind {count : UInt64} {size rest : List UInt8} {forms : List RecordForm}
      {headers : List BlockHeader} {last : Context} :
      CompactSize.Form count size → count.toNat ≤ maxHeaders →
      forms.length < count.toNat →
      Spells codec.policy codec.context true forms headers last →
      Reaches codec (size ++ (formBytes forms ++ rest)) headers
        { reading := {
            offset := size.length + (formBytes forms).length
            rest
            log := (#[] : Array Event) ++ runEvents [] 0 size.length forms }
          context := last }

theorem RejectsCount.field_eq {payload : List UInt8} {field : String}
    {offset needed available : Nat}
    (h : RejectsCount payload (.truncated field offset needed available)) :
    field = "compact size" := by
  cases h with
  | cut hcut =>
      cases hcut with
      | empty => rfl
      | short _ => rfl

variable {codec : Codec} {payload : List UInt8} {headers : List BlockHeader} {s t : Decoding}
  {e : DecodeError}

/-- The context of a record that is reached remembers the header before it. -/
theorem Reaches.snapshot (h : Reaches codec payload headers s) :
    s.context.previous = (headers.foldl Context.advance codec.context).previous ∧
      s.context.hasher = (headers.foldl Context.advance codec.context).hasher := by
  rw [Context.foldl_advance]
  cases h with
  | behind _ _ _ hspells => exact ⟨hspells.previous_last, hspells.hasher_last⟩

theorem decodeIn_of_reaches (h : Reaches codec payload headers s)
    (herror : codec.decode headers.isEmpty s = .error e t) (ctx : Context) :
    decodeIn codec ctx payload = .error e t := by
  cases h with
  | behind hsize hbound hless hspells =>
      rw [← hspells.isEmpty_eq] at herror
      exact decodeIn_of_record_error hsize hbound hless hspells herror ctx

theorem decodeIn_of_rejectsCount (h : RejectsCount payload e) (codec : Codec) (ctx : Context) :
    ∃ s, decodeIn codec ctx payload = .error e { reading := s, context := ctx } := by
  cases h with
  | cut hcut => exact decodeIn_of_cut hcut ctx
  | large hsize hbound => exact decodeIn_of_lt_count hsize hbound _ ctx

/-- What is wrong with a payload is wrong with its count, or with a record that is reached. -/
theorem Rejects.exists_reaches (h : Rejects codec payload e) :
    RejectsCount payload e ∨
      ∃ headers s t, Reaches codec payload headers s ∧
        codec.decode headers.isEmpty s = .error e t := by
  cases h with
  | size hcut => exact Or.inl (.cut hcut)
  | count hsize hbound => exact Or.inl (.large hsize hbound)
  | @record count size rest forms headers last e hsize hbound hless hspells hrefused =>
      have hreaches : Reaches codec (size ++ (formBytes forms ++ rest)) headers _ :=
        .behind hsize hbound hless hspells
      rw [hspells.isEmpty_eq] at hrefused
      rcases Codec.decode_refused (s := ⟨⟨_, rest, _⟩, last⟩) hrefused with ⟨t, ht⟩
      exact Or.inr ⟨headers, _, t, hreaches, ht⟩

theorem exists_reaches_of_error {ctx : Context} (h : decodeIn codec ctx payload = .error e t) :
    (RejectsCount payload e ∧ t.context = ctx) ∨
      ∃ headers s, Reaches codec payload headers s ∧
        codec.decode headers.isEmpty s = .error e t := by
  rcases accepted_or_rejected codec payload with
    ⟨parse, headers, last, rfl, haccepts⟩ | ⟨e', hrejects⟩
  · -- an accepted payload is read without an error
    cases h.symm.trans (decodeIn_accepted haccepts ctx)
  · rcases hrejects.exists_reaches with hcount | ⟨headers, s, u, hreaches, herror⟩
    · rcases decodeIn_of_rejectsCount hcount codec ctx with ⟨s, hs⟩
      cases h.symm.trans hs
      exact Or.inl ⟨hcount, rfl⟩
    · cases h.symm.trans (decodeIn_of_reaches hreaches herror ctx)
      exact Or.inr ⟨headers, s, hreaches, herror⟩

/-! ## What is left -/

/-- A record that is refused leaves the snapshot alone, and the version table as well if it is wrong
up to its version; if a field behind the version is cut off, the table is the one in which that
version is used, and nothing else has changed. A payload that is refused for its count leaves the
whole context alone, and one that is refused for a record leaves the snapshot of a fresh context
that was advanced over the headers in front of that record. -/
theorem refusal_leaves (codec : Codec) :
    (∀ (first : Bool) (s t : Decoding) (e : DecodeError), codec.decode first s = .error e t →
      t.context.previous = s.context.previous ∧ t.context.hasher = s.context.hasher ∧
      (e.InVersion → t.context = s.context) ∧
      (¬ e.InVersion → ∃ (lead : UInt8) (body : List UInt8),
        s.reading.rest = lead :: body ∧ e.BehindVersion (.ofByte lead) ∧
          Codec.UsesVersion codec.policy (.ofByte lead) s.context body t.context)) ∧
    (∀ (payload : List UInt8) (e : DecodeError), RejectsCount payload e → ∀ ctx : Context,
      ∃ s, decodeIn codec ctx payload = .error e { reading := s, context := ctx }) ∧
    ∀ (ctx : Context) (payload : List UInt8) (e : DecodeError) (t : Decoding),
      decodeIn codec ctx payload = .error e t → ¬ RejectsCount payload e →
        ∃ (headers : List BlockHeader) (s : Decoding),
          Reaches codec payload headers s ∧ codec.decode headers.isEmpty s = .error e t ∧
          t.context.previous = (headers.foldl Context.advance codec.context).previous ∧
          t.context.hasher = (headers.foldl Context.advance codec.context).hasher := by
  refine ⟨?_, ?_, ?_⟩
  · intro first s t e h
    rcases Codec.decode_error_cases h with ⟨hin, hcontext⟩ | ⟨lead, body, hrest, hbehind, huses⟩
    · rw [hcontext]
      exact ⟨rfl, rfl, fun _ => rfl, fun hnot => absurd hin hnot⟩
    · rcases huses.snapshot with ⟨hprevious, hhasher⟩
      exact ⟨hprevious, hhasher, fun hin => absurd hin hbehind.not_inVersion,
        fun _ => ⟨lead, body, hrest, hbehind, huses⟩⟩
  · intro payload e hcount ctx
    exact decodeIn_of_rejectsCount hcount codec ctx
  · intro ctx payload e t h hrecord
    rcases exists_reaches_of_error h with ⟨hcount, _⟩ | ⟨headers, s, hreaches, herror⟩
    · exact absurd hcount hrecord
    · -- the refused record adds nothing to what the headers before it left
      rcases hreaches.snapshot with ⟨hprevious, hhasher⟩
      rcases Codec.snapshot_of_decode_error herror with ⟨hprevious', hhasher'⟩
      exact ⟨headers, s, hreaches, herror, hprevious'.trans hprevious, hhasher'.trans hhasher⟩

/-- The second record ends behind its version: that version is in the table already, and the snapshot
is still that of the first header. Of a payload that ends inside its count, nothing is left. -/
theorem refusal_leaves_second :
    ∃ (payload : List UInt8) (headers : List BlockHeader) (s t : Decoding),
      decodeIn ⟨.strict, fun _ => Hash.zero⟩ (.fresh BlockHeader.sha256d) payload =
        .error (.truncated "merkle_root" 87 32 1) t ∧
      Reaches ⟨.strict, fun _ => Hash.zero⟩ payload headers s ∧
      t.context.previous = (headers.foldl Context.advance (.fresh fun _ => Hash.zero)).previous ∧
      t.context.previous = ⟨Hash.zero, 7, 1⟩ ∧
      t.context.previous = s.context.previous ∧ t.context.versions = [5, 4] ∧
      (∃ (lead : UInt8) (body : List UInt8), s.reading.rest = lead :: body ∧
        Codec.UsesVersion .strict (.ofByte lead) s.context body t.context) ∧
      ∃ u, decodeIn ⟨.strict, fun _ => Hash.zero⟩ (.fresh BlockHeader.sha256d) [0xFD, 0xFF] =
        .error (.truncated "compact size" 1 2 1)
          { reading := u, context := .fresh BlockHeader.sha256d } := by
  have hspells : Spells .strict (.fresh fun _ => Hash.zero) true
      [⟨0x38, some 4, some Hash.zero, Hash.zero, .full 7, some 1, 2⟩]
      [⟨4, Hash.zero, Hash.zero, 7, 1, 2⟩] _ :=
    .cons ⟨by decide, ⟨by decide, by decide, rfl, rfl, rfl⟩, rfl⟩ .nil
  have hrefused : decodeIn ⟨.strict, fun _ => Hash.zero⟩ (.fresh BlockHeader.sha256d)
      ([2] ++ (formBytes [⟨0x38, some 4, some Hash.zero, Hash.zero, .full 7, some 1, 2⟩] ++
        [0x00, 5, 0, 0, 0, 9])) = .error (.truncated "merkle_root" 87 32 1) _ :=
    decodeIn_of_record_error (CompactSize.form_encode 2) (by decide) (by decide) hspells rfl _
  have hrecord : ¬ RejectsCount
      ([2] ++ (formBytes [⟨0x38, some 4, some Hash.zero, Hash.zero, .full 7, some 1, 2⟩] ++
        [0x00, 5, 0, 0, 0, 9])) (.truncated "merkle_root" 87 32 1) :=
    fun hcount => absurd hcount.field_eq (by decide)
  have hbehind : ¬ DecodeError.InVersion (.truncated "merkle_root" 87 32 1) := by
    rintro (hlead | hversion)
    · exact absurd hlead (by decide)
    · exact absurd hversion (by decide)
  have hcut : RejectsCount [0xFD, 0xFF] (.truncated "compact size" 1 2 1) :=
    .cut (.short (by decide))
  rcases refusal_leaves ⟨.strict, fun _ => Hash.zero⟩ with ⟨hleft, hcounted, hreached⟩
  rcases hreached _ _ _ _ hrefused hrecord with ⟨headers, s, hreaches, herror, hprevious, _⟩
  rcases hleft _ _ _ _ herror with ⟨hsame, _, _, hused⟩
  rcases hused hbehind with ⟨lead, body, hrest, _, huses⟩
  exact ⟨_, headers, s, _, hrefused, hreaches, hprevious, rfl, hsame, rfl,
    ⟨lead, body, hrest, huses⟩, hcounted _ _ hcut _⟩

end Batch
end HeaderRelay
