import HeaderRelay.Message
import HeaderRelay.Proofs.Batch.Grammar
import HeaderRelay.Proofs.Compression.Lockstep

/-!
# Batches are read back

The writer's records are forms that mean its headers, so that what the grammar says of payloads
applies to what was written.

* `recordsFrom_spells` — records in a row mean the headers that they were made of;
* `Parse.written`, `written_accepts` — the payload of a batch, taken apart;
* `outcome_decode_encoded` — what is written is read back by the codec that wrote it;
* `written_is_read_back` — a batch of any headers is read back from any bytes that begin with it.
-/

namespace HeaderRelay
namespace Batch

/-! ## What is written -/

theorem recordsFrom_cons (ctx : Context) (first : Bool) (header : BlockHeader)
    (headers : List BlockHeader) :
    recordsFrom ctx first (header :: headers) =
      ((ctx.compress first header).1 ::
          (recordsFrom ((ctx.compress first header).2.advance header) false headers).1,
        (recordsFrom ((ctx.compress first header).2.advance header) false headers).2) := rfl

/-- The records of any headers are forms that mean these headers, and reading them leads to the
writer's last context. -/
theorem recordsFrom_spells {ctx : Context} (hbounded : ctx.IsBounded) (policy : ReferencePolicy)
    (first : Bool) (headers : List BlockHeader) :
    Spells policy ctx first ((recordsFrom ctx first headers).1.map Record.form) headers
      (recordsFrom ctx first headers).2 := by
  induction headers generalizing ctx first with
  | nil => exact .nil
  | cons header headers ih =>
      rcases ctx.compress_spells hbounded policy first header with ⟨hspells, hafter⟩
      rw [recordsFrom_cons]
      refine .cons hspells ?_
      -- the reader's next context is the one in which the writer goes on
      rw [← RecordForm.advance_after, hafter]
      exact ih ((hbounded.compress first header).advance header) false

theorem formBytes_map_form (records : List Record) :
    formBytes (records.map Record.form) = records.flatMap Record.bytes := by
  induction records with
  | nil => rfl
  | cons record records ih =>
      rw [List.map_cons, formBytes_cons, Record.bytes_form, ih, List.flatMap_cons]

/-- The payload of `headers`, with other bytes behind it. -/
def Parse.written (codec : Codec) (headers : List BlockHeader) (trailing : List UInt8) : Parse where
  count := UInt64.ofNat headers.length
  size := CompactSize.encodeLength headers
  forms := (records codec headers).map Record.form
  trailing

/-- What is written is accepted by every codec that names headers in the same way. -/
theorem written_accepts (writer reader : Codec) (hhasher : reader.hasher = writer.hasher)
    {headers : List BlockHeader} (hbound : headers.length ≤ maxHeaders) (trailing : List UInt8) :
    (Parse.written writer headers trailing).Accepts reader headers
      (finalContext writer headers) := by
  -- the policy plays no part in the context in which a batch begins
  have hcontext : reader.context = writer.context := congrArg Context.fresh hhasher
  have hspells := recordsFrom_spells (Context.isBounded_fresh writer.hasher) reader.policy true
    headers
  have hcount : (UInt64.ofNat headers.length).toNat = headers.length := by
    apply UInt64.toNat_ofNat_of_lt'
    unfold maxHeaders at hbound
    exact Nat.lt_of_le_of_lt hbound (by decide)
  refine ⟨CompactSize.form_encode _, ?_, ?_, ?_⟩
  · rw [Parse.written, hcount]
    exact hbound
  · rw [Parse.written, hcount]
    exact hspells.length_eq
  · rw [hcontext]
    exact hspells

theorem bytes_written (codec : Codec) (headers : List BlockHeader) (trailing : List UInt8) :
    (Parse.written codec headers trailing).bytes =
      CompactSize.encodeLength headers ++ (records codec headers).flatMap Record.bytes ++
        trailing := by
  rw [Parse.bytes, Parse.behindSize, Parse.written, formBytes_map_form, List.append_assoc]

theorem length_written (codec : Codec) (headers : List BlockHeader) (trailing : List UInt8) :
    (Parse.written codec headers trailing).length =
      (CompactSize.encodeLength headers ++
        (records codec headers).flatMap Record.bytes).length := by
  rw [Parse.length, Parse.written, formBytes_map_form, List.length_append]

theorem encode_of_length_le {headers : List BlockHeader} (hbound : headers.length ≤ maxHeaders)
    (codec : Codec) :
    ∃ encoded, encode codec headers = .ok encoded ∧
      encoded.bytes = CompactSize.encodeLength headers ++
        (records codec headers).flatMap Record.bytes := by
  unfold encode
  rw [if_neg (Nat.not_lt.2 hbound)]
  exact ⟨_, rfl, rfl⟩

theorem length_le_of_encode {codec : Codec} {headers : List BlockHeader} {encoded : Encoded}
    (h : encode codec headers = .ok encoded) : headers.length ≤ maxHeaders := by
  by_cases hlarge : headers.length > maxHeaders
  · rw [encode, if_pos hlarge] at h
    cases h
  · exact Nat.not_lt.1 hlarge

/-! ## And read back -/

theorem outcome_decode_encoded {codec : Codec} {headers : List BlockHeader} {encoded : Encoded}
    (h : encode codec headers = .ok encoded) :
    outcome (decode codec encoded.bytes) = .ok headers := by
  have hbound := length_le_of_encode h
  rcases encode_of_length_le hbound codec with ⟨written, hwritten, hbytes⟩
  cases h.symm.trans hwritten
  have hread := decode_accepted (written_accepts codec codec rfl hbound [])
  rw [bytes_written, List.append_nil, ← hbytes] at hread
  exact congrArg outcome hread

/-- Headers that fit in one batch have a payload, which is put behind any output. Read in any
context, from bytes that begin with it, it gives these headers again and nothing of what follows
is consumed; the reader ends in the context of the writer. Neither end's policy matters. -/
theorem written_is_read_back (hasher : Hasher) (writing reading : ReferencePolicy)
    (headers : List BlockHeader) (hbound : headers.length ≤ maxHeaders) :
    ∃ encoded, encode ⟨writing, hasher⟩ headers = .ok encoded ∧
      (∀ output : Encoded, (Message.headers2 headers).write ⟨writing, hasher⟩ output =
        .ok () { bytes := output.bytes ++ encoded.bytes
                 events := output.events ++ encoded.events }) ∧
      ∀ (ctx : Context) (tail : List UInt8), ∃ after,
        decodeIn ⟨reading, hasher⟩ ctx (encoded.bytes ++ tail) = .ok headers after ∧
          after.reading.offset = encoded.bytes.length ∧
          after.reading.rest = tail ∧
          after.context = finalContext ⟨writing, hasher⟩ headers := by
  rcases encode_of_length_le hbound ⟨writing, hasher⟩ with ⟨encoded, hencode, hbytes⟩
  refine ⟨encoded, hencode, ?_, ?_⟩
  · intro output
    have hwrite : (Message.headers2 headers).encode ⟨writing, hasher⟩ = .ok encoded := hencode
    simp only [Message.write, Writing.ofOutcome, hwrite, Encoded.append]
  · intro ctx tail
    have haccepts := written_accepts ⟨writing, hasher⟩ ⟨reading, hasher⟩ rfl hbound tail
    have hread := decodeIn_accepted haccepts ctx
    rw [bytes_written, length_written, ← hbytes] at hread
    exact ⟨_, hread, rfl, rfl, rfl⟩

/-- Two headers that do not chain, read by a strict reader from in front of other bytes. -/
theorem written_is_read_back_unchained :
    ∃ encoded after,
      encode ⟨.lenient, fun _ => Hash.zero⟩
          [⟨4, Hash.zero, Hash.zero, 70000, 1, 2⟩, ⟨4, Hash.zero, Hash.zero, 3, 1, 2⟩] =
        .ok encoded ∧
      decodeIn ⟨.strict, fun _ => Hash.zero⟩ (.fresh fun _ => Hash.zero)
          (encoded.bytes ++ [1, 2, 3]) =
        .ok [⟨4, Hash.zero, Hash.zero, 70000, 1, 2⟩, ⟨4, Hash.zero, Hash.zero, 3, 1, 2⟩] after := by
  rcases written_is_read_back (fun _ => Hash.zero) .lenient .strict
      [⟨4, Hash.zero, Hash.zero, 70000, 1, 2⟩, ⟨4, Hash.zero, Hash.zero, 3, 1, 2⟩] (by decide) with
    ⟨encoded, hencode, _, hread⟩
  rcases hread (.fresh fun _ => Hash.zero) [1, 2, 3] with ⟨after, hdecode, _⟩
  exact ⟨encoded, after, hencode, hdecode⟩

end Batch
end HeaderRelay
