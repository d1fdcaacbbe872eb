import HeaderRelay.Proofs.Message
import HeaderRelay.Proofs.Session.Calls

/-!
# Batches do not interfere

A session keeps one context from batch to batch, and a batch that is refused half way leaves it
half way. None of this reaches the next batch, which starts afresh.

* `exists_context_of_decode` — the context behind an accepted batch is a matter of the batch;
* `batches_do_not_interfere` — after any calls, a batch is read as it is without a session, and all
  other payloads leave the session alone.
-/

namespace HeaderRelay

/-! ## Behind a batch -/

namespace Batch

/-- A batch that is accepted leaves the same context behind wherever it is read: a fresh one if it
is empty, and else one that remembers its last header. -/
theorem exists_context_of_decode {codec : Codec} {payload : List UInt8}
    {headers : List BlockHeader} (h : outcome (decode codec payload) = .ok headers) :
    ∃ after : Context,
      (headers = [] → after = codec.context) ∧
      (∀ header ∈ headers.getLast?, after.previous = .ofHeader codec.hasher header) ∧
      after.hasher = codec.hasher ∧
      ∀ ctx : Context, ∃ s,
        decodeIn codec ctx payload = .ok headers s ∧ s.context = after := by
  rcases exists_of_outcome_ok h with ⟨s, hdecode⟩
  rcases exists_parse_of_decode hdecode with ⟨parse, after, rfl, haccepts⟩
  have hspells := haccepts.spells
  refine ⟨after, ?_, ?_, hspells.hasher_last, ?_⟩
  · rintro rfl
    cases hforms : parse.forms with
    | nil =>
        rw [hforms] at hspells
        cases hspells
        rfl
    | cons form forms =>
        rw [hforms] at hspells
        cases hspells
  · intro header hheader
    rw [hspells.previous_last, hheader]
    rfl
  · intro ctx
    exact ⟨_, decodeIn_accepted haccepts ctx, rfl⟩

end Batch

/-! ## Between batches -/

namespace Session

section OneBatch

variable {codec : Codec} {session : Session} {payload : List UInt8}

theorem result_receive_batch (hcodec : session.codec = codec) (payload : List UInt8) :
    (session.receive "headers2" payload).result = outcome (Batch.decode codec payload) := by
  subst hcodec
  rw [result_receive_headers2]
  exact Batch.outcome_decodeIn session.codec session.context payload

/-- A session keeps of an accepted batch what is left of every context. -/
theorem context_receive_batch (hcodec : session.codec = codec) {headers : List BlockHeader}
    {after : Context}
    (h : ∀ ctx : Context, ∃ s,
      Batch.decodeIn codec ctx payload = .ok headers s ∧ s.context = after) :
    (session.receive "headers2" payload).session.context = after := by
  subst hcodec
  rcases h session.context with ⟨s, hread, rfl⟩
  rw [session_receive_headers2 session payload hread]

end OneBatch

/-- Whatever reached a session before, it reads a compressed batch as it is read without a session,
in a fresh context or any other: the same headers or the same error. The context that it keeps of
an accepted batch is a matter of the batch and the codec. Payloads under other commands leave the
session as it is. -/
theorem batches_do_not_interfere (codec : Codec) :
    (∀ payload : List UInt8,
      outcome (Message.decode codec "headers2" payload) =
        (outcome (Batch.decode codec payload)).map .headers2 ∧
      (∀ ctx : Context,
        outcome (Batch.decodeIn codec ctx payload) = outcome (Batch.decode codec payload)) ∧
      (∀ (own peer : Services) (calls : List Call),
        (((start codec own peer).run calls).receive "headers2" payload).result =
          outcome (Batch.decode codec payload)) ∧
      ∀ headers : List BlockHeader, outcome (Batch.decode codec payload) = .ok headers →
        ∃ after : Context,
          (headers = [] → after = codec.context) ∧
          (∀ header ∈ headers.getLast?, after.previous = .ofHeader codec.hasher header) ∧
          after.hasher = codec.hasher ∧
          ∀ (own peer : Services) (calls : List Call),
            (((start codec own peer).run calls).receive "headers2" payload).session.context =
              after) ∧
    ∀ (own peer : Services) (calls : List Call) (command : String) (payload : List UInt8),
      command ≠ "headers2" →
        (((start codec own peer).run calls).receive command payload).session =
          (start codec own peer).run calls := by
  refine ⟨?_, ?_⟩
  · intro payload
    refine ⟨Message.outcome_decode_headers2 codec payload,
      fun ctx => Batch.outcome_decodeIn codec ctx payload, ?_, ?_⟩
    · intro own peer calls
      exact result_receive_batch (codec_run codec own peer calls) payload
    · intro headers hdecode
      rcases Batch.exists_context_of_decode hdecode with ⟨after, hempty, hlast, hhasher, hcontext⟩
      refine ⟨after, hempty, hlast, hhasher, ?_⟩
      intro own peer calls
      exact context_receive_batch (codec_run codec own peer calls) hcontext
  · intro own peer calls command payload hcommand
    exact (receive_of_ne _ payload hcommand).2

/-- A batch that ends inside its first record, and then a whole one. -/
theorem batches_do_not_interfere_refused :
    ∃ (session : Session) (encoded : Encoded),
      session = (start ⟨.strict, fun _ => Hash.zero⟩ ⟨0⟩ ⟨2048⟩).run
        [.payload "headers2" [2, 0x38, 4, 0]] ∧
      Batch.encode ⟨.strict, fun _ => Hash.zero⟩ [⟨4, Hash.zero, Hash.zero, 7, 1, 2⟩] =
        .ok encoded ∧
      (session.receive "headers2" encoded.bytes).result =
        .ok [⟨4, Hash.zero, Hash.zero, 7, 1, 2⟩] ∧
      (session.receive "headers2" encoded.bytes).session.context.previous = ⟨Hash.zero, 7, 1⟩ ∧
      (session.receive "headers" []).session = session := by
  rcases batches_do_not_interfere ⟨.strict, fun _ => Hash.zero⟩ with ⟨hbatches, hothers⟩
  have hbound : [BlockHeader.mk 4 Hash.zero Hash.zero 7 1 2].length ≤ Batch.maxHeaders := by decide
  rcases Batch.encode_of_length_le hbound ⟨.strict, fun _ => Hash.zero⟩ with ⟨encoded, hencode, _⟩
  rcases hbatches encoded.bytes with ⟨_, _, hresult, hcontext⟩
  have hdecode := Batch.outcome_decode_encoded hencode
  rcases hcontext _ hdecode with ⟨after, _, hlast, _, hafter⟩
  refine ⟨_, encoded, rfl, hencode, (hresult _ _ _).trans hdecode, ?_,
    hothers _ _ _ "headers" [] (by decide)⟩
  rw [hafter]
  exact hlast _ rfl

end Session
end HeaderRelay
