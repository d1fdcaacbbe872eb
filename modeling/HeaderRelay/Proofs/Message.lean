import HeaderRelay.Proofs.Batch.RoundTrip
import HeaderRelay.Proofs.Wire.Lists

/-!
# Messages and their payloads

A message is written in one way and read in another: a reader refuses a content that is too large,
of which not every writer takes notice.

* `Message.outcome_decode_headers2` and its like — what a payload is read as under each command;
* `Message.WithinLimits` — the sizes that readers allow;
* `Message.decode_encoded_iff` — a message that was written is read back exactly if it is within
  these limits.
-/

namespace HeaderRelay
namespace Message

/-! ## Commands -/

/-- A message of a known kind comes out exactly if its content does. -/
theorem map_eq_ok_iff {ε α β : Type} {kind : α → β} (hkind : Function.Injective kind)
    {content : Except ε α} {a : α} : content.map kind = .ok (kind a) ↔ content = .ok a := by
  cases content with
  | error e => exact ⟨nofun, nofun⟩
  | ok b =>
      constructor
      · intro h
        exact congrArg Except.ok (hkind (Except.ok.inj h))
      · intro h
        exact congrArg (Except.map kind) h

section Commands

variable (codec : Codec) (payload : List UInt8)

theorem outcome_decode_getHeaders :
    outcome (decode codec "getheaders" payload) =
      (outcome (Locator.readBounded (.start payload))).map getHeaders :=
  outcome_map Locator.readBounded getHeaders (.start payload)

theorem outcome_decode_getHeaders2 :
    outcome (decode codec "getheaders2" payload) =
      (outcome (Locator.readBounded (.start payload))).map getHeaders2 :=
  outcome_map Locator.readBounded getHeaders2 (.start payload)

theorem outcome_decode_headers :
    outcome (decode codec "headers" payload) =
      (outcome (HeaderList.read (.start payload))).map headers :=
  outcome_map HeaderList.read headers (.start payload)

theorem outcome_decode_headers2 :
    outcome (decode codec "headers2" payload) =
      (outcome (Batch.decode codec payload)).map headers2 :=
  outcome_map (Batch.withFresh codec (Batch.readPayload codec)) headers2 (.start payload)

end Commands

/-! ## Sizes -/

/-- The size of the message is one that its reader accepts. -/
def WithinLimits : Message → Prop
  | getHeaders locator => locator.hashes.length ≤ Locator.maxHashes
  | getHeaders2 locator => locator.hashes.length ≤ Locator.maxHashes
  | headers hs => hs.length ≤ HeaderList.maxHeaders
  | headers2 hs => hs.length ≤ Batch.maxHeaders
  | sendHeaders => True
  | sendHeaders2 => True
  | unparsed _ _ => True

/-- The message has a meaning here, and is not only kept as it came. -/
def IsParsed : Message → Prop
  | unparsed _ _ => False
  | _ => True

/-- A message that could be written comes back from its payload if its reader accepts its size, and
else something else becomes of the payload. -/
theorem decode_encoded_iff {codec : Codec} {message : Message} {encoded : Encoded}
    (hparsed : message.IsParsed) (hencode : message.encode codec = .ok encoded) :
    outcome (decode codec message.command encoded.bytes) = .ok message ↔ message.WithinLimits := by
  cases message with
  | getHeaders locator =>
      cases hencode
      rw [command, outcome_decode_getHeaders, map_eq_ok_iff fun _ _ h => getHeaders.inj h]
      exact Locator.outcome_readBounded_bytes locator
  | getHeaders2 locator =>
      cases hencode
      rw [command, outcome_decode_getHeaders2, map_eq_ok_iff fun _ _ h => getHeaders2.inj h]
      exact Locator.outcome_readBounded_bytes locator
  | headers hs =>
      cases hencode
      rw [command, outcome_decode_headers, map_eq_ok_iff fun _ _ h => headers.inj h]
      exact HeaderList.outcome_read_bytes hs
  | headers2 hs =>
      -- here the writer has checked the size
      rw [command, outcome_decode_headers2, map_eq_ok_iff fun _ _ h => headers2.inj h]
      exact iff_of_true (Batch.outcome_decode_encoded hencode) (Batch.length_le_of_encode hencode)
  | sendHeaders => exact iff_of_true rfl trivial
  | sendHeaders2 => exact iff_of_true rfl trivial
  | unparsed command data => exact hparsed.elim

end Message
end HeaderRelay
