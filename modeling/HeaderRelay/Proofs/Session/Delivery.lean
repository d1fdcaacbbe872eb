import HeaderRelay.Proofs.Message
import HeaderRelay.Proofs.Session.Independence

/-!
# What a session sends, its peer reads

Compressed batches are checked where they are written. Locators and headers in full are written in
any number, and only their readers know a limit.

* `Session.Sends` — the messages that a session sends;
* `result_receive_headers`, `result_receive_relayed` — what becomes of headers on the other side;
* `sent_is_received_iff` — what is sent is read back exactly if it is within the readers' limits;
* `sent_and_refused` — messages that are sent although they are beyond them.
-/

namespace HeaderRelay
namespace Session

/-! ## Sending -/

/-- The session sends the message, to announce itself, to ask for headers or to relay some. -/
inductive Sends (session : Session) : Message → Prop where
  | announcement : Sends session session.announcement
  | request (locator : Locator) : Sends session (session.request locator)
  | relay {headers : List BlockHeader} {message : Message} :
      session.relay headers = some message → Sends session message

theorem relay_eq_some {session : Session} {headers : List BlockHeader} {message : Message}
    (h : session.relay headers = some message) :
    message = .headers2 headers ∨ message = .headers headers := by
  unfold relay at h
  cases hformat : session.relayFormat with
  | headers2 =>
      rw [hformat] at h
      exact Or.inl (Option.some.inj h).symm
  | headers =>
      rw [hformat] at h
      exact Or.inr (Option.some.inj h).symm
  | inventory =>
      rw [hformat] at h
      cases h

theorem Sends.isParsed {session : Session} {message : Message} (h : session.Sends message) :
    message.IsParsed := by
  cases h with
  | announcement =>
      unfold Session.announcement
      cases session.compressionSupported with
      | true => trivial
      | false => trivial
  | request locator =>
      unfold Session.request
      cases session.compressionSupported with
      | true => trivial
      | false => trivial
  | relay hrelay =>
      rcases relay_eq_some hrelay with rfl | rfl
      · trivial
      · trivial

/-! ## Receiving -/

theorem result_receive_headers (session : Session) (payload : List UInt8) :
    (session.receive "headers" payload).result =
      outcome (HeaderList.read (.start payload)) := by
  rw [(receive_of_ne session payload (by decide)).1, Message.outcome_decode_headers]
  cases HeaderList.read (.start payload) with
  | ok headers s => rfl
  | error e s => rfl

/-- Relayed headers reach a session of the same codec exactly if their message is within the limits
of its reader. -/
theorem result_receive_relayed {codec : Codec} {sender receiver : Session}
    (hcodec : receiver.codec = codec) {headers : List BlockHeader} {message : Message}
    {encoded : Encoded} (hrelay : sender.relay headers = some message)
    (hencode : message.encode codec = .ok encoded) :
    (receiver.receive message.command encoded.bytes).result = .ok headers ↔
      message.WithinLimits := by
  rcases relay_eq_some hrelay with rfl | rfl
  · have hbatch : Batch.encode codec headers = .ok encoded := hencode
    have hresult := result_receive_batch hcodec encoded.bytes
    exact iff_of_true (hresult.trans (Batch.outcome_decode_encoded hbatch))
      (Batch.length_le_of_encode hbatch)
  · cases hencode
    rw [Message.command, result_receive_headers]
    exact HeaderList.outcome_read_bytes headers

/-! ## From one end to the other -/

/-- Whatever reached the two ends of a connection before, a message that one of them sends, once it
is written, is read back exactly if it is within the readers' limits; and headers that it relays
come out at the other end on the same condition. Of a compressed batch the writer has seen to it. -/
theorem sent_is_received_iff {codec : Codec} {a b : Services} (calls peerCalls : List Call)
    {message : Message} {encoded : Encoded}
    (hsends : ((start codec a b).run calls).Sends message)
    (hencode : message.encode codec = .ok encoded) :
    (outcome (Message.decode codec message.command encoded.bytes) = .ok message ↔
      message.WithinLimits) ∧
    (∀ headers : List BlockHeader, ((start codec a b).run calls).relay headers = some message →
      ((((start codec b a).run peerCalls).receive message.command encoded.bytes).result =
          .ok headers ↔ message.WithinLimits)) ∧
    ∀ headers : List BlockHeader, message = .headers2 headers → message.WithinLimits := by
  refine ⟨Message.decode_encoded_iff hsends.isParsed hencode, ?_, ?_⟩
  · intro headers hrelay
    exact result_receive_relayed (codec_run codec b a peerCalls) hrelay hencode
  · rintro headers rfl
    exact Batch.length_le_of_encode hencode

/-- Headers in full, to a peer that has just been sent half a compressed batch. -/
theorem sent_is_received_iff_relayed :
    ∃ (message : Message) (encoded : Encoded),
      ((start {} ⟨0⟩ ⟨2048⟩).run [.message .sendHeaders]).relay
          [⟨4, Hash.zero, Hash.zero, 7, 1, 2⟩] = some message ∧
      message.encode {} = .ok encoded ∧
      outcome (Message.decode {} message.command encoded.bytes) = .ok message ∧
      (((start {} ⟨2048⟩ ⟨0⟩).run [.payload "headers2" [2, 0x38, 4, 0]]).receive message.command
        encoded.bytes).result = .ok [⟨4, Hash.zero, Hash.zero, 7, 1, 2⟩] := by
  have hrelay : ((start {} ⟨0⟩ ⟨2048⟩).run [.message .sendHeaders]).relay
      [⟨4, Hash.zero, Hash.zero, 7, 1, 2⟩] =
        some (.headers [⟨4, Hash.zero, Hash.zero, 7, 1, 2⟩]) := rfl
  have hlimits : (Message.headers [⟨4, Hash.zero, Hash.zero, 7, 1, 2⟩]).WithinLimits :=
    show 1 ≤ HeaderList.maxHeaders by decide
  rcases sent_is_received_iff [.message .sendHeaders] [.payload "headers2" [2, 0x38, 4, 0]]
    (.relay hrelay) rfl with ⟨hdecode, hreceive, _⟩
  exact ⟨_, _, hrelay, rfl, hdecode.2 hlimits, (hreceive _ hrelay).2 hlimits⟩

/-! ## Beyond the limits -/

/-- One hash more than a request may carry. -/
def longLocator : Locator where
  version := 70230
  hashes := List.replicate 102 Hash.zero
  stop := Hash.zero

/-- One header more than an uncompressed batch may declare. -/
def longBatch : List BlockHeader :=
  List.replicate 2001 ⟨0, Hash.zero, Hash.zero, 0, 0, 0⟩

/-- A session asks with any locator and relays any number of headers in full, and both can be
written; the other end refuses them. -/
theorem sent_and_refused :
    (start {} ⟨0⟩ ⟨0⟩).Sends (.getHeaders longLocator) ∧
    Message.encode {} (.getHeaders longLocator) = .ok { bytes := longLocator.bytes } ∧
    outcome (Message.decode {} "getheaders" longLocator.bytes) =
      .error (.locatorTooLarge 102 101) ∧
    ((start {} ⟨0⟩ ⟨0⟩).run [.message .sendHeaders]).relay longBatch =
      some (.headers longBatch) ∧
    Message.encode {} (.headers longBatch) = .ok { bytes := HeaderList.bytes longBatch } ∧
    ((start {} ⟨0⟩ ⟨0⟩).receive "headers" (HeaderList.bytes longBatch)).result =
      .error (.batchTooLarge 2001 2000) := by
  have hhashes : longLocator.hashes.length = 102 := List.length_replicate
  have hheaders : longBatch.length = 2001 := List.length_replicate
  refine ⟨.request longLocator, rfl, ?_, rfl, rfl, ?_⟩
  · have hsmall : longLocator.hashes.length < UInt64.size := by rw [hhashes]; decide
    have hlarge : Locator.maxHashes < longLocator.hashes.length := by rw [hhashes]; decide
    rw [Message.outcome_decode_getHeaders, Locator.outcome_readBounded_oversized hsmall hlarge,
      hhashes]
    rfl
  · have hsmall : longBatch.length < UInt64.size := by rw [hheaders]; decide
    have hlarge : HeaderList.maxHeaders < longBatch.length := by rw [hheaders]; decide
    rw [result_receive_headers, HeaderList.outcome_read_oversized hsmall hlarge, hheaders]
    rfl

end Session
end HeaderRelay
