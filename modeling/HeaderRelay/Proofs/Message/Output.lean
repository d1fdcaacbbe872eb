import HeaderRelay.Proofs.Batch.RoundTrip
import HeaderRelay.Proofs.Compression.Emission

/-!
# All of a payload or nothing

Messages can be written field by field behind what was written before, with lengths found from the
output that the message shares with it. What comes out is the payload on its own, put behind the
output as a whole; and as the size of a batch is looked at before its first byte is written, a batch
that is refused leaves no byte behind.

* `Batch.emit`, `Message.emit` — batches and messages field by field;
* `Batch.appends_emit` — records in a row come to what `Batch.encode` gives;
* `Message.length_bytes_encode` — payloads are as long as they were found to be beforehand;
* `Message.appended_whole_or_not_at_all` — what becomes of the output.
-/

namespace HeaderRelay

open Emitter

/-! ## Batches -/

namespace Batch

/-- The records of `headers` from `ctx` on. -/
def emitFrom (ctx : Context) (first : Bool) : List BlockHeader → Emitter Unit
  | [] => pure ()
  | header :: headers => do
      let written ← Codec.emit ctx first header
      emitFrom (written.1.advance header) false headers

/-- The size is looked at before anything is written. -/
def emit (codec : Codec) (headers : List BlockHeader) : Emitter Unit :=
  if headers.length > maxHeaders then
    throw (.batchTooLarge headers.length)
  else do
    let written ← measured do
      CompactSize.emit (UInt64.ofNat headers.length)
      emitFrom codec.context true headers
    report (.batchEncoded headers.length written.2)

/-- All records but the first of the batch are reported. -/
theorem appends_emitFrom {ctx : Context} (hbounded : ctx.IsBounded) (first : Bool)
    (headers : List BlockHeader) :
    (emitFrom ctx first headers).Appends () {
      bytes := (recordsFrom ctx first headers).1.flatMap Record.bytes
      events := ((recordsFrom ctx first headers).1.drop first.toNat).map Record.encoded } := by
  induction headers generalizing ctx first with
  | nil => cases first <;> exact appends_pure ()
  | cons header headers ih =>
      -- the table stays within the reach of selectors from record to record
      have hrecord := Codec.appends_emit hbounded first header
      have hrest := ih ((hbounded.compress first header).advance header) false
      rw [recordsFrom_cons, List.flatMap_cons]
      cases first with
      | true => exact hrecord.bind hrest rfl
      | false => exact hrecord.bind hrest rfl

/-- A batch of any size that may be written is put behind the output as its payload. -/
theorem appends_emit (codec : Codec) {headers : List BlockHeader}
    (h : headers.length ≤ maxHeaders) :
    ∃ written, encode codec headers = .ok written ∧ (emit codec headers).Appends () written := by
  have hlimit : ¬ headers.length > maxHeaders := Nat.not_lt.2 h
  have hcounted : Appends (do
      CompactSize.emit (UInt64.ofNat headers.length)
      emitFrom codec.context true headers) () {
        bytes := CompactSize.encodeLength headers ++ (records codec headers).flatMap Record.bytes
        events := ((records codec headers).drop 1).map Record.encoded } :=
    (CompactSize.appends_emit _).bind
      (appends_emitFrom (Context.isBounded_fresh codec.hasher) true headers) rfl
  rw [encode, if_neg hlimit]
  refine ⟨_, rfl, ?_⟩
  rw [emit, if_neg hlimit]
  refine hcounted.measured.bind (appends_report _) ?_
  simp only [Encoded.append, List.append_nil]

end Batch

/-! ## Messages -/

namespace Message

def emit (codec : Codec) : Message → Emitter Unit
  | getHeaders locator => locator.emit
  | getHeaders2 locator => locator.emit
  | headers hs => HeaderList.emit hs
  | headers2 hs => Batch.emit codec hs
  | sendHeaders => pure ()
  | sendHeaders2 => pure ()
  | unparsed _ data => put data

theorem write_of_large (codec : Codec) {hs : List BlockHeader} (h : Batch.maxHeaders < hs.length)
    (output : Encoded) :
    (headers2 hs).write codec output = .error (.batchTooLarge hs.length) output := by
  rw [write, encode, Batch.encode, if_pos h]
  rfl

/-- All else has a payload. -/
theorem exists_encode (codec : Codec) {message : Message}
    (h : ∀ hs, message = .headers2 hs → hs.length ≤ Batch.maxHeaders) :
    ∃ written, message.encode codec = .ok written := by
  cases message with
  | headers2 hs =>
      rcases Batch.appends_emit codec (h hs rfl) with ⟨written, hencode, _⟩
      exact ⟨written, hencode⟩
  | _ => exact ⟨_, rfl⟩

/-- Writing field by field comes to the same as putting the whole payload behind the output. -/
theorem emit_eq_write (codec : Codec) (message : Message) :
    message.emit codec = message.write codec := by
  have hwhole : ∀ {step : Emitter Unit} {written : Encoded}, step.Appends () written →
      message.encode codec = .ok written → step = message.write codec := by
    intro step written happends hencode
    funext output
    rw [write, hencode, happends output]
    rfl
  cases message with
  | getHeaders locator => exact hwhole locator.appends_emit rfl
  | getHeaders2 locator => exact hwhole locator.appends_emit rfl
  | headers hs => exact hwhole (HeaderList.appends_emit hs) rfl
  | headers2 hs =>
      by_cases hlimit : hs.length ≤ Batch.maxHeaders
      · rcases Batch.appends_emit codec hlimit with ⟨written, hencode, happends⟩
        exact hwhole happends hencode
      · have hlarge : hs.length > Batch.maxHeaders := Nat.not_le.1 hlimit
        funext output
        rw [write_of_large codec hlarge, emit, Batch.emit, if_pos hlarge]
        rfl
  | sendHeaders => exact hwhole (appends_pure ()) rfl
  | sendHeaders2 => exact hwhole (appends_pure ()) rfl
  | unparsed _ data => exact hwhole (appends_put data) rfl

/-- A size that is known without writing the payload is the size of the payload. -/
theorem length_bytes_encode {codec : Codec} {message : Message} {written : Encoded} {n : Nat}
    (hencode : message.encode codec = .ok written) (hlength : message.wireLength? = some n) :
    written.bytes.length = n := by
  cases message with
  | getHeaders locator =>
      cases hencode
      cases hlength
      exact locator.length_bytes
  | getHeaders2 locator =>
      cases hencode
      cases hlength
      exact locator.length_bytes
  | headers hs =>
      cases hencode
      cases hlength
      exact HeaderList.length_bytes hs
  | sendHeaders2 =>
      cases hencode
      cases hlength
      rfl
  | headers2 hs => cases hlength
  | sendHeaders => cases hlength
  | unparsed _ _ => cases hlength

theorem wireLength?_eq_none_iff {message : Message} :
    message.wireLength? = none ↔
      (∃ hs, message = .headers2 hs) ∨ message = .sendHeaders ∨
        ∃ command data, message = .unparsed command data := by
  cases message <;> simp [wireLength?]

/-- A message is written field by field as it is written as a whole. A compressed batch of too many
headers, and nothing else, is refused, with the output as it was. Of all else the same bytes are put
behind every output, as many as were announced. Only compressed batches, the announcement of
headers in full and what is kept as it came have no such number. -/
theorem appended_whole_or_not_at_all (codec : Codec) (message : Message) :
    message.emit codec = message.write codec ∧
      ((∃ hs, message = .headers2 hs ∧ Batch.maxHeaders < hs.length ∧
          ∀ output, message.write codec output = .error (.batchTooLarge hs.length) output) ∨
        (∀ hs, message = .headers2 hs → hs.length ≤ Batch.maxHeaders) ∧
          ∃ written : Encoded,
            (∀ output, message.write codec output =
              .ok () {
                bytes := output.bytes ++ written.bytes
                events := output.events ++ written.events }) ∧
            ∀ n, message.wireLength? = some n → written.bytes.length = n) ∧
      (message.wireLength? = none ↔
        (∃ hs, message = .headers2 hs) ∨ message = .sendHeaders ∨
          ∃ command data, message = .unparsed command data) := by
  refine ⟨message.emit_eq_write codec, ?_, wireLength?_eq_none_iff⟩
  by_cases hlarge : ∃ hs, message = .headers2 hs ∧ Batch.maxHeaders < hs.length
  · rcases hlarge with ⟨hs, rfl, hlarge⟩
    exact Or.inl ⟨hs, rfl, hlarge, write_of_large codec hlarge⟩
  · have hlimit : ∀ hs, message = .headers2 hs → hs.length ≤ Batch.maxHeaders :=
      fun hs hmessage => Nat.not_lt.1 fun h => hlarge ⟨hs, hmessage, h⟩
    rcases exists_encode codec hlimit with ⟨written, hencode⟩
    refine Or.inr ⟨hlimit, written, ?_, fun n => length_bytes_encode hencode⟩
    intro output
    rw [write, hencode]
    rfl

end Message
end HeaderRelay
