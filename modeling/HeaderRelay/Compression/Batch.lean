import HeaderRelay.Compression.Codec
import HeaderRelay.Wire.CompactSize

/-!
# Compressed batches

A batch is a count followed by that many records, each read against the context that the ones
before it left behind. Every batch starts from a fresh context, so it stands on its own.

* `Batch.records` — the records of a list of headers;
* `Batch.encode` — the payload of a list of at most `Batch.maxHeaders` headers;
* `Batch.read` — a batch at the front of what lies ahead;
* `Batch.decodeIn`, `Batch.decode` — a whole payload, in a given context or a fresh one.
-/

namespace HeaderRelay
namespace Batch

/-- Most headers in one compressed batch. -/
def maxHeaders : Nat := 8000

/-! ## Writing -/

/-- The records of `headers` from `ctx` on, and the context after them. -/
def recordsFrom (ctx : Context) (first : Bool) : List BlockHeader → List Record × Context
  | [] => ([], ctx)
  | header :: rest =>
      let (record, ctx') := ctx.compress first header
      let (records, last) := recordsFrom (ctx'.advance header) false rest
      (record :: records, last)

def records (codec : Codec) (headers : List BlockHeader) : List Record :=
  (recordsFrom codec.context true headers).1

/-- The context in which the writer of a batch ends. -/
def finalContext (codec : Codec) (headers : List BlockHeader) : Context :=
  (recordsFrom codec.context true headers).2

/-- The payload of a batch. All records but the first are reported, then the whole batch. -/
def encode (codec : Codec) (headers : List BlockHeader) : Except EncodeError Encoded :=
  if headers.length > maxHeaders then
    .error (.batchTooLarge headers.length)
  else
    let records := records codec headers
    let bytes := CompactSize.encodeLength headers ++ records.flatMap Record.bytes
    let reported := (records.drop 1).map Record.encoded
    .ok { bytes, events := reported ++ [.batchEncoded headers.length bytes.length] }

/-! ## Reading -/

open RecordReader

/-- `count` more records after the headers in `acc`, the next of which begins at `offset`. -/
def readRecords (codec : Codec) :
    (count offset : Nat) → (acc : Array BlockHeader) → RecordReader (List BlockHeader)
  | 0, offset, acc => do
      report (.batchDecoded acc.size offset)
      return acc.toList
  | count + 1, start, acc => do
      let (header, length) ← codec.decode acc.isEmpty
      report (.recordLocated acc.size start length)
      modifyContext (·.advance header)
      readRecords codec count (start + length) (acc.push header)

/-- A batch. The context is replaced by a fresh one of the codec once the count is accepted. -/
def read (codec : Codec) : RecordReader (List BlockHeader) := do
  let count ← ofReader CompactSize.read
  if count.toNat > maxHeaders then
    throw (.batchTooLarge count.toNat maxHeaders)
  else
    modifyContext fun _ => codec.context
    readRecords codec count.toNat (← offset) #[]

/-- A batch and, ignored but reported, whatever follows it. -/
def readPayload (codec : Codec) : RecordReader (List BlockHeader) := do
  let headers ← read codec
  let reading := (← get).reading
  if reading.atEnd then
    return headers
  else
    report (.trailingIgnored reading.remaining headers.length)
    return headers

/-- The headers of a payload, read in a context that outlives it. -/
def decodeIn (codec : Codec) (ctx : Context) (payload : List UInt8) :
    EStateM.Result DecodeError Decoding (List BlockHeader) :=
  (readPayload codec).run { reading := .start payload, context := ctx }

/-- Runs a step in a fresh context of the codec, which is dropped afterwards. -/
def withFresh {α : Type} (codec : Codec) (step : RecordReader α) : Reader α := fun s =>
  match step { reading := s, context := codec.context } with
  | .ok a t => .ok a t.reading
  | .error e t => .error e t.reading

/-- The headers of a payload, read in a fresh context. -/
def decode (codec : Codec) (payload : List UInt8) :
    EStateM.Result DecodeError Reading (List BlockHeader) :=
  (withFresh codec (readPayload codec)).run (.start payload)

end Batch
end HeaderRelay
