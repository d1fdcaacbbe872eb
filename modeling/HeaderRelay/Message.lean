import HeaderRelay.Compression.Batch
import HeaderRelay.HeaderList
import HeaderRelay.Locator

/-!
# Messages of header relay

* `Message` — the six messages understood here, and any other one kept as it came;
* `Message.command` — the name under which a message travels;
* `Message.wireLength?` — the size of a payload, where it is known without writing it;
* `Message.encode`, `Message.decode` — to a payload and back;
* `Message.write` — the payload behind what was written before.
-/

namespace HeaderRelay

inductive Message where
  | getHeaders (locator : Locator)
  | getHeaders2 (locator : Locator)
  | headers (hs : List BlockHeader)
  | headers2 (hs : List BlockHeader)
  /-- Asks for new headers in full rather than by inventory. -/
  | sendHeaders
  /-- Asks for new headers in compressed batches. -/
  | sendHeaders2
  | unparsed (command : String) (data : List UInt8)
  deriving DecidableEq

namespace Message

def command : Message → String
  | getHeaders _ => "getheaders"
  | getHeaders2 _ => "getheaders2"
  | headers _ => "headers"
  | headers2 _ => "headers2"
  | sendHeaders => "sendheaders"
  | sendHeaders2 => "sendheaders2"
  | unparsed command _ => command

def wireLength? : Message → Option Nat
  | getHeaders locator => some locator.wireLength
  | getHeaders2 locator => some locator.wireLength
  | headers hs => some (HeaderList.wireLength hs)
  | sendHeaders2 => some 0
  | headers2 _ => none
  | sendHeaders => none
  | unparsed _ _ => none

/-- The payload of a message. Only a compressed batch that is too large has none. -/
def encode (codec : Codec) : Message → Except EncodeError Encoded
  | getHeaders locator => .ok { bytes := locator.bytes }
  | getHeaders2 locator => .ok { bytes := locator.bytes }
  | headers hs => .ok { bytes := HeaderList.bytes hs }
  | headers2 hs => Batch.encode codec hs
  | sendHeaders => .ok { bytes := [] }
  | sendHeaders2 => .ok { bytes := [] }
  | unparsed _ data => .ok { bytes := data }

/-- Puts the payload behind the output, all of it or nothing. -/
def write (codec : Codec) (message : Message) : Writing :=
  .ofOutcome (message.encode codec)

/-- Everything ahead, kept as it is. -/
def readUnparsed (command : String) : Reader Message := do
  let data := (← get).rest
  Reader.report (.commandUnparsed command data.length)
  return .unparsed command data

/-- The message that `command` announces. Announcements have no content to look at. -/
def read (codec : Codec) (command : String) : Reader Message :=
  if command = "getheaders" then
    return .getHeaders (← Locator.readBounded)
  else if command = "getheaders2" then
    return .getHeaders2 (← Locator.readBounded)
  else if command = "headers" then
    return .headers (← HeaderList.read)
  else if command = "headers2" then
    return .headers2 (← Batch.withFresh codec (Batch.readPayload codec))
  else if command = "sendheaders" then
    return .sendHeaders
  else if command = "sendheaders2" then
    return .sendHeaders2
  else
    readUnparsed command

/-- The message with the given command and payload. -/
def decode (codec : Codec) (command : String) (payload : List UInt8) :
    EStateM.Result DecodeError Reading Message :=
  (read codec command).run (.start payload)

end Message
end HeaderRelay
