import HeaderRelay.Message
import HeaderRelay.Services

/-!
# Header relay on one connection

Both ends announce once how they want new headers: compressed, in full, or by inventory when they
announce nothing. Compressed relay takes the service bit of both ends.

* `Session` — what one end knows;
* `Session.announcement`, `Session.request`, `Session.relay` — what it sends;
* `Session.onMessage`, `Session.receive` — what it makes of what it gets;
* `Session.relayFormat` — how the peer gets new headers.
-/

namespace HeaderRelay

/-- How new headers go to a peer. -/
inductive RelayFormat where
  /-- Their hashes only, by other means. -/
  | inventory
  | headers
  | headers2
  deriving DecidableEq, Repr

structure Session where
  codec : Codec
  /-- The context of the last compressed batch. -/
  context : Context
  ownServices : Services
  peerServices : Services
  /-- The peer asked for headers in full. -/
  wantsHeaders : Bool
  /-- The peer asked for compressed batches. -/
  wantsHeaders2 : Bool

namespace Session

/-- A connection on which nothing was said yet. -/
def start (codec : Codec) (ownServices peerServices : Services) : Session where
  codec
  context := codec.context
  ownServices
  peerServices
  wantsHeaders := false
  wantsHeaders2 := false

/-- Both ends understand compressed batches. -/
def compressionSupported (session : Session) : Bool :=
  session.ownServices.headersCompressed && session.peerServices.headersCompressed

/-! ## Sending -/

/-- What to announce at the start. -/
def announcement (session : Session) : Message :=
  if session.compressionSupported then .sendHeaders2 else .sendHeaders

def request (session : Session) (locator : Locator) : Message :=
  if session.compressionSupported then .getHeaders2 locator else .getHeaders locator

def relayFormat (session : Session) : RelayFormat :=
  if session.wantsHeaders2 && session.compressionSupported then .headers2
  else if session.wantsHeaders || session.wantsHeaders2 then .headers
  else .inventory

/-- The message that brings new headers to the peer, unless they go by inventory. -/
def relay (session : Session) (headers : List BlockHeader) : Option Message :=
  match session.relayFormat with
  | .headers2 => some (.headers2 headers)
  | .headers => some (.headers headers)
  | .inventory => none

/-! ## Receiving -/

/-- Takes note of what the peer announces. -/
def onMessage (session : Session) : Message → Session × List Event
  | .sendHeaders => ({ session with wantsHeaders := true }, [])
  | .sendHeaders2 =>
      ({ session with wantsHeaders2 := true },
        if session.compressionSupported then [] else [.announcementUnnegotiated])
  | _ => (session, [])

/-- What came of a payload: its headers or why there are none, and the session after it. -/
structure Received where
  result : Except DecodeError (List BlockHeader)
  session : Session
  events : List Event

/-- A compressed batch, read in the session's own context, which keeps what the batch left. -/
def receiveBatch (session : Session) (payload : List UInt8) : Received :=
  let warnings := if session.compressionSupported then [] else [Event.batchUnnegotiated]
  match Batch.decodeIn session.codec session.context payload with
  | .ok headers s =>
      { result := .ok headers
        session := { session with context := s.context }
        events := warnings ++ s.reading.log.toList }
  | .error e s =>
      { result := .error e
        session := { session with context := s.context }
        events := warnings ++ s.reading.log.toList }

/-- The headers that a message carries; other messages than batches carry none. -/
def carried : Message → List BlockHeader
  | .headers headers => headers
  | _ => []

/-- The headers of a received payload. A message of another kind has none, but it has to be well
formed. -/
def receive (session : Session) (command : String) (payload : List UInt8) : Received :=
  if command = "headers2" then
    session.receiveBatch payload
  else
    match Message.decode session.codec command payload with
    | .ok message s => { result := .ok (carried message), session, events := s.log.toList }
    | .error e s => { result := .error e, session, events := s.log.toList }

end Session
end HeaderRelay
