import HeaderRelay.Bytes.Hex
import HeaderRelay.Text.Quoted

/-!
# Events worth telling the operator

The library writes no log of its own: operations return what happened as a list of events, and
whoever runs them decides what to show.

* `Level` — how severe an event is, most severe first;
* `Event` — what can happen, with its level and its line of text.
-/

namespace HeaderRelay

/-! ## Severity -/

inductive Level where
  | error
  | warn
  | info
  | debug
  | trace
  deriving DecidableEq, Repr

namespace Level

/-- Position in the order of severity; the most severe level comes first. -/
def rank : Level → Nat
  | error => 0
  | warn => 1
  | info => 2
  | debug => 3
  | trace => 4

def label : Level → String
  | error => "ERROR"
  | warn => "WARN"
  | info => "INFO"
  | debug => "DEBUG"
  | trace => "TRACE"

/-- A listener at `threshold` hears everything at least as severe. -/
def heardAt (level threshold : Level) : Bool :=
  level.rank ≤ threshold.rank

end Level

/-! ## Events -/

inductive Event where
  /-- A record other than the first of a batch was written. -/
  | recordEncoded (bitfield : UInt8) (length : Nat)
  | recordDecoded (bitfield : UInt8) (length : Nat)
  /-- Where the record with the given index lay in its payload. -/
  | recordLocated (index offset length : Nat)
  | batchEncoded (headers length : Nat)
  /-- A batch ended at the given offset of its payload. -/
  | batchDecoded (headers offset : Nat)
  | trailingIgnored (length headers : Nat)
  /-- A record named a table entry that is not there, and the reader went on with a literal. -/
  | versionRecovered (index tableLength : Nat)
  | commandUnparsed (command : String) (length : Nat)
  /-- The peer asked for compressed relay without having agreed to it. -/
  | announcementUnnegotiated
  /-- The peer sent a compressed batch without having agreed to it. -/
  | batchUnnegotiated
  | fileCompressed (input output : Nat)
  | payloadListed (headers length : Nat)
  deriving DecidableEq, Repr

namespace Event

def level : Event → Level
  | recordEncoded .. => .trace
  | recordDecoded .. => .trace
  | recordLocated .. => .trace
  | batchEncoded .. => .debug
  | batchDecoded .. => .debug
  | trailingIgnored .. => .debug
  | versionRecovered .. => .warn
  | commandUnparsed .. => .trace
  | announcementUnnegotiated => .warn
  | batchUnnegotiated => .warn
  | fileCompressed .. => .info
  | payloadListed .. => .debug

def message : Event → String
  | recordEncoded bitfield length =>
      s!"encoded record bitfield={Hex.word 1 bitfield.toNat} len={length}"
  | recordDecoded bitfield length =>
      s!"decoded record bitfield={Hex.word 1 bitfield.toNat} len={length}"
  | recordLocated index offset length =>
      s!"headers2 record {index} at offset {offset}: {length} bytes"
  | batchEncoded headers length =>
      s!"encoded {headers} headers into {length} bytes"
  | batchDecoded headers offset =>
      s!"decoded {headers} headers from {offset} bytes"
  | trailingIgnored length headers =>
      s!"ignoring {length} bytes after {headers} headers2 records"
  | versionRecovered index tableLength =>
      s!"version table index {index} out of range ({tableLength} entries), " ++
        "reading literal version"
  | commandUnparsed command length =>
      s!"Unparsed message: {Text.quoted command} ({length} bytes)"
  | announcementUnnegotiated =>
      "peer sent sendheaders2 without compressed headers negotiated"
  | batchUnnegotiated =>
      "received headers2 without compressed headers negotiated"
  | fileCompressed input output =>
      s!"compressed {input} bytes of headers into {output} bytes"
  | payloadListed headers length =>
      s!"decoded {headers} headers from {length} bytes"

/-- The line of an event: its level in capitals, then its text. -/
def line (event : Event) : String :=
  s!"{event.level.label} {event.message}"

end Event
end HeaderRelay
