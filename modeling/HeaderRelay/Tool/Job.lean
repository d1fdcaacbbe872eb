import HeaderRelay.Compression.Batch
import HeaderRelay.Tool.FileAccess

/-!
# What the tool does with files

* `ToolError` — why a job fails, with the sentence shown for it;
* `parseRaw` — the headers in a string of 80-byte headers;
* `Job` — a step that prints lines, reports events and may fail;
* `compressFile` — raw headers in one file to a compressed batch in another;
* `printFile` — a compressed batch as printed lines, one for each header.
-/

namespace HeaderRelay
namespace Tool

inductive ToolError where
  | decode (error : DecodeError)
  | encode (error : EncodeError)
  | file (error : FileError)
  | notHex
  /-- The input ends in the middle of a header. -/
  | ragged (length : Nat)
  | tooManyHeaders (count max : Nat)
  deriving DecidableEq, Repr

def ToolError.message : ToolError → String
  | decode error => error.message
  | encode error => "io error: " ++ error.message
  | file error => "io error: " ++ error.message
  | notHex => "input is not valid hex"
  | ragged length => s!"input of {length} bytes is not a whole number of 80 byte headers"
  | tooManyHeaders count max =>
      s!"{count} headers do not fit in one headers2 message, maximum is {max}"

/-! ## Content -/

/-- The headers that `bytes` hold, one right after the other. -/
def parseRaw (bytes : List UInt8) : Except ToolError (List BlockHeader) :=
  if bytes.length % BlockHeader.size ≠ 0 then
    .error (.ragged bytes.length)
  else
    match Reader.times (bytes.length / BlockHeader.size) BlockHeader.read (.start bytes) with
    | .ok headers _ => .ok headers
    | .error e _ => .error (.decode e)

/-- The compressed batch of raw headers. -/
def compress (codec : Codec) (bytes : List UInt8) : Except ToolError Encoded := do
  let headers ← parseRaw bytes
  if headers.length > Batch.maxHeaders then
    throw (.tooManyHeaders headers.length Batch.maxHeaders)
  else
    (Batch.encode codec headers).mapError .encode

/-- The payload in a file's content, which may be hex text. -/
def payloadOf (hex : Bool) (content : List UInt8) : Except ToolError (List UInt8) :=
  if hex then do
    let text ← (textOf content).mapError .file
    match Hex.decode text with
    | some payload => return payload
    | none => throw .notHex
  else
    return content

/-- A header as a line: its position, its hash as people write it, and its own fields. -/
def headerLine (codec : Codec) (index : Nat) (header : BlockHeader) : String :=
  s!"{index} {Hex.encodeReversed (codec.hasher header).bytes} " ++
    s!"version={Hex.word 4 header.version.toUInt32.toNat} time={header.timestamp.toNat} " ++
    s!"bits={Hex.word 4 header.bits.toNat} nonce={header.nonce.toNat}"

/-! ## Jobs -/

/-- What a job leaves on its way, whatever comes of it. -/
structure Trail where
  /-- The lines printed so far, first to last. -/
  printed : Array String := #[]
  /-- The events reported so far, oldest first. -/
  events : Array Event := #[]

/-- A step with effects in `m` that prints lines, reports events and may fail. What it printed and
reported before a failure is kept. -/
abbrev Job (m : Type → Type) : Type → Type :=
  ExceptT ToolError (StateT Trail m)

namespace Job

variable {m : Type → Type} [Monad m] {α : Type}

def print (line : String) : Job m Unit :=
  modify fun (trail : Trail) => { trail with printed := trail.printed.push line }

def report (events : List Event) : Job m Unit :=
  modify fun (trail : Trail) => { trail with events := trail.events ++ events }

/-- Runs a question to the file system. -/
def ask (question : m (Except FileError α)) : Job m α := do
  let answer ← (liftM question : StateT Trail m (Except FileError α))
  match answer with
  | .ok a => return a
  | .error e => throw (.file e)

/-- What came of a job, and all that it left on its way. -/
def trace (job : Job m α) : m (Except ToolError α × Trail) :=
  job.run.run {}

end Job

variable {m : Type → Type} [Monad m]

open Job

/-- Writes the compressed batch of the headers at `input` to `output` and returns its size. The
output is not touched before the whole batch is there. -/
def compressFile (files : FileAccess m) (codec : Codec) (input output : String) :
    Job m Nat := do
  let bytes ← ask (files.read input)
  let encoded ← ofExcept (compress codec bytes)
  report encoded.events
  ask (files.write output encoded.bytes)
  report [.fileCompressed bytes.length encoded.bytes.length]
  return encoded.bytes.length

/-- Prints a line for each header; the position of the first one is `index`. -/
def printHeaders (codec : Codec) (index : Nat) : List BlockHeader → Job m Unit
  | [] => return ()
  | header :: rest => do
      print (headerLine codec index header)
      printHeaders codec (index + 1) rest

/-- Prints a line for each header of the batch at `input` and returns their number. Nothing is
printed before the whole batch is decoded. -/
def printFile (files : FileAccess m) (codec : Codec) (input : String) (hex : Bool) :
    Job m Nat := do
  let content ← ask (files.read input)
  let payload ← ofExcept (payloadOf hex content)
  match Batch.decode codec payload with
  | .error e s =>
      report s.log.toList
      throw (.decode e)
  | .ok headers s =>
      report s.log.toList
      report [.payloadListed headers.length payload.length]
      printHeaders codec 0 headers
      return headers.length

end Tool
end HeaderRelay
