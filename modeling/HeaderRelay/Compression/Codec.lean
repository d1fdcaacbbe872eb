import HeaderRelay.Compression.Record

/-!
# One record at a time

* `ReferencePolicy` — what a reader does about a version that the table does not hold;
* `Codec` — a policy and a function that names headers;
* `Codec.emit` — the record of a header behind what was written before;
* `RecordReader`, `Codec.decode` — a header off a payload.

Neither direction moves the snapshot on: that is `Context.advance`, once per header.
-/

namespace HeaderRelay

/-! ## Policies -/

inductive ReferencePolicy where
  /-- Take it that the version follows in full. -/
  | lenient
  /-- Refuse the batch. -/
  | strict
  deriving DecidableEq, Repr

namespace ReferencePolicy

/-- The policy of a codec that was not told otherwise. -/
def standard : ReferencePolicy := lenient

def name : ReferencePolicy → String
  | lenient => "lenient"
  | strict => "strict"

/-- Only the exact names count. -/
def ofName? : String → Option ReferencePolicy
  | "lenient" => some lenient
  | "strict" => some strict
  | _ => none

theorem ofName?_name (policy : ReferencePolicy) : ofName? policy.name = some policy := by
  cases policy <;> rfl

end ReferencePolicy

/-! ## Codecs -/

structure Codec where
  policy : ReferencePolicy := .standard
  hasher : Hasher := BlockHeader.sha256d

namespace Codec

/-- The context in which a batch begins. -/
def context (codec : Codec) : Context :=
  .fresh codec.hasher

/-- The codec as text; the function that names headers has none. -/
def describe (codec : Codec) : String :=
  let policy := match codec.policy with
    | .lenient => "Lenient"
    | .strict => "Strict"
  s!"HeaderCodec \x7b policy: {policy} \x7d"

end Codec

/-! ## Writing records -/

namespace Codec

open Emitter

/-- The bitfield of a later record, from comparisons with the context. -/
def bitfieldFor (ctx : Context) (header : BlockHeader) : Bitfield where
  selector := (ctx.referTo header.version).1.selector
  hasPrevBlock := header.prevBlock ≠ ctx.previous.hash
  hasFullTimestamp := (TimeField.since ctx.previous.timestamp header.timestamp).isFull
  hasBits := header.bits ≠ ctx.previous.bits

/-- The bytes of a later record, each field if the bitfield says that it is there. -/
def emitFields (bitfield : Bitfield) (time : TimeField) (header : BlockHeader) : Emitter Unit := do
  put (Writer.u8 bitfield.toByte)
  putWhen bitfield.hasLiteralVersion (Writer.i32 header.version)
  putWhen bitfield.hasPrevBlock header.prevBlock.bytes
  put header.merkleRoot.bytes
  put time.bytes
  putWhen bitfield.hasBits (Writer.u32 header.bits)
  put (Writer.u32 header.nonce)

/-- The record of `header`. The result is the context behind it and its length. Writing an explicit
first record is not reported. -/
def emit (ctx : Context) (first : Bool) (header : BlockHeader) : Emitter (Context × Nat) :=
  if first then
    measured do
      put (Writer.u8 Bitfield.explicit.toByte)
      header.emit
      return ctx.save header.version
  else do
    let bitfield := bitfieldFor ctx header
    let time := TimeField.since ctx.previous.timestamp header.timestamp
    let written ← measured (emitFields bitfield time header)
    report (.recordEncoded bitfield.toByte written.2)
    return ((ctx.referTo header.version).2, written.2)

end Codec

/-! ## Reading records -/

/-- A payload in the middle of being read against a context. -/
structure Decoding where
  reading : Reading
  context : Context

abbrev RecordReader : Type → Type :=
  EStateM DecodeError Decoding

namespace RecordReader

/-- A step that leaves the context alone. -/
def ofReader {α : Type} (step : Reader α) : RecordReader α := fun s =>
  match step s.reading with
  | .ok a reading => .ok a { s with reading }
  | .error e reading => .error e { s with reading }

def report (event : Event) : RecordReader Unit :=
  ofReader (Reader.report event)

def getContext : RecordReader Context :=
  return (← get).context

def modifyContext (f : Context → Context) : RecordReader Unit :=
  modify fun s => { s with context := f s.context }

def offset : RecordReader Nat :=
  return (← get).reading.offset

end RecordReader

namespace Codec

open RecordReader

/-- A version in full, which becomes the most recent one. -/
def readLiteralVersion : RecordReader Int32 := do
  let version ← ofReader (Reader.i32 "version")
  modifyContext (·.save version)
  return version

/-- The table's version at `index`, which becomes the most recent one. -/
def readVersionEntry (policy : ReferencePolicy) (index : Nat) : RecordReader Int32 := do
  let table := (← getContext).versions
  match table[index]? with
  | some version =>
      modifyContext (·.mark index)
      return version
  | none =>
      match policy with
      | .strict => throw (.missingVersion index table.length)
      | .lenient =>
          report (.versionRecovered index table.length)
          readLiteralVersion

def readVersion (policy : ReferencePolicy) (bitfield : Bitfield) : RecordReader Int32 :=
  if bitfield.hasLiteralVersion then
    readLiteralVersion
  else
    readVersionEntry policy (bitfield.selector.val - 1)

/-- The timestamp in full, or moved from the previous one with wrap-around. -/
def readTimestamp (full : Bool) (previous : UInt32) : Reader UInt32 :=
  if full then
    Reader.u32 "timestamp"
  else do
    let seconds ← Reader.i16 "timestamp offset"
    return previous + seconds.toInt32.toUInt32

/-- The fields after the version; what the bitfield leaves out comes from `previous`. -/
def readFields (bitfield : Bitfield) (previous : Snapshot) (version : Int32) :
    Reader BlockHeader := do
  let prevBlock ←
    if bitfield.hasPrevBlock then Reader.hash "prev_block" else pure previous.hash
  let merkleRoot ← Reader.hash "merkle_root"
  let timestamp ← readTimestamp bitfield.hasFullTimestamp previous.timestamp
  let bits ← if bitfield.hasBits then Reader.u32 "bits" else pure previous.bits
  let nonce ← Reader.u32 "nonce"
  return { version, prevBlock, merkleRoot, timestamp, bits, nonce }

/-- What follows a bitfield. -/
def readBody (policy : ReferencePolicy) (bitfield : Bitfield) : RecordReader BlockHeader := do
  let version ← readVersion policy bitfield
  let previous := (← getContext).previous
  ofReader (readFields bitfield previous version)

/-- A header and the number of bytes of its record. Nothing precedes the first record of a batch,
so it has to be explicit. -/
def decode (codec : Codec) (first : Bool) : RecordReader (BlockHeader × Nat) := do
  let start ← offset
  let bitfield := Bitfield.ofByte (← ofReader (Reader.u8 "bitfield"))
  if first ∧ bitfield ≠ Bitfield.explicit then
    throw (.compressedFirst bitfield.toByte)
  else
    let header ← readBody codec.policy bitfield
    let length := (← offset) - start
    report (.recordDecoded bitfield.toByte length)
    return (header, length)

end Codec
end HeaderRelay
