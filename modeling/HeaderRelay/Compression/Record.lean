import HeaderRelay.Compression.Bitfield
import HeaderRelay.Compression.Context

/-!
# Compressed records

A record says of each field of a header either its value or that it follows from the context.

* `VersionField`, `TimeField` — the two fields with forms of their own;
* `Record` — one compressed header, with its bitfield and its bytes;
* `Record.explicit` — the record that leaves nothing out;
* `Context.compress` — the record of a header in a context, and the context's new version table.
-/

namespace HeaderRelay

/-! ## Fields -/

inductive VersionField where
  | literal (version : Int32)
  /-- The version at a place of the table. -/
  | entry (index : Nat)
  deriving DecidableEq, Repr

/-- A literal has selector zero, an entry one more than its place. -/
def VersionField.selector : VersionField → Fin 8
  | literal _ => ⟨0, by decide⟩
  | entry index => ⟨(index + 1) % 8, Nat.mod_lt _ (by decide)⟩

def VersionField.bytes : VersionField → List UInt8
  | literal version => Writer.i32 version
  | entry _ => []

inductive TimeField where
  | full (timestamp : UInt32)
  /-- Seconds since the previous header. -/
  | offset (seconds : Int16)
  deriving DecidableEq, Repr

def TimeField.isFull : TimeField → Bool
  | full _ => true
  | offset _ => false

def TimeField.bytes : TimeField → List UInt8
  | full timestamp => Writer.u32 timestamp
  | offset seconds => Writer.i16 seconds

/-- The shorter form whenever the difference fits in 16 bits with a sign. -/
def TimeField.since (previous timestamp : UInt32) : TimeField :=
  let difference : Int := timestamp.toNat - previous.toNat
  if -32768 ≤ difference ∧ difference ≤ 32767 then
    .offset (Int16.ofInt difference)
  else
    .full timestamp

/-! ## Records -/

structure Record where
  version : VersionField
  /-- Left out when it is the hash of the previous header. -/
  prevBlock : Option Hash
  merkleRoot : Hash
  time : TimeField
  /-- Left out when it is the same as before. -/
  bits : Option UInt32
  nonce : UInt32
  deriving DecidableEq

namespace Record

def bitfield (record : Record) : Bitfield where
  selector := record.version.selector
  hasPrevBlock := record.prevBlock.isSome
  hasFullTimestamp := record.time.isFull
  hasBits := record.bits.isSome

def bytes (record : Record) : List UInt8 :=
  record.bitfield.toByte :: (record.version.bytes ++
    ((record.prevBlock.map Hash.bytes).getD [] ++ (record.merkleRoot.bytes ++
      (record.time.bytes ++ ((record.bits.map Writer.u32).getD [] ++
        Writer.u32 record.nonce)))))

/-- The event of writing the record. -/
def encoded (record : Record) : Event :=
  .recordEncoded record.bitfield.toByte record.bytes.length

/-- Every field in full. -/
def explicit (header : BlockHeader) : Record where
  version := .literal header.version
  prevBlock := some header.prevBlock
  merkleRoot := header.merkleRoot
  time := .full header.timestamp
  bits := some header.bits
  nonce := header.nonce

theorem bitfield_explicit (header : BlockHeader) :
    (explicit header).bitfield = Bitfield.explicit := rfl

theorem bytes_explicit (header : BlockHeader) :
    (explicit header).bytes = 0x38 :: header.bytes := by
  unfold bytes
  rw [bitfield_explicit]
  simp only [explicit, VersionField.bytes, TimeField.bytes, Option.map_some, Option.getD_some,
    BlockHeader.bytes]
  exact congrArg (· :: _) (by decide : Bitfield.explicit.toByte = 0x38)

end Record

/-! ## Compression -/

namespace Context

/-- What stands for `version`: its place when the table has it, else the version itself; and the
context in which it is the most recent one. -/
def referTo (ctx : Context) (version : Int32) : VersionField × Context :=
  match ctx.versions.indexOf? version with
  | some index => (.entry index, ctx.mark index)
  | none => (.literal version, ctx.save version)

/-- The record of `header`. The first record of a batch is explicit, whatever the context holds;
a later one leaves out what follows from it. The snapshot stays as it is. -/
def compress (ctx : Context) (first : Bool) (header : BlockHeader) : Record × Context :=
  if first then
    (Record.explicit header, ctx.save header.version)
  else
    let (version, ctx') := ctx.referTo header.version
    let record : Record := {
      version
      prevBlock := if header.prevBlock = ctx.previous.hash then none else some header.prevBlock
      merkleRoot := header.merkleRoot
      time := TimeField.since ctx.previous.timestamp header.timestamp
      bits := if header.bits = ctx.previous.bits then none else some header.bits
      nonce := header.nonce }
    (record, ctx')

end Context
end HeaderRelay
