import HeaderRelay.BlockHeader
import HeaderRelay.Compression.VersionTable

/-!
# What a compressed record is read against

* `Snapshot` — what is remembered of the previous header;
* `Context` — the version table, the snapshot, and the function that names headers;
* `Context.save`, `Context.mark` — the table's two movements;
* `Context.advance` — the step from one header to the next.
-/

namespace HeaderRelay

/-- The parts of a header that the next record may leave out. -/
structure Snapshot where
  hash : Hash
  timestamp : UInt32
  bits : UInt32
  deriving DecidableEq

namespace Snapshot

/-- No header came before. -/
def blank : Snapshot where
  hash := Hash.zero
  timestamp := 0
  bits := 0

def ofHeader (hasher : Hasher) (header : BlockHeader) : Snapshot where
  hash := hasher header
  timestamp := header.timestamp
  bits := header.bits

end Snapshot

/-- The state that passes from record to record of one batch. -/
structure Context where
  versions : VersionTable
  previous : Snapshot
  hasher : Hasher

namespace Context

/-- A context that has seen no header. -/
def fresh (hasher : Hasher) : Context where
  versions := []
  previous := .blank
  hasher := hasher

def save (ctx : Context) (version : Int32) : Context :=
  { ctx with versions := ctx.versions.save version }

def mark (ctx : Context) (index : Nat) : Context :=
  { ctx with versions := ctx.versions.mark index }

/-- Moves on to the next record after `header`. -/
def advance (ctx : Context) (header : BlockHeader) : Context :=
  { ctx with previous := .ofHeader ctx.hasher header }

/-- Forgets everything but the function that names headers. -/
def reset (ctx : Context) : Context :=
  fresh ctx.hasher

/-- The context as text; the hashes stay out of it. -/
def describe (ctx : Context) : String :=
  let versions := ", ".intercalate (ctx.versions.map fun v => toString v.toInt)
  s!"CompressionContext \x7b versions: [{versions}], " ++
    s!"previous_timestamp: {ctx.previous.timestamp.toNat}, " ++
    s!"previous_bits: {Hex.word 4 ctx.previous.bits.toNat} \x7d"

end Context
end HeaderRelay
