import HeaderRelay.Hash.Sha256
import HeaderRelay.Wire.Encoded
import HeaderRelay.Wire.Reader
import HeaderRelay.Wire.Writer

/-!
# Block headers

* `BlockHeader` — the six fields;
* `BlockHeader.bytes` — the 80 bytes that the network agrees on;
* `BlockHeader.emit` — the fields behind what was written before;
* `BlockHeader.read` — the fields off a payload;
* `read_bytes` — a header is read back from its bytes, whatever follows them;
* `Hasher` — how a chain names its headers, by default `BlockHeader.sha256d`.
-/

namespace HeaderRelay

structure BlockHeader where
  version : Int32
  /-- Hash of the header before this one. -/
  prevBlock : Hash
  merkleRoot : Hash
  timestamp : UInt32
  /-- The difficulty target in its short form. -/
  bits : UInt32
  nonce : UInt32
  deriving DecidableEq

/-- A function that names headers. Chains differ in it. -/
abbrev Hasher : Type :=
  BlockHeader → Hash

namespace BlockHeader

/-- Bytes in a whole header. -/
def size : Nat := 80

def bytes (header : BlockHeader) : List UInt8 :=
  Writer.i32 header.version ++ (header.prevBlock.bytes ++ (header.merkleRoot.bytes ++
    (Writer.u32 header.timestamp ++ (Writer.u32 header.bits ++ Writer.u32 header.nonce))))

@[simp] theorem length_bytes (header : BlockHeader) : header.bytes.length = size := by
  simp [bytes, size]

def emit (header : BlockHeader) : Emitter Unit := do
  Emitter.put (Writer.i32 header.version)
  Emitter.put header.prevBlock.bytes
  Emitter.put header.merkleRoot.bytes
  Emitter.put (Writer.u32 header.timestamp)
  Emitter.put (Writer.u32 header.bits)
  Emitter.put (Writer.u32 header.nonce)

def read : Reader BlockHeader := do
  let version ← Reader.i32 "version"
  let prevBlock ← Reader.hash "prev_block"
  let merkleRoot ← Reader.hash "merkle_root"
  let timestamp ← Reader.u32 "timestamp"
  let bits ← Reader.u32 "bits"
  let nonce ← Reader.u32 "nonce"
  return { version, prevBlock, merkleRoot, timestamp, bits, nonce }

theorem read_bytes (header : BlockHeader) (rest : List UInt8) (offset : Nat)
    (log : Array Event) :
    read { offset, rest := header.bytes ++ rest, log } =
      .ok header { offset := offset + size, rest, log } := by
  simp only [read, bytes, List.append_assoc, bind, EStateM.bind, Reader.i32_write,
    Reader.hash_bytes, Reader.u32_write, pure, EStateM.pure, size]

/-- The double SHA-256 of the 80 bytes. -/
def sha256d : Hasher :=
  fun header => Sha256.double header.bytes

end BlockHeader
end HeaderRelay
