import HeaderRelay.BlockHeader
import HeaderRelay.Wire.CompactSize

/-!
# Uncompressed batches

Headers in full, each followed by a transaction count that is always written as zero and whose
value is ignored on the way in.

* `HeaderList.bytes`, `HeaderList.wireLength` — a batch on the wire;
* `HeaderList.read` — a batch of at most `HeaderList.maxHeaders` headers.
-/

namespace HeaderRelay
namespace HeaderList

/-- Most headers that one uncompressed batch may declare. -/
def maxHeaders : Nat := 2000

/-- A header with its transaction count of zero. -/
def entryBytes (header : BlockHeader) : List UInt8 :=
  header.bytes ++ CompactSize.encode 0

def bytes (headers : List BlockHeader) : List UInt8 :=
  CompactSize.encodeLength headers ++ headers.flatMap entryBytes

/-- The number of bytes on the wire, found without writing them. -/
def wireLength (headers : List BlockHeader) : Nat :=
  CompactSize.length (UInt64.ofNat headers.length) + (BlockHeader.size + 1) * headers.length

/-- A header and its transaction count, of which the header is kept. -/
def readEntry : Reader BlockHeader := do
  let header ← BlockHeader.read
  let _ ← CompactSize.read
  return header

/-- The limit is checked as soon as the count is known. -/
def read : Reader (List BlockHeader) := do
  let count ← CompactSize.read
  if count.toNat > maxHeaders then
    throw (.batchTooLarge count.toNat maxHeaders)
  else
    Reader.times count.toNat readEntry

end HeaderList
end HeaderRelay
