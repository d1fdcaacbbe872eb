import HeaderRelay.Bytes.Hex

/-!
# What can be wrong with a payload

* `DecodeError` — why a payload has no meaning;
* `EncodeError` — why a message has no payload;
* `DecodeError.message`, `EncodeError.message` — the one sentence shown for each.
-/

namespace HeaderRelay

inductive DecodeError where
  /-- The count at the front of a batch is above what the message allows. -/
  | batchTooLarge (count max : Nat)
  /-- The field that begins at `offset` needs more bytes than are left. -/
  | truncated (field : String) (offset needed available : Nat)
  /-- A record names an entry that the version table does not hold. -/
  | missingVersion (index tableLength : Nat)
  /-- The first record of a batch leaves something out. -/
  | compressedFirst (bitfield : UInt8)
  | locatorTooLarge (count max : Nat)
  deriving DecidableEq, Repr

def DecodeError.message : DecodeError → String
  | batchTooLarge count max =>
      s!"batch declares {count} headers, maximum is {max}"
  | truncated field offset needed available =>
      s!"payload truncated reading {field} at offset {offset}: " ++
        s!"needed {needed} bytes, {available} available"
  | missingVersion index tableLength =>
      s!"record references version table index {index}, table holds {tableLength}"
  | compressedFirst bitfield =>
      s!"first record of a batch is compressed (bitfield {Hex.word 1 bitfield.toNat})"
  | locatorTooLarge count max =>
      s!"locator carries {count} hashes, maximum is {max}"

inductive EncodeError where
  /-- More headers than one compressed batch may carry. -/
  | batchTooLarge (count : Nat)
  deriving DecidableEq, Repr

def EncodeError.message : EncodeError → String
  | batchTooLarge count => s!"{count} headers do not fit in one headers2 message"

end HeaderRelay
