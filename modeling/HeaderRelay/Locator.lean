import HeaderRelay.Wire.CompactSize

/-!
# Locators

A request for headers says which chain the asker knows: hashes from its tip backwards, and the
hash at which to stop.

* `Locator` — the request's content, with its bytes and their number;
* `Locator.read` — a locator of any size;
* `Locator.readBounded` — a locator, refused when it carries too many hashes.
-/

namespace HeaderRelay

structure Locator where
  /-- Protocol version of the asker. -/
  version : UInt32
  hashes : List Hash
  /-- The last hash wanted, or zeros for as many headers as fit. -/
  stop : Hash
  deriving DecidableEq

namespace Locator

/-- Most hashes that one request may carry. -/
def maxHashes : Nat := 101

def bytes (locator : Locator) : List UInt8 :=
  Writer.u32 locator.version ++ (CompactSize.encodeLength locator.hashes ++
    (locator.hashes.flatMap Hash.bytes ++ locator.stop.bytes))

/-- The number of bytes on the wire, found without writing them. -/
def wireLength (locator : Locator) : Nat :=
  4 + CompactSize.length (UInt64.ofNat locator.hashes.length) + 32 * locator.hashes.length + 32

theorem length_bytes (locator : Locator) : locator.bytes.length = locator.wireLength := by
  have h : (locator.hashes.flatMap Hash.bytes).length = 32 * locator.hashes.length := by
    induction locator.hashes with
    | nil => rfl
    | cons hash rest ih =>
        simp only [List.flatMap_cons, List.length_append, List.length_cons, Hash.length_bytes, ih]
        omega
  simp only [bytes, wireLength, CompactSize.encodeLength, List.length_append, Writer.length_u32,
    CompactSize.length_encode, Hash.length_bytes, h]
  omega

def read : Reader Locator := do
  let version ← Reader.u32 "u32"
  let count ← CompactSize.read
  let hashes ← Reader.times count.toNat (Reader.hash "hash")
  let stop ← Reader.hash "hash"
  return { version, hashes, stop }

/-- The limit is checked once the whole locator is there. -/
def readBounded : Reader Locator := do
  let locator ← read
  if locator.hashes.length > maxHashes then
    throw (.locatorTooLarge locator.hashes.length maxHashes)
  else
    return locator

end Locator
end HeaderRelay
