import HeaderRelay.Compression.Batch
import HeaderRelay.HeaderList
import HeaderRelay.Locator
import HeaderRelay.Services

/-!
# Shapes of wire values

A value on the wire is a word, one of the relay's own structures, a sequence of values, or a list
with its number of elements in front. A `Layout` says which.

* `Layout`, `Layout.Value` — the shapes, and the values of a shape;
* `Layout.write`, `Layout.read` — a value to bytes and back;
* `Layout.writeAll` — the elements of a list without their number.
-/

namespace HeaderRelay

inductive Layout where
  | u8
  | u16
  | i16
  | u32
  | i32
  | u64
  | hash
  | compactSize
  | services
  | header
  | locator
  | headerList
  /-- A compressed batch, with the standard codec. -/
  | batch
  /-- No bytes at all. -/
  | unit
  /-- One value after the other. -/
  | pair (first second : Layout)
  /-- A list with its length as a compact size in front. -/
  | counted (element : Layout)
  deriving DecidableEq, Repr

namespace Layout

def Value : Layout → Type
  | u8 => UInt8
  | u16 => UInt16
  | i16 => Int16
  | u32 => UInt32
  | i32 => Int32
  | u64 => UInt64
  | hash => Hash
  | compactSize => UInt64
  | services => Services
  | header => BlockHeader
  | locator => Locator
  | headerList => List BlockHeader
  | batch => List BlockHeader
  | unit => Unit
  | pair first second => first.Value × second.Value
  | counted element => List element.Value

/-! ## Writing -/

/-- The bytes of a value; only a batch that is too large has none. -/
def write : (layout : Layout) → layout.Value → Except EncodeError (List UInt8)
  | u8, (n : UInt8) => .ok (Writer.u8 n)
  | u16, (n : UInt16) => .ok (Writer.u16 n)
  | i16, (n : Int16) => .ok (Writer.i16 n)
  | u32, (n : UInt32) => .ok (Writer.u32 n)
  | i32, (n : Int32) => .ok (Writer.i32 n)
  | u64, (n : UInt64) => .ok (Writer.u64 n)
  | hash, (h : Hash) => .ok h.bytes
  | compactSize, (n : UInt64) => .ok (CompactSize.encode n)
  | services, (s : Services) => .ok s.bytes
  | header, (h : BlockHeader) => .ok h.bytes
  | locator, (l : Locator) => .ok l.bytes
  | headerList, (hs : List BlockHeader) => .ok (HeaderList.bytes hs)
  | batch, (hs : List BlockHeader) => (Batch.encode {} hs).map Encoded.bytes
  | unit, () => .ok []
  | pair first second, (a, b) => do
      let front ← first.write a
      let back ← second.write b
      return front ++ back
  | counted element, (xs : List element.Value) => do
      let parts ← xs.mapM element.write
      return CompactSize.encodeLength xs ++ parts.flatten

/-- The elements one after the other, without their number. -/
def writeAll (element : Layout) (xs : List element.Value) : Except EncodeError (List UInt8) := do
  let parts ← xs.mapM element.write
  return parts.flatten

/-! ## Reading -/

/-- A value of the shape. Words outside the relay's structures are named by their type in a
report of missing bytes. -/
def read : (layout : Layout) → Reader layout.Value
  | u8 => Reader.u8 "u8"
  | u16 => Reader.u16 "u16"
  | i16 => Reader.i16 "i16"
  | u32 => Reader.u32 "u32"
  | i32 => Reader.i32 "i32"
  | u64 => Reader.u64 "u64"
  | hash => Reader.hash "hash"
  | compactSize => CompactSize.read
  | services => Services.read
  | header => BlockHeader.read
  | locator => Locator.read
  | headerList => HeaderList.read
  | batch => Batch.withFresh {} (Batch.read {})
  | unit => return ()
  | pair first second => do
      let a ← first.read
      let b ← second.read
      return (a, b)
  | counted element => do
      let count ← CompactSize.read
      Reader.times count.toNat element.read

end Layout
end HeaderRelay
