import HeaderRelay.Wire.Reader
import HeaderRelay.Wire.Writer

/-!
# Compact sizes

A count takes one byte when it is below 253; larger ones follow a marker byte in two, four or
eight bytes.

* `CompactSize.encode` — the shortest form of a number;
* `CompactSize.length` — the width of the shortest form;
* `CompactSize.read` — reads any form, the shortest or not;
* `length_encode` — the shortest form has its width.
-/

namespace HeaderRelay
namespace CompactSize

/-- Bytes in the shortest form of `n`. -/
def length (n : UInt64) : Nat :=
  if n ≤ 0xFC then 1
  else if n ≤ 0xFFFF then 3
  else if n ≤ 0xFFFFFFFF then 5
  else 9

/-- The shortest form of `n`. -/
def encode (n : UInt64) : List UInt8 :=
  if n < 0xFD then [n.toUInt8]
  else if n ≤ 0xFFFF then 0xFD :: Writer.u16 n.toUInt16
  else if n ≤ 0xFFFFFFFF then 0xFE :: Writer.u32 n.toUInt32
  else 0xFF :: Writer.u64 n

/-- The shortest form of the length of a list. -/
def encodeLength {α : Type} (xs : List α) : List UInt8 :=
  encode (UInt64.ofNat xs.length)

/-- A number in any of its forms. -/
def read : Reader UInt64 := do
  let lead ← Reader.u8 "compact size"
  if lead = 0xFF then
    Reader.u64 "compact size"
  else if lead = 0xFE then
    return (← Reader.u32 "compact size").toUInt64
  else if lead = 0xFD then
    return (← Reader.u16 "compact size").toUInt64
  else
    return lead.toUInt64

theorem lt_iff_le (n : UInt64) : n < 0xFD ↔ n ≤ 0xFC := by
  simp only [UInt64.lt_iff_toNat_lt, UInt64.le_iff_toNat_le]
  exact Nat.lt_succ_iff

@[simp] theorem length_encode (n : UInt64) : (encode n).length = length n := by
  unfold encode length
  simp only [lt_iff_le]
  split
  · rfl
  · split
    · simp
    · split <;> simp

end CompactSize
end HeaderRelay
