/-!
# The first byte of a compressed record

| bits | meaning |
|------|---------|
| 0–2  | version selector: zero for a literal version, else one more than a table index |
| 3    | the hash of the previous header is present |
| 4    | the timestamp is present in full, else a signed 16-bit offset |
| 5    | the difficulty bits are present |
| 6–7  | reserved: written as zero, ignored when read |

* `Bitfield.ofByte`, `Bitfield.toByte` — from and to the byte;
* `Bitfield.explicit` — the bitfield of a record that leaves nothing out;
* `Bitfield.recordLength` — the size of the record that a bitfield announces;
* `ofByte_toByte`, `toByte_ofByte` — the byte determines the bitfield up to the reserved bits.
-/

namespace HeaderRelay

structure Bitfield where
  selector : Fin 8
  hasPrevBlock : Bool
  hasFullTimestamp : Bool
  hasBits : Bool
  deriving DecidableEq, Repr

namespace Bitfield

/-! ## Bytes -/

def ofByte (byte : UInt8) : Bitfield where
  selector := Fin.ofNat 8 byte.toNat
  hasPrevBlock := byte &&& 0x08 != 0
  hasFullTimestamp := byte &&& 0x10 != 0
  hasBits := byte &&& 0x20 != 0

def toByte (bitfield : Bitfield) : UInt8 :=
  UInt8.ofNat bitfield.selector.val |||
    ((if bitfield.hasPrevBlock then 0x08 else 0) |||
      ((if bitfield.hasFullTimestamp then 0x10 else 0) |||
        (if bitfield.hasBits then 0x20 else 0)))

/-- A selector with the three presence flags of a byte, whose other bits are dropped. -/
def withFlags (selector : Fin 8) (flags : UInt8) : Bitfield :=
  { ofByte flags with selector }

/-- Everything is present. -/
def explicit : Bitfield where
  selector := 0
  hasPrevBlock := true
  hasFullTimestamp := true
  hasBits := true

theorem ofByte_toByte (bitfield : Bitfield) : ofByte bitfield.toByte = bitfield := by
  have h : ∀ (s : Fin 8) (p t b : Bool), ofByte (toByte ⟨s, p, t, b⟩) = ⟨s, p, t, b⟩ := by
    decide
  exact h _ _ _ _

theorem toByte_ofByte (byte : UInt8) : (ofByte byte).toByte = byte &&& 0x3F := by
  have h : ∀ n : Fin 256, (ofByte (UInt8.ofNat n.val)).toByte = UInt8.ofNat n.val &&& 0x3F := by
    decide +kernel
  simpa using h ⟨byte.toNat, UInt8.toNat_lt byte⟩

/-! ## Size -/

def hasLiteralVersion (bitfield : Bitfield) : Bool :=
  bitfield.selector == 0

/-- Bytes of the record, the bitfield itself included. The bitfield, the merkle root and the
nonce are always there. -/
def recordLength (bitfield : Bitfield) : Nat :=
  1 + 32 + 4 +
    (if bitfield.hasLiteralVersion then 4 else 0) +
    (if bitfield.hasPrevBlock then 32 else 0) +
    (if bitfield.hasFullTimestamp then 4 else 2) +
    (if bitfield.hasBits then 4 else 0)

end Bitfield
end HeaderRelay
