import HeaderRelay.Bytes.Hex

/-!
# Hashes

A hash is 32 bytes, kept in the order in which it travels. People read hashes last byte first.

* `Hash` — the type;
* `Hash.ofBytes`, `Hash.bytes` — to and from a list of 32 bytes, inverse to each other;
* `Hash.ofHex?` — from the text that people use.
-/

namespace HeaderRelay

/-- 32 bytes in wire order. -/
abbrev Hash : Type := Vector UInt8 32

namespace Hash

/-- The hash that stands for "no header before this one". -/
def zero : Hash := Vector.replicate 32 0

def ofBytes (bytes : List UInt8) (h : bytes.length = 32) : Hash :=
  ⟨bytes.toArray, by simp [h]⟩

def bytes (hash : Hash) : List UInt8 :=
  hash.toList

/-- The hash that `text` shows, last byte first. -/
def ofHex? (text : String) : Option Hash :=
  (Hex.decode text).bind fun bytes =>
    if h : bytes.reverse.length = 32 then some (ofBytes bytes.reverse h) else none

@[simp] theorem length_bytes (hash : Hash) : hash.bytes.length = 32 := by
  simp [bytes]

@[simp] theorem bytes_ofBytes (bytes : List UInt8) (h : bytes.length = 32) :
    (ofBytes bytes h).bytes = bytes := by
  simp [ofBytes, Hash.bytes]

@[simp] theorem ofBytes_bytes (hash : Hash) : ofBytes hash.bytes hash.length_bytes = hash := by
  apply Vector.toArray_inj.1
  simp [ofBytes, bytes, Vector.toList]

end Hash
end HeaderRelay
