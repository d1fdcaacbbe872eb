import HeaderRelay.Bytes.LittleEndian

/-!
# Hex text

Two lower-case digits a byte on the way out; either case, with blanks anywhere, on the way in.

* `Hex.encode`, `Hex.encodeReversed` — bytes as text, in order or last byte first;
* `Hex.decode` — text as bytes, `none` on a foreign character or an odd number of digits;
* `Hex.word` — a number as `0x` and a fixed number of digits.
-/

namespace HeaderRelay
namespace Hex

/-! ## Writing -/

/-- The two digits of a byte, high half first. -/
def digits (byte : UInt8) : List Char :=
  [Nat.digitChar (byte.toNat / 16), Nat.digitChar (byte.toNat % 16)]

/-- The bytes in order, two lower-case digits each. -/
def encode (bytes : List UInt8) : String :=
  String.ofList (bytes.flatMap digits)

/-- The bytes from last to first: the customary way to show a hash. -/
def encodeReversed (bytes : List UInt8) : String :=
  encode bytes.reverse

/-- A number of `width` bytes as `0x` and all its digits, leading zeros included. -/
def word (width n : Nat) : String :=
  "0x" ++ encodeReversed (LittleEndian.split width n)

/-! ## Reading -/

/-- The value of a hex digit of either case. -/
def digitValue? (c : Char) : Option Nat :=
  if '0' ≤ c ∧ c ≤ '9' then some (c.toNat - '0'.toNat)
  else if 'a' ≤ c ∧ c ≤ 'f' then some (c.toNat - 'a'.toNat + 10)
  else if 'A' ≤ c ∧ c ≤ 'F' then some (c.toNat - 'A'.toNat + 10)
  else none

/-- Space, tab, carriage return and newline may stand anywhere in hex text. -/
def isBlank (c : Char) : Bool :=
  c == ' ' || c == '\t' || c == '\r' || c == '\n'

/-- Appends to `acc` the bytes that the digits spell in pairs, high half first. -/
def pairs (acc : Array UInt8) : List Nat → Option (List UInt8)
  | [] => some acc.toList
  | [_] => none
  | high :: low :: rest => pairs (acc.push (UInt8.ofNat (16 * high + low))) rest

/-- The bytes that `text` spells once its blanks are dropped. -/
def decode (text : String) : Option (List UInt8) :=
  ((text.toList.filter (!isBlank ·)).mapM digitValue?).bind (pairs #[])

theorem isBlank_digitChar {n : Nat} (h : n < 16) : isBlank (Nat.digitChar n) = false := by
  revert n
  decide

end Hex
end HeaderRelay
