/-!
# Little-endian words

Numbers on the wire are written least significant byte first, in a width fixed by the field.

* `LittleEndian.split w n` — the `w` bytes of `n`;
* `LittleEndian.combine bytes` — the number that `bytes` spell;
* `LittleEndian.bound w` — how many words of `w` bytes there are;
* `combine_split` and `split_combine` — splitting and combining are inverse on words that fit.
-/

namespace HeaderRelay
namespace LittleEndian

/-- The low `width` bytes of `n`, least significant first. -/
def split : (width n : Nat) → List UInt8
  | 0, _ => []
  | width + 1, n => UInt8.ofNat n :: split width (n / 256)

/-- The number whose bytes are given least significant first. -/
def combine : List UInt8 → Nat
  | [] => 0
  | byte :: rest => byte.toNat + 256 * combine rest

/-- The number of different words of `width` bytes. -/
def bound : (width : Nat) → Nat
  | 0 => 1
  | width + 1 => 256 * bound width

@[simp] theorem length_split (width n : Nat) : (split width n).length = width := by
  induction width generalizing n with
  | zero => rfl
  | succ width ih => simp [split, ih]

/-- Writing a number in `width` bytes keeps it modulo the number of such words. -/
theorem combine_split (width n : Nat) : combine (split width n) = n % bound width := by
  induction width generalizing n with
  | zero => simp [split, combine, bound, Nat.mod_one]
  | succ width ih =>
      have h : n % bound (width + 1) = n % 256 + 256 * (n / 256 % bound width) := by
        rw [bound, Nat.mod_mul]
      simp [split, combine, ih, h]

theorem combine_lt (bytes : List UInt8) : combine bytes < bound bytes.length := by
  induction bytes with
  | nil => simp [combine, bound]
  | cons byte rest ih =>
      have hbyte : byte.toNat < 256 := UInt8.toNat_lt byte
      simp only [combine, List.length_cons, bound]
      omega

/-- Every string of bytes is the written form of the number it spells. -/
theorem split_combine (bytes : List UInt8) : split bytes.length (combine bytes) = bytes := by
  induction bytes with
  | nil => rfl
  | cons byte rest ih =>
      have hbyte : byte.toNat < 256 := UInt8.toNat_lt byte
      have hdiv : (byte.toNat + 256 * combine rest) / 256 = combine rest := by omega
      have hhead : UInt8.ofNat (byte.toNat + 256 * combine rest) = byte := by
        apply UInt8.toNat_inj.1
        simp only [UInt8.toNat_ofNat']
        omega
      simp only [List.length_cons, combine, split, hdiv, hhead, ih]

end LittleEndian
end HeaderRelay
