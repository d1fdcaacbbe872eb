import HeaderRelay.Tool.Job

/-!
# What a line says of a header

A header is shown on a line of its own: where it stands, the name that the chain has for it, and its
fields. Names and words have all their digits in base 16, everything else is in base 10.

* `padded` — a number in base 16 of a given width, and its last digit (`padded_succ`);
* `Hex.digits_eq_padded`, `Hex.toList_word` — bytes and words are written in this way;
* `Shows` — what stands on the line of a header, from its first character to its last;
* `shows_headerLine` — the line that is printed is of this kind;
* `LineByLine`, `lineByLine_mapIdx` — one line for each header.
-/

namespace HeaderRelay

/-! ## Numbers in base 16 -/

/-- The digits of `n` in base 16, with zeros in front of them up to the width. -/
def padded (width n : Nat) : List Char :=
  (Nat.toDigits 16 n).leftpad width '0'

theorem padded_one {n : Nat} (h : n < 16) : padded 1 n = [Nat.digitChar n] := by
  rw [padded, Nat.toDigits_of_lt_base h]
  rfl

/-- The last digit is what is left over by sixteen. -/
theorem padded_succ {width : Nat} (hwidth : 0 < width) (n : Nat) :
    padded (width + 1) n = padded width (n / 16) ++ [Nat.digitChar (n % 16)] := by
  by_cases h : n < 16
  · -- no digit is left for the front, where zero still has one
    have hfront : n / 16 = 0 := Nat.div_eq_of_lt h
    rcases Nat.exists_eq_add_one_of_ne_zero (Nat.ne_of_gt hwidth) with ⟨rest, rfl⟩
    rw [hfront, Nat.mod_eq_of_lt h, padded, padded, Nat.toDigits_of_lt_base h, Nat.toDigits_zero]
    simp [List.leftpad, List.replicate_succ']
  · have hfront : 0 < n / 16 := Nat.div_pos (Nat.not_lt.1 h) (by decide)
    have hlast : n % 16 < 16 := Nat.mod_lt n (by decide)
    have hdigits : Nat.toDigits 16 n = Nat.toDigits 16 (n / 16) ++ [Nat.digitChar (n % 16)] := by
      calc
        Nat.toDigits 16 n = Nat.toDigits 16 (16 * (n / 16) + n % 16) := by rw [Nat.div_add_mod]
        _ = Nat.toDigits 16 (n / 16) ++ Nat.toDigits 16 (n % 16) :=
            (Nat.toDigits_append_toDigits (by decide) hfront hlast).symm
        _ = Nat.toDigits 16 (n / 16) ++ [Nat.digitChar (n % 16)] := by
            rw [Nat.toDigits_of_lt_base hlast]
    rw [padded, padded, hdigits]
    simp [List.leftpad]

/-- Two digits for the last byte. -/
theorem padded_add_two {width : Nat} (hwidth : 0 < width) (n : Nat) :
    padded (width + 2) n = padded width (n / 256) ++ padded 2 (n % 256) := by
  have hhigh : n % 256 / 16 < 16 := Nat.div_lt_of_lt_mul (Nat.mod_lt n (by decide))
  have hbyte : padded 2 (n % 256) = [Nat.digitChar (n / 16 % 16), Nat.digitChar (n % 16)] := by
    rw [padded_succ (by decide), padded_one hhigh, show n % 256 / 16 = n / 16 % 16 by omega,
      show n % 256 % 16 = n % 16 by omega]
    rfl
  rw [hbyte, padded_succ (Nat.succ_pos width), padded_succ hwidth, Nat.div_div_eq_div_mul,
    List.append_assoc]
  rfl

namespace Hex

theorem digits_eq_padded (byte : UInt8) : digits byte = padded 2 byte.toNat := by
  have hhigh : byte.toNat / 16 < 16 := Nat.div_lt_of_lt_mul byte.toNat_lt
  rw [padded_succ (by decide), padded_one hhigh]
  rfl

theorem toList_encodeReversed (bytes : List UInt8) :
    (encodeReversed bytes).toList = bytes.reverse.flatMap fun byte => padded 2 byte.toNat := by
  have hdigits : digits = fun byte => padded 2 byte.toNat := funext digits_eq_padded
  rw [encodeReversed, encode, String.toList_ofList, hdigits]

/-- The bytes of a word from last to first have its digits from first to last. -/
theorem flatMap_reverse_split {width n : Nat} (h : n < LittleEndian.bound (width + 1)) :
    ((LittleEndian.split (width + 1) n).reverse.flatMap fun byte => padded 2 byte.toNat) =
      padded (2 * (width + 1)) n := by
  induction width generalizing n with
  | zero =>
      have hbyte : (UInt8.ofNat n).toNat = n := UInt8.toNat_ofNat_of_lt' h
      simp [LittleEndian.split, hbyte]
  | succ width ih =>
      have hbyte : (UInt8.ofNat n).toNat = n % 256 := UInt8.toNat_ofNat'
      have hrest : n / 256 < LittleEndian.bound (width + 1) := Nat.div_lt_of_lt_mul h
      rw [LittleEndian.split, List.reverse_cons, List.flatMap_append, ih hrest,
        List.flatMap_singleton, hbyte]
      exact (padded_add_two (Nat.succ_pos _) n).symm

theorem toList_word {n : Nat} (h : n < UInt32.size) :
    (word 4 n).toList = "0x".toList ++ padded 8 n := by
  rw [word, String.toList_append, toList_encodeReversed, flatMap_reverse_split h]

end Hex

/-! ## Lines -/

namespace Tool

/-- The line says of the header, in this order and with a blank in front of each but the first: its
position, the bytes of its name from last to first, and its own fields, of which the version in two's
complement and the bits are shown as words. -/
def Shows (codec : Codec) (position : Nat) (header : BlockHeader) (line : String) : Prop :=
  line.toList =
    Nat.toDigits 10 position ++
    " ".toList ++ ((codec.hasher header).bytes.reverse.flatMap fun byte => padded 2 byte.toNat) ++
    " version=0x".toList ++ padded 8 header.version.toUInt32.toNat ++
    " time=".toList ++ Nat.toDigits 10 header.timestamp.toNat ++
    " bits=0x".toList ++ padded 8 header.bits.toNat ++
    " nonce=".toList ++ Nat.toDigits 10 header.nonce.toNat

theorem shows_headerLine (codec : Codec) (position : Nat) (header : BlockHeader) :
    Shows codec position header (headerLine codec position header) := by
  have htext : ∀ text : String, toString text = text := fun _ => rfl
  -- what stands between two numbers is put together from the pieces of the line
  have hversion : " version=0x".toList = " ".toList ++ ("version=".toList ++ "0x".toList) := rfl
  have hbits : " bits=0x".toList = " ".toList ++ ("bits=".toList ++ "0x".toList) := rfl
  unfold Shows headerLine
  rw [hversion, hbits]
  simp only [htext, String.toList_append, Nat.toString_eq_repr, Nat.toList_repr,
    Hex.toList_encodeReversed, Hex.toList_word header.version.toUInt32.toNat_lt,
    Hex.toList_word header.bits.toNat_lt, List.append_assoc]

/-- One line for each header, in the order of the headers. -/
def LineByLine (codec : Codec) (headers : List BlockHeader) (lines : List String) : Prop :=
  lines.length = headers.length ∧
    ∀ (position : Nat) (header : BlockHeader), headers[position]? = some header →
      ∃ line, lines[position]? = some line ∧ Shows codec position header line

theorem lineByLine_mapIdx (codec : Codec) (headers : List BlockHeader) :
    LineByLine codec headers (headers.mapIdx (headerLine codec)) := by
  refine ⟨List.length_mapIdx, ?_⟩
  intro position header hheader
  refine ⟨headerLine codec position header, ?_, shows_headerLine codec position header⟩
  rw [List.getElem?_mapIdx, hheader]
  rfl

end Tool
end HeaderRelay
