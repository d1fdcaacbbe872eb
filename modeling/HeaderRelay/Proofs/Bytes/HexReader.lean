import HeaderRelay.Hash.Basic
import HeaderRelay.Proofs.Bytes.HexText

/-!
# Reading hex text byte by byte

Hex text can be read in one pass over its UTF-8 bytes, with eight bits into which every digit is
shifted from the right. A blank shifts as well and shifts back, so it loses the upper four bits;
they are never looked at while a first digit waits for its second.

* `Hex.Scan`, `Hex.scan` — the pass, byte by byte;
* `Hex.scan_utf8` — it reads what `Hex.decode` reads;
* `Hex.InPairs` — characters as the digits of bytes, two each, and which characters are so;
* `Hex.reads_digits_in_pairs` — the texts that are read, and texts and hashes there and back.
-/

namespace HeaderRelay
namespace Hex

/-! ## The pass -/

/-- What a pass knows between two bytes of the text. -/
structure Scan where
  spelled : Array UInt8
  /-- A first digit has been shifted in and its second has not. -/
  waiting : Bool
  shifted : UInt8

def digitOfByte? (byte : UInt8) : Option UInt8 :=
  if 0x41 ≤ byte ∧ byte ≤ 0x46 then some (byte - 0x41 + 10)
  else if 0x61 ≤ byte ∧ byte ≤ 0x66 then some (byte - 0x61 + 10)
  else if 0x30 ≤ byte ∧ byte ≤ 0x39 then some (byte - 0x30)
  else none

def isBlankByte (byte : UInt8) : Bool :=
  byte == 0x20 || byte == 0x0D || byte == 0x0A || byte == 0x09

namespace Scan

def initial : Scan where
  spelled := #[]
  waiting := false
  shifted := 0

/-- Takes a digit in; the second of two completes a byte. -/
def push (s : Scan) (digit : UInt8) : Scan :=
  let shifted := s.shifted <<< 4 ||| digit
  if s.waiting then { spelled := s.spelled.push shifted, waiting := false, shifted }
  else { s with waiting := true, shifted }

/-- Makes room for a digit and takes it back. -/
def skip (s : Scan) : Scan :=
  { s with shifted := s.shifted <<< 4 >>> 4 }

def step (s : Scan) (byte : UInt8) : Option Scan :=
  match digitOfByte? byte with
  | some digit => some (s.push digit)
  | none => if isBlankByte byte then some s.skip else none

def finish (s : Scan) : Option (List UInt8) :=
  if s.waiting then none else some s.spelled.toList

/-- The value of the digit that waits. Only the lower four bits are its own. -/
def pending (s : Scan) : List Nat :=
  if s.waiting then [s.shifted.toNat % 16] else []

end Scan

/-- The bytes that a text in UTF-8 spells, in one pass. -/
def scan (bytes : List UInt8) : Option (List UInt8) :=
  (bytes.foldlM Scan.step Scan.initial).bind Scan.finish

/-! ## Bytes and characters -/

theorem digitOfByte?_ofNat {n : Nat} (h : n < 128) :
    digitOfByte? (UInt8.ofNat n) = (digitValue? (Char.ofNat n)).map UInt8.ofNat := by
  have hascii : ∀ n < 128,
      digitOfByte? (UInt8.ofNat n) = (digitValue? (Char.ofNat n)).map UInt8.ofNat := by
    decide +kernel
  exact hascii n h

theorem isBlankByte_ofNat {n : Nat} (h : n < 128) :
    isBlankByte (UInt8.ofNat n) = isBlank (Char.ofNat n) := by
  have hascii : ∀ n < 128, isBlankByte (UInt8.ofNat n) = isBlank (Char.ofNat n) := by
    decide +kernel
  exact hascii n h

theorem foreign_of_le_toNat {byte : UInt8} (h : 128 ≤ byte.toNat) :
    digitOfByte? byte = none ∧ isBlankByte byte = false := by
  have hbeyond : ∀ n < 256, 128 ≤ n →
      digitOfByte? (UInt8.ofNat n) = none ∧ isBlankByte (UInt8.ofNat n) = false := by
    decide +kernel
  have hbyte := hbeyond byte.toNat byte.toNat_lt h
  rwa [UInt8.ofNat_toNat] at hbyte

theorem of_isBlank {c : Char} (h : isBlank c = true) :
    c.toNat < 128 ∧ digitValue? c = none := by
  simp only [isBlank, Bool.or_eq_true, beq_iff_eq] at h
  rcases h with ((rfl | rfl) | rfl) | rfl <;> decide

theorem digitValue?_of_le_toNat {c : Char} (h : 128 ≤ c.toNat) : digitValue? c = none := by
  cases hvalue : digitValue? c with
  | none => rfl
  | some n => exact absurd (lt_of_digitValue? hvalue).2 (Nat.not_lt.2 h)

/-- A character outside ASCII begins with a byte outside ASCII. -/
theorem exists_utf8EncodeChar_eq_cons {c : Char} (h : 128 ≤ c.toNat) :
    ∃ byte rest, String.utf8EncodeChar c = byte :: rest ∧ 128 ≤ byte.toNat := by
  have hlarge : ¬ c.val.toNat ≤ 127 := Nat.not_le.2 h
  have hlead : ∀ n, 128 ≤ n ∧ n < 256 → 128 ≤ (UInt8.ofNat n).toNat := by
    rintro n ⟨hlow, hhigh⟩
    rwa [UInt8.toNat_ofNat_of_lt' hhigh]
  unfold String.utf8EncodeChar
  simp only [if_neg hlarge]
  split
  · exact ⟨_, _, rfl, hlead _ (by omega)⟩
  · split
    · exact ⟨_, _, rfl, hlead _ (by omega)⟩
    · exact ⟨_, _, rfl, hlead _ (by omega)⟩

theorem utf8EncodeChar_of_lt {c : Char} (h : c.toNat < 128) :
    String.utf8EncodeChar c = [UInt8.ofNat c.toNat] := by
  have hsmall : c.val.toNat ≤ 127 := Nat.le_of_lt_succ h
  unfold String.utf8EncodeChar
  simp only [if_pos hsmall]
  rfl

/-! ## One step of the pass -/

theorem toNat_shiftLeft_or (shifted : UInt8) {n : Nat} (h : n < 16) :
    (shifted <<< 4 ||| UInt8.ofNat n).toNat = 16 * (shifted.toNat % 16) + n := by
  have hdigit : (UInt8.ofNat n).toNat = n :=
    UInt8.toNat_ofNat_of_lt' (show n < 256 by omega)
  have hshift : (shifted <<< 4).toNat = 2 ^ 4 * (shifted.toNat % 16) := by
    have hbits : (4 : UInt8).toNat % 8 = 4 := rfl
    rw [UInt8.toNat_shiftLeft, hbits, Nat.shiftLeft_eq]
    omega
  rw [UInt8.toNat_or, hdigit, hshift, ← Nat.two_pow_add_eq_or_of_lt h]

theorem Scan.pending_skip (s : Scan) : s.skip.pending = s.pending := by
  have hkept : (s.shifted <<< 4 >>> 4).toNat % 16 = s.shifted.toNat % 16 := by
    have hbits : (4 : UInt8).toNat % 8 = 4 := rfl
    rw [UInt8.toNat_shiftRight, UInt8.toNat_shiftLeft, hbits, Nat.shiftLeft_eq,
      Nat.shiftRight_eq_div_pow]
    omega
  simp only [Scan.pending, Scan.skip, hkept]

/-- A digit that is taken in is the next of those that stand in pairs. -/
theorem Scan.pairs_push (s : Scan) {n : Nat} (h : n < 16) (values : List Nat) :
    pairs (s.push (UInt8.ofNat n)).spelled ((s.push (UInt8.ofNat n)).pending ++ values) =
      pairs s.spelled (s.pending ++ n :: values) := by
  have hbits := toNat_shiftLeft_or s.shifted h
  -- either way only the lower four bits of what was shifted in before can matter
  cases hwaiting : s.waiting with
  | true =>
      have hbyte : s.shifted <<< 4 ||| UInt8.ofNat n =
          UInt8.ofNat (16 * (s.shifted.toNat % 16) + n) := by
        rw [← hbits, UInt8.ofNat_toNat]
      simp only [Scan.push, Scan.pending, hwaiting, if_true, Bool.false_eq_true, if_false, hbyte,
        List.nil_append, List.cons_append, pairs]
  | false =>
      have hlow : (s.shifted <<< 4 ||| UInt8.ofNat n).toNat % 16 = n := by omega
      simp only [Scan.push, Scan.pending, hwaiting, if_true, Bool.false_eq_true, if_false, hlow,
        List.nil_append, List.cons_append]

theorem Scan.finish_eq_pairs (s : Scan) : s.finish = pairs s.spelled (s.pending ++ []) := by
  cases hwaiting : s.waiting with
  | true => simp only [Scan.finish, Scan.pending, hwaiting, if_true, List.append_nil, pairs]
  | false =>
      simp only [Scan.finish, Scan.pending, hwaiting, Bool.false_eq_true, if_false,
        List.append_nil, pairs]

/-- One character: a digit is taken in, a blank skipped, and all else ends the pass. -/
theorem Scan.foldlM_utf8EncodeChar (s : Scan) (c : Char) :
    (String.utf8EncodeChar c).foldlM Scan.step s =
      match digitValue? c with
      | some n => some (s.push (UInt8.ofNat n))
      | none => if isBlank c then some s.skip else none := by
  by_cases hc : c.toNat < 128
  · have hdigit := digitOfByte?_ofNat hc
    have hblank := isBlankByte_ofNat hc
    rw [Char.ofNat_toNat] at hdigit hblank
    rw [utf8EncodeChar_of_lt hc, List.foldlM_cons, Scan.step, hdigit, hblank]
    cases digitValue? c with
    | some n => rfl
    | none => cases isBlank c <;> rfl
  · rcases exists_utf8EncodeChar_eq_cons (Nat.not_lt.1 hc) with ⟨byte, rest, hbytes, hbyte⟩
    rcases foreign_of_le_toNat hbyte with ⟨hdigit, hblank⟩
    have hnodigit := digitValue?_of_le_toNat (Nat.not_lt.1 hc)
    have hnoblank : ¬ isBlank c = true := fun h => hc (of_isBlank h).1
    rw [hbytes, List.foldlM_cons, Scan.step, hdigit, hblank, hnodigit]
    simp only [if_neg hnoblank]
    rfl

/-! ## The whole pass -/

/-- The digits that are still to come join the one that waits. This holds of whatever the upper four
bits were left with. -/
theorem Scan.bind_finish (chars : List Char) (s : Scan) :
    ((chars.flatMap String.utf8EncodeChar).foldlM Scan.step s).bind Scan.finish =
      ((chars.filter (!isBlank ·)).mapM digitValue?).bind
        fun values => pairs s.spelled (s.pending ++ values) := by
  induction chars generalizing s with
  | nil => exact s.finish_eq_pairs
  | cons c chars ih =>
      rw [List.flatMap_cons, List.foldlM_append, s.foldlM_utf8EncodeChar c]
      cases hblank : isBlank c with
      | true =>
          -- the bits may have changed, but not the digit that waits
          rw [List.filter_cons_of_neg (by rw [hblank]; decide), (of_isBlank hblank).2]
          change (List.foldlM Scan.step s.skip _).bind Scan.finish = _
          rw [ih, s.pending_skip]
          rfl
      | false =>
          rw [List.filter_cons_of_pos (by rw [hblank]; rfl), List.mapM_cons]
          cases hvalue : digitValue? c with
          | none => rfl
          | some n =>
              have hn := (lt_of_digitValue? hvalue).1
              change (List.foldlM Scan.step (s.push (UInt8.ofNat n)) _).bind Scan.finish =
                (Option.bind _ fun values => some (n :: values)).bind _
              rw [ih, Option.bind_assoc]
              simp only [Option.bind_some, s.pairs_push hn]

theorem scan_utf8 (text : String) : scan text.toUTF8.data.toList = decode text := by
  have hbytes : text.toUTF8.data.toList = text.toList.flatMap String.utf8EncodeChar := by
    have hutf8 : text.toList.utf8Encode = text.toUTF8 := String.utf8Encode_toList
    rw [← hutf8, List.utf8Encode, List.data_toByteArray, List.toList_toArray]
  rw [hbytes]
  exact Scan.bind_finish text.toList Scan.initial

/-! ## Digits in pairs -/

def digitChars : List Char :=
  "0123456789abcdefABCDEF".toList

/-- The value of a digit of either case: its place among the lower-case ones. -/
def place (c : Char) : Nat :=
  "0123456789abcdef".toList.idxOf c.toLower

/-- The characters are hex digits, two for each byte, the high half first. -/
inductive InPairs : List Char → List UInt8 → Prop where
  | nil : InPairs [] []
  | cons {high low : Char} {chars : List Char} {byte : UInt8} {bytes : List UInt8} :
      high ∈ digitChars → low ∈ digitChars → byte.toNat = 16 * place high + place low →
        InPairs chars bytes → InPairs (high :: low :: chars) (byte :: bytes)

theorem digitValue?_eq (c : Char) :
    digitValue? c = if c ∈ digitChars then some (place c) else none := by
  have hascii : ∀ k < 128, digitValue? (Char.ofNat k) =
      if Char.ofNat k ∈ digitChars then some (place (Char.ofNat k)) else none := by
    decide +kernel
  have hlisted : digitChars.all (·.toNat < 128) = true := by decide
  by_cases hc : c.toNat < 128
  · have hvalue := hascii c.toNat hc
    rwa [Char.ofNat_toNat] at hvalue
  · have hforeign : c ∉ digitChars :=
      fun hmem => hc (of_decide_eq_true (List.all_eq_true.1 hlisted c hmem))
    rw [if_neg hforeign, digitValue?_of_le_toNat (Nat.not_lt.1 hc)]

theorem mem_digitChars_iff {c : Char} {n : Nat} :
    c ∈ digitChars ∧ place c = n ↔ n < 16 ∧ c.toLower = Nat.digitChar n := by
  rw [← digitValue?_eq_some_iff, digitValue?_eq]
  by_cases hc : c ∈ digitChars
  · rw [if_pos hc, Option.some.injEq]
    exact and_iff_right hc
  · rw [if_neg hc]
    exact ⟨fun h => absurd h.1 hc, fun h => nomatch h⟩

/-- The digits of bytes are, in lower case, what is written for the bytes. -/
theorem inPairs_iff {chars : List Char} {bytes : List UInt8} :
    InPairs chars bytes ↔ chars.map Char.toLower = (encode bytes).toList := by
  rw [toList_encode]
  constructor
  · intro h
    induction h with
    | nil => rfl
    | @cons high low chars byte bytes hhigh hlow hbyte _ ih =>
        rcases mem_digitChars_iff.1 ⟨hhigh, rfl⟩ with ⟨hhighValue, hhighChar⟩
        rcases mem_digitChars_iff.1 ⟨hlow, rfl⟩ with ⟨hlowValue, hlowChar⟩
        have hupper : byte.toNat / 16 = place high := by omega
        have hlower : byte.toNat % 16 = place low := by omega
        rw [List.map_cons, List.map_cons, ih, hhighChar, hlowChar, List.flatMap_cons, halves,
          hupper, hlower]
        rfl
  · intro h
    induction bytes generalizing chars with
    | nil =>
        rw [List.map_eq_nil_iff.1 h]
        exact .nil
    | cons byte bytes ih =>
        have hbyte : byte.toNat < 256 := byte.toNat_lt
        rcases List.map_eq_cons_iff.1 h with ⟨high, tail, rfl, hhigh, htail⟩
        rcases List.map_eq_cons_iff.1 htail with ⟨low, rest, rfl, hlow, hrest⟩
        rcases mem_digitChars_iff.2 ⟨by omega, hhigh⟩ with ⟨hhighMem, hhighPlace⟩
        rcases mem_digitChars_iff.2 ⟨by omega, hlow⟩ with ⟨hlowMem, hlowPlace⟩
        exact .cons hhighMem hlowMem (by omega) (ih hrest)

theorem exists_inPairs :
    ∀ {chars : List Char}, (∀ c ∈ chars, c ∈ digitChars) → chars.length % 2 = 0 →
      ∃ bytes, InPairs chars bytes
  | [], _, _ => ⟨[], .nil⟩
  | [_], _, hlength => absurd hlength Nat.one_ne_zero
  | high :: low :: rest, hmem, hlength => by
      rcases List.forall_mem_cons.1 hmem with ⟨hhigh, hmem⟩
      rcases List.forall_mem_cons.1 hmem with ⟨hlow, hmem⟩
      rcases exists_inPairs hmem (by simpa [Nat.add_assoc] using hlength) with ⟨bytes, hrest⟩
      have hhighValue := (mem_digitChars_iff.1 ⟨hhigh, rfl⟩).1
      have hlowValue := (mem_digitChars_iff.1 ⟨hlow, rfl⟩).1
      have hbyte : (UInt8.ofNat (16 * place high + place low)).toNat =
          16 * place high + place low :=
        UInt8.toNat_ofNat_of_lt' (show _ < 256 by omega)
      exact ⟨_, .cons hhigh hlow hbyte hrest⟩

/-- Characters stand for some bytes when they are an even number of digits. -/
theorem exists_inPairs_iff {chars : List Char} :
    (∃ bytes, InPairs chars bytes) ↔
      (∀ c ∈ chars, c ∈ digitChars) ∧ chars.length % 2 = 0 := by
  constructor
  · rintro ⟨bytes, h⟩
    induction h with
    | nil => exact ⟨fun c hc => absurd hc List.not_mem_nil, rfl⟩
    | cons hhigh hlow _ _ ih =>
        refine ⟨List.forall_mem_cons.2 ⟨hhigh, List.forall_mem_cons.2 ⟨hlow, ih.1⟩⟩, ?_⟩
        simpa [Nat.add_assoc] using ih.2
  · rintro ⟨hmem, hlength⟩
    exact exists_inPairs hmem hlength

/-! ## Texts and hashes -/

/-- What is left of a text without its blanks. -/
def marks (text : String) : List Char :=
  text.toList.filter (!isBlank ·)

theorem decode_iff_inPairs {text : String} {bytes : List UInt8} :
    decode text = some bytes ↔ InPairs (marks text) bytes :=
  decode_eq_some_iff.trans inPairs_iff.symm

theorem marks_encode (bytes : List UInt8) : marks (encode bytes) = (encode bytes).toList := by
  rw [marks, List.filter_eq_self]
  intro c hc
  rw [toList_encode] at hc
  rcases List.mem_map.1 hc with ⟨n, hn, rfl⟩
  rw [isBlank_digitChar (lt_of_mem_halves hn)]
  rfl

theorem toLower_encode (bytes : List UInt8) :
    (encode bytes).toList.map Char.toLower = (encode bytes).toList := by
  have hdigit : ∀ n < 16, (Nat.digitChar n).toLower = Nat.digitChar n := by decide
  rw [toList_encode, List.map_map]
  apply List.map_congr_left
  intro n hn
  exact hdigit n (lt_of_mem_halves hn)

/-- Blanks anywhere do not change what the text for bytes is read as. -/
theorem decode_of_marks {text : String} {bytes : List UInt8}
    (h : marks text = (encode bytes).toList) : decode text = some bytes := by
  rw [decode_iff_inPairs, inPairs_iff, h, toLower_encode]

theorem decode_encode (bytes : List UInt8) : decode (encode bytes) = some bytes :=
  decode_of_marks (marks_encode bytes)

/-- A hash is read from the text for its bytes, last byte first. -/
theorem ofHex?_eq_some_iff {text : String} {hash : Hash} :
    Hash.ofHex? text = some hash ↔ decode text = some hash.bytes.reverse := by
  rw [Hash.ofHex?, Option.bind_eq_some_iff]
  constructor
  · rintro ⟨bytes, hbytes, hhash⟩
    by_cases hlength : bytes.reverse.length = 32
    · rw [dif_pos hlength] at hhash
      cases hhash
      rw [hbytes, Hash.bytes_ofBytes, List.reverse_reverse]
    · rw [dif_neg hlength] at hhash
      cases hhash
  · intro hbytes
    have hlength : hash.bytes.reverse.reverse.length = 32 := by
      rw [List.reverse_reverse, hash.length_bytes]
    refine ⟨_, hbytes, ?_⟩
    rw [dif_pos hlength]
    simp only [List.reverse_reverse, Hash.ofBytes_bytes]

theorem encodeReversed_of_ofHex? {text : String} {hash : Hash}
    (h : Hash.ofHex? text = some hash) :
    encodeReversed hash.bytes = String.ofList ((marks text).map Char.toLower) := by
  rw [ofHex?_eq_some_iff, decode_iff_inPairs, inPairs_iff] at h
  rw [h, String.ofList_toList, encodeReversed]

/-- A text is read exactly if, without its blanks, it is an even number of hex digits, and then as
the bytes that the digits are in pairs. What is written for bytes and for hashes is read as those,
and what is read as a hash is, without its blanks and in lower case, what is written for it. -/
theorem reads_digits_in_pairs (text : String) :
    scan text.toUTF8.data.toList = decode text ∧
      (∀ bytes, decode text = some bytes ↔ InPairs (marks text) bytes) ∧
      (decode text = none ↔
        ¬ ((∀ c ∈ marks text, c ∈ digitChars) ∧ (marks text).length % 2 = 0)) ∧
      (∀ bytes, decode (encode bytes) = some bytes) ∧
      (∀ bytes, marks text = (encode bytes).toList → decode text = some bytes) ∧
      (∀ hash : Hash, Hash.ofHex? (encodeReversed hash.bytes) = some hash) ∧
      ∀ hash, Hash.ofHex? text = some hash →
        encodeReversed hash.bytes = String.ofList ((marks text).map Char.toLower) := by
  refine ⟨scan_utf8 text, fun _ => decode_iff_inPairs, ?_, decode_encode,
    fun _ => decode_of_marks, fun _ => ofHex?_eq_some_iff.2 (decode_encode _),
    fun _ => encodeReversed_of_ofHex?⟩
  rw [← exists_inPairs_iff, Option.eq_none_iff_forall_ne_some, not_exists]
  simp only [ne_eq, decode_iff_inPairs]

/-- Blanks between the two digits of a byte, and a hash with a letter of either case. -/
theorem reads_digits_in_pairs_spaced :
    decode " 0\ta" = some [0x0A] ∧
      encodeReversed (Hash.bytes (Hash.zero.set 0 0xBC)) =
        "00000000000000000000000000000000000000000000000000000000000000bc" := by
  constructor
  · exact (reads_digits_in_pairs " 0\ta").2.2.2.2.1 [0x0A] (by decide)
  · exact (reads_digits_in_pairs
      "0000000000000000 0000000000000000\r\n00000000000000000000000000000 0B\tc").2.2.2.2.2.2
        (Hash.zero.set 0 0xBC) (by decide +kernel)

end Hex
end HeaderRelay
