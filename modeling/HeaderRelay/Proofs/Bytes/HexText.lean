import HeaderRelay.Bytes.Hex

/-!
# Hex text and what it spells

A text spells bytes if it is what is written for them, apart from blanks and from the case of its
letters. The reader takes such texts and no others.

* `Hex.Spells` — the texts of given bytes;
* `Hex.halves`, `pairs_eq_some_iff` — digits in pairs are the halves of bytes;
* `digitValue?_eq_some_iff`, `mapM_digitValue?_eq_some_iff` — which characters are digits;
* `decode_eq_some_iff` — what the reader makes of a text.
-/

namespace HeaderRelay
namespace Hex

/-- Without its blanks and in lower case, the text is what is written for the bytes. -/
def Spells (text : String) (bytes : List UInt8) : Prop :=
  (text.toList.filter (!isBlank ·)).map Char.toLower = (encode bytes).toList

/-! ## Halves of bytes -/

/-- The values of a byte's two digits. -/
def halves (byte : UInt8) : List Nat :=
  [byte.toNat / 16, byte.toNat % 16]

theorem toList_encode (bytes : List UInt8) :
    (encode bytes).toList = (bytes.flatMap halves).map Nat.digitChar := by
  rw [encode, String.toList_ofList, List.map_flatMap]
  rfl

theorem lt_of_mem_halves {bytes : List UInt8} {n : Nat} (h : n ∈ bytes.flatMap halves) :
    n < 16 := by
  rcases List.mem_flatMap.1 h with ⟨byte, _, hhalf⟩
  have hbyte : byte.toNat < 256 := byte.toNat_lt
  simp only [halves, List.mem_cons, List.not_mem_nil, or_false] at hhalf
  omega

/-- Two digits are the halves of one byte. -/
theorem halves_eq_iff {high low : Nat} (hhigh : high < 16) (hlow : low < 16) (byte : UInt8) :
    halves byte = [high, low] ↔ byte = UInt8.ofNat (16 * high + low) := by
  have hbyte : byte.toNat < 256 := byte.toNat_lt
  have hvalue : (UInt8.ofNat (16 * high + low)).toNat = 16 * high + low :=
    UInt8.toNat_ofNat_of_lt' (show 16 * high + low < 256 by omega)
  rw [← UInt8.toNat_inj, hvalue, halves]
  simp only [List.cons.injEq, and_true]
  omega

theorem pairs_eq_some_iff {acc : Array UInt8} {values : List Nat} {bytes : List UInt8}
    (h : ∀ n ∈ values, n < 16) :
    pairs acc values = some bytes ↔
      ∃ spelled : List UInt8, bytes = acc.toList ++ spelled ∧ values = spelled.flatMap halves := by
  induction acc, values using pairs.induct with
  | case1 acc =>
      rw [pairs, Option.some.injEq]
      constructor
      · rintro rfl
        exact ⟨[], (List.append_nil _).symm, rfl⟩
      · rintro ⟨spelled, rfl, hvalues⟩
        cases spelled with
        | nil => exact (List.append_nil _).symm
        | cons byte spelled => cases hvalues
  | case2 acc n =>
      rw [pairs]
      constructor
      · intro hnone
        cases hnone
      · rintro ⟨spelled, _, hvalues⟩
        cases spelled with
        | nil => cases hvalues
        | cons byte spelled => cases hvalues
  | case3 acc high low rest ih =>
      have hhalves := halves_eq_iff (h high (by simp)) (h low (by simp))
      have hrest : ∀ n ∈ rest, n < 16 := fun n hn => h n (by simp [hn])
      rw [pairs, ih hrest]
      constructor
      · rintro ⟨spelled, rfl, rfl⟩
        refine ⟨UInt8.ofNat (16 * high + low) :: spelled, by simp, ?_⟩
        rw [List.flatMap_cons, (hhalves _).2 rfl]
        rfl
      · rintro ⟨spelled, rfl, hvalues⟩
        cases spelled with
        | nil => cases hvalues
        | cons byte spelled =>
            have hparts : [high, low] ++ rest = halves byte ++ spelled.flatMap halves := hvalues
            rcases List.append_inj hparts rfl with ⟨hbyte, htail⟩
            rw [(hhalves byte).1 hbyte.symm]
            exact ⟨spelled, by simp, htail⟩

/-! ## Digits -/

theorem lt_of_digitValue? {c : Char} {n : Nat} (h : digitValue? c = some n) :
    n < 16 ∧ c.toNat < 128 := by
  have hzero : '0'.toNat = 48 := rfl
  have ha : 'a'.toNat = 97 := rfl
  have hA : 'A'.toNat = 65 := rfl
  unfold digitValue? at h
  split at h
  case isTrue hdecimal =>
    have hlast : c.toNat ≤ 57 := hdecimal.2
    cases h
    omega
  case isFalse =>
    split at h
    case isTrue hlower =>
      have hlast : c.toNat ≤ 102 := hlower.2
      cases h
      omega
    case isFalse =>
      split at h
      case isTrue hupper =>
        have hlast : c.toNat ≤ 70 := hupper.2
        cases h
        omega
      case isFalse => cases h

/-- Letters change their case within ASCII only. -/
theorem toLower_of_le_toNat {c : Char} (h : 128 ≤ c.toNat) : c.toLower = c := by
  unfold Char.toLower
  split
  case isTrue hupper =>
    have hlast : c.toNat ≤ 90 := hupper.2
    omega
  case isFalse => rfl

theorem digitValue?_eq_some_iff {c : Char} {n : Nat} :
    digitValue? c = some n ↔ n < 16 ∧ c.toLower = Nat.digitChar n := by
  have hascii : ∀ k < 128, ∀ n < 16,
      (digitValue? (Char.ofNat k) = some n ↔ (Char.ofNat k).toLower = Nat.digitChar n) := by
    decide +kernel
  have hdigit : ∀ n < 16, (Nat.digitChar n).toNat < 128 := by decide
  by_cases hc : c.toNat < 128
  · have hiff := hascii c.toNat hc
    rw [Char.ofNat_toNat] at hiff
    constructor
    · intro h
      have hn := (lt_of_digitValue? h).1
      exact ⟨hn, (hiff n hn).1 h⟩
    · rintro ⟨hn, h⟩
      exact (hiff n hn).2 h
  · constructor
    · intro h
      exact absurd (lt_of_digitValue? h).2 hc
    · rintro ⟨hn, h⟩
      rw [toLower_of_le_toNat (Nat.not_lt.1 hc)] at h
      exact absurd (h ▸ hdigit n hn) hc

theorem mapM_digitValue?_eq_some_iff {chars : List Char} {values : List Nat} :
    chars.mapM digitValue? = some values ↔
      (∀ n ∈ values, n < 16) ∧ chars.map Char.toLower = values.map Nat.digitChar := by
  induction chars generalizing values with
  | nil =>
      cases values with
      | nil => simp
      | cons n values => simp
  | cons c chars ih =>
      have hcons : (c :: chars).mapM digitValue? = some values ↔
          ∃ n rest, digitValue? c = some n ∧ chars.mapM digitValue? = some rest ∧
            n :: rest = values := by
        simp [Option.bind_eq_some_iff]
      rw [hcons]
      constructor
      · rintro ⟨n, rest, hdigit, hrest, rfl⟩
        rcases digitValue?_eq_some_iff.1 hdigit with ⟨hn, hc⟩
        rcases ih.1 hrest with ⟨hsmall, hchars⟩
        refine ⟨List.forall_mem_cons.2 ⟨hn, hsmall⟩, ?_⟩
        rw [List.map_cons, hc, hchars, List.map_cons]
      · rintro ⟨hsmall, hchars⟩
        cases values with
        | nil => cases hchars
        | cons n rest =>
            rcases List.forall_mem_cons.1 hsmall with ⟨hn, hsmall⟩
            rcases List.cons.inj hchars with ⟨hc, hchars⟩
            exact ⟨n, rest, digitValue?_eq_some_iff.2 ⟨hn, hc⟩, ih.2 ⟨hsmall, hchars⟩, rfl⟩

/-! ## Texts -/

/-- The reader takes the texts that spell something, and what they spell. -/
theorem decode_eq_some_iff {text : String} {bytes : List UInt8} :
    decode text = some bytes ↔ Spells text bytes := by
  rw [decode, Spells, toList_encode, Option.bind_eq_some_iff]
  constructor
  · rintro ⟨values, hvalues, hpairs⟩
    rcases mapM_digitValue?_eq_some_iff.1 hvalues with ⟨hdigits, htext⟩
    rcases (pairs_eq_some_iff hdigits).1 hpairs with ⟨spelled, rfl, rfl⟩
    exact htext
  · intro htext
    have hdigits : ∀ n ∈ bytes.flatMap halves, n < 16 := fun n => lt_of_mem_halves
    exact ⟨_, mapM_digitValue?_eq_some_iff.2 ⟨hdigits, htext⟩,
      (pairs_eq_some_iff hdigits).2 ⟨bytes, rfl, rfl⟩⟩

example : Spells "0A b\tC\r\n" [0x0A, 0xBC] := by rfl

end Hex
end HeaderRelay
