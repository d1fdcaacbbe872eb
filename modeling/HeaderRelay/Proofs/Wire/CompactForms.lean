import HeaderRelay.Proofs.Wire.Steps
import HeaderRelay.Wire.CompactSize

/-!
# All forms of a compact size

A number below 253 has four written forms, larger ones have fewer. Any of them is read; only the
shortest is written.

* `CompactSize.Form n bytes` — `bytes` is a written form of `n`;
* `CompactSize.Cut offset bytes e` — `bytes`, which begin at `offset`, end inside a form;
* `read_form`, `read_error_iff`, `form_or_cut` — every string of bytes begins with a form, which is
  read, or is cut, which is reported;
* `form_encode`, `read_encode`, `length_le_of_form` — what is written is a form, is read back, and no
  form is shorter;
* `Form.append_eq_iff`, `Form.length_eq_iff`, `Form.eq_encode_iff` — bytes begin with at most one
  form, and no other form is as short as the one that is written.
-/

namespace HeaderRelay
namespace CompactSize

/-! ## Forms -/

inductive Form : UInt64 → List UInt8 → Prop where
  | one {lead : UInt8} : lead < 0xFD → Form lead.toUInt64 [lead]
  | two (n : UInt16) : Form n.toUInt64 (0xFD :: Writer.u16 n)
  | four (n : UInt32) : Form n.toUInt64 (0xFE :: Writer.u32 n)
  | eight (n : UInt64) : Form n (0xFF :: Writer.u64 n)

/-- Bytes that a form has behind its first one. -/
def announced (lead : UInt8) : Nat :=
  if lead = 0xFF then 8
  else if lead = 0xFE then 4
  else if lead = 0xFD then 2
  else 0

/-- A first byte is the number itself or one of three markers. -/
theorem lt_or_marker (lead : UInt8) : lead < 0xFD ∨ lead = 0xFD ∨ lead = 0xFE ∨ lead = 0xFF := by
  have hmax := UInt8.toNat_lt lead
  simp only [UInt8.lt_iff_toNat_lt, ← UInt8.toNat_inj]
  simp
  omega

theorem ne_marker {lead : UInt8} (h : lead < 0xFD) (marker : UInt8) (hmarker : 0xFD ≤ marker) :
    lead ≠ marker :=
  UInt8.ne_of_lt (UInt8.lt_of_lt_of_le h hmarker)

/-- The report about bytes that begin at `offset` and end inside a form. -/
inductive Cut (offset : Nat) : List UInt8 → DecodeError → Prop where
  | empty : Cut offset [] (.truncated "compact size" offset 1 0)
  | short {lead : UInt8} {tail : List UInt8} : tail.length < announced lead →
      Cut offset (lead :: tail)
        (.truncated "compact size" (offset + 1) (announced lead) tail.length)

/-! ## Reading -/

def readTail (lead : UInt8) : Reader UInt64 :=
  if lead = 0xFF then
    Reader.u64 "compact size"
  else if lead = 0xFE then
    return (← Reader.u32 "compact size").toUInt64
  else if lead = 0xFD then
    return (← Reader.u16 "compact size").toUInt64
  else
    return lead.toUInt64

theorem read_eq : read = Reader.u8 "compact size" >>= readTail := rfl

theorem read_form {n : UInt64} {bytes : List UInt8} (h : Form n bytes) :
    read.Yields bytes n := by
  rw [read_eq]
  cases h with
  | @one lead hlt =>
      -- a first byte below the markers is none of them, and is the number itself
      have htail : (readTail lead).Yields [] lead.toUInt64 := by
        simp only [readTail, ne_marker hlt 0xFF (by decide), ne_marker hlt 0xFE (by decide),
          ne_marker hlt 0xFD (by decide), if_false]
        exact Reader.Yields.pure _
      exact (Reader.u8_yields "compact size" lead).bind htail
  | two n =>
      exact (Reader.u8_yields "compact size" 0xFD).bind (Reader.u16_yields "compact size" n).map
  | four n =>
      exact (Reader.u8_yields "compact size" 0xFE).bind (Reader.u32_yields "compact size" n).map
  | eight n =>
      exact (Reader.u8_yields "compact size" 0xFF).bind (Reader.u64_yields "compact size" n)

theorem readTail_needs (lead : UInt8) :
    (readTail lead).Needs
      (if announced lead = 0 then [] else [⟨"compact size", announced lead⟩]) := by
  unfold readTail announced
  split
  · exact Reader.u64_needs "compact size"
  · split
    · exact (Reader.u32_needs "compact size").map
    · split
      · exact (Reader.u16_needs "compact size").map
      · exact Reader.Needs.pure _

/-- The first byte is taken before any behind it is found missing. -/
theorem read_of_cut {s : Reading} {e : DecodeError} (h : Cut s.offset s.rest e) :
    read s = .error e (s.skip (min 1 s.remaining)) := by
  rcases s with ⟨offset, rest, log⟩
  rw [read_eq]
  cases h with
  | empty => exact bind_of_error (Reader.u8_nil "compact size" offset log)
  | @short lead tail hlt =>
      have hne : announced lead ≠ 0 := by omega
      have hneeds := readTail_needs lead { offset := offset + 1, rest := tail, log }
      rw [if_neg hne] at hneeds
      have hmissing :
          firstMissing [⟨"compact size", announced lead⟩] tail.length =
            some (0, ⟨"compact size", announced lead⟩) := by
        simp [firstMissing, hlt]
      have hskip : Reading.skip { offset, rest := lead :: tail, log } (min 1 (tail.length + 1)) =
          { offset := offset + 1, rest := tail, log } := by
        rw [Nat.min_eq_left (Nat.succ_le_succ (Nat.zero_le _))]
        rfl
      rw [bind_of_ok (Reader.u8_cons "compact size" lead tail offset log)]
      exact (hneeds.1 0 _ hmissing).trans (congrArg _ hskip.symm)

/-- Every string of bytes begins with a form or is cut inside one. -/
theorem form_or_cut (offset : Nat) (bytes : List UInt8) :
    (∃ n front rest, Form n front ∧ bytes = front ++ rest) ∨ ∃ e, Cut offset bytes e := by
  cases bytes with
  | nil => exact Or.inr ⟨_, Cut.empty⟩
  | cons lead tail =>
      by_cases hshort : tail.length < announced lead
      · exact Or.inr ⟨_, Cut.short hshort⟩
      · -- the bytes that the first one announces are there
        have hthere : announced lead ≤ tail.length := Nat.not_lt.1 hshort
        refine Or.inl ?_
        rcases lt_or_marker lead with hlt | rfl | rfl | rfl
        · exact ⟨lead.toUInt64, [lead], tail, Form.one hlt, rfl⟩
        · rcases exists_u16_append hthere with ⟨n, rest, rfl⟩
          exact ⟨n.toUInt64, _, rest, Form.two n, rfl⟩
        · rcases exists_u32_append hthere with ⟨n, rest, rfl⟩
          exact ⟨n.toUInt64, _, rest, Form.four n, rfl⟩
        · rcases exists_u64_append hthere with ⟨n, rest, rfl⟩
          exact ⟨n, _, rest, Form.eight n, rfl⟩

/-- A number is refused exactly if its bytes are cut, and reading stops behind the first of them. -/
theorem read_error_iff {s t : Reading} {e : DecodeError} :
    read s = .error e t ↔ Cut s.offset s.rest e ∧ t = s.skip (min 1 s.remaining) := by
  constructor
  · intro h
    rcases s with ⟨offset, ahead, log⟩
    rcases form_or_cut offset ahead with ⟨n, front, rest, hform, rfl⟩ | ⟨e', hcut⟩
    · cases (read_form hform rest offset log).symm.trans h
    · cases (read_of_cut (s := ⟨offset, ahead, log⟩) hcut).symm.trans h
      exact ⟨hcut, rfl⟩
  · rintro ⟨hcut, rfl⟩
    exact read_of_cut hcut

/-! ## The shortest form -/

theorem form_encode (n : UInt64) : Form n (encode n) := by
  unfold encode
  split
  case isTrue hlt =>
    -- a narrow number survives the way to its width and back
    have hback : n.toUInt8.toUInt64 = n := by
      apply UInt64.toNat_inj.1
      simp [UInt64.lt_iff_toNat_lt] at hlt ⊢
      omega
    have hlead : n.toUInt8 < 0xFD := by
      simp [UInt64.lt_iff_toNat_lt, UInt8.lt_iff_toNat_lt] at hlt ⊢
      omega
    simpa [hback] using Form.one hlead
  case isFalse =>
    split
    case isTrue hle =>
      have hback : n.toUInt16.toUInt64 = n := by
        apply UInt64.toNat_inj.1
        simp [UInt64.le_iff_toNat_le] at hle ⊢
        omega
      simpa [hback] using Form.two n.toUInt16
    case isFalse =>
      split
      case isTrue hle =>
        have hback : n.toUInt32.toUInt64 = n := by
          apply UInt64.toNat_inj.1
          simp [UInt64.le_iff_toNat_le] at hle ⊢
          omega
        simpa [hback] using Form.four n.toUInt32
      case isFalse => exact Form.eight n

theorem read_encode (n : UInt64) (rest : List UInt8) (offset : Nat) (log : Array Event) :
    read { offset, rest := encode n ++ rest, log } =
      .ok n { offset := offset + length n, rest, log } := by
  rw [← length_encode]
  exact read_form (form_encode n) rest offset log

theorem length_le_of_form {n : UInt64} {bytes : List UInt8} (h : Form n bytes) :
    length n ≤ bytes.length := by
  -- each marker bounds the number behind it by what the shortest form of its width can hold
  have hshortest (m : UInt64) : length m ≤ 9 := by
    unfold length
    repeat' split
    all_goals decide
  cases h with
  | @one lead hlt =>
      have hle : lead.toUInt64 ≤ 0xFC := by
        simp [UInt64.le_iff_toNat_le, UInt8.lt_iff_toNat_lt] at hlt ⊢
        omega
      simp [length, hle]
  | two n =>
      have hle : n.toUInt64 ≤ 0xFFFF := by
        have hmax := UInt16.toNat_lt n
        simp [UInt64.le_iff_toNat_le]
        omega
      simp only [length, hle, if_true, List.length_cons, Writer.length_u16]
      split <;> decide
  | four n =>
      have hle : n.toUInt64 ≤ 0xFFFFFFFF := by
        have hmax := UInt32.toNat_lt n
        simp [UInt64.le_iff_toNat_le]
        omega
      simp only [length, hle, if_true, List.length_cons, Writer.length_u32]
      split
      · decide
      · split <;> decide
  | eight n => simpa using hshortest n

/-- The forms of a number differ in their lengths. -/
theorem Form.eq_of_length_eq {n : UInt64} {a b : List UInt8} (ha : Form n a) (hb : Form n b)
    (hlength : a.length = b.length) : a = b := by
  generalize hm : n = m at hb
  cases ha with
  | one =>
      cases hb with
      | one => rw [UInt8.toUInt64_inj.1 hm]
      | _ => simp at hlength
  | two =>
      cases hb with
      | two => rw [UInt16.toUInt64_inj.1 hm]
      | _ => simp at hlength
  | four =>
      cases hb with
      | four => rw [UInt32.toUInt64_inj.1 hm]
      | _ => simp at hlength
  | eight =>
      cases hb with
      | eight => rw [hm]
      | _ => simp at hlength

/-- Of all forms of a number, the written one alone has its length. -/
theorem Form.length_eq_iff {n : UInt64} {bytes : List UInt8} (h : Form n bytes) :
    bytes.length = length n ↔ bytes = encode n := by
  rw [← length_encode]
  constructor
  · exact h.eq_of_length_eq (form_encode n)
  · exact congrArg List.length

/-- Bytes begin with at most one form. -/
theorem Form.eq_of_append_eq {n m : UInt64} {a b x y : List UInt8} (ha : Form n a) (hb : Form m b)
    (h : a ++ x = b ++ y) : a = b := by
  have hleft := read_form ha x 0 #[]
  have hright := read_form hb y 0 #[]
  rw [h, hright] at hleft
  injection hleft with _ hstate
  have hlength : b.length = a.length := by simpa using congrArg Reading.offset hstate
  exact List.append_inj_left h hlength.symm

theorem Form.append_eq_iff {n m : UInt64} {a b x y : List UInt8} (ha : Form n a) (hb : Form m b) :
    a ++ x = b ++ y ↔ a = b ∧ x = y := by
  constructor
  · intro h
    have hfront := ha.eq_of_append_eq hb h
    rw [hfront] at h
    exact ⟨hfront, List.append_cancel_left h⟩
  · rintro ⟨rfl, rfl⟩
    rfl

/-- The shortest form is the one that is written. -/
theorem Form.eq_encode_iff {n : UInt64} {bytes : List UInt8} (h : Form n bytes) :
    bytes = encode n ↔ ∀ other, Form n other → bytes.length ≤ other.length := by
  constructor
  · rintro rfl other hother
    rw [length_encode]
    exact length_le_of_form hother
  · intro hshortest
    have hle := hshortest (encode n) (form_encode n)
    rw [length_encode] at hle
    exact h.length_eq_iff.1 (Nat.le_antisymm hle (length_le_of_form h))

/-- Written again, a number gives back the bytes it was read from exactly if these are its shortest
form, whatever stands behind. -/
theorem Form.encode_append_eq_iff {n : UInt64} {size x y : List UInt8} (h : Form n size) :
    encode n ++ x = size ++ y ↔
      (∀ other, Form n other → size.length ≤ other.length) ∧ x = y := by
  rw [(form_encode n).append_eq_iff h, ← h.eq_encode_iff]
  exact and_congr_left' eq_comm

end CompactSize
end HeaderRelay
