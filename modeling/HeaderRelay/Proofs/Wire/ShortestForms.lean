import HeaderRelay.Proofs.Wire.Grammars
import HeaderRelay.Proofs.Wire.Output

/-!
# Numbers that delimit themselves

The first byte of a compact size says how many bytes belong to it. Reading takes so many or finds
that they are missing. Of all forms of a number the shortest is written, and no other one is as short.

* `CompactSize.width`, `CompactSize.needed` — the bytes in a form, by the first of them, and the bytes
  that have to be ahead;
* `Form.length_eq_needed`, `exists_cut_iff` — bytes begin with a form if there are as many as needed,
  and are cut if there are fewer;
* `exists_error_iff` — a number is read exactly if its bytes are there;
* `encode_append_eq_iff` — written numbers are told apart whatever stands behind them;
* `numbers_delimit_themselves` — how many bytes are written, taken and missed.
-/

namespace HeaderRelay
namespace CompactSize

/-! ## What the first byte announces -/

/-- The bytes in a form whose first one is `lead`. -/
def width (lead : UInt8) : Nat :=
  if lead ≤ 0xFC then 1
  else if lead = 0xFD then 3
  else if lead = 0xFE then 5
  else 9

/-- The bytes that have to be ahead for a number to be read. If there are none, a first one is. -/
def needed : List UInt8 → Nat
  | [] => 1
  | lead :: _ => width lead

theorem width_of_lt {lead : UInt8} (h : lead < 0xFD) : width lead = 1 := by
  have hle : lead ≤ 0xFC := by
    simp only [UInt8.lt_iff_toNat_lt] at h
    exact UInt8.le_iff_toNat_le.2 (Nat.le_of_lt_succ h)
  exact if_pos hle

theorem announced_of_lt {lead : UInt8} (h : lead < 0xFD) : announced lead = 0 := by
  unfold announced
  rw [if_neg (ne_marker h 0xFF (by decide)), if_neg (ne_marker h 0xFE (by decide)),
    if_neg (ne_marker h 0xFD (by decide))]

theorem width_eq (lead : UInt8) : width lead = announced lead + 1 := by
  rcases lt_or_marker lead with hlt | rfl | rfl | rfl
  · rw [width_of_lt hlt, announced_of_lt hlt]
  · rfl
  · rfl
  · rfl

theorem Form.length_eq_needed {n : UInt64} {front : List UInt8} (h : Form n front)
    (rest : List UInt8) : front.length = needed (front ++ rest) := by
  cases h with
  | one hlt => exact (width_of_lt hlt).symm
  -- a marker and the word behind it
  | two n => exact congrArg Nat.succ (Writer.length_u16 n)
  | four n => exact congrArg Nat.succ (Writer.length_u32 n)
  | eight n => exact congrArg Nat.succ (Writer.length_u64 n)

theorem exists_cut_iff (offset : Nat) (bytes : List UInt8) :
    (∃ e, Cut offset bytes e) ↔ bytes.length < needed bytes := by
  -- the first byte is there if any is, and counts on both sides
  constructor
  · rintro ⟨e, hcut⟩
    cases hcut with
    | empty => exact Nat.zero_lt_one
    | short hlt =>
        rw [List.length_cons, needed, width_eq]
        exact Nat.succ_lt_succ hlt
  · intro hlt
    cases bytes with
    | nil => exact ⟨_, .empty⟩
    | cons lead tail =>
        rw [List.length_cons, needed, width_eq] at hlt
        exact ⟨_, .short (Nat.lt_of_succ_lt_succ hlt)⟩

/-! ## Reading -/

theorem exists_error_iff (s : Reading) :
    (∃ e t, read s = .error e t) ↔ s.remaining < needed s.rest := by
  rw [Reading.remaining, ← exists_cut_iff s.offset s.rest]
  constructor
  · rintro ⟨e, t, h⟩
    exact ⟨e, (read_error_iff.1 h).1⟩
  · rintro ⟨e, hcut⟩
    exact ⟨e, _, read_of_cut hcut⟩

/-! ## Writing -/

/-- What is read from the written form of a number is that number and what stands behind it. -/
theorem encode_append_eq_iff {n m : UInt64} {x y : List UInt8} :
    encode n ++ x = encode m ++ y ↔ n = m ∧ x = y := by
  constructor
  · intro h
    have hfirst := read_encode n x 0 #[]
    rw [h, read_encode] at hfirst
    injection hfirst with hnumber hend
    exact ⟨hnumber.symm, (congrArg Reading.rest hend).symm⟩
  · rintro ⟨rfl, rfl⟩
    rfl

/-! ## Writing and reading -/

/-- Numbers are written in a code that delimits itself, and in no more bytes than necessary. A number
puts as many bytes as its width behind any output; they are read back, and no others with them,
whatever follows, so that written numbers can be told apart. Whenever a number is read, the bytes
taken are as many as the first of them announces and no fewer than are written for the number, and
they are as few only if they are those. Reading fails only for lack of bytes, and exactly if there
are fewer than the first one announces, or not even that one. -/
theorem numbers_delimit_themselves :
    (∀ n : UInt64, (emit n).Appends () { bytes := encode n } ∧ (encode n).length = length n ∧
      ∀ (rest : List UInt8) (offset : Nat) (log : Array Event),
        read { offset, rest := encode n ++ rest, log } =
          .ok n { offset := offset + length n, rest, log }) ∧
    (∀ (n m : UInt64) (x y : List UInt8), encode n ++ x = encode m ++ y ↔ n = m ∧ x = y) ∧
    (∀ (s t : Reading) (n : UInt64), read s = .ok n t →
      ∃ front : List UInt8, s.rest = front ++ t.rest ∧ t.offset = s.offset + front.length ∧
        t.log = s.log ∧ front.length = needed s.rest ∧ length n ≤ front.length ∧
        (front.length = length n ↔ front = encode n)) ∧
    (∀ (s t : Reading) (e : DecodeError), read s = .error e t →
      e.IsTruncation ∧ Cut s.offset s.rest e ∧ t = s.skip (min 1 s.remaining)) ∧
    ∀ s : Reading, (∃ e t, read s = .error e t) ↔ s.remaining < needed s.rest := by
  refine ⟨fun n => ⟨appends_emit n, length_encode n, read_encode n⟩,
    fun _ _ _ _ => encode_append_eq_iff, ?_, ?_, exists_error_iff⟩
  · -- the bytes taken are a form of the number, and the rest is known of forms
    rintro ⟨offset, ahead, log⟩ t n h
    rcases read_parses.ok_iff.1 h with ⟨front, rest, hform, rfl, rfl⟩
    exact ⟨front, rfl, rfl, rfl, hform.length_eq_needed rest, length_le_of_form hform,
      hform.length_eq_iff⟩
  · intro s t e h
    rcases read_error_iff.1 h with ⟨hcut, hstop⟩
    exact ⟨hcut.isTruncation, hcut, hstop⟩

/-- The largest number of three bytes stands in five of them in front of another byte, and then in the
same five without the last two. -/
theorem numbers_delimit_themselves_respelled :
    let long : Reading := { offset := 2, rest := [0xFE, 0xFF, 0xFF, 0, 0, 7], log := #[] }
    let short : Reading := { offset := 2, rest := [0xFE, 0xFF, 0xFF], log := #[] }
    let report : DecodeError := .truncated "compact size" 3 4 2
    read long = .ok 0xFFFF { offset := 7, rest := [7], log := #[] } ∧
      (∃ front : List UInt8, long.rest = front ++ [7] ∧ length 0xFFFF < front.length ∧
        front ≠ encode 0xFFFF) ∧
      read short = .error report { offset := 3, rest := [0xFF, 0xFF], log := #[] } ∧
      Cut 2 short.rest report ∧ short.remaining < needed short.rest := by
  intro long short report
  rcases numbers_delimit_themselves with ⟨_, _, hread, hrefuse, hrefused⟩
  have hlong : read long = .ok 0xFFFF { offset := 7, rest := [7], log := #[] } := rfl
  have hshort : read short = .error report { offset := 3, rest := [0xFF, 0xFF], log := #[] } := rfl
  rcases hread long _ _ hlong with ⟨front, hrest, hoffset, _, _, _, hiff⟩
  rcases hrefuse short _ _ hshort with ⟨_, hcut, _⟩
  have hlonger : length 0xFFFF < front.length := by
    have hlength : front.length = 5 := Nat.add_left_cancel hoffset.symm
    rw [hlength]
    decide
  have hother : front ≠ encode 0xFFFF := fun heq => Nat.ne_of_gt hlonger (hiff.2 heq)
  exact ⟨hlong, ⟨front, hrest, hlonger, hother⟩, hshort, hcut, (hrefused short).1 ⟨_, _, hshort⟩⟩

end CompactSize
end HeaderRelay
