import HeaderRelay.HeaderList
import HeaderRelay.Locator
import HeaderRelay.Proofs.Wire.CompactForms

/-!
# Lists with a count in front

Locators and uncompressed batches are read back from what was written, as long as they have no more
elements than their readers allow. Nothing that is read has more.

* `length_flatMap_of_width` — the size of elements of one width;
* `Reader.times_yields`, `Reader.length_of_times` — so many elements, neither more nor fewer;
* `Locator.readBounded_yields`, `Locator.length_le_of_readBounded` — a request for headers;
* `HeaderList.read_yields`, `HeaderList.length_le_of_read` — headers in full;
* `outcome_readBounded_bytes`, `outcome_read_bytes` — the written form is read back exactly if it is
  within the bound;
* `outcome_readBounded_oversized`, `outcome_read_oversized` — and else it is refused with its size.
-/

namespace HeaderRelay

/-! ## Elements in a row -/

theorem length_flatMap_of_width {α : Type} {write : α → List UInt8} {width : Nat}
    (h : ∀ a, (write a).length = width) (values : List α) :
    (values.flatMap write).length = width * values.length := by
  induction values with
  | nil => rfl
  | cons a values ih =>
      rw [List.flatMap_cons, List.length_append, h, ih, List.length_cons, Nat.mul_succ, Nat.add_comm]

namespace Reader

variable {α : Type} {element : Reader α}

theorem times_yields {write : α → List UInt8} (helement : ∀ a, element.Yields (write a) a)
    (values : List α) : (times values.length element).Yields (values.flatMap write) values := by
  induction values with
  | nil =>
      rw [List.length_nil, times_zero]
      exact Yields.pure []
  | cons a values ih =>
      rw [List.length_cons, times_succ, List.flatMap_cons]
      exact (helement a).bind ih.map

theorem length_of_times {count : Nat} {s t : Reading} {values : List α}
    (h : times count element s = .ok values t) : values.length = count := by
  induction count generalizing s values t with
  | zero =>
      rw [times_zero] at h
      cases h
      rfl
  | succ count ih =>
      rw [times_succ] at h
      rcases exists_of_bind_ok h with ⟨a, u, _, hrest⟩
      rcases exists_of_bind_ok hrest with ⟨rest, v, hcount, hcons⟩
      cases hcons
      exact congrArg Nat.succ (ih hcount)

end Reader

theorem CompactSize.read_yields_length {α : Type} {values : List α}
    (h : values.length < UInt64.size) :
    ∃ count : UInt64, count.toNat = values.length ∧ read.Yields (encodeLength values) count :=
  ⟨UInt64.ofNat values.length, UInt64.toNat_ofNat_of_lt' h, read_form (form_encode _)⟩

/-! ## Locators -/

namespace Locator

theorem read_yields {locator : Locator} (h : locator.hashes.length < UInt64.size) :
    read.Yields locator.bytes locator := by
  rcases CompactSize.read_yields_length h with ⟨count, hcount, hsize⟩
  have hhashes := Reader.times_yields (Reader.hash_yields "hash") locator.hashes
  rw [← hcount] at hhashes
  exact (Reader.u32_yields "u32" locator.version).bind
    (hsize.bind (hhashes.bind (Reader.hash_yields "hash" locator.stop).map))

/-- Passes on a locator that is not too large. -/
def check (locator : Locator) : Reader Locator :=
  if locator.hashes.length > maxHashes then
    throw (.locatorTooLarge locator.hashes.length maxHashes)
  else
    return locator

theorem readBounded_eq : readBounded = read >>= check := rfl

theorem readBounded_yields {locator : Locator} (h : locator.hashes.length ≤ maxHashes) :
    readBounded.Yields locator.bytes locator := by
  have hsmall : locator.hashes.length < UInt64.size := Nat.lt_of_le_of_lt h (by decide)
  have hcheck : (check locator).Yields [] locator := by
    rw [check, if_neg (Nat.not_lt.2 h)]
    exact Reader.Yields.pure locator
  have hread := (read_yields hsmall).bind hcheck
  rwa [List.append_nil] at hread

theorem length_le_of_readBounded {s t : Reading} {locator : Locator}
    (h : readBounded s = .ok locator t) : locator.hashes.length ≤ maxHashes := by
  rw [readBounded_eq] at h
  rcases exists_of_bind_ok h with ⟨unchecked, u, _, hcheck⟩
  by_cases hlarge : unchecked.hashes.length > maxHashes
  · rw [check, if_pos hlarge] at hcheck
    cases hcheck
  · rw [check, if_neg hlarge] at hcheck
    cases hcheck
    exact Nat.not_lt.1 hlarge

/-- A locator that is too large is refused with its size, once it was read. -/
theorem outcome_readBounded_oversized {locator : Locator}
    (hsmall : locator.hashes.length < UInt64.size) (h : maxHashes < locator.hashes.length) :
    outcome (readBounded (.start locator.bytes)) =
      .error (.locatorTooLarge locator.hashes.length maxHashes) := by
  rcases exists_of_outcome_ok (read_yields hsmall).outcome_start with ⟨s, hread⟩
  rw [readBounded_eq, bind_of_ok hread, check, if_pos h]
  rfl

theorem outcome_readBounded_bytes (locator : Locator) :
    outcome (readBounded (.start locator.bytes)) = .ok locator ↔
      locator.hashes.length ≤ maxHashes := by
  constructor
  · intro h
    rcases exists_of_outcome_ok h with ⟨s, hread⟩
    exact length_le_of_readBounded hread
  · intro h
    exact (readBounded_yields h).outcome_start

end Locator

/-! ## Headers in full -/

theorem BlockHeader.read_yields (header : BlockHeader) : read.Yields header.bytes header := by
  intro rest offset log
  rw [read_bytes, length_bytes]

namespace HeaderList

theorem readEntry_yields (header : BlockHeader) :
    readEntry.Yields (entryBytes header) header :=
  header.read_yields.bind (CompactSize.read_form (CompactSize.form_encode 0)).map

theorem read_yields {headers : List BlockHeader} (h : headers.length ≤ maxHeaders) :
    read.Yields (bytes headers) headers := by
  have hsmall : headers.length < UInt64.size := Nat.lt_of_le_of_lt h (by decide)
  rcases CompactSize.read_yields_length hsmall with ⟨count, hcount, hsize⟩
  have hentries := Reader.times_yields readEntry_yields headers
  rw [← hcount] at h hentries
  refine hsize.bind ?_
  rw [if_neg (Nat.not_lt.2 h)]
  exact hentries

theorem length_le_of_read {s t : Reading} {headers : List BlockHeader}
    (h : read s = .ok headers t) : headers.length ≤ maxHeaders := by
  rcases exists_of_bind_ok h with ⟨count, u, _, hentries⟩
  by_cases hlarge : count.toNat > maxHeaders
  · rw [if_pos hlarge] at hentries
    cases hentries
  · rw [if_neg hlarge] at hentries
    rw [Reader.length_of_times hentries]
    exact Nat.not_lt.1 hlarge

/-- A batch that is too large is refused by its count. -/
theorem outcome_read_oversized {headers : List BlockHeader}
    (hsmall : headers.length < UInt64.size) (h : maxHeaders < headers.length) :
    outcome (read (.start (bytes headers))) =
      .error (.batchTooLarge headers.length maxHeaders) := by
  rcases CompactSize.read_yields_length hsmall with ⟨count, hcount, hsize⟩
  rw [← hcount] at h ⊢
  have hread := hsize (headers.flatMap entryBytes) 0 #[]
  refine (congrArg outcome (bind_of_ok hread)).trans ?_
  rw [if_pos h]
  rfl

theorem outcome_read_bytes (headers : List BlockHeader) :
    outcome (read (.start (bytes headers))) = .ok headers ↔ headers.length ≤ maxHeaders := by
  constructor
  · intro h
    rcases exists_of_outcome_ok h with ⟨s, hread⟩
    exact length_le_of_read hread
  · intro h
    exact (read_yields h).outcome_start

end HeaderList
end HeaderRelay
