import HeaderRelay.Proofs.Compression.Lockstep

/-!
# What the writer leaves out

The first byte of a record says which fields follow. The writer gives a version its place when the
table has one, and of the other fields leaves out those that follow from the header before.

* `Bitfield.eq_toByte_iff`, `Bitfield.toByte_eq_ofNat` — the byte of a bitfield;
* `VersionTable.selectorOf` — the selector of a version;
* `bitfield_compress` — when the writer sets each part of the first byte.
-/

namespace HeaderRelay

/-! ## First bytes -/

namespace Bitfield

/-- A first byte is the one written for a bitfield if it means this bitfield and leaves the
reserved bits alone. -/
theorem eq_toByte_iff (lead : UInt8) (bitfield : Bitfield) :
    lead = bitfield.toByte ↔ lead &&& 0xC0 = 0 ∧ ofByte lead = bitfield := by
  constructor
  · rintro rfl
    have hreserved : ∀ (s : Fin 8) (p t b : Bool), toByte ⟨s, p, t, b⟩ &&& 0xC0 = 0 := by decide
    exact ⟨hreserved _ _ _ _, ofByte_toByte bitfield⟩
  · rintro ⟨hreserved, rfl⟩
    have hlow : ∀ n : Fin 256, UInt8.ofNat n.val &&& 0xC0 = 0 →
        UInt8.ofNat n.val &&& 0x3F = UInt8.ofNat n.val := by
      decide +kernel
    have hlead : lead &&& 0x3F = lead := by
      simpa using hlow ⟨lead.toNat, UInt8.toNat_lt lead⟩ (by simpa using hreserved)
    rw [toByte_ofByte, hlead]

theorem eq_iff {a b : Bitfield} :
    a = b ↔ a.selector.val = b.selector.val ∧ (a.hasPrevBlock ↔ b.hasPrevBlock) ∧
      (a.hasFullTimestamp ↔ b.hasFullTimestamp) ∧ (a.hasBits ↔ b.hasBits) := by
  rcases a with ⟨s, p, t, u⟩
  rcases b with ⟨s', p', t', u'⟩
  simp only [mk.injEq, Fin.ext_iff, Bool.coe_iff_coe]

/-- The byte as a sum: the selector in the low bits, and one bit for each field that is there. -/
theorem toByte_eq_ofNat (bitfield : Bitfield) :
    bitfield.toByte =
      UInt8.ofNat (bitfield.selector.val + (if bitfield.hasPrevBlock then 8 else 0) +
        (if bitfield.hasFullTimestamp then 16 else 0) + (if bitfield.hasBits then 32 else 0)) := by
  have h : ∀ (s : Fin 8) (p t b : Bool), toByte ⟨s, p, t, b⟩ =
      UInt8.ofNat (s.val + (if p then 8 else 0) + (if t then 16 else 0) +
        (if b then 32 else 0)) := by
    decide
  exact h _ _ _ _

end Bitfield

/-! ## Selectors -/

namespace VersionTable

/-- The first place of `version`, counted from one, or zero when the table does not hold it. -/
def selectorOf (table : VersionTable) (version : Int32) : Nat :=
  match table.idxOf? version with
  | some index => index + 1
  | none => 0

theorem eq_selectorOf_iff (selector : Nat) (table : VersionTable) (version : Int32) :
    selector = table.selectorOf version ↔
      (selector = 0 ↔ version ∉ table) ∧
        (selector ≠ 0 → table.idxOf? version = some (selector - 1)) := by
  unfold selectorOf
  cases hplace : table.idxOf? version with
  | none =>
      have hnew : version ∉ table := List.idxOf?_eq_none_iff.1 hplace
      simp [hnew]
  | some index =>
      have hold : version ∈ table := by
        rw [List.idxOf?_eq_some_iff] at hplace
        rcases hplace with ⟨hlt, rfl, _⟩
        exact List.getElem_mem hlt
      simp [hold]
      omega

end VersionTable

/-! ## The writer's decisions -/

theorem isSome_if_eq {α : Type} [DecidableEq α] (a default : α) :
    (if a = default then none else some a).isSome ↔ a ≠ default := by
  by_cases h : a = default <;> simp [h]

theorem optional_if {α : Type} {c : Prop} [Decidable c] (write : α → List UInt8) (a : α) :
    ((if c then none else some a).map write).getD [] = if c then [] else write a := by
  split <;> rfl

theorem TimeField.isFull_since (previous timestamp : UInt32) :
    (since previous timestamp).isFull ↔ ¬ IsShort previous timestamp := by
  by_cases h : IsShort previous timestamp
  · rw [since_of_isShort h]
    exact ⟨fun hfull => Bool.noConfusion hfull, fun hnot => absurd h hnot⟩
  · rw [since_of_not_isShort h]
    exact ⟨fun _ => h, fun _ => rfl⟩

namespace Context

theorem selector_referTo {ctx : Context} (hbounded : ctx.IsBounded) (version : Int32) :
    (ctx.referTo version).1.selector.val = ctx.versions.selectorOf version := by
  unfold referTo VersionTable.indexOf? VersionTable.selectorOf
  cases hplace : ctx.versions.idxOf? version with
  | none => rfl
  | some index =>
      rw [List.idxOf?_eq_some_iff] at hplace
      rcases hplace with ⟨hlt, _, _⟩
      exact VersionField.selector_entry (Nat.lt_of_lt_of_le hlt hbounded)

theorem bytes_referTo (ctx : Context) (version : Int32) :
    (ctx.referTo version).1.bytes =
      if ctx.versions.selectorOf version = 0 then Writer.i32 version else [] := by
  unfold referTo VersionTable.indexOf? VersionTable.selectorOf
  cases ctx.versions.idxOf? version with
  | none => rfl
  | some index => rfl

/-- What the first byte of a record behind the first one of a batch says. -/
theorem bitfield_compress {ctx : Context} (hbounded : ctx.IsBounded) (header : BlockHeader) :
    (ctx.compress false header).1.bitfield.selector.val =
        ctx.versions.selectorOf header.version ∧
      ((ctx.compress false header).1.bitfield.hasPrevBlock ↔
        header.prevBlock ≠ ctx.previous.hash) ∧
      ((ctx.compress false header).1.bitfield.hasFullTimestamp ↔
        ¬ TimeField.IsShort ctx.previous.timestamp header.timestamp) ∧
      ((ctx.compress false header).1.bitfield.hasBits ↔ header.bits ≠ ctx.previous.bits) := by
  rw [compress_false]
  refine ⟨ctx.selector_referTo hbounded header.version, ?_, ?_, ?_⟩
  · exact isSome_if_eq header.prevBlock ctx.previous.hash
  · exact TimeField.isFull_since ctx.previous.timestamp header.timestamp
  · exact isSome_if_eq header.bits ctx.previous.bits

end Context
end HeaderRelay
