import HeaderRelay.Proofs.Batch.RoundTrip
import HeaderRelay.Proofs.Bytes.HexText
import HeaderRelay.Proofs.Wire.Lists
import HeaderRelay.Tool.Job

/-!
# What a file holds

The tool reads headers one right after the other, and payloads as they are or as hex text.

* `exists_headers`, `parseRaw_bytes`, `parseRaw_of_ragged` — whole headers are read back, and there
  is nothing else to find fault with;
* `utf8`, `textOf_eq_ok_iff` — the bytes of a text;
* `Holds`, `Unreadable`, `holds_or_unreadable` — content with a payload in it, and content without;
* `compress_bytes` — the compressed batch of raw headers is read back as these headers.
-/

namespace HeaderRelay

/-! ## Raw headers -/

theorem BlockHeader.exists_bytes_append {bytes : List UInt8} (h : size ≤ bytes.length) :
    ∃ (header : BlockHeader) (rest : List UInt8), bytes = header.bytes ++ rest := by
  have h80 : 4 + 76 ≤ bytes.length := h
  -- each field takes its share off the front
  rcases exists_i32_append (show 4 ≤ bytes.length by omega) with ⟨version, rest, rfl⟩
  have h76 : 32 + 44 ≤ rest.length := le_length_of_append (Writer.length_i32 version) h80
  rcases exists_hash_append (show 32 ≤ rest.length by omega) with ⟨prevBlock, rest, rfl⟩
  have h44 : 32 + 12 ≤ rest.length := le_length_of_append prevBlock.length_bytes h76
  rcases exists_hash_append (show 32 ≤ rest.length by omega) with ⟨merkleRoot, rest, rfl⟩
  have h12 : 4 + 8 ≤ rest.length := le_length_of_append merkleRoot.length_bytes h44
  rcases exists_u32_append (show 4 ≤ rest.length by omega) with ⟨timestamp, rest, rfl⟩
  have h8 : 4 + 4 ≤ rest.length := le_length_of_append (Writer.length_u32 timestamp) h12
  rcases exists_u32_append (show 4 ≤ rest.length by omega) with ⟨bits, rest, rfl⟩
  have h4 : 4 ≤ rest.length := le_length_of_append (Writer.length_u32 bits) h8
  rcases exists_u32_append h4 with ⟨nonce, rest, rfl⟩
  refine ⟨⟨version, prevBlock, merkleRoot, timestamp, bits, nonce⟩, rest, ?_⟩
  simp [BlockHeader.bytes]

namespace Tool

open BlockHeader (size)

theorem length_flatMap_bytes (headers : List BlockHeader) :
    (headers.flatMap BlockHeader.bytes).length = size * headers.length :=
  length_flatMap_of_width BlockHeader.length_bytes headers

/-- Enough bytes for so many headers are so many headers. -/
theorem exists_headers {count : Nat} {raw : List UInt8} (h : raw.length = size * count) :
    ∃ headers : List BlockHeader,
      headers.length = count ∧ raw = headers.flatMap BlockHeader.bytes := by
  induction count generalizing raw with
  | zero =>
      have hnil : raw = [] := List.eq_nil_of_length_eq_zero h
      exact ⟨[], rfl, hnil⟩
  | succ count ih =>
      rw [Nat.mul_succ] at h
      have hsize : size ≤ raw.length := by omega
      rcases BlockHeader.exists_bytes_append hsize with ⟨header, rest, rfl⟩
      have hrest : rest.length = size * count := by
        rw [List.length_append, BlockHeader.length_bytes] at h
        omega
      rcases ih hrest with ⟨headers, hlength, rfl⟩
      exact ⟨header :: headers, congrArg Nat.succ hlength, rfl⟩

theorem parseRaw_of_ragged {raw : List UInt8} (h : raw.length % size ≠ 0) :
    parseRaw raw = .error (.ragged raw.length) :=
  if_pos h

theorem parseRaw_bytes (headers : List BlockHeader) :
    parseRaw (headers.flatMap BlockHeader.bytes) = .ok headers := by
  have hsize : 0 < size := by decide
  have hwhole : ¬ (headers.flatMap BlockHeader.bytes).length % size ≠ 0 := by
    rw [length_flatMap_bytes, Nat.mul_mod_right]
    exact fun hragged => hragged rfl
  have hcount : (headers.flatMap BlockHeader.bytes).length / size = headers.length := by
    rw [length_flatMap_bytes, Nat.mul_div_cancel_left _ hsize]
  have hread := (Reader.times_yields BlockHeader.read_yields headers).outcome_start
  rcases exists_of_outcome_ok hread with ⟨s, hread⟩
  rw [parseRaw, if_neg hwhole, hcount, hread]

/-! ## Texts -/

/-- The text in UTF-8. -/
def utf8 (text : String) : List UInt8 :=
  text.toUTF8.data.toList

theorem textOf_eq_ok_iff {content : List UInt8} {text : String} :
    textOf content = .ok text ↔ content = utf8 text := by
  unfold textOf String.fromUTF8?
  constructor
  · intro h
    by_cases hvalid : (ByteArray.mk content.toArray).IsValidUTF8
    · rw [dif_pos hvalid] at h
      cases h
      rfl
    · rw [dif_neg hvalid] at h
      cases h
  · rintro rfl
    have hbytes : ByteArray.mk (utf8 text).toArray = text.toByteArray := rfl
    rw [hbytes, dif_pos text.isValidUTF8]
    rfl

/-- What is no text at all is refused as such. -/
theorem textOf_of_ne_utf8 {content : List UInt8} (h : ∀ text, content ≠ utf8 text) :
    textOf content = .error .notText := by
  cases htext : textOf content with
  | ok text => exact absurd (textOf_eq_ok_iff.1 htext) (h text)
  | error e =>
      unfold textOf at htext
      split at htext
      · cases htext
      · exact htext.symm

/-! ## Payloads -/

/-- A file with this content holds the payload, as it is or as hex text. -/
inductive Holds : (hex : Bool) → (content payload : List UInt8) → Prop where
  | raw (payload : List UInt8) : Holds false payload payload
  | hex {text : String} {payload : List UInt8} :
      Hex.Spells text payload → Holds true (utf8 text) payload

/-- A file with this content was to hold hex text, but holds no text or another one. -/
inductive Unreadable : (content : List UInt8) → ToolError → Prop where
  | notText {content : List UInt8} :
      (∀ text, content ≠ utf8 text) → Unreadable content (.file .notText)
  | notHex {text : String} :
      (∀ payload, ¬ Hex.Spells text payload) → Unreadable (utf8 text) .notHex

theorem payloadOf_utf8 (text : String) :
    payloadOf true (utf8 text) =
      match Hex.decode text with
      | some payload => .ok payload
      | none => .error .notHex := by
  unfold payloadOf
  rw [if_pos rfl, textOf_eq_ok_iff.2 rfl]
  rfl

theorem Holds.payloadOf_eq {hex : Bool} {content payload : List UInt8}
    (h : Holds hex content payload) : payloadOf hex content = .ok payload := by
  cases h with
  | raw => rfl
  | hex hspells => rw [payloadOf_utf8, Hex.decode_eq_some_iff.2 hspells]

theorem Unreadable.payloadOf_eq {content : List UInt8} {e : ToolError} (h : Unreadable content e) :
    payloadOf true content = .error e := by
  cases h with
  | notText hnone =>
      unfold payloadOf
      rw [if_pos rfl, textOf_of_ne_utf8 hnone]
      rfl
  | @notHex text hnone =>
      have hdecode : Hex.decode text = none := by
        cases hsome : Hex.decode text with
        | none => rfl
        | some payload => exact absurd (Hex.decode_eq_some_iff.1 hsome) (hnone payload)
      rw [payloadOf_utf8, hdecode]

/-- There is no third kind of content. -/
theorem holds_or_unreadable (hex : Bool) (content : List UInt8) :
    (∃ payload, Holds hex content payload) ∨ hex = true ∧ ∃ e, Unreadable content e := by
  cases hex with
  | false => exact Or.inl ⟨content, .raw content⟩
  | true =>
      by_cases htext : ∃ text, content = utf8 text
      · rcases htext with ⟨text, rfl⟩
        by_cases hspells : ∃ payload, Hex.Spells text payload
        · rcases hspells with ⟨payload, hspells⟩
          exact Or.inl ⟨payload, .hex hspells⟩
        · exact Or.inr ⟨rfl, .notHex, .notHex (not_exists.1 hspells)⟩
      · exact Or.inr ⟨rfl, .file .notText, .notText (not_exists.1 htext)⟩

/-! ## Compressed batches -/

theorem compress_of_ragged (codec : Codec) {raw : List UInt8} (h : raw.length % size ≠ 0) :
    compress codec raw = .error (.ragged raw.length) := by
  unfold compress
  rw [parseRaw_of_ragged h]
  rfl

theorem compress_of_large (codec : Codec) {headers : List BlockHeader}
    (h : Batch.maxHeaders < headers.length) :
    compress codec (headers.flatMap BlockHeader.bytes) =
      .error (.tooManyHeaders headers.length Batch.maxHeaders) := by
  unfold compress
  rw [parseRaw_bytes]
  exact if_pos h

/-- Headers that fit in one batch are compressed to something that is read back as these headers. -/
theorem compress_bytes (codec : Codec) {headers : List BlockHeader}
    (hbound : headers.length ≤ Batch.maxHeaders) :
    ∃ encoded, compress codec (headers.flatMap BlockHeader.bytes) = .ok encoded ∧
      outcome (Batch.decode codec encoded.bytes) = .ok headers := by
  rcases Batch.encode_of_length_le hbound codec with ⟨encoded, hencode, _⟩
  refine ⟨encoded, ?_, Batch.outcome_decode_encoded hencode⟩
  unfold compress
  rw [parseRaw_bytes]
  refine (if_neg (Nat.not_lt.2 hbound)).trans ?_
  rw [hencode]
  rfl

end Tool
end HeaderRelay
