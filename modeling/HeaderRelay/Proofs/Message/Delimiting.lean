import HeaderRelay.Message
import HeaderRelay.Proofs.Batch.Delimiting
import HeaderRelay.Wire.Layout

/-!
# Messages know where they end

A payload may be longer than the message in it, and it may be cut short. The first makes no
difference to the message, and the second never passes for anything else.

* `Reader.StopsWhereReported` — after a report of missing bytes, reading stands where it says;
* `Layout.read_delimits` — a value of any shape is settled by the bytes that it consumes;
* `Message.contentCommands` — the commands whose payload has a format;
* `Message.decode_is_self_delimiting` — payloads that begin with the same message, and payloads that
  break off inside one.
-/

namespace HeaderRelay

/-- A report of missing bytes leaves the payload at the place, and with as many bytes ahead, as it
tells. -/
def Reader.StopsWhereReported {α : Type} (step : Reader α) : Prop :=
  ∀ (s t : Reading) (field : String) (offset needed available : Nat),
    step s = .error (.truncated field offset needed available) t →
      t.offset = offset ∧ t.remaining = available

theorem Reader.Delimits.stopsWhereReported {α : Type} {step : Reader α} (h : step.Delimits) :
    step.StopsWhereReported := by
  intro s t field offset needed available hread
  rcases h.stops hread with ⟨hoffset, hremaining, _, _⟩
  exact ⟨hoffset, hremaining⟩

/-! ## Shapes -/

theorem Layout.read_delimits (layout : Layout) : layout.read.Delimits := by
  induction layout with
  | u8 => exact Reader.u8_delimits "u8"
  | u16 => exact Reader.u16_delimits "u16"
  | i16 => exact Reader.i16_delimits "i16"
  | u32 => exact Reader.u32_delimits "u32"
  | i32 => exact Reader.i32_delimits "i32"
  | u64 => exact Reader.u64_delimits "u64"
  | hash => exact Reader.hash_delimits "hash"
  | compactSize => exact CompactSize.read_delimits
  | services => exact Services.read_delimits
  | header => exact BlockHeader.read_delimits
  | locator => exact Locator.read_delimits
  | headerList => exact HeaderList.read_delimits
  | batch => exact Batch.withFresh_delimits {} (Batch.read_delimits {})
  | unit => exact Reader.Delimits.pure ()
  | pair first second ihFirst ihSecond =>
      apply ihFirst.bind
      intro a
      exact ihSecond.map (a, ·)
  | counted element ih =>
      apply CompactSize.read_delimits.bind
      intro count
      exact ih.times count.toNat

/-! ## Messages -/

namespace Message

/-- The commands whose payload has a format. An announcement has no payload to look at, and that of
an unknown command is kept whole. -/
def contentCommands : List String :=
  ["getheaders", "getheaders2", "headers", "headers2"]

theorem read_delimits (codec : Codec) {command : String} (hcommand : command ∈ contentCommands) :
    (read codec command).Delimits := by
  simp only [contentCommands, List.mem_cons, List.not_mem_nil, or_false] at hcommand
  rcases hcommand with rfl | rfl | rfl | rfl
  · exact Locator.readBounded_delimits.map getHeaders
  · exact Locator.readBounded_delimits.map getHeaders2
  · exact HeaderList.read_delimits.map headers
  · exact (Batch.withFresh_delimits codec (Batch.readPayload_delimits codec)).map headers2

theorem decode_headers2_of_ok {codec : Codec} {payload : List UInt8} {hs : List BlockHeader}
    {s : Reading} (h : Batch.decode codec payload = .ok hs s) :
    decode codec "headers2" payload = .ok (.headers2 hs) s := by
  show (Batch.withFresh codec (Batch.readPayload codec) >>= fun hs => pure (headers2 hs))
    (.start payload) = _
  exact bind_of_ok h

/-- A payload with a format holds its message in the bytes that were read. Whatever else begins with
these bytes holds the same message; of fewer bytes it is reported that some are missing, how many
are needed and how many are there. And whichever value is read, at whichever place, such a report
leaves reading where it says. -/
theorem decode_is_self_delimiting :
    (∀ (codec : Codec) (command : String), command ∈ contentCommands →
      ∀ (payload : List UInt8) (message : Message) (s : Reading),
        decode codec command payload = .ok message s →
          (s.offset ≤ payload.length ∧ s.rest = payload.drop s.offset) ∧
          (∀ other : List UInt8, other.take s.offset = payload.take s.offset →
            ∃ s', decode codec command other = .ok message s' ∧ s'.offset = s.offset) ∧
          ∀ k < s.offset, ∃ field offset needed available s',
            decode codec command (payload.take k) =
                .error (.truncated field offset needed available) s' ∧
              offset + available = k ∧ available < needed) ∧
    (∀ layout : Layout, layout.read.StopsWhereReported) ∧
    (∀ (layout : Layout) (count : Nat), (Reader.times count layout.read).StopsWhereReported) ∧
    Locator.readBounded.StopsWhereReported := by
  refine ⟨?_, ?_, ?_, Locator.readBounded_delimits.stopsWhereReported⟩
  · intro codec command hcommand payload message s hdecode
    have hdelimits := read_delimits codec hcommand
    refine ⟨hdelimits.rest_eq_drop hdecode, ?_, ?_⟩
    · intro other hother
      exact hdelimits.exists_of_take_eq hdecode hother
    · intro k hk
      exact hdelimits.exists_truncated hdecode hk
  · intro layout
    exact layout.read_delimits.stopsWhereReported
  · intro layout count
    exact (layout.read_delimits.times count).stopsWhereReported

/-- A count in three bytes, a full record and one of 39 bytes that refers to it, of a payload that
goes on behind them: 123 bytes count, and none of them can be spared. -/
theorem decode_is_self_delimiting_compressed :
    ∃ (payload : List UInt8) (s : Reading),
      payload = [0xFD, 2, 0, 0x38] ++ Writer.i32 4 ++ Hash.zero.bytes ++ Hash.zero.bytes ++
        Writer.u32 0 ++ Writer.u32 1 ++ Writer.u32 2 ++ [1] ++ Hash.zero.bytes ++
        Writer.i16 600 ++ Writer.u32 3 ++ [9] ∧
      decode ⟨.strict, fun _ => Hash.zero⟩ "headers2" payload =
        .ok (.headers2 [⟨4, Hash.zero, Hash.zero, 0, 1, 2⟩, ⟨4, Hash.zero, Hash.zero, 600, 1, 3⟩])
          s ∧
      s.offset = 123 ∧
      ∀ k < 123, ∃ field offset needed available s',
        decode ⟨.strict, fun _ => Hash.zero⟩ "headers2" (payload.take k) =
            .error (.truncated field offset needed available) s' ∧
          offset + available = k ∧ available < needed := by
  have haccepts : Batch.Parse.Accepts ⟨.strict, fun _ => Hash.zero⟩
      [⟨4, Hash.zero, Hash.zero, 0, 1, 2⟩, ⟨4, Hash.zero, Hash.zero, 600, 1, 3⟩] _
      ⟨2, [0xFD, 2, 0],
        [⟨0x38, some 4, some Hash.zero, Hash.zero, .full 0, some 1, 2⟩,
          ⟨1, none, none, Hash.zero, .offset 600, none, 3⟩], [9]⟩ :=
    { size := CompactSize.Form.two 2
      bounded := by decide
      count := rfl
      spells :=
        .cons ⟨by decide, ⟨by decide, by decide, rfl, rfl, rfl⟩, rfl⟩
          (.cons ⟨by decide, ⟨by decide, by decide, rfl, rfl, rfl⟩, rfl⟩ .nil) }
  have hdecode := decode_headers2_of_ok (Batch.decode_accepted haccepts)
  have hoffset : Batch.Parse.length
      ⟨2, [0xFD, 2, 0],
        [⟨0x38, some 4, some Hash.zero, Hash.zero, .full 0, some 1, 2⟩,
          ⟨1, none, none, Hash.zero, .offset 600, none, 3⟩], [9]⟩ = 123 := by decide +kernel
  rcases decode_is_self_delimiting.1 _ "headers2" (by decide) _ _ _ hdecode with ⟨_, _, hcut⟩
  rw [hoffset] at hcut
  exact ⟨_, _, rfl, hdecode, hoffset, hcut⟩

end Message
end HeaderRelay
