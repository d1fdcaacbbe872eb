import HeaderRelay.Proofs.Wire.Lists

/-!
# Writing piece by piece

A value can be written by putting its pieces behind an output that is already there, and lengths
be found from where the output ends before and after. Nothing then keeps a step from depending on
what was there before; that none does is a property of the steps, and it passes from the pieces to
the whole.

* `Emitter.Appends` — the step puts the same behind every output;
* `appends_put`, `appends_report`, `Appends.bind`, `Appends.measured` — pieces, and pieces in a row;
* `CompactSize.emit`, `Locator.emit`, `HeaderList.emit` — values piece by piece;
* `HeaderList.length_bytes` — a full batch is as long as it was found to be without writing it.
-/

namespace HeaderRelay

/-! ## Steps -/

namespace Encoded

theorem append_assoc (front middle back : Encoded) :
    (front.append middle).append back = front.append (middle.append back) := by
  simp only [append, List.append_assoc]

@[simp] theorem append_empty (encoded : Encoded) : encoded.append {} = encoded := by
  simp only [append, List.append_nil]

end Encoded

namespace Emitter

variable {α β : Type}

/-- The step succeeds behind any output, with the same result, and puts the same there. -/
def Appends (step : Emitter α) (a : α) (encoded : Encoded) : Prop :=
  ∀ output, step output = .ok a (output.append encoded)

theorem appends_pure (a : α) : Appends (pure a) a {} := by
  intro output
  rw [Encoded.append_empty]
  rfl

theorem appends_put (bytes : List UInt8) : Appends (put bytes) () { bytes } :=
  fun _ => rfl

theorem appends_putWhen (present : Bool) (bytes : List UInt8) :
    Appends (putWhen present bytes) () { bytes := if present then bytes else [] } := by
  cases present with
  | true => exact appends_put bytes
  | false => exact appends_pure ()

theorem appends_report (event : Event) : Appends (report event) () { events := [event] } :=
  fun _ => rfl

namespace Appends

theorem bind {step : Emitter α} {next : α → Emitter β} {a : α} {b : β}
    {front back whole : Encoded} (hstep : step.Appends a front) (hnext : (next a).Appends b back)
    (hwhole : front.append back = whole) : Appends (step >>= next) b whole := by
  intro output
  change EStateM.bind step next output = _
  rw [EStateM.bind, hstep output, ← hwhole, ← Encoded.append_assoc]
  exact hnext (output.append front)

/-- What reports nothing adds up byte by byte. -/
theorem andThen {step : Emitter Unit} {next : Emitter β} {b : β} {front back : List UInt8}
    (hstep : step.Appends () { bytes := front }) (hnext : next.Appends b { bytes := back }) :
    Appends (step >>= fun _ => next) b { bytes := front ++ back } :=
  hstep.bind hnext rfl

theorem measured {step : Emitter α} {a : α} {encoded : Encoded} (h : step.Appends a encoded) :
    Appends step.measured (a, encoded.bytes.length) encoded := by
  intro output
  have hlength : (output.append encoded).bytes.length - output.bytes.length =
      encoded.bytes.length := by
    rw [Encoded.append, List.length_append, Nat.add_sub_cancel_left]
  change (EStateM.bind step fun a => _) output = _
  rw [EStateM.bind, h output]
  change EStateM.Result.ok (a, (output.append encoded).bytes.length - output.bytes.length) _ = _
  rw [hlength]

/-- Pieces that are put each behind the one before it. -/
theorem forM {emit : α → Emitter Unit} {bytes : α → List UInt8}
    (h : ∀ a, (emit a).Appends () { bytes := bytes a }) (values : List α) :
    Appends (values.forM emit) () { bytes := values.flatMap bytes } := by
  induction values with
  | nil => exact appends_pure ()
  | cons a values ih =>
      rw [List.flatMap_cons]
      exact (h a).andThen ih

end Appends
end Emitter

/-! ## Values -/

open Emitter

def CompactSize.emit (n : UInt64) : Emitter Unit :=
  if n < 0xFD then
    put (Writer.u8 n.toUInt8)
  else if n ≤ 0xFFFF then do
    put (Writer.u8 0xFD)
    put (Writer.u16 n.toUInt16)
  else if n ≤ 0xFFFFFFFF then do
    put (Writer.u8 0xFE)
    put (Writer.u32 n.toUInt32)
  else do
    put (Writer.u8 0xFF)
    put (Writer.u64 n)

theorem CompactSize.appends_emit (n : UInt64) : (emit n).Appends () { bytes := encode n } := by
  have hmarked : ∀ (marker : UInt8) (bytes : List UInt8),
      Appends (do put (Writer.u8 marker); put bytes) () { bytes := marker :: bytes } :=
    fun marker bytes => (appends_put (Writer.u8 marker)).andThen (appends_put bytes)
  unfold emit encode
  split
  · exact appends_put _
  · split
    · exact hmarked _ _
    · split
      · exact hmarked _ _
      · exact hmarked _ _

theorem BlockHeader.appends_emit (header : BlockHeader) :
    header.emit.Appends () { bytes := header.bytes } := by
  unfold emit bytes
  exact (appends_put _).andThen ((appends_put _).andThen ((appends_put _).andThen
    ((appends_put _).andThen ((appends_put _).andThen (appends_put _)))))

namespace Locator

def emit (locator : Locator) : Emitter Unit := do
  put (Writer.u32 locator.version)
  CompactSize.emit (UInt64.ofNat locator.hashes.length)
  locator.hashes.forM fun hash => put hash.bytes
  put locator.stop.bytes

theorem appends_emit (locator : Locator) :
    locator.emit.Appends () { bytes := locator.bytes } := by
  have hhashes : Appends (locator.hashes.forM fun hash => put hash.bytes) ()
      { bytes := locator.hashes.flatMap Hash.bytes } :=
    .forM (fun hash : Hash => appends_put hash.bytes) _
  unfold emit bytes
  exact (appends_put _).andThen ((CompactSize.appends_emit _).andThen
    (hhashes.andThen (appends_put _)))

end Locator

namespace HeaderList

def emit (headers : List BlockHeader) : Emitter Unit := do
  CompactSize.emit (UInt64.ofNat headers.length)
  headers.forM fun header => do
    header.emit
    CompactSize.emit 0

theorem appends_emit (headers : List BlockHeader) :
    (emit headers).Appends () { bytes := bytes headers } := by
  have hentry : ∀ header : BlockHeader,
      Appends (do header.emit; CompactSize.emit 0) () { bytes := entryBytes header } :=
    fun header => header.appends_emit.andThen (CompactSize.appends_emit 0)
  exact (CompactSize.appends_emit _).andThen (.forM hentry _)

theorem length_entryBytes (header : BlockHeader) :
    (entryBytes header).length = BlockHeader.size + 1 := by
  rw [entryBytes, List.length_append, BlockHeader.length_bytes, CompactSize.length_encode]
  rfl

theorem length_bytes (headers : List BlockHeader) :
    (bytes headers).length = wireLength headers := by
  rw [bytes, wireLength, List.length_append, length_flatMap_of_width length_entryBytes,
    CompactSize.encodeLength, CompactSize.length_encode]

end HeaderList
end HeaderRelay
