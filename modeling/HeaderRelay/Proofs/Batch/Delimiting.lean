import HeaderRelay.Proofs.Batch.Grammar
import HeaderRelay.Proofs.Wire.Delimiting

/-!
# Batches know where they end

Which bytes a record has depends on the records before it. The context is no way around the
payload, though: it holds nothing but what was read, so a batch, like any other value, is settled by
the bytes that it consumes.

* `RecordReader.within` — a step against a context as a step that hands the context on;
* `RecordReader.Delimits` — in every context, the step delimits its value;
* `Codec.decode_delimits`, `Batch.readRecords_delimits` — one record, and records in a row;
* `Batch.read_delimits`, `Batch.readPayload_delimits` — a batch, with or without what follows it.
-/

namespace HeaderRelay

/-! ## Steps against a context -/

namespace RecordReader

variable {α β : Type}

/-- The step as one that starts in the given context and returns the context after it. -/
def within (ctx : Context) (step : RecordReader α) : Reader (α × Context) := fun s =>
  match step { reading := s, context := ctx } with
  | .ok a t => .ok (a, t.context) t.reading
  | .error e t => .error e t.reading

/-- The step delimits its value, whatever the context is. -/
def Delimits (step : RecordReader α) : Prop :=
  ∀ ctx : Context, (within ctx step).Delimits

theorem within_bind (ctx : Context) (step : RecordReader α) (next : α → RecordReader β) :
    within ctx (step >>= next) = within ctx step >>= fun (a, ctx') => within ctx' (next a) := by
  funext s
  cases hstep : step { reading := s, context := ctx } with
  | ok a t =>
      have hwithin : within ctx step s = .ok (a, t.context) t.reading := by
        simp only [within, hstep]
      rw [bind_of_ok hwithin]
      simp only [within, bind_of_ok hstep]
  | error e t =>
      have hwithin : within ctx step s = .error e t.reading := by
        simp only [within, hstep]
      rw [bind_of_error hwithin]
      simp only [within, bind_of_error hstep]

theorem within_ofReader (ctx : Context) (step : Reader α) :
    within ctx (ofReader step) = step >>= fun a => pure (a, ctx) := by
  funext s
  cases hstep : step s with
  | ok a t =>
      rw [bind_of_ok hstep]
      simp only [within, ofReader, hstep]
      rfl
  | error e t =>
      rw [bind_of_error hstep]
      simp only [within, ofReader, hstep]

namespace Delimits

theorem bind {step : RecordReader α} {next : α → RecordReader β} (hstep : step.Delimits)
    (hnext : ∀ a, (next a).Delimits) : Delimits (step >>= next) := by
  intro ctx
  rw [within_bind]
  apply (hstep ctx).bind
  rintro ⟨a, ctx'⟩
  exact hnext a ctx'

theorem ofReader {step : Reader α} (hstep : step.Delimits) : Delimits (ofReader step) := by
  intro ctx
  rw [within_ofReader]
  exact hstep.map fun a => (a, ctx)

/-- A step that consumes nothing, and whose value and context do not depend on the payload. -/
theorem of_reporting {step : RecordReader α} (value : Context → α) (after : Context → Context)
    (h : ∀ s : Decoding, ∃ log : Array Event, step s =
      .ok (value s.context)
        { reading := { s.reading with log }, context := after s.context }) : step.Delimits := by
  intro ctx
  refine Reader.Delimits.of_reporting (value ctx, after ctx) fun s => ?_
  rcases h { reading := s, context := ctx } with ⟨log, hstep⟩
  refine ⟨log, ?_⟩
  simp only [within, hstep]

theorem pure (a : α) : Delimits (Pure.pure a) :=
  of_reporting (fun _ => a) id fun s => ⟨s.reading.log, rfl⟩

theorem throw {e : DecodeError} (he : ¬ e.IsTruncation) :
    Delimits (MonadExcept.throw e : RecordReader α) :=
  fun _ => Reader.Delimits.throw he

theorem report (event : Event) : Delimits (report event) :=
  of_reporting (fun _ => ()) id fun s => ⟨s.reading.log.push event, rfl⟩

theorem getContext : Delimits getContext :=
  of_reporting id id fun s => ⟨s.reading.log, rfl⟩

theorem modifyContext (f : Context → Context) : Delimits (modifyContext f) :=
  of_reporting (fun _ => ()) f fun s => ⟨s.reading.log, rfl⟩

/-- Where a step stands is settled by the bytes in front of it. -/
theorem offset : Delimits offset := by
  intro ctx
  refine ⟨?_, ?_, ?_⟩
  · intro s t a h
    cases h
    exact ⟨[], rfl, rfl, fun rest log => ⟨log, rfl⟩⟩
  · intro s t e h
    cases h
  · intro s t field start needed available h
    cases h

end Delimits
end RecordReader

/-! ## Records -/

namespace Codec

open RecordReader (Delimits)

theorem readLiteralVersion_delimits : readLiteralVersion.Delimits := by
  unfold readLiteralVersion
  refine (Delimits.ofReader (Reader.i32_delimits "version")).bind fun version => ?_
  exact (Delimits.modifyContext _).bind fun _ => Delimits.pure version

/-- What the table holds was read before, so that an entry costs no bytes, and a missing one those of
a version. -/
theorem readVersionEntry_delimits (policy : ReferencePolicy) (index : Nat) :
    (readVersionEntry policy index).Delimits := by
  unfold readVersionEntry
  refine Delimits.getContext.bind fun ctx => ?_
  dsimp only
  cases ctx.versions[index]? with
  | some version => exact (Delimits.modifyContext _).bind fun _ => Delimits.pure version
  | none =>
      cases policy with
      | strict => exact Delimits.throw not_false
      | lenient => exact (Delimits.report _).bind fun _ => readLiteralVersion_delimits

theorem readVersion_delimits (policy : ReferencePolicy) (bitfield : Bitfield) :
    (readVersion policy bitfield).Delimits := by
  unfold readVersion
  split
  · exact readLiteralVersion_delimits
  · exact readVersionEntry_delimits policy _

theorem readTimestamp_delimits (full : Bool) (previous : UInt32) :
    (readTimestamp full previous).Delimits := by
  cases full with
  | true => exact Reader.u32_delimits "timestamp"
  | false => exact (Reader.i16_delimits "timestamp offset").map _

theorem readFields_delimits (bitfield : Bitfield) (previous : Snapshot) (version : Int32) :
    (readFields bitfield previous version).Delimits := by
  rw [readFields_eq]
  refine (Reader.Delimits.optional (Reader.hash_delimits "prev_block") _).bind fun prevBlock => ?_
  refine (Reader.hash_delimits "merkle_root").bind fun merkleRoot => ?_
  refine (readTimestamp_delimits _ _).bind fun timestamp => ?_
  refine (Reader.Delimits.optional (Reader.u32_delimits "bits") _).bind fun bits => ?_
  exact (Reader.u32_delimits "nonce").map _

theorem readBody_delimits (policy : ReferencePolicy) (bitfield : Bitfield) :
    (readBody policy bitfield).Delimits := by
  unfold readBody
  refine (readVersion_delimits policy bitfield).bind fun version => ?_
  refine Delimits.getContext.bind fun ctx => ?_
  exact Delimits.ofReader (readFields_delimits bitfield ctx.previous version)

theorem finish_delimits (policy : ReferencePolicy) (start : Nat) (bitfield : Bitfield) :
    (finish policy start bitfield).Delimits := by
  unfold finish
  refine (readBody_delimits policy bitfield).bind fun header => ?_
  refine Delimits.offset.bind fun stop => ?_
  exact (Delimits.report _).bind fun _ => Delimits.pure (header, stop - start)

theorem decode_delimits (codec : Codec) (first : Bool) : (codec.decode first).Delimits := by
  unfold decode
  refine Delimits.offset.bind fun start => ?_
  refine (Delimits.ofReader (Reader.u8_delimits "bitfield")).bind fun lead => ?_
  dsimp only
  split
  · exact Delimits.throw not_false
  · exact finish_delimits codec.policy start (.ofByte lead)

end Codec

/-! ## Batches -/

namespace Batch

open RecordReader (Delimits)

theorem readRecords_delimits (codec : Codec) (count start : Nat) (acc : Array BlockHeader) :
    (readRecords codec count start acc).Delimits := by
  induction count generalizing start acc with
  | zero => exact (Delimits.report _).bind fun _ => Delimits.pure _
  | succ count ih =>
      refine (codec.decode_delimits acc.isEmpty).bind fun (header, length) => ?_
      refine (Delimits.report _).bind fun _ => ?_
      refine (Delimits.modifyContext _).bind fun _ => ?_
      exact ih (start + length) (acc.push header)

theorem read_delimits (codec : Codec) : (read codec).Delimits := by
  unfold read
  refine (Delimits.ofReader CompactSize.read_delimits).bind fun count => ?_
  split
  · exact Delimits.throw not_false
  · refine (Delimits.modifyContext _).bind fun _ => ?_
    refine Delimits.offset.bind fun start => ?_
    exact readRecords_delimits codec count.toNat start #[]

/-- What follows a batch is reported, and makes no other difference. -/
theorem readPayload_delimits (codec : Codec) : (readPayload codec).Delimits := by
  unfold readPayload
  refine (read_delimits codec).bind fun headers => ?_
  refine Delimits.of_reporting (fun _ => headers) id fun s => ?_
  rw [bind_of_ok (RecordReader.get_apply s)]
  split
  · exact ⟨s.reading.log, rfl⟩
  · exact ⟨s.reading.log.push _, rfl⟩

theorem withFresh_delimits {α : Type} (codec : Codec) {step : RecordReader α}
    (hstep : step.Delimits) : (withFresh codec step).Delimits := by
  have hwithin : withFresh codec step =
      RecordReader.within codec.context step >>= fun (a, _) => pure a := by
    funext s
    cases hread : step { reading := s, context := codec.context } with
    | ok a t => simp only [withFresh, RecordReader.within, hread, bind, EStateM.bind]; rfl
    | error e t => simp only [withFresh, RecordReader.within, hread, bind, EStateM.bind]
  rw [hwithin]
  exact (hstep codec.context).map Prod.fst

end Batch
end HeaderRelay
