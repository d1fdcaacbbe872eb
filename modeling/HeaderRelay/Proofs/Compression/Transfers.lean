import HeaderRelay.Proofs.Compression.Emission

/-!
# Headers handed over

One end puts the record of a header behind what it has written so far; the other reads it off what
has arrived. Neither needs to know more of the other than that both started from the same context.

* `Transfer` — a header on its way, with what either end does about it;
* `appends_send`, `receive_record` — what the sender puts, and what the receiver makes of it;
* `InLockstep` — a run of transfers after each of which both ends agree;
* `sender_and_receiver_agree` — all runs are of that kind.
-/

namespace HeaderRelay

/-! ## Transfers -/

/-- A header on its way from one end to the other. -/
structure Transfer where
  header : BlockHeader
  -- the record is to be the first of a batch
  first : Bool
  -- both ends move on afterwards
  advances : Bool

namespace Transfer

/-- The sender's side: the record of the header behind the output. The result is the sender's context
afterwards and the length of the record. Writing depends on no codec; the codecs of the two ends need
not have anything in common. -/
def send (transfer : Transfer) (ctx : Context) : Emitter (Context × Nat) := do
  let (ctx', length) ← Codec.emit ctx transfer.first transfer.header
  return (if transfer.advances then ctx'.advance transfer.header else ctx', length)

/-- The receiver's side: the header off the payload, with the length of its record. -/
def receive (codec : Codec) (transfer : Transfer) : RecordReader (BlockHeader × Nat) := do
  let (header, length) ← codec.decode transfer.first
  if transfer.advances then
    RecordReader.modifyContext (·.advance header)
  return (header, length)

/-- The record that is sent. -/
def record (transfer : Transfer) (ctx : Context) : Record :=
  (ctx.compress transfer.first transfer.header).1

/-- Where a transfer leads either end from `ctx`. -/
def leadsTo (transfer : Transfer) (ctx : Context) : Context :=
  let ctx' := (ctx.compress transfer.first transfer.header).2
  if transfer.advances then ctx'.advance transfer.header else ctx'

theorem isBounded_leadsTo {ctx : Context} (h : ctx.IsBounded) (transfer : Transfer) :
    (transfer.leadsTo ctx).IsBounded := by
  rcases transfer with ⟨header, first, advances⟩
  have hcompress : (ctx.compress first header).2.IsBounded := h.compress first header
  cases advances with
  | true => exact hcompress.advance header
  | false => exact hcompress

/-- The record is put behind any output, and its length is given back. -/
theorem appends_send {ctx : Context} (hbounded : ctx.IsBounded) (transfer : Transfer) :
    (transfer.send ctx).Appends (transfer.leadsTo ctx, (transfer.record ctx).bytes.length)
      { bytes := (transfer.record ctx).bytes
        events := if transfer.first then [] else [(transfer.record ctx).encoded] } := by
  have hemit := Codec.appends_emit hbounded transfer.first transfer.header
  exact hemit.bind (Emitter.appends_pure _) (Encoded.append_empty _)

/-- The header that is sent is received, with the record's length, whatever follows the record;
and the receiver's context ends as the sender's. -/
theorem receive_record {ctx : Context} (hbounded : ctx.IsBounded) (codec : Codec)
    (transfer : Transfer) (tail : List UInt8) (offset : Nat) (log : Array Event) :
    ∃ after, transfer.receive codec
        { reading := { offset, rest := (transfer.record ctx).bytes ++ tail, log }
          context := ctx } =
        .ok (transfer.header, (transfer.record ctx).bytes.length) after ∧
      after.reading.offset = offset + (transfer.record ctx).bytes.length ∧
      after.reading.rest = tail ∧
      after.context = transfer.leadsTo ctx := by
  rcases transfer with ⟨header, first, advances⟩
  rcases ctx.compress_spells hbounded codec.policy first header with ⟨hspells, hafter⟩
  have hread := Codec.decode_form hspells tail offset log
  rw [Record.bytes_form, hafter] at hread
  cases advances with
  | true => exact ⟨_, bind_of_ok hread, rfl, rfl, rfl⟩
  | false => exact ⟨_, bind_of_ok hread, rfl, rfl, rfl⟩

end Transfer

/-! ## Runs -/

/-- Sender and receiver agree now and after each of the transfers. Whatever was written before, the
sender puts one record behind it and gives back its length; whatever was read before and whatever
follows, the receiver reads the header that was sent, gives back the same length, and has moved on by
exactly that many bytes. -/
def InLockstep (codec : Codec) : (sender receiver : Context) → List Transfer → Prop
  | sender, receiver, [] => sender = receiver
  | sender, receiver, transfer :: transfers =>
      sender = receiver ∧
      ∀ (output : Encoded) (tail : List UInt8) (offset : Nat) (log : Array Event),
        ∃ (written : Encoded) (length : Nat) (sender' : Context) (after : Decoding),
          transfer.send sender output = .ok (sender', length) (output.append written) ∧
          written.bytes.length = length ∧
          transfer.receive codec
              { reading := { offset, rest := written.bytes ++ tail, log }, context := receiver } =
            .ok (transfer.header, length) after ∧
          after.reading.offset = offset + length ∧
          after.reading.rest = tail ∧
          InLockstep codec sender' after.context transfers

theorem Context.IsBounded.inLockstep {ctx : Context} (h : ctx.IsBounded) (codec : Codec)
    (transfers : List Transfer) : InLockstep codec ctx ctx transfers := by
  induction transfers generalizing ctx with
  | nil => rfl
  | cons transfer transfers ih =>
      refine ⟨rfl, ?_⟩
      intro output tail offset log
      have hsend := transfer.appends_send h output
      rcases transfer.receive_record h codec tail offset log with
        ⟨after, hreceive, hoffset, hrest, hcontext⟩
      refine ⟨_, _, _, after, hsend, rfl, hreceive, hoffset, hrest, ?_⟩
      -- one transfer leads both ends to the same context, from which the others follow
      rw [hcontext]
      exact ih (transfer.isBounded_leadsTo h)

/-- Two ends that start from the same reachable context stay in lock step, whatever is sent, and
whether or not they move on after it. -/
theorem sender_and_receiver_agree {ctx : Context} (h : ctx.Reachable) (codec : Codec)
    (transfers : List Transfer) : InLockstep codec ctx ctx transfers :=
  h.isBounded.inLockstep codec transfers

/-- The table may hold a version twice, and a batch may begin again on the way. -/
theorem sender_and_receiver_agree_repeated :
    (((Context.fresh fun _ => Hash.zero).save 4).save 4).Reachable ∧
      InLockstep { policy := .strict }
        (((Context.fresh fun _ => Hash.zero).save 4).save 4)
        (((Context.fresh fun _ => Hash.zero).save 4).save 4)
        [⟨⟨4, Hash.zero, Hash.zero, 70000, 1, 2⟩, true, true⟩,
          ⟨⟨5, Hash.zero, Hash.zero, 3, 1, 2⟩, false, false⟩,
          ⟨⟨4, Hash.zero, Hash.zero, 3, 1, 2⟩, true, true⟩] := by
  have h := ((Context.Reachable.fresh fun _ => Hash.zero).save 4).save 4
  exact ⟨h, sender_and_receiver_agree h { policy := .strict } _⟩

end HeaderRelay
