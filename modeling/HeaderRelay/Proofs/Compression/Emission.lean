import HeaderRelay.Proofs.Compression.Omission
import HeaderRelay.Proofs.Wire.Output

/-!
# Records behind an output

The writer of a record decides field by field what it puts behind the output, and finds the length
from where the output ends before and after. What comes out is the record of the header as a whole,
in the context that the table's movement leads to.

* `bitfieldFor_eq` — the first byte is the one of the record;
* `appends_emitFields` — field by field, the bytes are those of the record;
* `appends_emit` — what a header's record adds to any output, and what the writer gives back.
-/

namespace HeaderRelay
namespace Codec

open Emitter

theorem bitfieldFor_eq (ctx : Context) (header : BlockHeader) :
    bitfieldFor ctx header = (ctx.compress false header).1.bitfield := by
  have hpresent : ∀ {α : Type} [DecidableEq α] (a default : α),
      (if a = default then none else some a).isSome = decide (a ≠ default) := by
    intro α _ a default
    rw [Bool.eq_iff_iff, isSome_if_eq, decide_eq_true_iff]
  simp only [bitfieldFor, Context.compress_false, Record.bitfield, Record.against, hpresent]

/-- A selector that is within reach is zero for a version in full and for no other. -/
theorem bytes_referTo {ctx : Context} (hbounded : ctx.IsBounded) (version : Int32) :
    (ctx.referTo version).1.bytes =
      if (ctx.referTo version).1.selector == 0 then Writer.i32 version else [] := by
  simp only [Context.bytes_referTo, ← Context.selector_referTo hbounded, beq_iff_eq, Fin.ext_iff,
    Fin.val_zero]

theorem appends_emitFields {ctx : Context} (hbounded : ctx.IsBounded) (header : BlockHeader) :
    (emitFields (bitfieldFor ctx header)
        (TimeField.since ctx.previous.timestamp header.timestamp) header).Appends ()
      { bytes := (ctx.compress false header).1.bytes } := by
  have hoptional : ∀ {α : Type} [DecidableEq α] (write : α → List UInt8) (a default : α),
      ((if a = default then none else some a).map write).getD [] =
        if decide (a ≠ default) then write a else [] := by
    intro α _ write a default
    simp only [optional_if, decide_eq_true_eq, ite_not]
  -- field by field, the bitfield says of a field that it is there exactly if the record has it
  rw [Record.bytes, ← bitfieldFor_eq, Context.compress_false, Record.against]
  simp only [hoptional, bytes_referTo hbounded]
  exact (appends_put _).andThen ((appends_putWhen _ _).andThen ((appends_putWhen _ _).andThen
    ((appends_put _).andThen ((appends_put _).andThen
      ((appends_putWhen _ _).andThen (appends_put _))))))

theorem appends_emit_first (ctx : Context) (header : BlockHeader) :
    (emit ctx true header).Appends
      (ctx.save header.version, (Record.explicit header).bytes.length)
      { bytes := (Record.explicit header).bytes } := by
  have hbytes : (Record.explicit header).bytes =
      Writer.u8 Bitfield.explicit.toByte ++ (header.bytes ++ []) := by
    rw [Record.bytes_explicit, List.append_nil]
    rfl
  have hrecord : Appends (do
      put (Writer.u8 Bitfield.explicit.toByte)
      header.emit
      return ctx.save header.version) (ctx.save header.version)
        { bytes := (Record.explicit header).bytes } := by
    rw [hbytes]
    exact (appends_put _).andThen (header.appends_emit.andThen (appends_pure _))
  exact hrecord.measured

/-- The writer puts the record of the header behind the output, and gives back the context that the
version table's movement leads to, with the number of bytes that it has put there. -/
theorem appends_emit {ctx : Context} (hbounded : ctx.IsBounded) (first : Bool)
    (header : BlockHeader) :
    (emit ctx first header).Appends
      ((ctx.compress first header).2, (ctx.compress first header).1.bytes.length)
      { bytes := (ctx.compress first header).1.bytes
        events := if first then [] else [(ctx.compress first header).1.encoded] } := by
  cases first with
  | true => exact appends_emit_first ctx header
  | false =>
      -- the report comes behind the last byte, when the length is known
      have hfields := (appends_emitFields hbounded header).measured
      refine hfields.bind ((appends_report _).bind (appends_pure _) rfl) ?_
      simp only [bitfieldFor_eq, Encoded.append, List.append_nil]
      rfl

end Codec
end HeaderRelay
