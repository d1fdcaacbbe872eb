import HeaderRelay.Compression.Batch
import HeaderRelay.Proofs.Compression.Refusal
import HeaderRelay.Proofs.Wire.CompactForms

/-!
# Records in a row

Each record of a batch is read against the context that the ones before it left behind.

* `Batch.Spells` — forms in a row, the headers that they mean, and the context in which they end;
* `Spells.hasher_last`, `Spells.previous_last` — what reading them leaves behind apart from the table;
* `Batch.runEvents` — what is reported of forms in a row;
* `readRecords_spelled` — as many records are read as there are forms, and what is left to read
  goes on from where they end;
* `spelled_or_refused` — every string of bytes holds the records asked for, or some of them and
  then something that is no record.
-/

namespace HeaderRelay
namespace Batch

/-! ## Forms in a row -/

/-- The forms, read from `ctx` on, mean the headers and lead to the context `last`. Only the first
record of a batch has to be explicit. -/
inductive Spells (policy : ReferencePolicy) :
    (ctx : Context) → (first : Bool) → List RecordForm → List BlockHeader → (last : Context) →
      Prop where
  | nil {ctx : Context} {first : Bool} : Spells policy ctx first [] [] ctx
  | cons {ctx last : Context} {first : Bool} {form : RecordForm} {header : BlockHeader}
      {forms : List RecordForm} {headers : List BlockHeader} :
      form.Spells policy ctx first header →
      Spells policy (form.next ctx header) false forms headers last →
      Spells policy ctx first (form :: forms) (header :: headers) last

/-- The bytes of forms in a row. -/
def formBytes (forms : List RecordForm) : List UInt8 :=
  forms.flatMap RecordForm.bytes

@[simp] theorem formBytes_nil : formBytes [] = [] := rfl

@[simp] theorem formBytes_cons (form : RecordForm) (forms : List RecordForm) :
    formBytes (form :: forms) = form.bytes ++ formBytes forms := rfl

/-- What is reported of forms in a row, of which the first has the number `index` and begins at
`start`. -/
def runEvents : (table : VersionTable) → (index start : Nat) → List RecordForm → List Event
  | _, _, _, [] => []
  | table, index, start, form :: forms =>
      form.events table.length ++ .recordLocated index start form.bytes.length ::
        runEvents (form.tableAfter table) (index + 1) (start + form.bytes.length) forms

namespace Spells

variable {policy : ReferencePolicy} {ctx last : Context} {first : Bool}
  {forms : List RecordForm} {headers : List BlockHeader}

theorem length_eq (h : Spells policy ctx first forms headers last) :
    forms.length = headers.length := by
  induction h with
  | nil => rfl
  | cons _ _ ih => rw [List.length_cons, List.length_cons, ih]

theorem isEmpty_eq (h : Spells policy ctx first forms headers last) :
    forms.isEmpty = headers.isEmpty := by
  cases h with
  | nil => rfl
  | cons _ _ => rfl

theorem hasher_last (h : Spells policy ctx first forms headers last) :
    last.hasher = ctx.hasher := by
  induction h with
  | nil => rfl
  | cons _ _ ih => exact ih

/-- The last header is what is remembered, if there is one. -/
theorem previous_last (h : Spells policy ctx first forms headers last) :
    last.previous = (headers.getLast?.map (.ofHeader ctx.hasher)).getD ctx.previous := by
  induction h with
  | nil => rfl
  | @cons ctx last first form header forms headers _ _ ih =>
      rw [ih, List.getLast?_cons]
      cases headers.getLast? with
      | none => rfl
      | some _ => rfl

end Spells

/-! ## Reading them -/

section Reading

variable {codec : Codec} {count start : Nat} {acc : Array BlockHeader} {s t : Decoding}

theorem readRecords_zero (s : Decoding) :
    readRecords codec 0 start acc s =
      .ok acc.toList { s with reading := s.reading.noting [.batchDecoded acc.size start] } := rfl

theorem readRecords_succ_of_ok {header : BlockHeader} {length : Nat}
    (h : codec.decode acc.isEmpty s = .ok (header, length) t) :
    readRecords codec (count + 1) start acc s =
      readRecords codec count (start + length) (acc.push header)
        { reading := t.reading.noting [.recordLocated acc.size start length]
          context := t.context.advance header } :=
  bind_of_ok h

theorem readRecords_succ_of_error {e : DecodeError} (h : codec.decode acc.isEmpty s = .error e t) :
    readRecords codec (count + 1) start acc s = .error e t :=
  bind_of_error h

end Reading

/-- Forms in a row are read one by one, after which `count` records are left to read. -/
theorem readRecords_spelled {codec : Codec} {ctx last : Context} {first : Bool}
    {forms : List RecordForm} {headers : List BlockHeader}
    (h : Spells codec.policy ctx first forms headers last) (count start : Nat)
    (acc : Array BlockHeader) (hacc : acc.isEmpty = first) (rest : List UInt8) (offset : Nat)
    (log : Array Event) :
    readRecords codec (forms.length + count) start acc
        { reading := { offset, rest := formBytes forms ++ rest, log }, context := ctx } =
      readRecords codec count (start + (formBytes forms).length) (acc ++ headers)
        { reading := {
            offset := offset + (formBytes forms).length
            rest
            log := log ++ runEvents ctx.versions acc.size start forms }
          context := last } := by
  -- on the derivation: each form leaves the context in which the next one is read
  induction h generalizing start acc offset log with
  | nil => simp [runEvents]
  | @cons ctx last first form header forms headers hform _ ih =>
      have hstep := Codec.decode_form hform (formBytes forms ++ rest) offset log
      rw [← hacc] at hstep
      have hcount : (form :: forms).length + count = forms.length + count + 1 := by
        simp only [List.length_cons]
        omega
      have hrest := ih (start + form.bytes.length) (acc.push header) (by simp)
        (offset + form.bytes.length)
        (log ++ form.events ctx.versions.length ++
          [Event.recordLocated acc.size start form.bytes.length])
      rw [formBytes_cons, List.append_assoc, hcount, readRecords_succ_of_ok hstep]
      refine hrest.trans ?_
      simp only [List.length_append, Nat.add_assoc, Array.appendList_cons, Array.appendList_nil,
        runEvents, Array.size_push, log_append]
      rfl

/-- The bytes ahead hold `count` records, or fewer and then something that is refused. -/
theorem spelled_or_refused (policy : ReferencePolicy) (count : Nat) (ctx : Context) (first : Bool)
    (offset : Nat) (ahead : List UInt8) :
    (∃ forms headers last rest, forms.length = count ∧
      Spells policy ctx first forms headers last ∧ ahead = formBytes forms ++ rest) ∨
    (∃ forms headers last rest e, forms.length < count ∧
      Spells policy ctx first forms headers last ∧ ahead = formBytes forms ++ rest ∧
        RecordForm.Refused policy (first && forms.isEmpty) last.versions.length
          (offset + (formBytes forms).length) rest e) := by
  induction count generalizing ctx first offset ahead with
  | zero => exact Or.inl ⟨[], [], ctx, ahead, rfl, .nil, rfl⟩
  | succ count ih =>
      -- one record off the front, or the refusal of it; the rest is for the others
      rcases RecordForm.form_or_refused policy first ctx.versions.length offset ahead with
        ⟨form, rest, hfirst, hfits, rfl⟩ | ⟨e, hrefused⟩
      · rcases hfits.exists_header with ⟨header, hheader⟩
        rcases ih (form.next ctx header) false (offset + form.bytes.length) rest with
          ⟨forms, headers, last, rest, hlength, hspells, rfl⟩ |
            ⟨forms, headers, last, rest, e, hlength, hspells, rfl, hrefused⟩
        · refine Or.inl ⟨form :: forms, header :: headers, last, rest, ?_, ?_, ?_⟩
          · rw [List.length_cons, hlength]
          · exact .cons ⟨hfirst, hfits, hheader⟩ hspells
          · rw [formBytes_cons, List.append_assoc]
        · refine Or.inr ⟨form :: forms, header :: headers, last, rest, e, ?_, ?_, ?_, ?_⟩
          · exact Nat.succ_lt_succ hlength
          · exact .cons ⟨hfirst, hfits, hheader⟩ hspells
          · rw [formBytes_cons, List.append_assoc]
          · simpa [Nat.add_assoc] using hrefused
      · refine Or.inr ⟨[], [], ctx, ahead, e, Nat.zero_lt_succ count, .nil, rfl, ?_⟩
        simpa using hrefused

end Batch
end HeaderRelay
