import HeaderRelay.Proofs.Batch.Residue
import HeaderRelay.Proofs.Compression.Emission

/-!
# Tables within reach of selectors

A selector has three bits, and zero names no place of the version table. That leaves seven places,
and nothing that is done with a context makes its table longer, not even the reading of a payload
that is refused halfway.

* `VersionTable.save_eq`, `VersionTable.exists_split_of_lt` — the two movements, entry by entry;
* `Context.Use`, `Context.use` — what may be done with a context, and what becomes of it;
* `Reachable.use` — nothing leads out of the reachable contexts;
* `Record.length_bytes` — a record is as long as its first byte says;
* `table_fits_selectors` — the table after any uses, and the records written with it.
-/

namespace HeaderRelay

/-! ## Movements of the table -/

namespace VersionTable

/-- A version enters in front of the others, and the last one leaves a full table. -/
theorem save_eq {table : VersionTable} (h : table.length ≤ capacity) (version : Int32) :
    table.save version =
      version :: if table.length = capacity then table.dropLast else table := by
  have hsave : table.save version = version :: table.take 6 := rfl
  rw [hsave]
  -- seven entries lose their last one; fewer are all kept
  by_cases hfull : table.length = capacity
  · rw [if_pos hfull, List.dropLast_eq_take, hfull]
    rfl
  · rw [if_neg hfull, List.take_of_length_le (Nat.le_of_lt_succ (Nat.lt_of_le_of_ne h hfull))]

/-- The entry at a place comes to the front, and the others stay in order. -/
theorem exists_split_of_lt {table : VersionTable} {index : Nat} (h : index < table.length) :
    ∃ front version back, table = front ++ version :: back ∧ front.length = index ∧
      table.mark index = version :: (front ++ back) := by
  have hentry : table[index]? = some table[index] := List.getElem?_eq_getElem h
  refine ⟨table.take index, table[index], table.drop (index + 1), ?_, ?_, ?_⟩
  · rw [List.getElem_cons_drop, List.take_append_drop]
  · exact List.length_take_of_le (Nat.le_of_lt h)
  · simp only [mark, hentry]
    rw [List.eraseIdx_eq_take_drop_succ]

theorem mark_of_length_le {table : VersionTable} {index : Nat} (h : table.length ≤ index) :
    table.mark index = table := by
  have hnone : table[index]? = none := List.getElem?_eq_none h
  simp only [mark, hnone]

theorem perm_mark (table : VersionTable) (index : Nat) : (table.mark index).Perm table := by
  by_cases h : index < table.length
  · rcases exists_split_of_lt h with ⟨front, version, back, htable, _, hmark⟩
    rw [hmark, htable]
    exact List.perm_middle.symm
  · rw [mark_of_length_le (Nat.not_lt.1 h)]

end VersionTable

/-! ## Uses of a context -/

namespace Context

/-- Something that is done with a context. -/
inductive Use where
  | save (version : Int32)
  | mark (index : Nat)
  | advance (header : BlockHeader)
  | reset
  -- a header is written behind what is already there
  | encode (first : Bool) (header : BlockHeader) (output : Encoded)
  -- a record is read, or refused
  | decode (codec : Codec) (first : Bool) (reading : Reading)
  -- a whole payload is read, or refused
  | decodeIn (codec : Codec) (payload : List UInt8)

/-- The context that the writer gives back, if it gives one back. -/
def behindWriting (ctx : Context) : EStateM.Result EncodeError Encoded (Context × Nat) → Context
  | .ok written _ => written.1
  | .error _ _ => ctx

/-- The context in which reading ends, whether or not it succeeds. -/
def behindReading {α : Type} : EStateM.Result DecodeError Decoding α → Context
  | .ok _ s => s.context
  | .error _ s => s.context

def use (ctx : Context) : Use → Context
  | .save version => ctx.save version
  | .mark index => ctx.mark index
  | .advance header => ctx.advance header
  | .reset => ctx.reset
  | .encode first header output => behindWriting ctx (Codec.emit ctx first header output)
  | .decode codec first reading => behindReading (codec.decode first { reading, context := ctx })
  | .decodeIn codec payload => behindReading (Batch.decodeIn codec ctx payload)

namespace Reachable

variable {ctx last : Context} {policy : ReferencePolicy} {codec : Codec}

theorem compress (h : ctx.Reachable) (first : Bool) (header : BlockHeader) :
    (ctx.compress first header).2.Reachable := by
  rcases ctx.compress_cases first header with ⟨_, hsave⟩ | ⟨index, _, hmark, _⟩
  · rw [hsave]
    exact h.save header.version
  · rw [hmark]
    exact h.mark index

theorem behindEmit (h : ctx.Reachable) (first : Bool) (header : BlockHeader) (output : Encoded) :
    (behindWriting ctx (Codec.emit ctx first header output)).Reachable := by
  rw [Codec.appends_emit h.isBounded first header output]
  exact h.compress first header

/-- To read a record is to save its version, or to mark it. -/
theorem after (h : ctx.Reachable) (form : RecordForm) : (form.after ctx).Reachable := by
  cases hversion : form.version with
  | some version =>
      rw [RecordForm.after_eq_save hversion]
      exact h.save version
  | none =>
      rw [RecordForm.after_eq_mark hversion]
      exact h.mark form.bitfield.index

theorem spells (h : ctx.Reachable) {first : Bool} {forms : List RecordForm}
    {headers : List BlockHeader} (hspells : Batch.Spells policy ctx first forms headers last) :
    last.Reachable := by
  induction hspells with
  | nil => exact h
  | @cons ctx last first form header forms headers _ _ ih =>
      exact ih ((h.after form).advance header)

theorem usesVersion (h : ctx.Reachable) {bitfield : Bitfield} {body : List UInt8}
    (huses : Codec.UsesVersion policy bitfield ctx body last) : last.Reachable := by
  cases huses with
  | saved _ => exact h.save _
  | marked _ _ => exact h.mark _

theorem behindDecode {s : Decoding} (h : s.context.Reachable) (codec : Codec) (first : Bool) :
    (behindReading (codec.decode first s)).Reachable := by
  cases hread : codec.decode first s with
  | ok result t =>
      rcases Codec.exists_form_of_decode hread with ⟨form, _, hcontext⟩
      show t.context.Reachable
      rw [hcontext]
      exact h.after form
  | error e t =>
      -- a refused record has used its version, or nothing
      rcases Codec.decode_error_cases hread with ⟨_, hcontext⟩ | ⟨_, _, _, _, huses⟩
      · show t.context.Reachable
        rw [hcontext]
        exact h
      · exact h.usesVersion huses

theorem behindDecodeIn (h : ctx.Reachable) (codec : Codec) (payload : List UInt8) :
    (behindReading (Batch.decodeIn codec ctx payload)).Reachable := by
  have hfresh : codec.context.Reachable := .fresh codec.hasher
  cases hread : Batch.decodeIn codec ctx payload with
  | ok headers t =>
      -- a batch is read in a fresh context, whatever was there before
      rcases Batch.exists_parse_of_decodeIn hread with ⟨parse, last, rfl, haccepts⟩
      show t.context.Reachable
      rw [haccepts.context_eq hread]
      exact hfresh.spells haccepts.spells
  | error e t =>
      rcases Batch.exists_reaches_of_error hread with ⟨_, hcontext⟩ | ⟨headers, s, hreaches, herror⟩
      · show t.context.Reachable
        rw [hcontext]
        exact h
      · -- the records in front of the refused one start from a fresh context
        have hreached : s.context.Reachable := by
          cases hreaches with
          | behind _ _ _ hspells => exact hfresh.spells hspells
        have hbehind := hreached.behindDecode codec headers.isEmpty
        rw [herror] at hbehind
        exact hbehind

/-- The operations on contexts are enough for everything else that is done with them. -/
theorem use (h : ctx.Reachable) : ∀ use : Use, (ctx.use use).Reachable
  | .save version => h.save version
  | .mark index => h.mark index
  | .advance header => h.advance header
  | .reset => h.reset
  | .encode first header output => h.behindEmit first header output
  | .decode codec first reading => behindDecode (s := { reading, context := ctx }) h codec first
  | .decodeIn codec payload => h.behindDecodeIn codec payload

theorem foldl_use (h : ctx.Reachable) (uses : List Use) : (uses.foldl Context.use ctx).Reachable := by
  induction uses generalizing ctx with
  | nil => exact h
  | cons use uses ih => exact ih (h.use use)

end Reachable
end Context

/-! ## Records within reach -/

namespace Bitfield

theorem recordLength_bounds (bitfield : Bitfield) :
    39 ≤ bitfield.recordLength ∧ bitfield.recordLength ≤ 81 := by
  unfold recordLength
  cases bitfield.hasLiteralVersion <;> cases bitfield.hasPrevBlock <;>
    cases bitfield.hasFullTimestamp <;> cases bitfield.hasBits <;> decide

end Bitfield

/-- A record is as long as its first byte says, unless its selector was cut down to three bits. -/
theorem Record.length_bytes {record : Record}
    (h : ∀ index, record.version = .entry index → index < VersionTable.capacity) :
    record.bytes.length = record.bitfield.recordLength := by
  -- only the version needs the bound: a selector that wraps around to zero announces a version
  have hversion : record.bitfield.hasLiteralVersion = record.form.version.isSome := by
    rw [Bitfield.hasLiteralVersion_eq]
    cases hfield : record.version with
    | literal version => simp [bitfield, form, hfield, VersionField.literal?, VersionField.selector]
    | entry index =>
        have hselector : record.bitfield.selector.val = index + 1 := by
          simp only [bitfield, hfield]
          exact VersionField.selector_entry (h index hfield)
        simp [hselector, form, hfield, VersionField.literal?]
  have hprevBlock : record.bitfield.hasPrevBlock = record.form.prevBlock.isSome := rfl
  have htime : record.bitfield.hasFullTimestamp = record.form.time.isFull := rfl
  have hbits : record.bitfield.hasBits = record.form.bits.isSome := rfl
  rw [← bytes_form, RecordForm.length_bytes, TimeField.length_bytes, Bitfield.recordLength,
    hversion, hprevBlock, htime, hbits]
  omega

namespace Context

/-- A place that is written is one of the table, and holds the version that it stands for. -/
theorem entry_of_version_compress {ctx : Context} {first : Bool} {header : BlockHeader}
    {index : Nat} (h : (ctx.compress first header).1.version = .entry index) :
    ctx.versions[index]? = some header.version := by
  rcases ctx.compress_cases first header with ⟨hliteral, _⟩ | ⟨place, hplace, _, hentry⟩
  · cases h.symm.trans hliteral
  · cases h.symm.trans hplace
    exact hentry

theorem lt_capacity_of_version_compress {ctx : Context} (hbounded : ctx.IsBounded) {first : Bool}
    {header : BlockHeader} {index : Nat}
    (h : (ctx.compress first header).1.version = .entry index) :
    index < VersionTable.capacity :=
  Nat.lt_of_lt_of_le (List.getElem?_eq_some_iff.1 (entry_of_version_compress h)).1 hbounded

/-- So it fits into the selector. -/
theorem selector_of_version_compress {ctx : Context} (hbounded : ctx.IsBounded) {first : Bool}
    {header : BlockHeader} {index : Nat}
    (h : (ctx.compress first header).1.version = .entry index) :
    (ctx.compress first header).1.bitfield.selector.val = index + 1 := by
  have hselector : (ctx.compress first header).1.bitfield.selector =
      (ctx.compress first header).1.version.selector := rfl
  rw [hselector, h]
  exact VersionField.selector_entry (lt_capacity_of_version_compress hbounded h)

theorem length_compress {ctx : Context} (hbounded : ctx.IsBounded) (first : Bool)
    (header : BlockHeader) :
    (ctx.compress first header).1.bytes.length =
      (ctx.compress first header).1.bitfield.recordLength :=
  Record.length_bytes fun _ h => lt_capacity_of_version_compress hbounded h

/-- Whatever was done with a context, its table has at most seven entries; saving and marking are
the movements that they are meant to be; and of any header a whole record is put behind any output,
whose selector is the place looked up plus one. The length that the writer gives back is that of the
record, and the one that its first byte announces. -/
theorem table_fits_selectors (hasher : Hasher) (uses : List Use) :
    let ctx := uses.foldl use (fresh hasher)
    ctx.versions.length ≤ 7 ∧
    (∀ version, (ctx.save version).versions =
      version :: if ctx.versions.length = 7 then ctx.versions.dropLast else ctx.versions) ∧
    (∀ index, index < ctx.versions.length →
      (ctx.mark index).versions.Perm ctx.versions ∧
      ∃ front version back, ctx.versions = front ++ version :: back ∧ front.length = index ∧
        (ctx.mark index).versions = version :: (front ++ back)) ∧
    (∀ index, ctx.versions.length ≤ index → ctx.mark index = ctx) ∧
    ∀ (first : Bool) (header : BlockHeader),
      (∀ index, (ctx.compress first header).1.version = .entry index →
        ctx.versions[index]? = some header.version ∧ index + 1 ≤ 7 ∧
          (ctx.compress first header).1.bitfield.selector.val = index + 1) ∧
      ∃ (lead : UInt8) (body : List UInt8) (length : Nat),
        (∀ output : Encoded, Codec.emit ctx first header output =
          .ok ((ctx.compress first header).2, length) {
            bytes := output.bytes ++ lead :: body
            events := output.events ++ if first then [] else [.recordEncoded lead length] }) ∧
        length = (lead :: body).length ∧ length = (Bitfield.ofByte lead).recordLength ∧
        39 ≤ length ∧ length ≤ 81 ∧
        Bitfield.ofByte lead = (ctx.compress first header).1.bitfield ∧ lead &&& 0xC0 = 0 := by
  intro ctx
  have hbounded : ctx.IsBounded := ((Reachable.fresh hasher).foldl_use uses).isBounded
  refine ⟨hbounded, VersionTable.save_eq hbounded, ?_, ?_, ?_⟩
  · intro index hindex
    exact ⟨VersionTable.perm_mark ctx.versions index, VersionTable.exists_split_of_lt hindex⟩
  · intro index hindex
    exact congrArg (fun versions => { ctx with versions }) (VersionTable.mark_of_length_le hindex)
  · intro first header
    -- what is put behind the output is the record, which begins with the byte of its bitfield
    have hemit := Codec.appends_emit hbounded first header
    refine ⟨?_, (ctx.compress first header).1.bitfield.toByte,
      (ctx.compress first header).1.bytes.tail, _, hemit, rfl, ?_⟩
    · intro index h
      exact ⟨entry_of_version_compress h, lt_capacity_of_version_compress hbounded h,
        selector_of_version_compress hbounded h⟩
    · -- the first byte means the bitfield that it is written for, and so announces the length
      have hlead := (Bitfield.eq_toByte_iff _ (ctx.compress first header).1.bitfield).1 rfl
      have hlength := length_compress hbounded first header
      rcases Bitfield.recordLength_bounds (ctx.compress first header).1.bitfield with ⟨hmin, hmax⟩
      rw [← hlength] at hmin hmax
      rw [hlead.2]
      exact ⟨hlength, hmin, hmax, rfl, hlead.1⟩

/-- Eight versions and the version of a refused record are more than a table keeps; the last place
takes the largest selector. -/
theorem table_fits_selectors_overflowing :
    let ctx := [Use.save 1, .save 2, .save 3, .save 4, .save 5, .save 6, .save 7, .save 8,
      .decode ⟨.strict, fun _ => Hash.zero⟩ false (.start [0x00, 9, 0, 0, 0, 1]), .mark 3].foldl use
        (fresh fun _ => Hash.zero)
    ctx.versions = [6, 9, 8, 7, 5, 4, 3] ∧
    (ctx.mark 2).versions.Perm ctx.versions ∧ ctx.mark 7 = ctx ∧
    (ctx.compress false ⟨3, Hash.zero, Hash.zero, 7, 1, 2⟩).1.version = .entry 6 ∧
    (ctx.compress false ⟨3, Hash.zero, Hash.zero, 7, 1, 2⟩).1.bitfield.selector.val = 6 + 1 := by
  intro ctx
  have hversions : ctx.versions = [6, 9, 8, 7, 5, 4, 3] := by decide
  have hentry :
      (ctx.compress false ⟨3, Hash.zero, Hash.zero, 7, 1, 2⟩).1.version = .entry 6 := by decide
  rcases table_fits_selectors (fun _ => Hash.zero)
      [.save 1, .save 2, .save 3, .save 4, .save 5, .save 6, .save 7, .save 8,
        .decode ⟨.strict, fun _ => Hash.zero⟩ false (.start [0x00, 9, 0, 0, 0, 1]), .mark 3] with
    ⟨_, _, hmark, hstay, hrecord⟩
  have hlength : ctx.versions.length = 7 := congrArg List.length hversions
  refine ⟨hversions, (hmark 2 ?_).1, hstay 7 (Nat.le_of_eq hlength), hentry,
    ((hrecord false _).1 6 hentry).2.2⟩
  exact Nat.lt_of_lt_of_eq (by decide) hlength.symm

end Context
end HeaderRelay
