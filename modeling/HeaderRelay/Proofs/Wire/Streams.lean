import HeaderRelay.Proofs.Batch.RoundTrip
import HeaderRelay.Proofs.Wire.Lists
import HeaderRelay.Wire.Layout

/-!
# Values in a row

Values of any shapes are written one behind the other and read back from one payload, each from
where the one before it ended. A structure is the pair of its first field and of the others, so its
fields go out and come back in the order of their declaration.

* `Reader.Restores` — a step turns a string of bytes into a value and may report on the way;
* `Layout.Fits` — the values that every reader lets through;
* `Layout.exists_restores` — such a value has a written form, and it is what is read from it;
* `Item`, `writeItems`, `readItems` — values with their shapes, written and read in a row;
* `items_are_read_back` — what was written in a row is read back, place by place.
-/

namespace HeaderRelay

/-! ## Reading back with a report -/

namespace Reader

variable {α β : Type}

/-- The step turns `bytes` into `a`, whatever comes before or after them, whatever it reports. -/
def Restores (step : Reader α) (bytes : List UInt8) (a : α) : Prop :=
  ∀ (rest : List UInt8) (offset : Nat) (log : Array Event), ∃ log' : Array Event,
    step { offset, rest := bytes ++ rest, log } =
      .ok a { offset := offset + bytes.length, rest, log := log' }

theorem Yields.restores {step : Reader α} {bytes : List UInt8} {a : α}
    (h : step.Yields bytes a) : step.Restores bytes a :=
  fun rest offset log => ⟨log, h rest offset log⟩

namespace Restores

theorem bind {step : Reader α} {next : α → Reader β} {front back : List UInt8} {a : α} {b : β}
    (hstep : step.Restores front a) (hnext : (next a).Restores back b) :
    Restores (step >>= next) (front ++ back) b := by
  intro rest offset log
  rcases hstep (back ++ rest) offset log with ⟨log₁, hfirst⟩
  rcases hnext rest (offset + front.length) log₁ with ⟨log₂, hsecond⟩
  refine ⟨log₂, ?_⟩
  rw [List.append_assoc, bind_of_ok hfirst, hsecond, List.length_append, Nat.add_assoc]

theorem map {step : Reader α} {bytes : List UInt8} {a : α} (hstep : step.Restores bytes a)
    (f : α → β) : Restores (step >>= fun x => Pure.pure (f x)) bytes (f a) := by
  have h : Restores (step >>= fun x => Pure.pure (f x)) (bytes ++ []) (f a) :=
    hstep.bind (Yields.pure (f a)).restores
  rwa [List.append_nil] at h

end Restores

/-- Elements that are restored one by one are restored in a row. -/
theorem exists_times_restores {ε : Type} {element : Reader α} {write : α → Except ε (List UInt8)}
    (values : List α)
    (h : ∀ a ∈ values, ∃ bytes, write a = .ok bytes ∧ element.Restores bytes a) :
    ∃ parts, values.mapM write = .ok parts ∧
      (times values.length element).Restores parts.flatten values := by
  induction values with
  | nil => exact ⟨[], rfl, (Yields.pure []).restores⟩
  | cons a values ih =>
      rcases h a List.mem_cons_self with ⟨bytes, hwrite, hread⟩
      rcases ih fun b hb => h b (List.mem_cons_of_mem a hb) with ⟨parts, hwrites, hreads⟩
      refine ⟨bytes :: parts, ?_, ?_⟩
      · rw [List.mapM_cons, hwrite, hwrites]
        rfl
      · rw [List.length_cons, times_succ, List.flatten_cons]
        exact hread.bind (hreads.map (a :: ·))

end Reader

/-! ## The relay's own structures -/

theorem Services.read_yields (services : Services) : read.Yields services.bytes services :=
  (Reader.u64_yields "services" services.bits).map

theorem Batch.exists_encode_restores (codec : Codec) {headers : List BlockHeader}
    (hbound : headers.length ≤ maxHeaders) :
    ∃ encoded, encode codec headers = .ok encoded ∧
      (withFresh codec (read codec)).Restores encoded.bytes headers := by
  rcases encode_of_length_le hbound codec with ⟨encoded, hencode, hbytes⟩
  refine ⟨encoded, hencode, ?_⟩
  intro rest offset log
  have hread := read_accepted (written_accepts codec codec rfl hbound rest) offset log codec.context
  rw [bytes_written, length_written, ← hbytes] at hread
  exact ⟨_, by simp only [withFresh, hread]; rfl⟩

/-! ## Values of a shape -/

namespace Layout

/-- The value is one that its reader lets through: headers are no more than one batch may carry, and
the length of a list is a number of 64 bits, as it is for every list in memory. -/
def Fits : (layout : Layout) → layout.Value → Prop
  | u8, _ => True
  | u16, _ => True
  | i16, _ => True
  | u32, _ => True
  | i32, _ => True
  | u64, _ => True
  | hash, _ => True
  | compactSize, _ => True
  | services, _ => True
  | header, _ => True
  | locator, (l : Locator) => l.hashes.length < UInt64.size
  | headerList, (hs : List BlockHeader) => hs.length ≤ HeaderList.maxHeaders
  | batch, (hs : List BlockHeader) => hs.length ≤ Batch.maxHeaders
  | unit, _ => True
  | pair first second, (a, b) => first.Fits a ∧ second.Fits b
  | counted element, (xs : List element.Value) =>
      xs.length < UInt64.size ∧ ∀ x ∈ xs, element.Fits x

/-- A value that fits has a written form, and it is what is read from that form. -/
theorem exists_restores {layout : Layout} {value : layout.Value} (h : layout.Fits value) :
    ∃ bytes, layout.write value = .ok bytes ∧ layout.read.Restores bytes value := by
  induction layout with
  | u8 => exact ⟨_, rfl, (Reader.u8_yields "u8" value).restores⟩
  | u16 => exact ⟨_, rfl, (Reader.u16_yields "u16" value).restores⟩
  | i16 => exact ⟨_, rfl, (Reader.i16_yields "i16" value).restores⟩
  | u32 => exact ⟨_, rfl, (Reader.u32_yields "u32" value).restores⟩
  | i32 => exact ⟨_, rfl, (Reader.i32_yields "i32" value).restores⟩
  | u64 => exact ⟨_, rfl, (Reader.u64_yields "u64" value).restores⟩
  | hash => exact ⟨_, rfl, (Reader.hash_yields "hash" value).restores⟩
  | compactSize => exact ⟨_, rfl, (CompactSize.read_form (CompactSize.form_encode value)).restores⟩
  | services => exact ⟨_, rfl, (Services.read_yields value).restores⟩
  | header => exact ⟨_, rfl, (BlockHeader.read_yields value).restores⟩
  | locator => exact ⟨_, rfl, (Locator.read_yields h).restores⟩
  | headerList => exact ⟨_, rfl, (HeaderList.read_yields h).restores⟩
  | batch =>
      rcases Batch.exists_encode_restores {} h with ⟨encoded, hencode, hread⟩
      exact ⟨encoded.bytes, congrArg (Except.map Encoded.bytes) hencode, hread⟩
  | unit => exact ⟨_, rfl, (Reader.Yields.pure ()).restores⟩
  | pair first second ihFirst ihSecond =>
      rcases value with ⟨a, b⟩
      rcases h with ⟨hfirst, hsecond⟩
      rcases ihFirst hfirst with ⟨front, hfront, hreadFront⟩
      rcases ihSecond hsecond with ⟨back, hback, hreadBack⟩
      refine ⟨front ++ back, ?_, hreadFront.bind (hreadBack.map (a, ·))⟩
      rw [write, hfront, hback]
      rfl
  | counted element ih =>
      rcases h with ⟨hlength, helements⟩
      rcases CompactSize.read_yields_length hlength with ⟨count, hcount, hsize⟩
      rcases Reader.exists_times_restores value fun a ha => ih (helements a ha) with
        ⟨parts, hparts, hreads⟩
      rw [← hcount] at hreads
      refine ⟨CompactSize.encodeLength value ++ parts.flatten, ?_, hsize.restores.bind hreads⟩
      show (List.mapM element.write value >>= fun parts => _) = _
      rw [hparts]
      rfl

end Layout

/-! ## Values in a row -/

/-- A value with its shape. -/
structure Item where
  layout : Layout
  value : layout.Value

def Item.Fits (item : Item) : Prop :=
  item.layout.Fits item.value

/-- Writes the items one behind the other, and gives the whole output with its length after each
item. -/
def writeItems : List Item → (output : List UInt8) → Except EncodeError (List UInt8 × List Nat)
  | [], output => return (output, [])
  | item :: items, output => do
      let bytes ← item.layout.write item.value
      let (whole, ends) ← writeItems items (output ++ bytes)
      return (whole, (output ++ bytes).length :: ends)

/-- Reads a value of each shape in turn, and gives the items with the offset after each. -/
def readItems : List Layout → Reader (List Item × List Nat)
  | [] => return ([], [])
  | layout :: layouts => do
      let value ← layout.read
      let offset := (← get).offset
      let (items, ends) ← readItems layouts
      return (⟨layout, value⟩ :: items, offset :: ends)

theorem readItems_cons_of_ok {layout : Layout} {value : layout.Value} {layouts : List Layout}
    {items : List Item} {ends : List Nat} {s t u : Reading} (hvalue : layout.read s = .ok value t)
    (hitems : readItems layouts t = .ok (items, ends) u) :
    readItems (layout :: layouts) s = .ok (⟨layout, value⟩ :: items, t.offset :: ends) u := by
  refine (bind_of_ok hvalue).trans ?_
  exact bind_of_ok hitems

/-- Whatever the output holds already, what is put behind it is read back from there. -/
theorem exists_writeItems (items : List Item) (h : ∀ item ∈ items, item.Fits)
    (output : List UInt8) :
    ∃ bytes ends, writeItems items output = .ok (output ++ bytes, ends) ∧
      ∀ (rest : List UInt8) (log : Array Event), ∃ log' : Array Event,
        readItems (items.map Item.layout) { offset := output.length, rest := bytes ++ rest, log } =
          .ok (items, ends) { offset := (output ++ bytes).length, rest, log := log' } := by
  induction items generalizing output with
  | nil =>
      refine ⟨[], [], ?_, ?_⟩
      · rw [List.append_nil]
        rfl
      · intro rest log
        refine ⟨log, ?_⟩
        rw [List.append_nil]
        rfl
  | cons item items ih =>
      rcases item with ⟨layout, value⟩
      rcases Layout.exists_restores (h ⟨layout, value⟩ List.mem_cons_self) with
        ⟨front, hwrite, hread⟩
      -- the others are written behind an output that ends with this one
      rcases ih (fun other hother => h other (List.mem_cons_of_mem _ hother)) (output ++ front) with
        ⟨back, ends, hwrites, hreads⟩
      refine ⟨front ++ back, (output ++ front).length :: ends, ?_, ?_⟩
      · rw [writeItems, hwrite]
        show (writeItems items (output ++ front) >>= fun x => _) = _
        rw [hwrites, ← List.append_assoc]
        rfl
      · intro rest log
        rcases hread (back ++ rest) output.length log with ⟨log₁, hvalue⟩
        rw [← List.length_append] at hvalue
        rcases hreads rest log₁ with ⟨log₂, hitems⟩
        refine ⟨log₂, ?_⟩
        rw [List.map_cons, List.append_assoc, ← List.append_assoc output]
        exact readItems_cons_of_ok hvalue hitems

/-- Values of any shapes, structures and lists of structures among them, can be written one behind
the other, and values of the same shapes read from that output are the same values. After each of
them reading stands where writing stood, and in the end nothing is left. -/
theorem items_are_read_back (items : List Item) (h : ∀ item ∈ items, item.Fits) :
    ∃ output ends log, writeItems items [] = .ok (output, ends) ∧
      readItems (items.map Item.layout) (.start output) =
        .ok (items, ends) { offset := output.length, rest := [], log } := by
  rcases exists_writeItems items h [] with ⟨output, ends, hwrite, hread⟩
  rcases hread [] #[] with ⟨log, hitems⟩
  rw [List.append_nil] at hitems
  exact ⟨output, ends, log, hwrite, hitems⟩

/-- A negative word, a structure with a list of structures that hold lists themselves, a compressed
batch, and headers in full behind it. -/
def mixedItems : List Item :=
  [⟨.i16, (-2 : Int16)⟩,
    ⟨.pair .u16 (.pair (.counted (.pair .u32 (.counted .u8))) .unit),
      ((7 : UInt16), [((1 : UInt32), [(9 : UInt8), (8 : UInt8)]), ((2 : UInt32), [])], ())⟩,
    ⟨.batch, [BlockHeader.mk 4 Hash.zero Hash.zero 7 1 2]⟩,
    ⟨.headerList, [BlockHeader.mk (-1) Hash.zero Hash.zero 7 1 2]⟩]

theorem items_are_read_back_mixed :
    (∀ item ∈ mixedItems, item.Fits) ∧
    ∃ output ends log, writeItems mixedItems [] = .ok (output, ends) ∧
      readItems [.i16, .pair .u16 (.pair (.counted (.pair .u32 (.counted .u8))) .unit), .batch,
          .headerList] (.start output) =
        .ok (mixedItems, ends) { offset := output.length, rest := [], log } := by
  have hfits : ∀ item ∈ mixedItems, item.Fits := by
    intro item hitem
    simp only [mixedItems, List.mem_cons, List.not_mem_nil, or_false] at hitem
    rcases hitem with rfl | rfl | rfl | rfl
    · trivial
    · refine ⟨trivial, ⟨show 2 < UInt64.size by decide, ?_⟩, trivial⟩
      exact List.forall_mem_cons.2 ⟨⟨trivial, show 2 < UInt64.size by decide, fun _ _ => trivial⟩,
        List.forall_mem_singleton.2 ⟨trivial, show 0 < UInt64.size by decide, fun _ _ => trivial⟩⟩
    · exact show 1 ≤ Batch.maxHeaders by decide
    · exact show 1 ≤ HeaderList.maxHeaders by decide
  exact ⟨hfits, items_are_read_back mixedItems hfits⟩

end HeaderRelay
