import HeaderRelay.HeaderList
import HeaderRelay.Locator
import HeaderRelay.Proofs.Wire.CompactForms
import HeaderRelay.Services

/-!
# Readers that know where their value ends

A value on the wire has no end mark. Its reader finds out how many bytes belong to it, looks at no
others, and when they are not all there, says so from the place where it stands.

* `Reader.Delimits` — a step depends on the bytes that it consumes alone, and a report of missing
  bytes tells where it stopped;
* `Delimits.bind`, `Delimits.times` — sequences of such steps are such steps;
* `take_delimits` … `HeaderList.read_delimits` — all readers of the wire format are;
* `Delimits.exists_of_take_eq` — payloads that begin with the same bytes are read alike;
* `Delimits.exists_truncated` — and one that breaks off inside them is reported as cut.
-/

namespace HeaderRelay

/-- The report is one of missing bytes. -/
def DecodeError.IsTruncation : DecodeError → Prop
  | truncated _ _ _ _ => True
  | _ => False

namespace Reader

variable {α β : Type}

/-! ## Steps that delimit their value -/

/-- What the step makes of a payload is settled by the bytes that it consumes. -/
structure Delimits (step : Reader α) : Prop where
  -- a value that is read is read again in front of any other bytes
  consumes : ∀ {s t : Reading} {a : α}, step s = .ok a t →
    ∃ front : List UInt8, s.rest = front ++ t.rest ∧ t.offset = s.offset + front.length ∧
      ∀ (rest : List UInt8) (log : Array Event), ∃ log' : Array Event,
        step { offset := s.offset, rest := front ++ rest, log } =
          .ok a { offset := t.offset, rest, log := log' }
  -- what is refused stays refused if more bytes come, unless bytes were what was missing
  refuses : ∀ {s t : Reading} {e : DecodeError}, step s = .error e t → ¬ e.IsTruncation →
    ∀ (more : List UInt8) (log : Array Event), ∃ t' : Reading,
      step { offset := s.offset, rest := s.rest ++ more, log } = .error e t'
  -- bytes are missing where the step stops, and all bytes up to there were there
  stops : ∀ {s t : Reading} {field : String} {offset needed available : Nat},
    step s = .error (.truncated field offset needed available) t →
      t.offset = offset ∧ t.remaining = available ∧ available < needed ∧
        offset + available = s.offset + s.remaining

namespace Delimits

/-- Reading moves on by as many bytes as there are fewer ahead. -/
theorem offset_add_remaining {step : Reader α} (h : step.Delimits) {s t : Reading} {a : α}
    (hread : step s = .ok a t) : t.offset + t.remaining = s.offset + s.remaining := by
  rcases h.consumes hread with ⟨front, hrest, hoffset, _⟩
  have hlength : s.remaining = front.length + t.remaining := by
    simp only [Reading.remaining, hrest, List.length_append]
  calc
    t.offset + t.remaining = s.offset + front.length + t.remaining := by rw [hoffset]
    _ = s.offset + (front.length + t.remaining) := Nat.add_assoc _ _ _
    _ = s.offset + s.remaining := by rw [hlength]

/-- A step that succeeds everywhere with the same value and at most reports something. -/
theorem of_reporting {step : Reader α} (a : α)
    (h : ∀ s : Reading, ∃ log : Array Event, step s = .ok a { s with log }) : step.Delimits where
  consumes := by
    intro s t b hread
    rcases h s with ⟨log, hstep⟩
    cases hstep.symm.trans hread
    refine ⟨[], rfl, rfl, ?_⟩
    intro rest log
    exact h { offset := s.offset, rest, log }
  refuses := by
    intro s t e hread
    rcases h s with ⟨log, hstep⟩
    cases hstep.symm.trans hread
  stops := by
    intro s t field offset needed available hread
    rcases h s with ⟨log, hstep⟩
    cases hstep.symm.trans hread

theorem pure (a : α) : Delimits (Pure.pure a) :=
  of_reporting a fun s => ⟨s.log, rfl⟩

theorem throw {e : DecodeError} (he : ¬ e.IsTruncation) :
    Delimits (MonadExcept.throw e : Reader α) where
  consumes := by
    intro s t a h
    cases h
  refuses := by
    intro s t e' h _ more log
    cases h
    exact ⟨_, rfl⟩
  stops := by
    intro s t field offset needed available h
    cases h
    exact absurd trivial he

theorem bind {step : Reader α} {next : α → Reader β} (hstep : step.Delimits)
    (hnext : ∀ a, (next a).Delimits) : Delimits (step >>= next) where
  consumes := by
    intro s t b h
    rcases exists_of_bind_ok h with ⟨a, u, hfirst, hsecond⟩
    rcases hstep.consumes hfirst with ⟨front, hrest, hoffset, hagain⟩
    rcases (hnext a).consumes hsecond with ⟨back, hrest', hoffset', hagain'⟩
    refine ⟨front ++ back, ?_, ?_, ?_⟩
    · rw [hrest, hrest', List.append_assoc]
    · rw [hoffset', hoffset, List.length_append, Nat.add_assoc]
    · intro rest log
      -- the first step leaves the bytes of the second one in front of the new rest
      rcases hagain (back ++ rest) log with ⟨log₁, hfirst'⟩
      rcases hagain' rest log₁ with ⟨log₂, hsecond'⟩
      refine ⟨log₂, ?_⟩
      rw [List.append_assoc, bind_of_ok hfirst', hsecond']
  refuses := by
    intro s t e h he more log
    rcases exists_of_bind_error h with hfirst | ⟨a, u, hfirst, hsecond⟩
    · rcases hstep.refuses hfirst he more log with ⟨t', hfirst'⟩
      exact ⟨t', bind_of_error hfirst'⟩
    · rcases hstep.consumes hfirst with ⟨front, hrest, hoffset, hagain⟩
      rcases hagain (u.rest ++ more) log with ⟨log₁, hfirst'⟩
      rcases (hnext a).refuses hsecond he more log₁ with ⟨t', hsecond'⟩
      refine ⟨t', ?_⟩
      rw [hrest, List.append_assoc, bind_of_ok hfirst', hsecond']
  stops := by
    intro s t field offset needed available h
    rcases exists_of_bind_error h with hfirst | ⟨a, u, hfirst, hsecond⟩
    · exact hstep.stops hfirst
    · rcases (hnext a).stops hsecond with ⟨hoffset, hremaining, hlt, hend⟩
      exact ⟨hoffset, hremaining, hlt, hend.trans (hstep.offset_add_remaining hfirst)⟩

theorem map {step : Reader α} (hstep : step.Delimits) (f : α → β) :
    Delimits (step >>= fun a => Pure.pure (f a)) :=
  hstep.bind fun a => pure (f a)

theorem optional {present : Bool} {step : Reader α} (hstep : step.Delimits) (substitute : α) :
    Delimits (if present then step else Pure.pure substitute) := by
  cases present with
  | true => exact hstep
  | false => exact pure substitute

theorem times {element : Reader α} (helement : element.Delimits) (count : Nat) :
    (times count element).Delimits := by
  induction count with
  | zero =>
      rw [times_zero]
      exact pure []
  | succ count ih =>
      rw [times_succ]
      apply helement.bind
      intro a
      exact ih.map (a :: ·)

end Delimits

/-! ## Fields -/

/-- A field is not whole, or the bytes ahead begin with it. -/
theorem take_cases (field : String) (count : Nat) (s : Reading) :
    (s.remaining < count ∧
      take field count s = .error (.truncated field s.offset count s.remaining) s) ∨
    ∃ (bytes rest : List UInt8) (hlength : bytes.length = count), s.rest = bytes ++ rest ∧
      take field count s =
        .ok ⟨bytes, hlength⟩ { offset := s.offset + count, rest, log := s.log } := by
  by_cases hlt : s.remaining < count
  · exact Or.inl ⟨hlt, take_of_remaining_lt hlt⟩
  · have hlength : (s.rest.take count).length = count := by
      rw [List.length_take]
      exact Nat.min_eq_left (Nat.not_lt.1 hlt)
    have hsplit : s.rest.take count ++ s.rest.drop count = s.rest := List.take_append_drop _ _
    have hread : take field count { s with rest := s.rest.take count ++ s.rest.drop count } = _ :=
      take_append hlength (s.rest.drop count) s.offset s.log
    rw [hsplit] at hread
    exact Or.inr ⟨s.rest.take count, s.rest.drop count, hlength, hsplit.symm, hread⟩

theorem take_delimits (field : String) (count : Nat) : (take field count).Delimits where
  consumes := by
    intro s t a h
    rcases take_cases field count s with ⟨_, htake⟩ | ⟨bytes, rest, hlength, hrest, htake⟩
    · cases htake.symm.trans h
    · cases htake.symm.trans h
      refine ⟨bytes, hrest, by rw [hlength], ?_⟩
      intro rest log
      exact ⟨log, take_append hlength rest s.offset log⟩
  refuses := by
    intro s t e h he
    rcases take_cases field count s with ⟨_, htake⟩ | ⟨bytes, rest, hlength, hrest, htake⟩
    · cases htake.symm.trans h
      exact absurd trivial he
    · cases htake.symm.trans h
  stops := by
    intro s t field' offset needed available h
    rcases take_cases field count s with ⟨hlt, htake⟩ | ⟨bytes, rest, hlength, hrest, htake⟩
    · cases htake.symm.trans h
      exact ⟨rfl, rfl, hlt, rfl⟩
    · cases htake.symm.trans h

theorem word_delimits (field : String) (width : Nat) : (word field width).Delimits :=
  (take_delimits field width).map _

theorem u8_delimits (field : String) : (u8 field).Delimits :=
  (word_delimits field 1).map _

theorem u16_delimits (field : String) : (u16 field).Delimits :=
  (word_delimits field 2).map _

theorem u32_delimits (field : String) : (u32 field).Delimits :=
  (word_delimits field 4).map _

theorem u64_delimits (field : String) : (u64 field).Delimits :=
  (word_delimits field 8).map _

theorem i16_delimits (field : String) : (i16 field).Delimits :=
  (u16_delimits field).map _

theorem i32_delimits (field : String) : (i32 field).Delimits :=
  (u32_delimits field).map _

theorem hash_delimits (field : String) : (hash field).Delimits :=
  (take_delimits field 32).map _

end Reader

/-! ## Structures -/

open Reader (Delimits)

theorem CompactSize.read_delimits : read.Delimits := by
  rw [read_eq]
  apply (Reader.u8_delimits "compact size").bind
  intro lead
  -- the first byte decides how many more are read, if any
  unfold readTail
  split
  · exact Reader.u64_delimits "compact size"
  · split
    · exact (Reader.u32_delimits "compact size").map _
    · split
      · exact (Reader.u16_delimits "compact size").map _
      · exact Delimits.pure _

theorem Services.read_delimits : read.Delimits :=
  (Reader.u64_delimits "services").map _

theorem BlockHeader.read_delimits : read.Delimits := by
  unfold read
  refine (Reader.i32_delimits "version").bind fun version => ?_
  refine (Reader.hash_delimits "prev_block").bind fun prevBlock => ?_
  refine (Reader.hash_delimits "merkle_root").bind fun merkleRoot => ?_
  refine (Reader.u32_delimits "timestamp").bind fun timestamp => ?_
  refine (Reader.u32_delimits "bits").bind fun bits => ?_
  exact (Reader.u32_delimits "nonce").map _

namespace Locator

theorem read_delimits : read.Delimits := by
  unfold read
  refine (Reader.u32_delimits "u32").bind fun version => ?_
  refine CompactSize.read_delimits.bind fun count => ?_
  refine ((Reader.hash_delimits "hash").times count.toNat).bind fun hashes => ?_
  exact (Reader.hash_delimits "hash").map _

theorem readBounded_delimits : readBounded.Delimits := by
  unfold readBounded
  apply read_delimits.bind
  intro locator
  split
  · exact Delimits.throw not_false
  · exact Delimits.pure locator

end Locator

namespace HeaderList

theorem readEntry_delimits : readEntry.Delimits := by
  unfold readEntry
  refine BlockHeader.read_delimits.bind fun header => ?_
  exact CompactSize.read_delimits.map _

theorem read_delimits : read.Delimits := by
  unfold read
  apply CompactSize.read_delimits.bind
  intro count
  split
  · exact Delimits.throw not_false
  · exact readEntry_delimits.times count.toNat

end HeaderList

/-! ## Whole payloads -/

namespace Reader.Delimits

variable {α : Type} {step : Reader α} {payload : List UInt8} {a : α} {t : Reading}

/-- The bytes that were read and those that are left make up the payload. -/
theorem rest_eq_drop (h : step.Delimits) (hread : step (.start payload) = .ok a t) :
    t.offset ≤ payload.length ∧ t.rest = payload.drop t.offset := by
  rcases h.consumes hread with ⟨front, hrest, hoffset, _⟩
  have hpayload : payload = front ++ t.rest := hrest
  have hlength : t.offset = front.length := hoffset.trans (Nat.zero_add _)
  refine ⟨?_, ?_⟩
  · rw [hpayload, hlength, List.length_append]
    exact Nat.le_add_right _ _
  · rw [hpayload, hlength, List.drop_left]

/-- A payload that begins with the bytes that were read of another one is read as the same value,
and as far. -/
theorem exists_of_take_eq (h : step.Delimits) (hread : step (.start payload) = .ok a t)
    {other : List UInt8} (hother : other.take t.offset = payload.take t.offset) :
    ∃ t', step (.start other) = .ok a t' ∧ t'.offset = t.offset := by
  rcases h.consumes hread with ⟨front, hrest, hoffset, hagain⟩
  have hpayload : payload = front ++ t.rest := hrest
  have hlength : t.offset = front.length := hoffset.trans (Nat.zero_add _)
  have hfront : other.take t.offset = front := by
    rw [hother, hpayload, hlength, List.take_left]
  rcases hagain (other.drop t.offset) #[] with ⟨log, hread'⟩
  refine ⟨{ offset := t.offset, rest := other.drop t.offset, log }, ?_, rfl⟩
  rw [← hfront, List.take_append_drop] at hread'
  exact hread'

/-- A payload that breaks off before the end of what was read lacks bytes, and nothing else is
wrong with it. -/
theorem exists_truncated (h : step.Delimits) (hread : step (.start payload) = .ok a t) {k : Nat}
    (hk : k < t.offset) :
    ∃ field offset needed available t',
      step (.start (payload.take k)) = .error (.truncated field offset needed available) t' ∧
        offset + available = k ∧ available < needed := by
  have hcut : payload.take k ++ payload.drop k = payload := List.take_append_drop k payload
  have hlength : (payload.take k).length = k := by
    have hle := (h.rest_eq_drop hread).1
    rw [List.length_take]
    exact Nat.min_eq_left (Nat.le_trans (Nat.le_of_lt hk) hle)
  cases hshort : step (.start (payload.take k)) with
  | ok b u =>
      -- it would be read as far in the whole payload, but there the end comes later
      exfalso
      have hoffset := h.offset_add_remaining hshort
      rcases h.consumes hshort with ⟨front, hrest, _, hagain⟩
      have htake : payload.take k = front ++ u.rest := hrest
      rcases hagain (u.rest ++ payload.drop k) #[] with ⟨log, hread'⟩
      rw [← List.append_assoc, ← htake, hcut] at hread'
      cases hread'.symm.trans hread
      have hend : u.offset + u.remaining = k := by
        simpa [Reading.start, Reading.remaining, hlength] using hoffset
      exact Nat.not_le.2 hk (Nat.le_of_add_right_le (Nat.le_of_eq hend))
  | error e u =>
      cases e with
      | truncated field offset needed available =>
          rcases h.stops hshort with ⟨_, _, hlt, hend⟩
          refine ⟨field, offset, needed, available, u, rfl, ?_, hlt⟩
          simpa [Reading.start, Reading.remaining, hlength] using hend
      | _ =>
          -- any other report would be made of the whole payload as well
          exfalso
          rcases h.refuses hshort not_false (payload.drop k) #[] with ⟨u', hread'⟩
          have hstart : (Reading.start (payload.take k)).rest ++ payload.drop k = payload := hcut
          rw [hstart] at hread'
          cases hread'.symm.trans hread

end Reader.Delimits
end HeaderRelay
