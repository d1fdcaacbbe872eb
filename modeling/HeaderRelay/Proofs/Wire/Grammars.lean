import HeaderRelay.Proofs.Wire.Delimiting
import HeaderRelay.Proofs.Wire.Lists

/-!
# What readers accept

A reader of the wire format accepts what begins with a form of a value, and all that it ever finds
wrong is that bytes are missing. Only bounds on sizes are checked apart from that.

* `Reader.Parses` — a step accepts exactly the forms of its values;
* `Parses.of_field`, `Parses.bind`, `Parses.times` — fields of fixed width, sequences and lists;
* `Parses.ok_iff` — what such a step returns and where it ends;
* `Reader.InRow` — forms one after the other;
* `CompactSize.read_parses`, `Locator.read_parses` — counts in any form, and locators with them;
* `Locator.Begins`, `Locator.outcome_readBounded_of_begins`,
  `Locator.exists_truncation_of_not_begins` — what becomes of a request for headers.
-/

namespace HeaderRelay

/-! ## Forms -/

namespace Reader

variable {α β : Type}

/-- The step turns each form of a value into that value, accepts nothing else, and refuses only for
lack of bytes. -/
structure Parses (step : Reader α) (form : α → List UInt8 → Prop) : Prop where
  yields : ∀ {a : α} {bytes : List UInt8}, form a bytes → step.Yields bytes a
  exists_form : ∀ {s t : Reading} {a : α}, step s = .ok a t →
    ∃ front : List UInt8, form a front ∧ s.rest = front ++ t.rest
  truncates : ∀ {s t : Reading} {e : DecodeError}, step s = .error e t → e.IsTruncation

/-- Forms of values one after the other. -/
inductive InRow (form : α → List UInt8 → Prop) : List α → List UInt8 → Prop where
  | nil : InRow form [] []
  | cons {a : α} {values : List α} {front back : List UInt8} :
      form a front → InRow form values back → InRow form (a :: values) (front ++ back)

theorem inRow_write_iff {write : α → List UInt8} {values : List α} {bytes : List UInt8} :
    InRow (fun a bytes => bytes = write a) values bytes ↔ bytes = values.flatMap write := by
  constructor
  · intro h
    induction h with
    | nil => rfl
    | cons hform _ ih => rw [hform, ih, List.flatMap_cons]
  · rintro rfl
    induction values with
    | nil => exact .nil
    | cons a values ih => exact .cons rfl ih

namespace Parses

/-- A field of fixed width is accepted exactly if all of it is there. -/
theorem of_field {step : Reader α} {field : Field} {write : α → List UInt8}
    (hneeds : step.Needs [field]) (hyields : ∀ a, step.Yields (write a) a)
    (hwrite : ∀ {bytes : List UInt8}, field.width ≤ bytes.length →
      ∃ a rest, bytes = write a ++ rest) :
    step.Parses fun a bytes => bytes = write a := by
  have hcases (s : Reading) : (∃ e t, step s = .error e t ∧ e.IsTruncation) ∨
      ∃ a rest, s.rest = write a ++ rest ∧
        step s = .ok a { s with offset := s.offset + (write a).length, rest } := by
    by_cases hlt : s.remaining < field.width
    · have hmissing : firstMissing [field] s.remaining = some (0, field) := if_pos hlt
      exact Or.inl ⟨_, _, (hneeds s).1 0 field hmissing, trivial⟩
    · rcases s with ⟨offset, ahead, log⟩
      rcases hwrite (Nat.not_lt.1 hlt) with ⟨a, rest, hahead⟩
      have hahead' : ahead = write a ++ rest := hahead
      subst hahead'
      exact Or.inr ⟨a, rest, rfl, hyields a rest offset log⟩
  refine ⟨?_, ?_, ?_⟩
  · rintro a _ rfl
    exact hyields a
  · intro s t a h
    rcases hcases s with ⟨e, u, herror, _⟩ | ⟨b, rest, hrest, hok⟩
    · cases herror.symm.trans h
    · cases hok.symm.trans h
      exact ⟨write a, rfl, hrest⟩
  · intro s t e h
    rcases hcases s with ⟨e', u, herror, htruncation⟩ | ⟨b, rest, _, hok⟩
    · cases herror.symm.trans h
      exact htruncation
    · cases hok.symm.trans h

theorem congr {step : Reader α} {form form' : α → List UInt8 → Prop} (h : step.Parses form)
    (hform : ∀ a bytes, form a bytes ↔ form' a bytes) : step.Parses form' := by
  have heq : form = form' := funext fun a => funext fun bytes => propext (hform a bytes)
  rwa [← heq]

theorem pure (a : α) : Parses (Pure.pure a) fun b bytes => b = a ∧ bytes = [] where
  yields := by
    rintro _ _ ⟨rfl, rfl⟩
    exact Yields.pure _
  exists_form := by
    intro s t b h
    cases h
    exact ⟨[], ⟨rfl, rfl⟩, rfl⟩
  truncates := by
    intro s t e h
    cases h

theorem bind {step : Reader α} {next : α → Reader β} {form : α → List UInt8 → Prop}
    {form' : α → β → List UInt8 → Prop} (hstep : step.Parses form)
    (hnext : ∀ a, (next a).Parses (form' a)) :
    Parses (step >>= next) fun b bytes =>
      ∃ a front back, form a front ∧ form' a b back ∧ bytes = front ++ back where
  yields := by
    rintro b _ ⟨a, front, back, hfront, hback, rfl⟩
    exact (hstep.yields hfront).bind ((hnext a).yields hback)
  exists_form := by
    intro s u b h
    rcases exists_of_bind_ok h with ⟨a, t, hfirst, hsecond⟩
    rcases hstep.exists_form hfirst with ⟨front, hfront, hs⟩
    rcases (hnext a).exists_form hsecond with ⟨back, hback, ht⟩
    refine ⟨front ++ back, ⟨a, front, back, hfront, hback, rfl⟩, ?_⟩
    rw [hs, ht, List.append_assoc]
  truncates := by
    intro s u e h
    rcases exists_of_bind_error h with hfirst | ⟨a, t, _, hsecond⟩
    · exact hstep.truncates hfirst
    · exact (hnext a).truncates hsecond

theorem map {step : Reader α} {form : α → List UInt8 → Prop} (hstep : step.Parses form)
    (f : α → β) :
    Parses (step >>= fun a => Pure.pure (f a)) fun b bytes => ∃ a, form a bytes ∧ b = f a := by
  refine (hstep.bind fun a => pure (f a)).congr ?_
  intro b bytes
  constructor
  · rintro ⟨a, front, _, hfront, ⟨rfl, rfl⟩, rfl⟩
    rw [List.append_nil]
    exact ⟨a, hfront, rfl⟩
  · rintro ⟨a, hbytes, rfl⟩
    exact ⟨a, bytes, [], hbytes, ⟨rfl, rfl⟩, (List.append_nil bytes).symm⟩

theorem times {element : Reader α} {form : α → List UInt8 → Prop} (helement : element.Parses form)
    (count : Nat) :
    Parses (Reader.times count element) fun values bytes =>
      values.length = count ∧ InRow form values bytes := by
  induction count with
  | zero =>
      rw [times_zero]
      refine (pure []).congr ?_
      intro values bytes
      constructor
      · rintro ⟨rfl, rfl⟩
        exact ⟨rfl, .nil⟩
      · rintro ⟨hlength, hrow⟩
        cases hrow with
        | nil => exact ⟨rfl, rfl⟩
        | cons _ _ => cases hlength
  | succ count ih =>
      rw [times_succ]
      refine (helement.bind fun a => ih.map (a :: ·)).congr ?_
      intro values bytes
      constructor
      · rintro ⟨a, front, back, hfront, ⟨rest, ⟨hlength, hrow⟩, rfl⟩, rfl⟩
        exact ⟨congrArg Nat.succ hlength, .cons hfront hrow⟩
      · rintro ⟨hlength, hrow⟩
        cases hrow with
        | nil => cases hlength
        | cons hfront hrow =>
            exact ⟨_, _, _, hfront, ⟨_, ⟨Nat.succ.inj hlength, hrow⟩, rfl⟩, rfl⟩

/-- What is read, and from where on it is read further. -/
theorem ok_iff {step : Reader α} {form : α → List UInt8 → Prop} (h : step.Parses form)
    {offset : Nat} {ahead : List UInt8} {log : Array Event} {a : α} {t : Reading} :
    step { offset, rest := ahead, log } = .ok a t ↔
      ∃ front rest, form a front ∧ ahead = front ++ rest ∧
        t = { offset := offset + front.length, rest, log } := by
  constructor
  · intro hread
    rcases h.exists_form hread with ⟨front, hform, hahead⟩
    have hahead' : ahead = front ++ t.rest := hahead
    subst hahead'
    injection (h.yields hform t.rest offset log).symm.trans hread with _ hend
    exact ⟨front, t.rest, hform, rfl, hend.symm⟩
  · rintro ⟨front, rest, hform, rfl, rfl⟩
    exact h.yields hform rest offset log

end Parses

theorem u32_parses (field : String) : (u32 field).Parses fun n bytes => bytes = Writer.u32 n :=
  .of_field (u32_needs field) (u32_yields field) exists_u32_append

theorem i32_parses (field : String) : (i32 field).Parses fun n bytes => bytes = Writer.i32 n :=
  .of_field (i32_needs field) (i32_yields field) exists_i32_append

theorem hash_parses (field : String) : (hash field).Parses fun h bytes => bytes = h.bytes :=
  .of_field (hash_needs field) (hash_yields field) exists_hash_append

end Reader

/-! ## Counts -/

theorem CompactSize.Cut.isTruncation {offset : Nat} {bytes : List UInt8} {e : DecodeError}
    (h : Cut offset bytes e) : e.IsTruncation := by
  cases h with
  | empty => trivial
  | short _ => trivial

theorem CompactSize.read_parses : read.Parses Form where
  yields := read_form
  exists_form := by
    rintro ⟨offset, ahead, log⟩ t n h
    rcases form_or_cut offset ahead with ⟨m, front, rest, hform, rfl⟩ | ⟨e, hcut⟩
    · cases (read_form hform rest offset log).symm.trans h
      exact ⟨front, hform, rfl⟩
    · cases (read_of_cut (s := ⟨offset, ahead, log⟩) hcut).symm.trans h
  truncates := fun h => (read_error_iff.1 h).1.isTruncation

/-! ## Locators -/

namespace Locator

/-- The number of hashes may stand in any form. -/
inductive Form (locator : Locator) : List UInt8 → Prop where
  | mk {count : UInt64} {size : List UInt8} :
      CompactSize.Form count size → locator.hashes.length = count.toNat →
      Form locator (Writer.u32 locator.version ++ (size ++
        (locator.hashes.flatMap Hash.bytes ++ locator.stop.bytes)))

theorem read_parses : read.Parses Form := by
  have hhashes (count : Nat) : (Reader.times count (Reader.hash "hash")).Parses
      fun hashes bytes => hashes.length = count ∧ bytes = hashes.flatMap Hash.bytes :=
    ((Reader.hash_parses "hash").times count).congr fun hashes bytes =>
      and_congr_right' Reader.inRow_write_iff
  refine ((Reader.u32_parses "u32").bind fun version => CompactSize.read_parses.bind fun count =>
    (hhashes count.toNat).bind fun hashes => (Reader.hash_parses "hash").map fun stop =>
      Locator.mk version hashes stop).congr ?_
  intro locator bytes
  constructor
  · rintro ⟨version, _, _, rfl, ⟨count, size, _, hsize, ⟨hashes, _, _, ⟨hcount, rfl⟩,
      ⟨stop, rfl, rfl⟩, rfl⟩, rfl⟩, rfl⟩
    exact .mk hsize hcount
  · rintro ⟨hsize, hcount⟩
    exact ⟨_, _, _, rfl, ⟨_, _, _, hsize, ⟨_, _, _, ⟨hcount, rfl⟩, ⟨_, rfl, rfl⟩, rfl⟩, rfl⟩, rfl⟩

/-- The payload begins with a form of the locator. -/
def Begins (locator : Locator) (payload : List UInt8) : Prop :=
  ∃ front trailing, locator.Form front ∧ payload = front ++ trailing

/-- A payload that begins with a locator is read as that locator, or refused with its size. -/
theorem outcome_readBounded_of_begins {locator : Locator} {payload : List UInt8}
    (h : locator.Begins payload) :
    outcome (readBounded (.start payload)) =
      if locator.hashes.length ≤ maxHashes then .ok locator
      else .error (.locatorTooLarge locator.hashes.length maxHashes) := by
  rcases h with ⟨front, trailing, hform, rfl⟩
  rw [readBounded_eq, Reading.start, bind_of_ok (read_parses.yields hform trailing 0 #[]), check]
  by_cases hbound : locator.hashes.length ≤ maxHashes
  · rw [if_neg (Nat.not_lt.2 hbound), if_pos hbound]
    rfl
  · rw [if_pos (Nat.not_le.1 hbound), if_neg hbound]
    rfl

/-- All other payloads are too short. -/
theorem exists_truncation_of_not_begins {payload : List UInt8}
    (h : ¬ ∃ locator : Locator, locator.Begins payload) :
    ∃ e, e.IsTruncation ∧ outcome (readBounded (.start payload)) = .error e := by
  cases hread : read (.start payload) with
  | ok locator s =>
      rcases read_parses.exists_form hread with ⟨front, hform, hpayload⟩
      exact absurd ⟨locator, front, s.rest, hform, hpayload⟩ h
  | error e s =>
      refine ⟨e, read_parses.truncates hread, ?_⟩
      rw [readBounded_eq, bind_of_error hread]
      rfl

end Locator
end HeaderRelay
