import HeaderRelay.Wire.Writer

/-!
# How reading steps compose

A step that reads a payload either succeeds on a definite string of bytes, whatever follows it, or
stops at the first field that is not there.

* `bind_of_ok`, `bind_of_error`, `bind_congr_of_eq` — a sequence of steps, once the outcome of the
  first is known;
* `exists_of_bind_ok`, `exists_of_bind_error` — a sequence that succeeds does so step by step, and one
  that fails does so at one of its steps;
* `outcome` — what a step came to, apart from the state after it;
* `log_append` — what is reported by one step after the other;
* `Reader.Yields` — a step turns a string of bytes into a value and goes no further;
* `Field`, `firstMissing` — the fields that a step needs and the first one that runs past the end;
* `Reader.Needs` — a step fails at the first missing field and nowhere else;
* `exists_i32_append` … `exists_hash_append` — enough bytes begin with the written form of a word.
-/

namespace HeaderRelay

/-! ## Sequences -/

section Sequences

variable {ε σ α β : Type} {step : EStateM ε σ α} {next : α → EStateM ε σ β} {s t : σ}

theorem bind_of_ok {a : α} (h : step s = .ok a t) : (step >>= next) s = next a t := by
  simp only [bind, EStateM.bind, h]

theorem bind_of_error {e : ε} (h : step s = .error e t) : (step >>= next) s = .error e t := by
  simp only [bind, EStateM.bind, h]

/-- A sequence goes on in the same way from two states that its first step does not tell apart. -/
theorem bind_congr_of_eq (h : step s = step t) : (step >>= next) s = (step >>= next) t := by
  simp only [bind, EStateM.bind, h]

theorem exists_of_bind_ok {b : β} {u : σ} (h : (step >>= next) s = .ok b u) :
    ∃ a t, step s = .ok a t ∧ next a t = .ok b u := by
  cases hstep : step s with
  | ok a t => exact ⟨a, t, rfl, (bind_of_ok hstep).symm.trans h⟩
  | error e t =>
      rw [bind_of_error hstep] at h
      cases h

theorem exists_of_bind_error {e : ε} {u : σ} (h : (step >>= next) s = .error e u) :
    step s = .error e u ∨ ∃ a t, step s = .ok a t ∧ next a t = .error e u := by
  cases hstep : step s with
  | ok a t => exact Or.inr ⟨a, t, rfl, (bind_of_ok hstep).symm.trans h⟩
  | error e' t =>
      rw [bind_of_error hstep] at h
      cases h
      exact Or.inl rfl

/-- What a step came to, whatever state it ended in. -/
def outcome : EStateM.Result ε σ α → Except ε α
  | .ok a _ => .ok a
  | .error e _ => .error e

@[simp] theorem outcome_ok (a : α) (s : σ) : outcome (.ok a s : EStateM.Result ε σ α) = .ok a := rfl

@[simp] theorem outcome_error (e : ε) (s : σ) :
    outcome (.error e s : EStateM.Result ε σ α) = .error e := rfl

theorem exists_of_outcome_ok {result : EStateM.Result ε σ α} {a : α}
    (h : outcome result = .ok a) : ∃ s, result = .ok a s := by
  cases result with
  | ok b s =>
      cases h
      exact ⟨s, rfl⟩
  | error e s => cases h

theorem exists_of_outcome_error {result : EStateM.Result ε σ α} {e : ε}
    (h : outcome result = .error e) : ∃ s, result = .error e s := by
  cases result with
  | ok a s => cases h
  | error e s =>
      cases h
      exact ⟨s, rfl⟩

theorem outcome_map (step : EStateM ε σ α) (f : α → β) (s : σ) :
    outcome ((step >>= fun a => Pure.pure (f a)) s) = (outcome (step s)).map f := by
  cases h : step s with
  | ok a t => exact congrArg outcome (bind_of_ok h)
  | error e t => exact congrArg outcome (bind_of_error h)

theorem log_append (log : Array α) (front back : List α) :
    log ++ (front ++ back) = log ++ front ++ back := by
  apply Array.toList_inj.1
  simp

end Sequences

namespace Reader

variable {α β : Type}

/-! ## Success -/

/-- The step turns `bytes` into `a`, whatever comes before or after them, and reports nothing. -/
def Yields (step : Reader α) (bytes : List UInt8) (a : α) : Prop :=
  ∀ (rest : List UInt8) (offset : Nat) (log : Array Event),
    step { offset, rest := bytes ++ rest, log } =
      .ok a { offset := offset + bytes.length, rest, log }

namespace Yields

theorem pure (a : α) : Yields (Pure.pure a) [] a := by
  intro rest offset log
  rfl

theorem bind {step : Reader α} {next : α → Reader β} {front back : List UInt8} {a : α} {b : β}
    (hstep : step.Yields front a) (hnext : (next a).Yields back b) :
    Yields (step >>= next) (front ++ back) b := by
  intro rest offset log
  rw [List.append_assoc, bind_of_ok (hstep (back ++ rest) offset log), hnext,
    List.length_append, Nat.add_assoc]

theorem map {step : Reader α} {f : α → β} {bytes : List UInt8} {a : α}
    (hstep : step.Yields bytes a) : Yields (step >>= fun x => Pure.pure (f x)) bytes (f a) := by
  have h : Yields (step >>= fun x => Pure.pure (f x)) (bytes ++ []) (f a) :=
    hstep.bind (pure (f a))
  rwa [List.append_nil] at h

theorem outcome_start {step : Reader α} {bytes : List UInt8} {a : α} (h : step.Yields bytes a) :
    outcome (step (.start bytes)) = .ok a := by
  have hread := h [] 0 #[]
  rw [List.append_nil] at hread
  exact congrArg outcome hread

theorem optional {present : Bool} {step : Reader α} {write : α → List UInt8} {value : Option α}
    (hstep : ∀ a, step.Yields (write a) a) (hvalue : value.isSome = present) (substitute : α) :
    Yields (if present then step else Pure.pure substitute) ((value.map write).getD [])
      (value.getD substitute) := by
  subst hvalue
  cases value with
  | none => exact pure substitute
  | some a => exact hstep a

end Yields

theorem u8_yields (field : String) (n : UInt8) : (u8 field).Yields (Writer.u8 n) n := by
  intro rest offset log
  rw [u8_write, Writer.length_u8]

theorem u16_yields (field : String) (n : UInt16) : (u16 field).Yields (Writer.u16 n) n := by
  intro rest offset log
  rw [u16_write, Writer.length_u16]

theorem u32_yields (field : String) (n : UInt32) : (u32 field).Yields (Writer.u32 n) n := by
  intro rest offset log
  rw [u32_write, Writer.length_u32]

theorem u64_yields (field : String) (n : UInt64) : (u64 field).Yields (Writer.u64 n) n := by
  intro rest offset log
  rw [u64_write, Writer.length_u64]

theorem i16_yields (field : String) (n : Int16) : (i16 field).Yields (Writer.i16 n) n := by
  intro rest offset log
  rw [i16_write, Writer.length_i16]

theorem i32_yields (field : String) (n : Int32) : (i32 field).Yields (Writer.i32 n) n := by
  intro rest offset log
  rw [i32_write, Writer.length_i32]

theorem hash_yields (field : String) (h : Hash) : (hash field).Yields h.bytes h := by
  intro rest offset log
  rw [hash_bytes, Hash.length_bytes]

end Reader

/-! ## Missing fields -/

/-- A field as a report of missing bytes describes it. -/
structure Field where
  name : String
  width : Nat
  deriving DecidableEq, Repr

namespace Field

def total : List Field → Nat
  | [] => 0
  | field :: fields => field.width + total fields

@[simp] theorem total_nil : total [] = 0 := rfl

@[simp] theorem total_cons (field : Field) (fields : List Field) :
    total (field :: fields) = field.width + total fields := rfl

@[simp] theorem total_append (front back : List Field) :
    total (front ++ back) = total front + total back := by
  induction front with
  | nil => simp
  | cons field front ih =>
      rw [List.cons_append, total_cons, total_cons, ih, Nat.add_assoc]

end Field

/-- The first of the fields that is not whole within `available` bytes, with the number of bytes
in front of it. -/
def firstMissing : (fields : List Field) → (available : Nat) → Option (Nat × Field)
  | [], _ => none
  | field :: fields, available =>
      if available < field.width then
        some (0, field)
      else
        (firstMissing fields (available - field.width)).map fun (n, missing) =>
          (field.width + n, missing)

theorem firstMissing_eq_none_iff (fields : List Field) (available : Nat) :
    firstMissing fields available = none ↔ Field.total fields ≤ available := by
  induction fields generalizing available with
  | nil => simp [firstMissing]
  | cons field fields ih =>
      unfold firstMissing
      split
      · simp
        omega
      · simp [ih]
        omega

theorem firstMissing_append_of_some {front : List Field} {available n : Nat} {missing : Field}
    (h : firstMissing front available = some (n, missing)) (back : List Field) :
    firstMissing (front ++ back) available = some (n, missing) := by
  induction front generalizing available n with
  | nil => simp [firstMissing] at h
  | cons field fields ih =>
      simp only [firstMissing, List.cons_append] at h ⊢
      split
      case isTrue hlt => simpa [hlt] using h
      case isFalse hlt =>
        simp only [hlt, if_false, Option.map_eq_some_iff, Prod.exists, Prod.mk.injEq] at h
        rcases h with ⟨m, f, hmissing, rfl, rfl⟩
        rw [ih hmissing]
        rfl

theorem firstMissing_append_of_none {front : List Field} {available : Nat}
    (h : firstMissing front available = none) (back : List Field) :
    firstMissing (front ++ back) available =
      (firstMissing back (available - Field.total front)).map fun (n, missing) =>
        (Field.total front + n, missing) := by
  induction front generalizing available with
  | nil => simp
  | cons field fields ih =>
      -- all of `field :: fields` is there, so the first of them is, and so are the others
      have hle := (firstMissing_eq_none_iff _ _).1 h
      rw [Field.total_cons] at hle
      have htail : firstMissing fields (available - field.width) = none :=
        (firstMissing_eq_none_iff _ _).2 (by omega)
      have hlt : ¬ available < field.width := by omega
      simp only [List.cons_append, firstMissing, hlt, if_false, ih htail, Option.map_map,
        Field.total_cons, Nat.sub_sub]
      congr 1
      funext ⟨n, missing⟩
      simp [Nat.add_assoc]

theorem mem_of_firstMissing {fields : List Field} {available n : Nat} {missing : Field}
    (h : firstMissing fields available = some (n, missing)) : missing ∈ fields := by
  induction fields generalizing available n with
  | nil => cases h
  | cons field fields ih =>
      unfold firstMissing at h
      split at h
      case isTrue =>
        cases h
        exact List.mem_cons_self
      case isFalse =>
        simp only [Option.map_eq_some_iff, Prod.exists, Prod.mk.injEq] at h
        rcases h with ⟨m, lost, hlost, _, rfl⟩
        exact List.mem_cons_of_mem field (ih hlost)

namespace Reading

def skip (s : Reading) (n : Nat) : Reading :=
  { s with offset := s.offset + n, rest := s.rest.drop n }

theorem skip_skip (s : Reading) (m n : Nat) : (s.skip m).skip n = s.skip (m + n) := by
  simp [skip, Nat.add_assoc]

@[simp] theorem remaining_skip (s : Reading) (n : Nat) :
    (s.skip n).remaining = s.remaining - n := by
  simp [skip, remaining]

@[simp] theorem offset_skip (s : Reading) (n : Nat) : (s.skip n).offset = s.offset + n := rfl

def noting (s : Reading) (events : List Event) : Reading :=
  { s with log := s.log ++ events }

/-- The report of a field that begins `n` bytes ahead and is not whole. -/
def lacking (s : Reading) (n : Nat) (missing : Field) : DecodeError :=
  .truncated missing.name (s.offset + n) missing.width (s.remaining - n)

end Reading

namespace Reader

variable {α β : Type}

/-- The step consumes the fields when all of them are there, and else stops in front of the first
one that is not, with a report of it. -/
def Needs (step : Reader α) (fields : List Field) : Prop :=
  ∀ s : Reading,
    (∀ n missing, firstMissing fields s.remaining = some (n, missing) →
      step s = .error (s.lacking n missing) (s.skip n)) ∧
    (firstMissing fields s.remaining = none →
      ∃ a, step s = .ok a (s.skip (Field.total fields)))

namespace Needs

theorem pure (a : α) : Needs (Pure.pure a) [] := by
  intro s
  refine ⟨?_, ?_⟩
  · intro n missing h
    simp [firstMissing] at h
  · intro _
    exact ⟨a, rfl⟩

theorem bind {step : Reader α} {next : α → Reader β} {front back : List Field}
    (hstep : step.Needs front) (hnext : ∀ a, (next a).Needs back) :
    Needs (step >>= next) (front ++ back) := by
  intro s
  -- either the first step stops, or what it leaves decides about the second
  cases hfront : firstMissing front s.remaining with
  | some found =>
      rcases found with ⟨m, lost⟩
      have happend := firstMissing_append_of_some hfront back
      refine ⟨?_, ?_⟩
      · intro n missing h
        rw [happend] at h
        cases h
        exact bind_of_error ((hstep s).1 m lost hfront)
      · intro h
        rw [happend] at h
        cases h
  | none =>
      rcases (hstep s).2 hfront with ⟨a, ha⟩
      have happend := firstMissing_append_of_none hfront back
      have hback := hnext a (s.skip (Field.total front))
      rw [Reading.remaining_skip] at hback
      refine ⟨?_, ?_⟩
      · intro n missing h
        rw [happend] at h
        simp only [Option.map_eq_some_iff, Prod.exists, Prod.mk.injEq] at h
        rcases h with ⟨m, lost, hm, rfl, rfl⟩
        rw [bind_of_ok ha, hback.1 m lost hm, Reading.skip_skip]
        simp [Reading.lacking, Nat.add_assoc, Nat.sub_sub]
      · intro h
        rw [happend, Option.map_eq_none_iff] at h
        rcases hback.2 h with ⟨b, hb⟩
        refine ⟨b, ?_⟩
        rw [bind_of_ok ha, hb, Reading.skip_skip, Field.total_append]

theorem map {step : Reader α} {f : α → β} {fields : List Field} (hstep : step.Needs fields) :
    Needs (step >>= fun x => Pure.pure (f x)) fields := by
  have h : Needs (step >>= fun x => Pure.pure (f x)) (fields ++ []) :=
    hstep.bind fun a => pure (f a)
  rwa [List.append_nil] at h

theorem optional {present : Bool} {step : Reader α} {field : Field} (hstep : step.Needs [field])
    (substitute : α) :
    Needs (if present then step else Pure.pure substitute) (if present then [field] else []) := by
  cases present with
  | true => exact hstep
  | false => exact pure substitute

/-- A step that needs some fields fails at one of them. -/
theorem exists_of_error {step : Reader α} {fields : List Field} (hstep : step.Needs fields)
    {s t : Reading} {e : DecodeError} (h : step s = .error e t) :
    ∃ (n : Nat) (missing : Field), missing ∈ fields ∧ e = s.lacking n missing := by
  cases hmissing : firstMissing fields s.remaining with
  | some found =>
      rcases found with ⟨n, missing⟩
      cases h.symm.trans ((hstep s).1 n missing hmissing)
      exact ⟨n, missing, mem_of_firstMissing hmissing, rfl⟩
  | none =>
      rcases (hstep s).2 hmissing with ⟨a, ha⟩
      cases h.symm.trans ha

end Needs

theorem take_needs (field : String) (count : Nat) : (take field count).Needs [⟨field, count⟩] := by
  intro s
  by_cases hlt : s.remaining < count
  · refine ⟨?_, ?_⟩
    · intro n missing h
      simp only [firstMissing, hlt, if_true, Option.some.injEq, Prod.mk.injEq] at h
      rcases h with ⟨rfl, rfl⟩
      exact take_of_remaining_lt hlt
    · intro h
      simp [firstMissing, hlt] at h
  · refine ⟨?_, ?_⟩
    · intro n missing h
      simp [firstMissing, hlt] at h
    · intro _
      have hlen : (s.rest.take count).length = count := by
        simp only [Reading.remaining] at hlt
        simp only [List.length_take]
        omega
      refine ⟨⟨s.rest.take count, hlen⟩, ?_⟩
      simp [take, hlen, Reading.skip]

theorem word_needs (field : String) (width : Nat) : (word field width).Needs [⟨field, width⟩] :=
  (take_needs field width).map

theorem u8_needs (field : String) : (u8 field).Needs [⟨field, 1⟩] :=
  (word_needs field 1).map

theorem u16_needs (field : String) : (u16 field).Needs [⟨field, 2⟩] :=
  (word_needs field 2).map

theorem u32_needs (field : String) : (u32 field).Needs [⟨field, 4⟩] :=
  (word_needs field 4).map

theorem u64_needs (field : String) : (u64 field).Needs [⟨field, 8⟩] :=
  (word_needs field 8).map

theorem i16_needs (field : String) : (i16 field).Needs [⟨field, 2⟩] :=
  (u16_needs field).map

theorem i32_needs (field : String) : (i32 field).Needs [⟨field, 4⟩] :=
  (u32_needs field).map

theorem hash_needs (field : String) : (hash field).Needs [⟨field, 32⟩] :=
  (take_needs field 32).map

theorem u8_cons (field : String) (n : UInt8) (rest : List UInt8) (offset : Nat)
    (log : Array Event) :
    u8 field { offset, rest := n :: rest, log } = .ok n { offset := offset + 1, rest, log } :=
  u8_write field n rest offset log

theorem u8_nil (field : String) (offset : Nat) (log : Array Event) :
    u8 field { offset, rest := [], log } =
      .error (.truncated field offset 1 0) { offset, rest := [], log } :=
  (u8_needs field _).1 0 ⟨field, 1⟩ rfl

end Reader

/-! ## Enough bytes -/

section EnoughBytes

variable {bytes : List UInt8}

theorem exists_split_append {width : Nat} (h : width ≤ bytes.length) :
    ∃ n rest, n < LittleEndian.bound width ∧ bytes = LittleEndian.split width n ++ rest := by
  have hlen : (bytes.take width).length = width := by
    rw [List.length_take, Nat.min_eq_left h]
  -- any bytes of the right number are those of the number that they combine to
  refine ⟨LittleEndian.combine (bytes.take width), bytes.drop width, ?_, ?_⟩
  · simpa [hlen] using LittleEndian.combine_lt (bytes.take width)
  · have hsplit := LittleEndian.split_combine (bytes.take width)
    rw [hlen] at hsplit
    rw [hsplit, List.take_append_drop]

theorem exists_u16_append (h : 2 ≤ bytes.length) : ∃ n rest, bytes = Writer.u16 n ++ rest := by
  rcases exists_split_append h with ⟨n, rest, hn, rfl⟩
  refine ⟨UInt16.ofNat n, rest, ?_⟩
  rw [Writer.u16, UInt16.toNat_ofNat_of_lt' hn]

theorem exists_u32_append (h : 4 ≤ bytes.length) : ∃ n rest, bytes = Writer.u32 n ++ rest := by
  rcases exists_split_append h with ⟨n, rest, hn, rfl⟩
  refine ⟨UInt32.ofNat n, rest, ?_⟩
  rw [Writer.u32, UInt32.toNat_ofNat_of_lt' hn]

theorem exists_u64_append (h : 8 ≤ bytes.length) : ∃ n rest, bytes = Writer.u64 n ++ rest := by
  rcases exists_split_append h with ⟨n, rest, hn, rfl⟩
  refine ⟨UInt64.ofNat n, rest, ?_⟩
  rw [Writer.u64, UInt64.toNat_ofNat_of_lt' hn]

theorem exists_i16_append (h : 2 ≤ bytes.length) : ∃ n rest, bytes = Writer.i16 n ++ rest := by
  rcases exists_u16_append h with ⟨n, rest, rfl⟩
  exact ⟨n.toInt16, rest, rfl⟩

theorem exists_i32_append (h : 4 ≤ bytes.length) : ∃ n rest, bytes = Writer.i32 n ++ rest := by
  rcases exists_u32_append h with ⟨n, rest, rfl⟩
  exact ⟨n.toInt32, rest, rfl⟩

theorem exists_hash_append (h : 32 ≤ bytes.length) :
    ∃ (hash : Hash) (rest : List UInt8), bytes = hash.bytes ++ rest := by
  have hlen : (bytes.take 32).length = 32 := by
    rw [List.length_take, Nat.min_eq_left h]
  refine ⟨Hash.ofBytes (bytes.take 32) hlen, bytes.drop 32, ?_⟩
  rw [Hash.bytes_ofBytes, List.take_append_drop]

theorem le_length_of_append {front rest : List UInt8} {width more : Nat}
    (hfront : front.length = width) (h : width + more ≤ (front ++ rest).length) :
    more ≤ rest.length := by
  rw [List.length_append, hfront] at h
  exact Nat.le_of_add_le_add_left h

/-- A field that is there or not: the bytes begin with it when it is due. -/
theorem exists_optional_append {α : Type} {write : α → List UInt8} {width more : Nat}
    (hwrite : ∀ {front : List UInt8}, width ≤ front.length → ∃ a rest, front = write a ++ rest)
    (hwidth : ∀ a, (write a).length = width) {present : Bool}
    (h : (if present then width else 0) + more ≤ bytes.length) :
    ∃ (value : Option α) (rest : List UInt8), value.isSome = present ∧
      bytes = (value.map write).getD [] ++ rest ∧ more ≤ rest.length := by
  cases present with
  | true =>
      rcases hwrite (Nat.le_of_add_right_le h) with ⟨a, rest, rfl⟩
      exact ⟨some a, rest, rfl, rfl, le_length_of_append (hwidth a) h⟩
  | false => exact ⟨none, bytes, rfl, rfl, by simpa using h⟩

end EnoughBytes

end HeaderRelay
