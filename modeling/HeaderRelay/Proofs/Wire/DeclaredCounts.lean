import HeaderRelay.Proofs.Message.Delimiting

/-!
# Counts that are only declared

The number of elements stands in front of a list and comes from whoever wrote the payload. Reading
does not rely on it: as every element takes at least a byte, the bytes ahead run out before a count
that is too large does, whatever shape the elements have.

* `Reader.Consumes` — what a step reads takes at least one byte;
* `Reader.tried` — the places from which a list tries to read an element;
* `times_congr_tried`, `length_tried_le` — nothing else is asked of the element, and not more often
  than there are bytes to read;
* `Reader.InTurn`, `Reader.ListOutcome`, `times_listOutcome` — elements one after the other, and what
  a list of them comes to;
* `Reader.WithinBytes`, `times_withinBytes` — what the bytes ahead have to do with it;
* `Layout.takesBytes`, `Layout.consumes_iff` — the shapes whose values take bytes;
* `declared_counts_are_not_trusted` — lists with a count from elsewhere, and with one in front.
-/

namespace HeaderRelay
namespace Reader

variable {α β : Type} {element : Reader α} {count : Nat} {s t u : Reading}

/-! ## Steps that take bytes -/

/-- What is read takes at least one of the bytes ahead. -/
def Consumes (step : Reader α) : Prop :=
  ∀ (s t : Reading) (a : α), step s = .ok a t → t.remaining < s.remaining

/-- There is no value in no bytes. -/
def FailsAtEnd (step : Reader α) : Prop :=
  ∀ (offset : Nat) (log : Array Event), ∃ e t, step { offset, rest := [], log } = .error e t

/-- A value that took no bytes would be found where there are none. -/
theorem Delimits.consumes_of_failsAtEnd {step : Reader α} (h : step.Delimits)
    (hend : step.FailsAtEnd) : step.Consumes := by
  intro s t a hread
  rcases h.consumes hread with ⟨front, hrest, _, hagain⟩
  cases front with
  | nil =>
      rcases hagain [] s.log with ⟨log, hread'⟩
      rcases hend s.offset s.log with ⟨e, u, herror⟩
      cases hread'.symm.trans herror
  | cons byte front =>
      simp only [Reading.remaining, hrest, List.length_append, List.length_cons]
      omega

theorem FailsAtEnd.bind {step : Reader α} (h : step.FailsAtEnd) (next : α → Reader β) :
    FailsAtEnd (step >>= next) := by
  intro offset log
  rcases h offset log with ⟨e, t, herror⟩
  exact ⟨e, t, bind_of_error herror⟩

theorem Needs.failsAtEnd {step : Reader α} {name : String} {width : Nat}
    (h : step.Needs [⟨name, width + 1⟩]) : step.FailsAtEnd := by
  intro offset log
  have hmissing : firstMissing [⟨name, width + 1⟩] 0 = some (0, ⟨name, width + 1⟩) :=
    if_pos (Nat.zero_lt_succ width)
  exact ⟨_, _, (h { offset, rest := [], log }).1 0 _ hmissing⟩

/-! ## Attempts -/

/-- The places from which `element` is tried, `count` times in a row or until it fails. -/
def tried (element : Reader α) : (count : Nat) → Reading → List Reading
  | 0, _ => []
  | count + 1, s =>
      s :: match element s with
        | .ok _ t => tried element count t
        | .error _ _ => []

theorem tried_succ_of_ok {a : α} (h : element s = .ok a t) :
    tried element (count + 1) s = s :: tried element count t := by
  rw [tried, h]

theorem tried_succ_of_error {e : DecodeError} (h : element s = .error e t) :
    tried element (count + 1) s = [s] := by
  rw [tried, h]

/-- A list depends on its element from the places where it is tried, and from no others. -/
theorem times_congr_tried {other : Reader α}
    (h : ∀ place ∈ tried element count s, other place = element place) :
    times count other s = times count element s := by
  induction count generalizing s with
  | zero => rfl
  | succ count ih =>
      have hfirst : other s = element s := h s List.mem_cons_self
      rw [times_succ, times_succ]
      cases hread : element s with
      | ok a t =>
          rw [tried_succ_of_ok hread] at h
          have hrest := ih fun place hplace => h place (List.mem_cons_of_mem s hplace)
          rw [bind_of_ok hread, bind_of_ok (hfirst.trans hread)]
          simp only [bind, EStateM.bind, hrest]
      | error e t => rw [bind_of_error hread, bind_of_error (hfirst.trans hread)]

/-- Each attempt but the last one takes a byte. -/
theorem length_tried_le (h : element.Consumes) (count : Nat) (s : Reading) :
    (tried element count s).length ≤ min count (s.remaining + 1) := by
  induction count generalizing s with
  | zero => exact Nat.zero_le _
  | succ count ih =>
      cases hread : element s with
      | ok a t =>
          have htaken := h s t a hread
          have hrest := ih t
          rw [tried_succ_of_ok hread, List.length_cons]
          omega
      | error e t =>
          rw [tried_succ_of_error hread, List.length_singleton]
          omega

/-! ## Outcomes -/

/-- Elements are read one after the other, each from where the one before it ended. -/
inductive InTurn (element : Reader α) : Reading → List α → Reading → Prop where
  | nil {s : Reading} : InTurn element s [] s
  | cons {s t u : Reading} {a : α} {values : List α} :
      element s = .ok a t → InTurn element t values u → InTurn element s (a :: values) u

theorem InTurn.length_add_remaining_le {values : List α} (h : InTurn element s values t)
    (hconsumes : element.Consumes) : values.length + t.remaining ≤ s.remaining := by
  induction h with
  | nil => exact Nat.le_of_eq (Nat.zero_add _)
  | cons hread _ ih =>
      have htaken := hconsumes _ _ _ hread
      rw [List.length_cons]
      omega

/-- What a list of `count` elements comes to when it is read from `s` on. -/
inductive ListOutcome (element : Reader α) (count : Nat) (s : Reading) :
    EStateM.Result DecodeError Reading (List α) → Prop where
  -- all elements are there, and each was tried once
  | whole {values : List α} {t : Reading} : InTurn element s values t → values.length = count →
      (tried element count s).length = count → ListOutcome element count s (.ok values t)
  -- some are there and the next one is not, which ends the list with that element's error and
  -- leaves reading where that element left it
  | broken {values : List α} {t u : Reading} {e : DecodeError} : InTurn element s values t →
      values.length < count → (tried element count s).length = values.length + 1 →
      element t = .error e u → ListOutcome element count s (.error e u)

theorem times_listOutcome (element : Reader α) (count : Nat) (s : Reading) :
    ListOutcome element count s (times count element s) := by
  induction count generalizing s with
  | zero => exact .whole .nil rfl rfl
  | succ count ih =>
      rw [times_succ]
      cases hread : element s with
      | error e u =>
          rw [bind_of_error hread]
          exact .broken .nil (Nat.zero_lt_succ count)
            (congrArg List.length (tried_succ_of_error hread)) hread
      | ok a t =>
          have htried : (tried element (count + 1) s).length = (tried element count t).length + 1 :=
            congrArg List.length (tried_succ_of_ok hread)
          have hrest := ih t
          rw [bind_of_ok hread]
          -- the outcome of the others is passed on, with this element in front
          cases hothers : times count element t with
          | ok values u =>
              rw [hothers] at hrest
              rw [bind_of_ok hothers]
              cases hrest with
              | whole hturn hlength hcount =>
                  exact .whole (.cons hread hturn) (congrArg Nat.succ hlength)
                    (htried.trans (congrArg Nat.succ hcount))
          | error e u =>
              rw [hothers] at hrest
              rw [bind_of_error hothers]
              cases hrest with
              | broken hturn hlt hcount herror =>
                  exact .broken (.cons hread hturn) (Nat.succ_lt_succ hlt)
                    (htried.trans (congrArg Nat.succ hcount)) herror

/-- The bytes ahead bound what a list with a declared count comes to. -/
structure WithinBytes (element : Reader α) (count : Nat) (s : Reading)
    (result : EStateM.Result DecodeError Reading (List α)) : Prop where
  -- no more attempts than bytes ahead, and one more that finds none left
  attempts : (tried element count s).length ≤ min count (s.remaining + 1)
  elsewhere : ∀ other : Reader α, (∀ place ∈ tried element count s, other place = element place) →
    times count other s = result
  outcome : ListOutcome element count s result
  bounded : ∀ values t, result = .ok values t → count ≤ s.remaining

theorem times_withinBytes (h : element.Consumes) (count : Nat) (s : Reading) :
    WithinBytes element count s (times count element s) where
  attempts := length_tried_le h count s
  elsewhere := fun _ hother => times_congr_tried hother
  outcome := times_listOutcome element count s
  bounded := by
    intro values t hread
    have houtcome := times_listOutcome element count s
    rw [hread] at houtcome
    cases houtcome with
    | whole hturn hlength _ =>
        have htaken := hturn.length_add_remaining_le h
        omega

/-- A list with the number of its elements in front, in any form. -/
def counted (element : Reader α) : Reader (List α) := do
  let count ← CompactSize.read
  times count.toNat element

theorem counted_of_size {n : UInt64} (h : CompactSize.read s = .ok n t) (element : Reader α) :
    counted element s = times n.toNat element t :=
  bind_of_ok h

end Reader

/-! ## Shapes -/

open Reader (Consumes FailsAtEnd)

theorem CompactSize.read_failsAtEnd : read.FailsAtEnd :=
  (Reader.u8_needs "compact size").failsAtEnd.bind readTail

theorem CompactSize.read_consumes : read.Consumes :=
  read_delimits.consumes_of_failsAtEnd read_failsAtEnd

theorem Locator.read_eq_counted : read = do
    let version ← Reader.u32 "u32"
    let hashes ← Reader.counted (Reader.hash "hash")
    let stop ← Reader.hash "hash"
    return { version, hashes, stop } := by
  simp only [read, Reader.counted, bind_assoc]

theorem Batch.withFresh_failsAtEnd (codec : Codec) : (withFresh codec (read codec)).FailsAtEnd := by
  intro offset log
  rcases CompactSize.read_failsAtEnd offset log with ⟨e, t, herror⟩
  have hread : read codec { reading := { offset, rest := [], log }, context := codec.context } =
      .error e { reading := t, context := codec.context } :=
    bind_of_error (RecordReader.ofReader_of_error herror)
  exact ⟨e, t, by simp only [withFresh, hread]⟩

namespace Layout

/-- A value of the shape has at least one byte. -/
def takesBytes : Layout → Bool
  | unit => false
  | pair first second => first.takesBytes || second.takesBytes
  | _ => true

/-- A value without bytes is read anywhere. -/
theorem exists_read_of_not_takesBytes {layout : Layout} (h : layout.takesBytes = false)
    (s : Reading) : ∃ value, layout.read s = .ok value s := by
  induction layout with
  | unit => exact ⟨(), rfl⟩
  | pair first second ihFirst ihSecond =>
      rcases Bool.or_eq_false_iff.1 h with ⟨hfirst, hsecond⟩
      rcases ihFirst hfirst with ⟨a, ha⟩
      rcases ihSecond hsecond with ⟨b, hb⟩
      exact ⟨(a, b), (bind_of_ok ha).trans (bind_of_ok hb)⟩
  | _ => cases h

theorem failsAtEnd_of_takesBytes {layout : Layout} (h : layout.takesBytes = true) :
    layout.read.FailsAtEnd := by
  induction layout with
  | u8 => exact (Reader.u8_needs "u8").failsAtEnd
  | u16 => exact (Reader.u16_needs "u16").failsAtEnd
  | i16 => exact (Reader.i16_needs "i16").failsAtEnd
  | u32 => exact (Reader.u32_needs "u32").failsAtEnd
  | i32 => exact (Reader.i32_needs "i32").failsAtEnd
  | u64 => exact (Reader.u64_needs "u64").failsAtEnd
  | hash => exact (Reader.hash_needs "hash").failsAtEnd
  | compactSize => exact CompactSize.read_failsAtEnd
  | services => exact (Reader.u64_needs "services").failsAtEnd.bind _
  | header => exact (Reader.i32_needs "version").failsAtEnd.bind _
  | locator => exact (Reader.u32_needs "u32").failsAtEnd.bind _
  | headerList => exact CompactSize.read_failsAtEnd.bind _
  | batch => exact Batch.withFresh_failsAtEnd {}
  | unit => cases h
  | pair first second ihFirst ihSecond =>
      cases hfirst : first.takesBytes with
      | true => exact (ihFirst hfirst).bind _
      | false =>
          -- the first value is there even so, and the second one is what is missing
          have hsecond : second.takesBytes = true := by
            rwa [takesBytes, hfirst, Bool.false_or] at h
          intro offset log
          rcases exists_read_of_not_takesBytes hfirst { offset, rest := [], log } with ⟨a, ha⟩
          rcases (ihSecond hsecond).bind (fun b => pure (a, b)) offset log with ⟨e, t, herror⟩
          exact ⟨e, t, (bind_of_ok ha).trans herror⟩
  | counted element _ => exact CompactSize.read_failsAtEnd.bind _

theorem consumes_iff (layout : Layout) : layout.read.Consumes ↔ layout.takesBytes = true := by
  constructor
  · intro h
    cases htakes : layout.takesBytes with
    | true => rfl
    | false =>
        rcases exists_read_of_not_takesBytes htakes (.start []) with ⟨value, hread⟩
        exact absurd (h _ _ value hread) (Nat.lt_irrefl _)
  · intro h
    exact layout.read_delimits.consumes_of_failsAtEnd (failsAtEnd_of_takesBytes h)

end Layout

/-! ## Lists -/

open Reader

/-- If the values of an element take at least a byte each, then the bytes ahead bound what is made of
a list of them, whatever number of elements is declared. An element is tried no more often than there
are bytes, and once more to find that there are none, and the list depends on nothing else; it is
given only if there are as many bytes as elements, and is what trying the element so many times in
a row gives; and else it ends with the error of the first element that fails, where that element
left reading. The same is true of a list with its length in front, as the hashes of a locator are.
Of the shapes on the wire, all but those without any bytes are such elements, and so are lists of
lists. -/
theorem declared_counts_are_not_trusted :
    (∀ {α : Type} (element : Reader α), element.Consumes → ∀ (count : Nat) (s : Reading),
      WithinBytes element count s (times count element s)) ∧
    (∀ {α : Type} (element : Reader α), element.Consumes → ∀ s : Reading,
      (∃ e t, CompactSize.read s = .error e t ∧ counted element s = .error e t) ∨
      ∃ (count : UInt64) (t : Reading), CompactSize.read s = .ok count t ∧
        t.remaining < s.remaining ∧ WithinBytes element count.toNat t (counted element s)) ∧
    (∀ layout : Layout, (Layout.counted layout).read = counted layout.read ∧
      (layout.read.Consumes ↔ layout.takesBytes = true)) ∧
    Locator.read = do
      let version ← Reader.u32 "u32"
      let hashes ← counted (Reader.hash "hash")
      let stop ← Reader.hash "hash"
      return { version, hashes, stop } := by
  refine ⟨fun element h => times_withinBytes h, ?_, fun layout => ⟨rfl, layout.consumes_iff⟩,
    Locator.read_eq_counted⟩
  intro α element h s
  cases hsize : CompactSize.read s with
  | error e t => exact Or.inl ⟨e, t, rfl, bind_of_error hsize⟩
  | ok count t =>
      refine Or.inr ⟨count, t, rfl, CompactSize.read_consumes s t count hsize, ?_⟩
      rw [counted_of_size hsize]
      exact times_withinBytes h count.toNat t

/-- More lists are declared than any payload holds; two are there, and the third is not. -/
theorem declared_counts_are_not_trusted_nested :
    (Layout.counted .u8).read.Consumes ∧
    ∃ (count : UInt64) (s t : Reading),
      CompactSize.read (.start [0xFF, 0xFF, 0xFF, 0xFF, 0xFF, 0xFF, 0xFF, 0xFF, 0xFF, 1, 7, 0]) =
        .ok count s ∧
      count.toNat = 18446744073709551615 ∧
      (tried (Layout.counted .u8).read count.toNat s).length ≤ 4 ∧
      counted (Layout.counted .u8).read
          (.start [0xFF, 0xFF, 0xFF, 0xFF, 0xFF, 0xFF, 0xFF, 0xFF, 0xFF, 1, 7, 0]) =
        .error (.truncated "compact size" 12 1 0) t ∧
      t.offset = 12 := by
  rcases declared_counts_are_not_trusted with ⟨_, hcounted, hlayouts, _⟩
  have hconsumes : (Layout.counted .u8).read.Consumes := (hlayouts (.counted .u8)).2.2 rfl
  rcases hcounted _ hconsumes
      (.start [0xFF, 0xFF, 0xFF, 0xFF, 0xFF, 0xFF, 0xFF, 0xFF, 0xFF, 1, 7, 0]) with
    ⟨e, t, hsize, _⟩ | ⟨count, s, hsize, _, hbytes⟩
  · cases hsize
  · cases hsize
    have hattempts := Nat.le_trans hbytes.attempts (Nat.min_le_right _ _)
    exact ⟨hconsumes, _, _, _, rfl, rfl, hattempts, rfl, rfl⟩

end HeaderRelay
