import HeaderRelay.Bytes.LittleEndian
import HeaderRelay.Event
import HeaderRelay.Hash.Basic
import HeaderRelay.Wire.Error

/-!
# Reading a payload from front to back

* `Reading` — how far a payload was read, what lies ahead, and what was reported on the way;
* `Reader` — a step that moves a `Reading` on or fails in it;
* `Reader.take` — the one step that consumes bytes: all of a field or none of it;
* `Reader.u8` … `Reader.hash` — the fields of fixed width;
* `Reader.times` — a list with a known number of elements;
* `take_append`, `take_of_remaining_lt` — when a field is there and when it is not.

A failed step leaves the `Reading` as it was before the field that failed.
-/

namespace HeaderRelay

/-! ## State -/

/-- A payload in the middle of being read. -/
structure Reading where
  /-- Bytes consumed so far. -/
  offset : Nat
  /-- Bytes still ahead. -/
  rest : List UInt8
  /-- Events reported so far, oldest first. -/
  log : Array Event

namespace Reading

/-- A payload of which nothing was read. -/
def start (payload : List UInt8) : Reading where
  offset := 0
  rest := payload
  log := #[]

def remaining (s : Reading) : Nat :=
  s.rest.length

def atEnd (s : Reading) : Bool :=
  s.rest.isEmpty

end Reading

abbrev Reader : Type → Type :=
  EStateM DecodeError Reading

namespace Reader

variable {α : Type}

/-! ## Steps -/

/-- Appends an event to the log. -/
def report (event : Event) : Reader Unit :=
  modify fun s => { s with log := s.log.push event }

/-- Consumes the next `count` bytes, or fails without consuming any. -/
def take (field : String) (count : Nat) : Reader { bytes : List UInt8 // bytes.length = count } :=
  fun s =>
    let bytes := s.rest.take count
    if h : bytes.length = count then
      .ok ⟨bytes, h⟩ { s with offset := s.offset + count, rest := s.rest.drop count }
    else
      .error (.truncated field s.offset count s.remaining) s

/-- The number in the next `width` bytes, least significant first. -/
def word (field : String) (width : Nat) : Reader Nat := do
  let bytes ← take field width
  return LittleEndian.combine bytes.val

/-! ## Fields of fixed width -/

def u8 (field : String) : Reader UInt8 := do
  return UInt8.ofNat (← word field 1)

def u16 (field : String) : Reader UInt16 := do
  return UInt16.ofNat (← word field 2)

def u32 (field : String) : Reader UInt32 := do
  return UInt32.ofNat (← word field 4)

def u64 (field : String) : Reader UInt64 := do
  return UInt64.ofNat (← word field 8)

/-- Signed words are in two's complement. -/
def i16 (field : String) : Reader Int16 := do
  return (← u16 field).toInt16

def i32 (field : String) : Reader Int32 := do
  return (← u32 field).toInt32

def hash (field : String) : Reader Hash := do
  let bytes ← take field 32
  return Hash.ofBytes bytes.val bytes.property

/-! ## Lists -/

/-- Runs `element` `count` times and puts the results after those in `acc`. -/
def timesFrom (element : Reader α) : (count : Nat) → (acc : Array α) → Reader (List α)
  | 0, acc => return acc.toList
  | count + 1, acc => do
      let a ← element
      timesFrom element count (acc.push a)

/-- `count` elements one after the other; the first failure ends the list. -/
def times (count : Nat) (element : Reader α) : Reader (List α) :=
  timesFrom element count #[]

/-! ## What the steps do -/

theorem take_append {field : String} {count : Nat} {bytes : List UInt8}
    (h : bytes.length = count) (rest : List UInt8) (offset : Nat) (log : Array Event) :
    take field count { offset, rest := bytes ++ rest, log } =
      .ok ⟨bytes, h⟩ { offset := offset + count, rest, log } := by
  subst h
  simp [take]

theorem take_of_remaining_lt {field : String} {count : Nat} {s : Reading}
    (h : s.remaining < count) :
    take field count s = .error (.truncated field s.offset count s.remaining) s := by
  have hlen : ¬ min count s.rest.length = count := by
    simp only [Reading.remaining] at h
    omega
  simp [take, hlen]

/-- A word that was written comes back modulo the number of words of its width. -/
theorem word_split (field : String) (width n : Nat) (rest : List UInt8) (offset : Nat)
    (log : Array Event) :
    word field width { offset, rest := LittleEndian.split width n ++ rest, log } =
      .ok (n % LittleEndian.bound width) { offset := offset + width, rest, log } := by
  simp only [word, bind, EStateM.bind, take_append (LittleEndian.length_split width n), pure,
    EStateM.pure, LittleEndian.combine_split]

theorem hash_bytes (field : String) (h : Hash) (rest : List UInt8) (offset : Nat)
    (log : Array Event) :
    hash field { offset, rest := h.bytes ++ rest, log } =
      .ok h { offset := offset + 32, rest, log } := by
  simp only [hash, bind, EStateM.bind, take_append h.length_bytes, pure, EStateM.pure,
    Hash.ofBytes_bytes]

theorem timesFrom_eq (element : Reader α) (count : Nat) (acc : Array α) :
    timesFrom element count acc = (acc.toList ++ ·) <$> times count element := by
  induction count generalizing acc with
  | zero => simp [timesFrom, times]
  | succ count ih =>
      simp only [times, timesFrom, ih (Array.push _ _)]
      simp [Functor.map_map]

theorem times_zero (element : Reader α) : times 0 element = pure [] := rfl

theorem times_succ (element : Reader α) (count : Nat) :
    times (count + 1) element = (do
      let a ← element
      let rest ← times count element
      return a :: rest) := by
  show timesFrom element (count + 1) #[] = _
  simp only [timesFrom, timesFrom_eq]
  simp

end Reader
end HeaderRelay
