import HeaderRelay.Proofs.Tool.Content
import HeaderRelay.Proofs.Wire.DeclaredCounts
import HeaderRelay.Proofs.Wire.Uncompressed

/-!
# Headers without a count

Raw headers have no count in front of them. Their number follows from the length of the input, and it
comes to the same to read on for as long as anything is ahead: every turn takes the size of a header,
so that of whole headers there is never less left than a header.

* `BlockHeader.advance_of_read`, `BlockHeader.exists_read` — a header takes its size, and is read
  where there is that much;
* `Tool.readAhead` — reading on until nothing is ahead;
* `readAhead_of_inTurn`, `extent_of_inTurn` — what it has done after any number of turns;
* `parseRaw_eq_readAhead` — the number of headers need not be known;
* `parseRaw_error_iff`, `bytes_of_parseRaw` — which inputs are refused, and what the others hold;
* `raw_headers_are_their_bytes` — lists of headers and whole inputs are the same thing.
-/

namespace HeaderRelay

open Reader (InTurn)

/-! ## One header -/

namespace BlockHeader

variable {s t : Reading} {header : BlockHeader}

theorem read_consumes : read.Consumes :=
  (Layout.consumes_iff .header).2 rfl

theorem advance_of_read (h : read s = .ok header t) :
    t.offset = s.offset + size ∧ t.remaining + size = s.remaining := by
  rcases read_parses.ok_iff.1 h with ⟨front, rest, rfl, hrest, rfl⟩
  refine ⟨congrArg (s.offset + ·) header.length_bytes, ?_⟩
  rw [Reading.remaining, Reading.remaining, hrest, List.length_append, length_bytes, Nat.add_comm]

theorem exists_read (h : size ≤ s.remaining) : ∃ header t, read s = .ok header t := by
  rcases s with ⟨offset, ahead, log⟩
  rcases exists_bytes_append h with ⟨header, rest, rfl⟩
  exact ⟨header, _, read_bytes header rest offset log⟩

end BlockHeader

namespace Tool

open BlockHeader (size)

variable {bytes : List UInt8} {headers : List BlockHeader} {s t : Reading}

/-! ## Reading on -/

/-- Headers one after the other for as long as anything is ahead. -/
def readAhead (acc : Array BlockHeader) (s : Reading) :
    EStateM.Result DecodeError Reading (List BlockHeader) :=
  if s.atEnd then
    .ok acc.toList s
  else
    match _ : BlockHeader.read s with
    | .ok header t => readAhead (acc.push header) t
    | .error e t => .error e t
termination_by s.remaining
decreasing_by exact BlockHeader.read_consumes s t header ‹_›

theorem readAhead_of_atEnd (h : s.atEnd = true) (acc : Array BlockHeader) :
    readAhead acc s = .ok acc.toList s := by
  rw [readAhead, if_pos h]

theorem readAhead_of_ok {header : BlockHeader} (h : BlockHeader.read s = .ok header t)
    (acc : Array BlockHeader) : readAhead acc s = readAhead (acc.push header) t := by
  -- a header was read, so there was something to read
  have hahead : ¬ s.atEnd = true := by
    intro hend
    have hnone : s.remaining = 0 := List.length_eq_zero_iff.2 (List.isEmpty_iff.1 hend)
    have htaken := BlockHeader.read_consumes s t header h
    omega
  rw [readAhead, if_neg hahead]
  split
  case h_1 header' t' h' =>
    cases h.symm.trans h'
    rfl
  case h_2 e t' h' => cases h.symm.trans h'

/-- Headers that were read in turn are kept, and reading goes on from where they end. -/
theorem readAhead_of_inTurn (h : InTurn BlockHeader.read s headers t) (acc : Array BlockHeader) :
    readAhead acc s = readAhead (acc ++ headers) t := by
  induction h generalizing acc with
  | nil => rw [Array.appendList_nil]
  | cons hread _ ih => rw [readAhead_of_ok hread, ih, Array.appendList_cons]

theorem extent_of_inTurn (h : InTurn BlockHeader.read s headers t) :
    t.offset = s.offset + size * headers.length ∧
      t.remaining + size * headers.length = s.remaining := by
  induction h with
  | nil => exact ⟨rfl, rfl⟩
  | cons hread _ ih =>
      have hturn := BlockHeader.advance_of_read hread
      rw [List.length_cons, Nat.mul_succ]
      omega

/-! ## Whole headers -/

theorem inTurn_bytes (headers : List BlockHeader) (rest : List UInt8) (offset : Nat)
    (log : Array Event) :
    InTurn BlockHeader.read { offset, rest := headers.flatMap BlockHeader.bytes ++ rest, log }
      headers { offset := offset + size * headers.length, rest, log } := by
  induction headers generalizing offset with
  | nil => exact .nil
  | cons header headers ih =>
      have hlength : offset + size * (headers.length + 1) =
          offset + size + size * headers.length := by
        rw [Nat.mul_succ, Nat.add_assoc, Nat.add_comm size]
      rw [List.flatMap_cons, List.append_assoc, List.length_cons, hlength]
      exact .cons (header.read_bytes _ offset log) (ih (offset + size))

theorem readAhead_bytes (headers : List BlockHeader) :
    outcome (readAhead #[] (.start (headers.flatMap BlockHeader.bytes))) = .ok headers := by
  have hturns := inTurn_bytes headers [] 0 #[]
  rw [List.append_nil] at hturns
  rw [Reading.start, readAhead_of_inTurn hturns, readAhead_of_atEnd rfl]
  simp only [outcome_ok, Array.toList_appendList, List.nil_append]

theorem exists_headers_of_whole (h : bytes.length % size = 0) :
    ∃ headers : List BlockHeader, bytes = headers.flatMap BlockHeader.bytes := by
  rcases exists_headers (Nat.mul_div_cancel' (Nat.dvd_of_mod_eq_zero h)).symm with
    ⟨headers, _, hbytes⟩
  exact ⟨headers, hbytes⟩

/-- Before a turn there is nothing left, or as much as a header. -/
theorem atEnd_or_exists_read (h : bytes.length % size = 0)
    (hturns : InTurn BlockHeader.read (.start bytes) headers s) :
    s.atEnd = true ∨ ∃ header t, BlockHeader.read s = .ok header t ∧ t.offset = s.offset + size := by
  rcases extent_of_inTurn hturns with ⟨_, hremaining⟩
  have hwhole : s.remaining % size = 0 := by
    have hlength : bytes.length = s.remaining + size * headers.length := hremaining.symm
    rwa [hlength, Nat.add_mul_mod_self_left] at h
  by_cases hend : s.remaining = 0
  · exact Or.inl (List.isEmpty_iff.2 (List.length_eq_zero_iff.1 hend))
  · have hsize : size ≤ s.remaining :=
      Nat.le_of_dvd (Nat.pos_of_ne_zero hend) (Nat.dvd_of_mod_eq_zero hwhole)
    rcases BlockHeader.exists_read hsize with ⟨header, t, hread⟩
    exact Or.inr ⟨header, t, hread, (BlockHeader.advance_of_read hread).1⟩

/-! ## Inputs -/

/-- Whole headers are counted by reading them. -/
theorem parseRaw_eq_readAhead (bytes : List UInt8) :
    parseRaw bytes =
      if bytes.length % size = 0 then
        (outcome (readAhead #[] (.start bytes))).mapError .decode
      else
        .error (.ragged bytes.length) := by
  by_cases h : bytes.length % size = 0
  · rcases exists_headers_of_whole h with ⟨headers, rfl⟩
    rw [if_pos h, parseRaw_bytes, readAhead_bytes]
    rfl
  · rw [if_neg h, parseRaw_of_ragged h]

theorem parseRaw_error_iff {e : ToolError} :
    parseRaw bytes = .error e ↔ bytes.length % size ≠ 0 ∧ e = .ragged bytes.length := by
  constructor
  · intro herror
    by_cases h : bytes.length % size = 0
    · rcases exists_headers_of_whole h with ⟨headers, rfl⟩
      cases herror.symm.trans (parseRaw_bytes headers)
    · cases herror.symm.trans (parseRaw_of_ragged h)
      exact ⟨h, rfl⟩
  · rintro ⟨h, rfl⟩
    exact parseRaw_of_ragged h

theorem bytes_of_parseRaw (h : parseRaw bytes = .ok headers) :
    headers.flatMap BlockHeader.bytes = bytes := by
  by_cases hwhole : bytes.length % size = 0
  · rcases exists_headers_of_whole hwhole with ⟨found, rfl⟩
    cases h.symm.trans (parseRaw_bytes found)
    rfl
  · cases h.symm.trans (parseRaw_of_ragged hwhole)

/-- An input is refused exactly if it is no whole number of headers, and then with its length. Any
other one is the bytes of the headers found in it, of which there are as many as fit, and any
headers are found in their bytes. The headers need not be counted beforehand: if they are read one
after the other until nothing is ahead, each turn begins behind as many whole headers as were read,
and either ends the reading or takes one header more. -/
theorem raw_headers_are_their_bytes :
    (∀ (bytes : List UInt8) (e : ToolError), parseRaw bytes = .error e ↔
      bytes.length % size ≠ 0 ∧ e = .ragged bytes.length) ∧
    (∀ (bytes : List UInt8) (headers : List BlockHeader), parseRaw bytes = .ok headers →
      headers.length = bytes.length / size ∧ headers.flatMap BlockHeader.bytes = bytes) ∧
    (∀ headers : List BlockHeader, parseRaw (headers.flatMap BlockHeader.bytes) = .ok headers) ∧
    (∀ bytes : List UInt8, parseRaw bytes =
      if bytes.length % size = 0 then
        (outcome (readAhead #[] (.start bytes))).mapError .decode
      else
        .error (.ragged bytes.length)) ∧
    ∀ (bytes : List UInt8) (headers : List BlockHeader) (s : Reading),
      bytes.length % size = 0 → InTurn BlockHeader.read (.start bytes) headers s →
        readAhead #[] (.start bytes) = readAhead headers.toArray s ∧
        s.offset = size * headers.length ∧
        (s.atEnd = true ∨
          ∃ header t, BlockHeader.read s = .ok header t ∧ t.offset = s.offset + size) := by
  refine ⟨fun bytes e => parseRaw_error_iff, ?_, parseRaw_bytes, parseRaw_eq_readAhead, ?_⟩
  · intro bytes headers h
    have hbytes := bytes_of_parseRaw h
    refine ⟨?_, hbytes⟩
    rw [← hbytes, length_flatMap_bytes, Nat.mul_div_cancel_left _ (by decide)]
  · intro bytes headers s hwhole hturns
    have hoffset := (extent_of_inTurn hturns).1
    have hkept : (#[] : Array BlockHeader) ++ headers = headers.toArray := by simp
    refine ⟨?_, hoffset.trans (Nat.zero_add _), atEnd_or_exists_read hwhole hturns⟩
    rw [readAhead_of_inTurn hturns, hkept]

def twoHeaders : List BlockHeader :=
  [⟨-1, Hash.zero, Hash.zero, 7, 1, 2⟩, ⟨5, Hash.zero, Hash.zero, 8, 1, 3⟩]

/-- Behind the first of two headers, reading takes the second one. -/
theorem raw_headers_are_their_bytes_second :
    ∃ (bytes : List UInt8) (s t : Reading) (header : BlockHeader),
      bytes.length = 160 ∧ parseRaw bytes = .ok twoHeaders ∧
      InTurn BlockHeader.read (.start bytes) (twoHeaders.take 1) s ∧ s.offset = 80 ∧
      BlockHeader.read s = .ok header t ∧ t.offset = 160 := by
  rcases raw_headers_are_their_bytes with ⟨_, _, hbytes, _, hturn⟩
  have hlength : (twoHeaders.flatMap BlockHeader.bytes).length = 160 :=
    length_flatMap_bytes twoHeaders
  have hfirst := inTurn_bytes (twoHeaders.take 1)
    ((twoHeaders.drop 1).flatMap BlockHeader.bytes) 0 #[]
  rw [← List.flatMap_append, List.take_append_drop] at hfirst
  rcases hturn _ _ _ (by rw [hlength]; decide) hfirst with
    ⟨_, hoffset, hend | ⟨header, t, hread, ht⟩⟩
  · cases hend
  · rw [hoffset] at ht
    exact ⟨_, _, t, header, hlength, hbytes twoHeaders, hfirst, hoffset, hread, ht⟩

end Tool
end HeaderRelay
