import HeaderRelay.Proofs.Wire.Grammars

/-!
# Uncompressed payloads taken apart

Batches in full and requests for headers are a count and so many elements, but their bounds are
looked at in different places: a batch is refused at its count, a request once all of it was read.
The count, and behind every header of a batch another number, may stand in any form of a compact
size; written again they stand in the shortest.

* `HeaderList.Parse`, `Locator.Parse` — payloads taken apart, with every number as it is spelled;
* `HeaderList.read_ok_iff`, `HeaderList.read_batchTooLarge_iff`, `HeaderList.read_error_cases` —
  what becomes of a batch;
* `Locator.readBounded_ok_iff`, `Locator.readBounded_locatorTooLarge_iff`,
  `Locator.readBounded_truncated_iff` — what becomes of a request;
* `HeaderList.Parse.bytes_eq_iff`, `Locator.Parse.bytes_eq_iff` — when writing again gives back the
  bytes that were read;
* `uncompressed_payloads_by_grammar` — all of this for any payload.
-/

namespace HeaderRelay

/-! ## Headers in full -/

theorem BlockHeader.read_parses : read.Parses fun header bytes => bytes = header.bytes := by
  refine ((Reader.i32_parses "version").bind fun version => (Reader.hash_parses "prev_block").bind
    fun prevBlock => (Reader.hash_parses "merkle_root").bind fun merkleRoot =>
    (Reader.u32_parses "timestamp").bind fun timestamp => (Reader.u32_parses "bits").bind fun bits =>
    (Reader.u32_parses "nonce").map fun nonce =>
      BlockHeader.mk version prevBlock merkleRoot timestamp bits nonce).congr ?_
  intro header bytes
  constructor
  · rintro ⟨version, _, _, rfl, ⟨prevBlock, _, _, rfl, ⟨merkleRoot, _, _, rfl, ⟨timestamp, _, _, rfl,
      ⟨bits, _, _, rfl, ⟨nonce, rfl, rfl⟩, rfl⟩, rfl⟩, rfl⟩, rfl⟩, rfl⟩
    rfl
  · rintro rfl
    exact ⟨_, _, _, rfl, ⟨_, _, _, rfl, ⟨_, _, _, rfl, ⟨_, _, _, rfl,
      ⟨_, _, _, rfl, ⟨_, rfl, rfl⟩, rfl⟩, rfl⟩, rfl⟩, rfl⟩, rfl⟩

namespace HeaderList

/-- A header with the transaction count behind it, and how that count is spelled. -/
structure Entry where
  header : BlockHeader
  transactions : UInt64
  size : List UInt8

def Entry.bytes (entry : Entry) : List UInt8 :=
  entry.header.bytes ++ entry.size

def EntryForm (header : BlockHeader) (bytes : List UInt8) : Prop :=
  ∃ entry : Entry, CompactSize.Form entry.transactions entry.size ∧ header = entry.header ∧
    bytes = entry.bytes

theorem readEntry_parses : readEntry.Parses EntryForm := by
  refine (BlockHeader.read_parses.bind fun header =>
    CompactSize.read_parses.map fun _ => header).congr ?_
  intro header bytes
  constructor
  · rintro ⟨header, _, size, rfl, ⟨transactions, hsize, rfl⟩, rfl⟩
    exact ⟨⟨_, transactions, size⟩, hsize, rfl, rfl⟩
  · rintro ⟨entry, hsize, rfl, rfl⟩
    exact ⟨_, _, _, rfl, ⟨_, hsize, rfl⟩, rfl⟩

theorem inRow_entryForm_iff {headers : List BlockHeader} {bytes : List UInt8} :
    Reader.InRow EntryForm headers bytes ↔
      ∃ entries : List Entry,
        (∀ entry ∈ entries, CompactSize.Form entry.transactions entry.size) ∧
        headers = entries.map Entry.header ∧ bytes = entries.flatMap Entry.bytes := by
  constructor
  · intro h
    induction h with
    | nil => exact ⟨[], fun _ h => absurd h List.not_mem_nil, rfl, rfl⟩
    | cons hentry _ ih =>
        rcases hentry with ⟨entry, hsize, rfl, rfl⟩
        rcases ih with ⟨entries, hsizes, rfl, rfl⟩
        exact ⟨entry :: entries, List.forall_mem_cons.2 ⟨hsize, hsizes⟩, rfl, rfl⟩
  · rintro ⟨entries, hsizes, rfl, rfl⟩
    induction entries with
    | nil => exact .nil
    | cons entry entries ih =>
        rcases List.forall_mem_cons.1 hsizes with ⟨hsize, hsizes⟩
        exact .cons ⟨entry, hsize, rfl, rfl⟩ (ih hsizes)

/-- A batch taken apart: its count, as a number and as it is spelled, and its entries. -/
structure Parse where
  count : UInt64
  size : List UInt8
  entries : List Entry

namespace Parse

def headers (parse : Parse) : List BlockHeader :=
  parse.entries.map Entry.header

def bytes (parse : Parse) : List UInt8 :=
  parse.size ++ parse.entries.flatMap Entry.bytes

/-- All numbers stand in some form, and there are as many entries as the count says. -/
structure IsWhole (parse : Parse) : Prop where
  size : CompactSize.Form parse.count parse.size
  sizes : ∀ entry ∈ parse.entries, CompactSize.Form entry.transactions entry.size
  length : parse.entries.length = parse.count.toNat

end Parse

/-- What follows the count. -/
def readEntries (count : UInt64) : Reader (List BlockHeader) :=
  if count.toNat > maxHeaders then
    throw (.batchTooLarge count.toNat maxHeaders)
  else
    Reader.times count.toNat readEntry

theorem read_eq : read = CompactSize.read >>= readEntries := rfl

theorem readEntries_of_le {count : UInt64} (h : count.toNat ≤ maxHeaders) :
    readEntries count = Reader.times count.toNat readEntry :=
  if_neg (Nat.not_lt.2 h)

theorem readEntries_of_lt {count : UInt64} (h : maxHeaders < count.toNat) (s : Reading) :
    readEntries count s = .error (.batchTooLarge count.toNat maxHeaders) s := by
  rw [readEntries, if_pos h]
  rfl

/-- A batch is read exactly if it is all there and its count is within the bound, whatever the
transaction counts are. -/
theorem read_ok_iff {payload : List UInt8} {headers : List BlockHeader} {t : Reading} :
    read (.start payload) = .ok headers t ↔
      ∃ (parse : Parse) (rest : List UInt8), parse.IsWhole ∧ parse.count.toNat ≤ maxHeaders ∧
        payload = parse.bytes ++ rest ∧ headers = parse.headers ∧
        t = { offset := parse.bytes.length, rest, log := #[] } := by
  rw [read_eq, Reading.start]
  constructor
  · intro hread
    rcases exists_of_bind_ok hread with ⟨count, u, hcount, hentries⟩
    rcases CompactSize.read_parses.ok_iff.1 hcount with ⟨size, ahead, hsize, rfl, rfl⟩
    by_cases hbound : count.toNat ≤ maxHeaders
    · rw [readEntries_of_le hbound] at hentries
      rcases (readEntry_parses.times count.toNat).ok_iff.1 hentries with
        ⟨back, rest, ⟨hlength, hrow⟩, rfl, rfl⟩
      rcases inRow_entryForm_iff.1 hrow with ⟨entries, hsizes, rfl, rfl⟩
      rw [List.length_map] at hlength
      refine ⟨⟨count, size, entries⟩, rest, ⟨hsize, hsizes, hlength⟩, hbound, ?_, rfl, ?_⟩
      · rw [Parse.bytes, List.append_assoc]
      · rw [Parse.bytes, List.length_append, Nat.zero_add]
    · rw [readEntries_of_lt (Nat.not_le.1 hbound)] at hentries
      cases hentries
  · rintro ⟨⟨count, size, entries⟩, rest, ⟨hsize, hsizes, hlength⟩, hbound, rfl, rfl, rfl⟩
    have hrow := inRow_entryForm_iff.2 ⟨entries, hsizes, rfl, rfl⟩
    rw [← List.length_map Entry.header] at hlength
    have hentries := (readEntry_parses.times count.toNat).yields ⟨hlength, hrow⟩
    rw [← readEntries_of_le hbound] at hentries
    have hbatch := (CompactSize.read_form hsize).bind hentries rest 0 #[]
    rw [Nat.zero_add] at hbatch
    exact hbatch

/-- A batch whose count is above the bound is refused where the count ends. -/
theorem read_of_form {count : UInt64} {size : List UInt8} (hsize : CompactSize.Form count size)
    (hlarge : maxHeaders < count.toNat) (rest : List UInt8) :
    read (.start (size ++ rest)) =
      .error (.batchTooLarge count.toNat maxHeaders)
        { offset := size.length, rest, log := #[] } := by
  rw [read_eq, Reading.start, bind_of_ok (CompactSize.read_form hsize rest 0 #[]),
    readEntries_of_lt hlarge, Nat.zero_add]

/-- Apart from that, a batch is refused for lack of bytes only. -/
theorem read_error_cases {payload : List UInt8} {e : DecodeError} {t : Reading}
    (h : read (.start payload) = .error e t) :
    e.IsTruncation ∨
      ∃ (count : UInt64) (size rest : List UInt8), CompactSize.Form count size ∧
        payload = size ++ rest ∧ maxHeaders < count.toNat ∧
        e = .batchTooLarge count.toNat maxHeaders ∧
        t = { offset := size.length, rest, log := #[] } := by
  rw [read_eq, Reading.start] at h
  rcases exists_of_bind_error h with hcount | ⟨count, u, hcount, hentries⟩
  · exact Or.inl (CompactSize.read_parses.truncates hcount)
  · rcases CompactSize.read_parses.ok_iff.1 hcount with ⟨size, rest, hsize, rfl, rfl⟩
    by_cases hbound : count.toNat ≤ maxHeaders
    · rw [readEntries_of_le hbound] at hentries
      exact Or.inl ((readEntry_parses.times count.toNat).truncates hentries)
    · rw [readEntries_of_lt (Nat.not_le.1 hbound)] at hentries
      cases hentries
      exact Or.inr ⟨count, size, rest, hsize, rfl, Nat.not_le.1 hbound, rfl, by rw [Nat.zero_add]⟩

theorem read_batchTooLarge_iff {payload : List UInt8} {n max : Nat} {t : Reading} :
    read (.start payload) = .error (.batchTooLarge n max) t ↔
      ∃ (count : UInt64) (size rest : List UInt8), CompactSize.Form count size ∧
        payload = size ++ rest ∧ maxHeaders < count.toNat ∧ n = count.toNat ∧ max = maxHeaders ∧
        t = { offset := size.length, rest, log := #[] } := by
  constructor
  · intro h
    rcases read_error_cases h with htruncation | ⟨count, size, rest, hsize, hpayload, hlarge, he, ht⟩
    · exact htruncation.elim
    · cases he
      exact ⟨count, size, rest, hsize, hpayload, hlarge, rfl, rfl, ht⟩
  · rintro ⟨count, size, rest, hsize, rfl, hlarge, rfl, rfl, rfl⟩
    exact read_of_form hsize hlarge rest

theorem flatMap_entryBytes_eq_iff {entries : List Entry}
    (h : ∀ entry ∈ entries, CompactSize.Form entry.transactions entry.size) :
    (entries.map Entry.header).flatMap entryBytes = entries.flatMap Entry.bytes ↔
      ∀ entry ∈ entries, entry.size = [0] := by
  induction entries with
  | nil => exact ⟨fun _ _ h => absurd h List.not_mem_nil, fun _ => rfl⟩
  | cons entry entries ih =>
      rcases List.forall_mem_cons.1 h with ⟨hsize, hsizes⟩
      rw [List.map_cons, List.flatMap_cons, List.flatMap_cons, entryBytes, Entry.bytes,
        List.append_assoc, List.append_assoc, List.append_cancel_left_eq, List.forall_mem_cons,
        (CompactSize.form_encode 0).append_eq_iff hsize, ih hsizes]
      exact and_congr_left' eq_comm

/-- The bytes that are written for a batch are those it was read from exactly if its count is
spelled in the shortest way and every transaction count is a single zero. -/
theorem Parse.bytes_eq_iff {parse : Parse} (h : parse.IsWhole) :
    HeaderList.bytes parse.headers = parse.bytes ↔
      (∀ other, CompactSize.Form parse.count other → parse.size.length ≤ other.length) ∧
        ∀ entry ∈ parse.entries, entry.size = [0] := by
  have hcount : CompactSize.encodeLength parse.headers = CompactSize.encode parse.count := by
    rw [CompactSize.encodeLength, headers, List.length_map, h.length, UInt64.ofNat_toNat]
  rw [HeaderList.bytes, hcount, bytes, h.size.encode_append_eq_iff, headers,
    flatMap_entryBytes_eq_iff h.sizes]

end HeaderList

/-! ## Locators -/

namespace Locator

/-- A locator taken apart: the number of its hashes, as a number and as it is spelled, and the
locator itself. -/
structure Parse where
  count : UInt64
  size : List UInt8
  locator : Locator

namespace Parse

def bytes (parse : Parse) : List UInt8 :=
  Writer.u32 parse.locator.version ++ (parse.size ++
    (parse.locator.hashes.flatMap Hash.bytes ++ parse.locator.stop.bytes))

/-- The count stands in some form, and there are as many hashes as it says. -/
structure IsWhole (parse : Parse) : Prop where
  size : CompactSize.Form parse.count parse.size
  length : parse.locator.hashes.length = parse.count.toNat

/-- The bytes that are written for a locator are those it was read from exactly if its count is
spelled in the shortest way. -/
theorem bytes_eq_iff {parse : Parse} (h : parse.IsWhole) :
    parse.locator.bytes = parse.bytes ↔
      ∀ other, CompactSize.Form parse.count other → parse.size.length ≤ other.length := by
  rw [Locator.bytes, bytes, CompactSize.encodeLength, h.length, UInt64.ofNat_toNat,
    List.append_cancel_left_eq, h.size.encode_append_eq_iff]
  exact and_iff_left rfl

end Parse

theorem form_iff {locator : Locator} {bytes : List UInt8} :
    locator.Form bytes ↔
      ∃ parse : Parse, parse.IsWhole ∧ locator = parse.locator ∧ bytes = parse.bytes := by
  constructor
  · rintro ⟨hsize, hlength⟩
    exact ⟨⟨_, _, locator⟩, ⟨hsize, hlength⟩, rfl, rfl⟩
  · rintro ⟨parse, ⟨hsize, hlength⟩, rfl, rfl⟩
    exact .mk hsize hlength

theorem read_ok_iff {payload : List UInt8} {locator : Locator} {t : Reading} :
    read (.start payload) = .ok locator t ↔
      ∃ (parse : Parse) (rest : List UInt8), parse.IsWhole ∧ payload = parse.bytes ++ rest ∧
        locator = parse.locator ∧ t = { offset := parse.bytes.length, rest, log := #[] } := by
  rw [Reading.start, read_parses.ok_iff]
  constructor
  · rintro ⟨front, rest, hform, rfl, rfl⟩
    rcases form_iff.1 hform with ⟨parse, hwhole, rfl, rfl⟩
    exact ⟨parse, rest, hwhole, rfl, rfl, by rw [Nat.zero_add]⟩
  · rintro ⟨parse, rest, hwhole, rfl, rfl, rfl⟩
    exact ⟨_, rest, form_iff.2 ⟨parse, hwhole, rfl, rfl⟩, rfl, by rw [Nat.zero_add]⟩

theorem readBounded_of_le {parse : Parse} (hwhole : parse.IsWhole)
    (h : parse.count.toNat ≤ maxHashes) (rest : List UInt8) :
    readBounded (.start (parse.bytes ++ rest)) =
      .ok parse.locator { offset := parse.bytes.length, rest, log := #[] } := by
  have hread := read_ok_iff.2 ⟨parse, rest, hwhole, rfl, rfl, rfl⟩
  rw [← hwhole.length] at h
  rw [readBounded_eq, bind_of_ok hread, check, if_neg (Nat.not_lt.2 h)]
  rfl

theorem readBounded_of_lt {parse : Parse} (hwhole : parse.IsWhole)
    (h : maxHashes < parse.count.toNat) (rest : List UInt8) :
    readBounded (.start (parse.bytes ++ rest)) =
      .error (.locatorTooLarge parse.count.toNat maxHashes)
        { offset := parse.bytes.length, rest, log := #[] } := by
  have hread := read_ok_iff.2 ⟨parse, rest, hwhole, rfl, rfl, rfl⟩
  rw [← hwhole.length] at h ⊢
  rw [readBounded_eq, bind_of_ok hread, check, if_pos h]
  rfl

/-- A request is refused for lack of bytes exactly if something of it is missing, whatever its
count. -/
theorem readBounded_truncated_iff {payload : List UInt8} :
    (∃ e t, readBounded (.start payload) = .error e t ∧ e.IsTruncation) ↔
      ¬ ∃ (parse : Parse) (rest : List UInt8), parse.IsWhole ∧ payload = parse.bytes ++ rest := by
  constructor
  · rintro ⟨e, t, herror, htruncation⟩ ⟨parse, rest, hwhole, rfl⟩
    by_cases hbound : parse.count.toNat ≤ maxHashes
    · cases herror.symm.trans (readBounded_of_le hwhole hbound rest)
    · cases herror.symm.trans (readBounded_of_lt hwhole (Nat.not_le.1 hbound) rest)
      exact htruncation.elim
  · intro hmissing
    cases hread : read (.start payload) with
    | ok locator t =>
        rcases read_ok_iff.1 hread with ⟨parse, rest, hwhole, hpayload, _⟩
        exact absurd ⟨parse, rest, hwhole, hpayload⟩ hmissing
    | error e t =>
        refine ⟨e, t, ?_, read_parses.truncates hread⟩
        rw [readBounded_eq, bind_of_error hread]

theorem exists_isWhole {payload : List UInt8}
    (h : ∀ e t, readBounded (.start payload) = .error e t → ¬ e.IsTruncation) :
    ∃ (parse : Parse) (rest : List UInt8), parse.IsWhole ∧ payload = parse.bytes ++ rest := by
  refine Classical.byContradiction fun hmissing => ?_
  rcases readBounded_truncated_iff.2 hmissing with ⟨e, t, herror, htruncation⟩
  exact h e t herror htruncation

/-- A request is read exactly if all of it is there and it has no more hashes than it may. -/
theorem readBounded_ok_iff {payload : List UInt8} {locator : Locator} {t : Reading} :
    readBounded (.start payload) = .ok locator t ↔
      ∃ (parse : Parse) (rest : List UInt8), parse.IsWhole ∧ parse.count.toNat ≤ maxHashes ∧
        payload = parse.bytes ++ rest ∧ locator = parse.locator ∧
        t = { offset := parse.bytes.length, rest, log := #[] } := by
  constructor
  · intro h
    rcases exists_isWhole fun e t herror => nomatch h.symm.trans herror with
      ⟨parse, rest, hwhole, rfl⟩
    by_cases hbound : parse.count.toNat ≤ maxHashes
    · cases h.symm.trans (readBounded_of_le hwhole hbound rest)
      exact ⟨parse, rest, hwhole, hbound, rfl, rfl, rfl⟩
    · cases h.symm.trans (readBounded_of_lt hwhole (Nat.not_le.1 hbound) rest)
  · rintro ⟨parse, rest, hwhole, hbound, rfl, rfl, rfl⟩
    exact readBounded_of_le hwhole hbound rest

/-- A request with too many hashes is refused with their number, once all of it was read. -/
theorem readBounded_locatorTooLarge_iff {payload : List UInt8} {n max : Nat} {t : Reading} :
    readBounded (.start payload) = .error (.locatorTooLarge n max) t ↔
      ∃ (parse : Parse) (rest : List UInt8), parse.IsWhole ∧ maxHashes < parse.count.toNat ∧
        payload = parse.bytes ++ rest ∧ n = parse.count.toNat ∧ max = maxHashes ∧
        t = { offset := parse.bytes.length, rest, log := #[] } := by
  constructor
  · intro h
    have hother : ∀ e t, readBounded (.start payload) = .error e t → ¬ e.IsTruncation := by
      intro e t herror
      cases h.symm.trans herror
      exact id
    rcases exists_isWhole hother with ⟨parse, rest, hwhole, rfl⟩
    by_cases hbound : parse.count.toNat ≤ maxHashes
    · cases h.symm.trans (readBounded_of_le hwhole hbound rest)
    · cases h.symm.trans (readBounded_of_lt hwhole (Nat.not_le.1 hbound) rest)
      exact ⟨parse, rest, hwhole, Nat.not_le.1 hbound, rfl, rfl, rfl, rfl⟩
  · rintro ⟨parse, rest, hwhole, hlarge, rfl, rfl, rfl, rfl⟩
    exact readBounded_of_lt hwhole hlarge rest

end Locator

/-! ## Both together -/

/-- Headers in full are read from a payload exactly if it begins with a count of at most 2000 in any
form and so many headers, each with a number in any form behind it; these numbers do not matter. A
count above 2000 is refused where it ends, and apart from that only bytes can be missing. A request
for headers is read exactly if the payload begins with all of it and with at most 101 hashes; it is
refused for its size exactly if all of it is there with more, and for lack of bytes exactly if
something is missing. Writing again gives back the bytes that were read exactly if every number in
them is spelled as it is written. -/
theorem uncompressed_payloads_by_grammar (payload : List UInt8) :
    (∀ headers t, HeaderList.read (.start payload) = .ok headers t ↔
      ∃ (parse : HeaderList.Parse) (rest : List UInt8), parse.IsWhole ∧
        parse.count.toNat ≤ 2000 ∧ payload = parse.bytes ++ rest ∧ headers = parse.headers ∧
        t = { offset := parse.bytes.length, rest, log := #[] }) ∧
    (∀ n max t, HeaderList.read (.start payload) = .error (.batchTooLarge n max) t ↔
      ∃ (count : UInt64) (size rest : List UInt8), CompactSize.Form count size ∧
        payload = size ++ rest ∧ 2000 < count.toNat ∧ n = count.toNat ∧ max = 2000 ∧
        t = { offset := size.length, rest, log := #[] }) ∧
    (∀ e t, HeaderList.read (.start payload) = .error e t →
      e.IsTruncation ∨ ∃ n, e = .batchTooLarge n 2000) ∧
    (∀ parse : HeaderList.Parse, parse.IsWhole →
      (HeaderList.bytes parse.headers = parse.bytes ↔
        (∀ other, CompactSize.Form parse.count other → parse.size.length ≤ other.length) ∧
          ∀ entry ∈ parse.entries, entry.size = [0])) ∧
    (∀ locator t, Locator.readBounded (.start payload) = .ok locator t ↔
      ∃ (parse : Locator.Parse) (rest : List UInt8), parse.IsWhole ∧ parse.count.toNat ≤ 101 ∧
        payload = parse.bytes ++ rest ∧ locator = parse.locator ∧
        t = { offset := parse.bytes.length, rest, log := #[] }) ∧
    (∀ n max t, Locator.readBounded (.start payload) = .error (.locatorTooLarge n max) t ↔
      ∃ (parse : Locator.Parse) (rest : List UInt8), parse.IsWhole ∧ 101 < parse.count.toNat ∧
        payload = parse.bytes ++ rest ∧ n = parse.count.toNat ∧ max = 101 ∧
        t = { offset := parse.bytes.length, rest, log := #[] }) ∧
    ((∃ e t, Locator.readBounded (.start payload) = .error e t ∧ e.IsTruncation) ↔
      ¬ ∃ (parse : Locator.Parse) (rest : List UInt8), parse.IsWhole ∧
        payload = parse.bytes ++ rest) ∧
    ∀ parse : Locator.Parse, parse.IsWhole →
      (parse.locator.bytes = parse.bytes ↔
        ∀ other, CompactSize.Form parse.count other → parse.size.length ≤ other.length) := by
  refine ⟨fun _ _ => HeaderList.read_ok_iff, fun _ _ _ => HeaderList.read_batchTooLarge_iff, ?_,
    fun _ => HeaderList.Parse.bytes_eq_iff, fun _ _ => Locator.readBounded_ok_iff,
    fun _ _ _ => Locator.readBounded_locatorTooLarge_iff, Locator.readBounded_truncated_iff,
    fun _ => Locator.Parse.bytes_eq_iff⟩
  intro e t h
  rcases HeaderList.read_error_cases h with htruncation | ⟨count, _, _, _, _, _, he, _⟩
  · exact Or.inl htruncation
  · exact Or.inr ⟨count.toNat, he⟩

/-- One header whose count takes three bytes and which has seven transactions, in front of another
byte: it is read, and written differently. -/
theorem uncompressed_payloads_by_grammar_respelled :
    let header : BlockHeader := ⟨1, Hash.zero, Hash.zero, 2, 3, 4⟩
    let parse : HeaderList.Parse := ⟨1, [0xFD, 1, 0], [⟨header, 7, [7]⟩]⟩
    HeaderList.read (.start (parse.bytes ++ [9])) =
        .ok [header] { offset := 84, rest := [9], log := #[] } ∧
      HeaderList.bytes [header] ≠ parse.bytes := by
  intro header parse
  have hwhole : parse.IsWhole := by
    refine ⟨.two 1, ?_, rfl⟩
    rw [List.forall_mem_singleton]
    exact .one (show (7 : UInt8) < 0xFD by decide)
  rcases uncompressed_payloads_by_grammar (parse.bytes ++ [9]) with ⟨hread, _, _, hbytes, _⟩
  constructor
  · exact (hread _ _).2 ⟨parse, [9], hwhole, by decide, rfl, rfl, rfl⟩
  · intro heq
    have hzero := ((hbytes parse hwhole).1 heq).2 _ (List.mem_singleton.2 rfl)
    exact absurd hzero (by decide)

end HeaderRelay
