import HeaderRelay.Proofs.Batch.RoundTrip
import HeaderRelay.Proofs.Compression.Omission
import HeaderRelay.Proofs.Compression.Recency

/-!
# Records as functions of the headers before them

The writer carries a context from record to record. What is in it at any point can be told from the
headers before that point alone: the last of them, and their versions by latest use.

* `recentVersions` — the distinct versions of headers, the one used last first;
* `recordBehind` — the record of a header behind others, with no context;
* `Context.behind` — the writer's context behind headers, in closed form;
* `advance_compress_behind`, `bytes_compress_behind` — one more header;
* `recordsFrom_behind` — any number of headers;
* `records_by_history` — the payload, and the version table behind it.
-/

namespace HeaderRelay

/-! ## Versions by latest use -/

/-- The versions of the headers, each of them once, the one used last first. -/
def recentVersions (headers : List BlockHeader) : List Int32 :=
  (headers.reverse.map BlockHeader.version).eraseDups

theorem recentVersions_concat (headers : List BlockHeader) (header : BlockHeader) :
    recentVersions (headers ++ [header]) =
      VersionTable.promote header.version (recentVersions headers) := by
  unfold recentVersions
  rw [List.reverse_concat, List.map_cons, VersionTable.eraseDups_cons_eq_promote]

theorem nodup_recentVersions (headers : List BlockHeader) : (recentVersions headers).Nodup := by
  unfold recentVersions
  induction headers.reverse with
  | nil => exact List.nodup_nil
  | cons header earlier ih =>
      rw [List.map_cons, VersionTable.eraseDups_cons_eq_promote]
      exact VersionTable.nodup_promote ih header.version

namespace VersionTable

theorem take_filter_take {table : VersionTable} (hnodup : table.Nodup) (version : Int32)
    (n : Nat) :
    ((table.take (n + 1)).filter fun other => !other == version).take n =
      (table.filter fun other => !other == version).take n := by
  induction table generalizing n with
  | nil => rfl
  | cons head table ih =>
      rcases List.nodup_cons.1 hnodup with ⟨hnew, htable⟩
      by_cases hhead : head = version
      · -- the one copy of the version is gone, and the others are below the bound
        have hall : ∀ other ∈ table, (!other == version) = true := by
          intro other hmem
          have hne : other ≠ version := fun heq => hnew (hhead ▸ heq ▸ hmem)
          simpa using hne
        have htake : ∀ other ∈ table.take n, (!other == version) = true := by
          intro other hmem
          exact hall other (List.mem_of_mem_take hmem)
        simp [hhead, List.filter_eq_self.2 hall, List.filter_eq_self.2 htake, List.take_take]
      · cases n with
        | zero => rfl
        | succ n => simp [hhead, ih htable n]

/-- A table that keeps the first versions only goes on as one that keeps them all. -/
theorem take_promote_take {table : VersionTable} (hnodup : table.Nodup) (version : Int32)
    (n : Nat) :
    (promote version (table.take (n + 1))).take (n + 1) = (promote version table).take (n + 1) := by
  simp only [promote, List.take_succ_cons, take_filter_take hnodup]

end VersionTable

/-! ## Records without a context -/

/-- One more than the rank of `version` among the first seven versions, or zero. -/
def rankSelector (versions : List Int32) (version : Int32) : Nat :=
  match versions.idxOf? version with
  | some rank => if rank < 7 then rank + 1 else 0
  | none => 0

/-- The record of `header` behind `previous`, where `versions` are those in use so far. -/
def laterRecord (hasher : Hasher) (versions : List Int32) (previous header : BlockHeader) :
    List UInt8 :=
  let selector := rankSelector versions header.version
  let difference : Int := header.timestamp.toNat - previous.timestamp.toNat
  let chained := header.prevBlock = hasher previous
  let short := -32768 ≤ difference ∧ difference ≤ 32767
  let same := header.bits = previous.bits
  UInt8.ofNat (selector + (if chained then 0 else 8) + (if short then 0 else 16) +
      (if same then 0 else 32)) ::
    ((if selector = 0 then Writer.i32 header.version else []) ++
      ((if chained then [] else header.prevBlock.bytes) ++
        (header.merkleRoot.bytes ++
          -- a short difference in two's complement
          ((if short then LittleEndian.split 2 (difference % 65536).toNat
            else Writer.u32 header.timestamp) ++
            ((if same then [] else Writer.u32 header.bits) ++ Writer.u32 header.nonce)))))

/-- The record of `header` behind the headers `before`. The first one says everything. -/
def recordBehind (hasher : Hasher) (before : List BlockHeader) (header : BlockHeader) :
    List UInt8 :=
  match before.getLast? with
  | none => 0x38 :: header.bytes
  | some previous => laterRecord hasher (recentVersions before) previous header

/-! ## Written fields -/

theorem TimeField.bytes_since (previous timestamp : UInt32) :
    (since previous timestamp).bytes =
      if IsShort previous timestamp then
        LittleEndian.split 2 (((timestamp.toNat - previous.toNat : Int) % 65536).toNat)
      else
        Writer.u32 timestamp := by
  by_cases h : IsShort previous timestamp
  · have hword (difference : Int) :
        (Int16.ofInt difference).toUInt16.toNat = (difference % 65536).toNat := by
      show (BitVec.ofInt 16 difference).toNat = _
      simp [BitVec.toNat_ofInt]
    rw [since_of_isShort h, if_pos h]
    show LittleEndian.split 2 (Int16.ofInt _).toUInt16.toNat = _
    rw [hword]
  · rw [since_of_not_isShort h, if_neg h]
    rfl

theorem VersionTable.selectorOf_take (versions : List Int32) (version : Int32) :
    selectorOf (versions.take 7) version = rankSelector versions version := by
  unfold selectorOf rankSelector List.idxOf?
  rw [List.findIdx?_take]
  cases versions.findIdx? (· == version) with
  | none => rfl
  | some rank => by_cases h : rank < 7 <;> simp [Option.guard, h]

/-! ## The context in closed form -/

namespace Context

/-- The writer's context behind the headers. -/
def behind (hasher : Hasher) (headers : List BlockHeader) : Context where
  versions := (recentVersions headers).take 7
  previous := (headers.getLast?.map (Snapshot.ofHeader hasher)).getD .blank
  hasher := hasher

theorem behind_nil (hasher : Hasher) : behind hasher [] = fresh hasher := rfl

theorem isBounded_behind (hasher : Hasher) (headers : List BlockHeader) :
    (behind hasher headers).IsBounded :=
  List.length_take_le 7 _

theorem previous_behind_concat (hasher : Hasher) (headers : List BlockHeader)
    (header : BlockHeader) :
    (behind hasher (headers ++ [header])).previous = .ofHeader hasher header := by
  simp [behind]

/-- One more header leads from the context behind the others to the one behind it. -/
theorem advance_compress_behind (hasher : Hasher) (before : List BlockHeader)
    (header : BlockHeader) :
    ((behind hasher before).compress before.isEmpty header).2.advance header =
      behind hasher (before ++ [header]) := by
  have hnodup := nodup_recentVersions before
  have hfirst : before.isEmpty = true → (behind hasher before).versions = [] := by
    intro hempty
    rw [List.isEmpty_iff.1 hempty]
    rfl
  have hversions :
      ((behind hasher before).compress before.isEmpty header).2.versions =
        (recentVersions (before ++ [header])).take 7 := by
    calc
      ((behind hasher before).compress before.isEmpty header).2.versions
          = (VersionTable.promote header.version ((recentVersions before).take 7)).take 7 :=
            versions_compress (hnodup.sublist (List.take_sublist 7 _))
              (isBounded_behind hasher before) hfirst header
      _ = (VersionTable.promote header.version (recentVersions before)).take 7 :=
            VersionTable.take_promote_take hnodup header.version 6
      _ = (recentVersions (before ++ [header])).take 7 := by
            rw [recentVersions_concat]
  have hhasher :
      ((behind hasher before).compress before.isEmpty header).2.hasher = hasher :=
    ((behind hasher before).snapshot_compress before.isEmpty header).2
  unfold advance
  rw [hversions, hhasher, ← previous_behind_concat hasher before header]
  rfl

/-- The bytes of the writer's record, field by field. -/
theorem bytes_compress {ctx : Context} (hbounded : ctx.IsBounded) (header : BlockHeader) :
    (ctx.compress false header).1.bytes =
      UInt8.ofNat (ctx.versions.selectorOf header.version +
          (if header.prevBlock = ctx.previous.hash then 0 else 8) +
          (if TimeField.IsShort ctx.previous.timestamp header.timestamp then 0 else 16) +
          (if header.bits = ctx.previous.bits then 0 else 32)) ::
        ((if ctx.versions.selectorOf header.version = 0 then Writer.i32 header.version else []) ++
          ((if header.prevBlock = ctx.previous.hash then [] else header.prevBlock.bytes) ++
            (header.merkleRoot.bytes ++
              ((TimeField.since ctx.previous.timestamp header.timestamp).bytes ++
                ((if header.bits = ctx.previous.bits then [] else Writer.u32 header.bits) ++
                  Writer.u32 header.nonce))))) := by
  rcases ctx.bitfield_compress hbounded header with ⟨hselector, hprevBlock, htime, hbits⟩
  have hlead := (ctx.compress false header).1.bitfield.toByte_eq_ofNat
  simp only [hselector, hprevBlock, htime, hbits, ite_not] at hlead
  rw [Record.bytes, hlead, compress_false, Record.against, bytes_referTo, optional_if, optional_if]

/-- The writer's record is the one that the headers before it determine. -/
theorem bytes_compress_behind (hasher : Hasher) (before : List BlockHeader)
    (header : BlockHeader) :
    ((behind hasher before).compress before.isEmpty header).1.bytes =
      recordBehind hasher before header := by
  cases hlast : before.getLast? with
  | none =>
      have hempty : before = [] := List.getLast?_eq_none_iff.1 hlast
      subst hempty
      exact Record.bytes_explicit header
  | some previous =>
      have hnonempty : before.isEmpty = false := by
        cases before with
        | nil => simp at hlast
        | cons first rest => rfl
      have hprevious : (behind hasher before).previous = .ofHeader hasher previous := by
        simp [behind, hlast]
      have hselector : (behind hasher before).versions.selectorOf header.version =
          rankSelector (recentVersions before) header.version :=
        VersionTable.selectorOf_take (recentVersions before) header.version
      rw [hnonempty, bytes_compress (isBounded_behind hasher before), hprevious, hselector,
        TimeField.bytes_since, recordBehind, hlast]
      rfl

end Context

/-! ## Whole batches -/

namespace Batch

theorem recordsFrom_behind (hasher : Hasher) (before headers : List BlockHeader) :
    (recordsFrom (.behind hasher before) before.isEmpty headers).1.map Record.bytes =
        (headers.mapIdx fun i header => recordBehind hasher (before ++ headers.take i) header) ∧
      (recordsFrom (.behind hasher before) before.isEmpty headers).2 =
        .behind hasher (before ++ headers) := by
  induction headers generalizing before with
  | nil => exact ⟨rfl, by simp [recordsFrom]⟩
  | cons header headers ih =>
      have hstep := Context.advance_compress_behind hasher before header
      have hrecord := Context.bytes_compress_behind hasher before header
      have hrest := ih (before ++ [header])
      have hnonempty : (before ++ [header]).isEmpty = false := by simp
      rw [hnonempty] at hrest
      rw [recordsFrom_cons, hstep]
      constructor
      · simp [List.mapIdx_cons, hrecord, hrest.1]
      · simp [hrest.2]

/-- The payload of a batch is its count, in the shortest form, and the record of each header as
the headers before it determine it. Behind the batch, the writer's table holds the last seven
distinct versions by latest use, and none of them twice. -/
theorem records_by_history (codec : Codec) (headers : List BlockHeader)
    (hbound : headers.length ≤ maxHeaders) :
    ∃ (encoded : Encoded) (size : List UInt8),
      encode codec headers = .ok encoded ∧
      encoded.bytes = size ++
        (headers.mapIdx fun i header =>
          recordBehind codec.hasher (headers.take i) header).flatten ∧
      CompactSize.Form (UInt64.ofNat headers.length) size ∧
      (∀ other, CompactSize.Form (UInt64.ofNat headers.length) other →
        size.length ≤ other.length) ∧
      (finalContext codec headers).versions = (recentVersions headers).take 7 ∧
      (finalContext codec headers).versions.Nodup := by
  rcases encode_of_length_le hbound codec with ⟨encoded, hencode, hbytes⟩
  have hsize := CompactSize.form_encode (UInt64.ofNat headers.length)
  rcases recordsFrom_behind codec.hasher [] headers with ⟨hrecords, hlast⟩
  -- a batch begins behind no header at all
  rw [Context.behind_nil] at hrecords hlast
  have hversions : (finalContext codec headers).versions = (recentVersions headers).take 7 :=
    congrArg Context.versions hlast
  refine ⟨encoded, CompactSize.encodeLength headers, hencode, ?_, hsize,
    hsize.eq_encode_iff.1 rfl, hversions, ?_⟩
  · calc
      encoded.bytes
          = CompactSize.encodeLength headers ++
              ((records codec headers).map Record.bytes).flatten := by
            rw [hbytes, List.flatMap_def]
      _ = _ := congrArg (fun bytes => CompactSize.encodeLength headers ++ bytes.flatten) hrecords
  · rw [hversions]
    exact (nodup_recentVersions headers).sublist (List.take_sublist 7 _)

/-- A version that comes back after another one is named by its place, and comes to the front. -/
theorem records_by_history_returning :
    ∃ encoded size,
      encode ⟨.strict, fun _ => Hash.zero⟩
          [⟨4, Hash.zero, Hash.zero, 7, 1, 2⟩, ⟨5, Hash.zero, Hash.zero, 12, 1, 3⟩,
            ⟨4, Hash.zero, Hash.zero, 2, 1, 4⟩] =
        .ok encoded ∧
      encoded.bytes = size ++
        ((0x38 :: BlockHeader.bytes ⟨4, Hash.zero, Hash.zero, 7, 1, 2⟩) ++
          ((0x00 :: (Writer.i32 5 ++ (Hash.zero.bytes ++ (Writer.i16 5 ++ Writer.u32 3)))) ++
            (0x02 :: (Hash.zero.bytes ++ (Writer.i16 (-10) ++ Writer.u32 4))))) ∧
      (finalContext ⟨.strict, fun _ => Hash.zero⟩
          [⟨4, Hash.zero, Hash.zero, 7, 1, 2⟩, ⟨5, Hash.zero, Hash.zero, 12, 1, 3⟩,
            ⟨4, Hash.zero, Hash.zero, 2, 1, 4⟩]).versions = [4, 5] := by
  rcases records_by_history ⟨.strict, fun _ => Hash.zero⟩
      [⟨4, Hash.zero, Hash.zero, 7, 1, 2⟩, ⟨5, Hash.zero, Hash.zero, 12, 1, 3⟩,
        ⟨4, Hash.zero, Hash.zero, 2, 1, 4⟩] (by decide) with
    ⟨encoded, size, hencode, hbytes, _, _, hversions, _⟩
  refine ⟨encoded, size, hencode, hbytes.trans ?_, hversions.trans (by decide)⟩
  exact congrArg (size ++ ·) (by decide +kernel)

end Batch
end HeaderRelay
