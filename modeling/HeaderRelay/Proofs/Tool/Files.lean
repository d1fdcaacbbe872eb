import HeaderRelay.Proofs.Tool.Content
import HeaderRelay.Proofs.Tool.FileTree
import HeaderRelay.Proofs.Tool.Jobs
import HeaderRelay.Proofs.Tool.Lines

/-!
# From file to file and to the screen

Headers are compressed into a file as a whole or not at all, and they are listed from a file as a
whole or not at all. What is listed from the compressed file are the headers that were there before.

* `FileAccess.Reads`, `FileAccess.Writable` — what is asked of a file system;
* `FileTree.access_reads`, `FileTree.access_writable` — files in memory do what is asked of them;
* `compressFile_of_error`, `compressFile_of_ok` — the output is written once, at the end;
* `Found`, `exists_found` — what a file is found to hold;
* `Prints`, `printFile_leaves` — what is printed of it;
* `headers_pass_through_files` — the two jobs, one after the other.
-/

namespace HeaderRelay
namespace Tool

open BlockHeader (size)

/-! ## File systems -/

namespace FileAccess

variable {σ : Type} (files : FileAccess (StateM σ))

/-- Reading the file gives this answer, and changes nothing. -/
def Reads (s : σ) (path : String) (answer : Except FileError (List UInt8)) : Prop :=
  (files.read path).run s = (answer, s)

/-- Anything can be written to the file and is read from it then. -/
structure Writable (s : σ) (path : String) (after : (content : List UInt8) → σ) : Prop where
  writes : ∀ content, (files.write path content).run s = (.ok (), after content)
  reads : ∀ content, files.Reads (after content) path (.ok content)

end FileAccess

theorem FileTree.access_reads (tree : FileTree) (path : String) :
    FileTree.access.Reads tree path (tree.read path) := rfl

theorem FileTree.access_writable {tree : FileTree} {path : String} {place : List String}
    (h : tree.Target path place) :
    FileTree.access.Writable tree path fun content => tree.set place (.file content) where
  writes := by
    intro content
    simp only [FileTree.access, StateT.run_bind, StateT.run_get, pure_bind, h.write_eq content]
    rfl
  reads := by
    intro content
    rw [FileAccess.Reads, ← h.read_set content]
    rfl

section Jobs

variable {σ : Type} {files : FileAccess (StateM σ)} {codec : Codec} {s : σ}

/-! ## Compressing a file -/

section Compressing

variable {input : String} (output : String)

theorem compressFile_of_unreadable {e : FileError} (h : files.Reads s input (.error e)) :
    (compressFile files codec input output).Leaves s (.error (.file e)) [] s :=
  (Job.ask_leaves s h).bind_error

theorem compressFile_of_error {raw : List UInt8} {e : ToolError}
    (hread : files.Reads s input (.ok raw)) (hcompress : compress codec raw = .error e) :
    (compressFile files codec input output).Leaves s (.error e) [] s := by
  refine (Job.ask_leaves s hread).bind ?_
  exact (Job.ofExcept_leaves s hcompress).bind_error

theorem compressFile_of_ok {raw : List UInt8} {encoded : Encoded} {t : σ}
    (hread : files.Reads s input (.ok raw)) (hcompress : compress codec raw = .ok encoded)
    (hwrite : (files.write output encoded.bytes).run s = (.ok (), t)) :
    (compressFile files codec input output).Leaves s (.ok encoded.bytes.length) [] t := by
  refine (Job.ask_leaves s hread).bind ?_
  refine (Job.ofExcept_leaves s hcompress).bind ((Job.report_leaves s _).bind ?_)
  -- the one step that changes anything
  refine (Job.ask_leaves s hwrite).bind ((Job.report_leaves t _).bind ?_)
  exact Job.pure_leaves t _

end Compressing

/-! ## Listing a file -/

/-- What is found in a file, given what reading it answers: headers, or the reason why there are
none. -/
inductive Found (codec : Codec) (hex : Bool) :
    Except FileError (List UInt8) → Except ToolError (List BlockHeader) → Prop where
  | noFile (e : FileError) : Found codec hex (.error e) (.error (.file e))
  | unreadable {content : List UInt8} {e : ToolError} :
      hex = true → Unreadable content e → Found codec hex (.ok content) (.error e)
  | broken {content payload : List UInt8} {e : DecodeError} :
      Holds hex content payload → outcome (Batch.decode codec payload) = .error e →
        Found codec hex (.ok content) (.error (.decode e))
  | headers {content payload : List UInt8} {headers : List BlockHeader} :
      Holds hex content payload → outcome (Batch.decode codec payload) = .ok headers →
        Found codec hex (.ok content) (.ok headers)

theorem exists_found (codec : Codec) (hex : Bool) (answer : Except FileError (List UInt8)) :
    ∃ found, Found codec hex answer found := by
  cases answer with
  | error e => exact ⟨_, .noFile e⟩
  | ok content =>
      rcases holds_or_unreadable hex content with ⟨payload, hholds⟩ | ⟨hhex, e, hunreadable⟩
      · cases hdecode : outcome (Batch.decode codec payload) with
        | error e => exact ⟨_, .broken hholds hdecode⟩
        | ok headers => exact ⟨_, .headers hholds hdecode⟩
      · exact ⟨_, .unreadable hhex hunreadable⟩

/-- The lines that are printed when this was found: of headers one each, and of a failure none. -/
def Prints (codec : Codec) : Except ToolError (List BlockHeader) → List String → Prop
  | .ok headers, lines => LineByLine codec headers lines
  | .error _, lines => lines = []

/-- The lines as the tool writes them. -/
def linesOf (codec : Codec) : Except ToolError (List BlockHeader) → List String
  | .ok headers => headers.mapIdx (headerLine codec)
  | .error _ => []

theorem prints_linesOf (codec : Codec) (found : Except ToolError (List BlockHeader)) :
    Prints codec found (linesOf codec found) := by
  cases found with
  | ok headers => exact lineByLine_mapIdx codec headers
  | error e => rfl

theorem printFile_leaves {path : String} {hex : Bool} {answer : Except FileError (List UInt8)}
    {found : Except ToolError (List BlockHeader)} (hread : files.Reads s path answer)
    (hfound : Found codec hex answer found) :
    (printFile files codec path hex).Leaves s (found.map List.length) (linesOf codec found) s := by
  cases hfound with
  | noFile e => exact (Job.ask_leaves s hread).bind_error
  | unreadable hhex hunreadable =>
      subst hhex
      refine (Job.ask_leaves s hread).bind ?_
      exact (Job.ofExcept_leaves s hunreadable.payloadOf_eq).bind_error
  | broken hholds hdecode =>
      rcases exists_of_outcome_error hdecode with ⟨t, hresult⟩
      refine (Job.ask_leaves s hread).bind ((Job.ofExcept_leaves s hholds.payloadOf_eq).bind ?_)
      simp only [hresult]
      exact (Job.report_leaves s _).bind (Job.throw_leaves s _)
  | @headers _ _ headers hholds hdecode =>
      rcases exists_of_outcome_ok hdecode with ⟨t, hresult⟩
      have hlines := printHeaders_leaves codec 0 headers s
      simp only [Nat.zero_add] at hlines
      refine (Job.ask_leaves s hread).bind ((Job.ofExcept_leaves s hholds.payloadOf_eq).bind ?_)
      simp only [hresult]
      exact (Job.report_leaves s _).bind ((Job.report_leaves s _).bind
        (hlines.bind_pure fun _ => headers.length))

/-! ## One after the other -/

/-- A whole number of headers is compressed, unless they are too many for a batch. -/
theorem compressFile_of_whole (codec : Codec) {input output : String} {after : List UInt8 → σ}
    {raw : List UInt8} (hwritable : files.Writable s output after) (hread : files.Reads s input (.ok raw))
    (hwhole : raw.length % size = 0) :
    (Batch.maxHeaders < raw.length / size →
      (compressFile files codec input output).Leaves s
        (.error (.tooManyHeaders (raw.length / size) Batch.maxHeaders)) [] s) ∧
    (raw.length / size ≤ Batch.maxHeaders →
      ∃ headers payload, parseRaw raw = .ok headers ∧
        (compressFile files codec input output).Leaves s (.ok payload.length) []
          (after payload) ∧
        outcome (Batch.decode codec payload) = .ok headers) := by
  have hlength : raw.length = size * (raw.length / size) :=
    (Nat.mul_div_cancel' (Nat.dvd_of_mod_eq_zero hwhole)).symm
  rcases exists_headers hlength with ⟨headers, hcount, rfl⟩
  rw [← hcount]
  constructor
  · intro hlarge
    exact compressFile_of_error output hread (compress_of_large codec hlarge)
  · intro hbound
    rcases compress_bytes codec hbound with ⟨encoded, hcompress, hdecode⟩
    refine ⟨headers, encoded.bytes, parseRaw_bytes headers, ?_, hdecode⟩
    exact compressFile_of_ok output hread hcompress (hwritable.writes encoded.bytes)

/-- Whatever the files hold: compressing one of them into another that can be written changes
nothing, unless it can be read and is a whole number of headers that fit in one batch. Then what is
written has the size that is returned, and the decoder finds in it the headers of the input. Any file
with this payload in it, as it is or as hex text, is listed with the same lines, one for each of the
headers; and nothing at all is printed of a file in which something else than headers is found. -/
theorem headers_pass_through_files (codec : Codec) {output : String} {after : List UInt8 → σ}
    (hwritable : files.Writable s output after) (input : String) :
    (∀ e, files.Reads s input (.error e) →
      (compressFile files codec input output).Leaves s (.error (.file e)) [] s) ∧
    (∀ raw, files.Reads s input (.ok raw) →
      ((compressFile files codec input output).Leaves s (.error (.ragged raw.length)) [] s ↔
        raw.length % size ≠ 0) ∧
      ((compressFile files codec input output).Leaves s
          (.error (.tooManyHeaders (raw.length / size) Batch.maxHeaders)) [] s ↔
        raw.length % size = 0 ∧ Batch.maxHeaders < raw.length / size) ∧
      (raw.length % size = 0 → raw.length / size ≤ Batch.maxHeaders →
        ∃ headers payload, parseRaw raw = .ok headers ∧
          (compressFile files codec input output).Leaves s (.ok payload.length) []
            (after payload) ∧
          files.Reads (after payload) output (.ok payload) ∧
          outcome (Batch.decode codec payload) = .ok headers ∧
          ∃ lines, LineByLine codec headers lines ∧
            ∀ (t : σ) (path : String) (hex : Bool) (content : List UInt8),
              files.Reads t path (.ok content) → Holds hex content payload →
                (printFile files codec path hex).Leaves t (.ok headers.length) lines t)) ∧
    ∀ (t : σ) (path : String) (hex : Bool) (answer : Except FileError (List UInt8)),
      files.Reads t path answer →
        (∃ found, Found codec hex answer found) ∧
        ∀ found, Found codec hex answer found →
          ∃ lines, Prints codec found lines ∧
            (printFile files codec path hex).Leaves t (found.map List.length) lines t := by
  refine ⟨fun e => compressFile_of_unreadable output, ?_, ?_⟩
  · intro raw hread
    have hragged (h : raw.length % size ≠ 0) :
        (compressFile files codec input output).Leaves s (.error (.ragged raw.length)) [] s :=
      compressFile_of_error output hread (compress_of_ragged codec h)
    have hwhole (h : raw.length % size = 0) :=
      compressFile_of_whole codec hwritable hread h
    refine ⟨⟨?_, hragged⟩, ⟨?_, ?_⟩, ?_⟩
    · -- a job leaves one thing only, and whole headers leave something else
      intro hleaves h
      by_cases hlarge : Batch.maxHeaders < raw.length / size
      · cases (hleaves.unique ((hwhole h).1 hlarge)).1
      · rcases (hwhole h).2 (Nat.not_lt.1 hlarge) with ⟨_, _, _, hwritten, _⟩
        cases (hleaves.unique hwritten).1
    · intro hleaves
      by_cases h : raw.length % size = 0
      · refine ⟨h, Nat.not_le.1 ?_⟩
        intro hbound
        rcases (hwhole h).2 hbound with ⟨_, _, _, hwritten, _⟩
        cases (hleaves.unique hwritten).1
      · cases (hleaves.unique (hragged h)).1
    · rintro ⟨h, hlarge⟩
      exact (hwhole h).1 hlarge
    · intro h hbound
      rcases (hwhole h).2 hbound with ⟨headers, payload, hparse, hwritten, hdecode⟩
      refine ⟨headers, payload, hparse, hwritten, hwritable.reads payload, hdecode,
        _, lineByLine_mapIdx codec headers, ?_⟩
      intro t path hex content hcontent hholds
      exact printFile_leaves hcontent (.headers hholds hdecode)
  · intro t path hex answer hread
    refine ⟨exists_found codec hex answer, ?_⟩
    intro found hfound
    exact ⟨_, prints_linesOf codec found, printFile_leaves hread hfound⟩

end Jobs

def oneHeader : BlockHeader :=
  ⟨-1, Hash.zero, Hash.zero, 1390095618, 0x1E0FFFF0, 28917698⟩

/-- One header in a file, and nothing else. -/
def oneHeaderFile : FileTree where
  entries := [(["in"], .file oneHeader.bytes)]

theorem headers_pass_through_files_single :
    FileTree.access.Writable oneHeaderFile "out"
      (fun content => oneHeaderFile.set ["out"] (.file content)) ∧
    ∃ payload : List UInt8,
      (compressFile FileTree.access { hasher := fun _ => Hash.zero } "in" "out").Leaves
        oneHeaderFile (.ok payload.length) [] (oneHeaderFile.set ["out"] (.file payload)) ∧
      (printFile FileTree.access { hasher := fun _ => Hash.zero } "out" false).Leaves
        (oneHeaderFile.set ["out"] (.file payload)) (.ok 1)
        ["0 0000000000000000000000000000000000000000000000000000000000000000 " ++
          "version=0xffffffff time=1390095618 bits=0x1e0ffff0 nonce=28917698"]
        (oneHeaderFile.set ["out"] (.file payload)) := by
  have htarget : oneHeaderFile.Target "out" ([] ++ ["out"]) := by
    have hlocate : oneHeaderFile.locate "out" = .ok (.named [] "out" false) := rfl
    have hchild : oneHeaderFile.child [] "out" = .ok none := rfl
    exact .mk hlocate hchild (by simp)
  have hwritable := FileTree.access_writable htarget
  have hread : FileTree.access.Reads oneHeaderFile "in" (.ok oneHeader.bytes) := by
    have hcontent : oneHeaderFile.read "in" = .ok oneHeader.bytes := rfl
    exact hcontent ▸ FileTree.access_reads oneHeaderFile "in"
  rcases headers_pass_through_files { hasher := fun _ => Hash.zero } hwritable "in" with
    ⟨_, hcompress, _⟩
  have hlength := oneHeader.length_bytes
  rcases (hcompress _ hread).2.2 (by rw [hlength]; decide) (by rw [hlength]; decide) with
    ⟨headers, payload, hparse, hwritten, houtput, _, lines, hlines, hlist⟩
  have hheaders : headers = [oneHeader] := by
    have hone := parseRaw_bytes [oneHeader]
    rw [List.flatMap_cons, List.flatMap_nil, List.append_nil] at hone
    exact Except.ok.inj (hparse.symm.trans hone)
  subst hheaders
  -- the one line is read off its description
  rcases hlines.2 0 oneHeader rfl with ⟨line, hline, hshows⟩
  have hsingle : lines = [line] := by
    rcases List.length_eq_one_iff.1 hlines.1 with ⟨only, rfl⟩
    exact congrArg (fun text => [text]) (Option.some.inj hline)
  have htext : line = "0 0000000000000000000000000000000000000000000000000000000000000000 " ++
      "version=0xffffffff time=1390095618 bits=0x1e0ffff0 nonce=28917698" :=
    String.toList_inj.1 (hshows.trans (by decide +kernel))
  subst hsingle htext
  exact ⟨hwritable, payload, hwritten, hlist _ _ _ _ houtput (.raw payload)⟩

end Tool
end HeaderRelay
