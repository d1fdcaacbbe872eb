import HeaderRelay.Proofs.Batch.Canonical
import HeaderRelay.Proofs.Message
import HeaderRelay.Proofs.Message.Delimiting

/-!
# What is read can be written

A message can be spelled in many payloads, with bytes behind it, counts in long forms, reserved bits
or versions in full where an entry would do. All of them are read as messages that a writer accepts,
so that writing what was read chooses one spelling among them.

* `Message.commands` — the commands that have a meaning here;
* `Message.ReadAs` — what each command makes of a payload;
* `ReadAs.withinLimits` — no reader lets a message through that its own writer refuses;
* `exists_encode_of_withinLimits`, `write_of_encode` — such a message has a payload;
* `Message.decode_normalises` — and it is the message that is read from that payload.
-/

namespace HeaderRelay
namespace Message

/-! ## What each command makes of a payload -/

/-- The commands that have a meaning here. -/
def commands : List String :=
  contentCommands ++ ["sendheaders", "sendheaders2"]

/-- Under the command, the payload is read as the message. -/
inductive ReadAs (codec : Codec) (payload : List UInt8) : String → Message → Prop where
  | getHeaders {locator : Locator} :
      outcome (Locator.readBounded (.start payload)) = .ok locator →
      ReadAs codec payload "getheaders" (.getHeaders locator)
  | getHeaders2 {locator : Locator} :
      outcome (Locator.readBounded (.start payload)) = .ok locator →
      ReadAs codec payload "getheaders2" (.getHeaders2 locator)
  | headers {hs : List BlockHeader} :
      outcome (HeaderList.read (.start payload)) = .ok hs →
      ReadAs codec payload "headers" (.headers hs)
  | headers2 {hs : List BlockHeader} :
      outcome (Batch.decode codec payload) = .ok hs →
      ReadAs codec payload "headers2" (.headers2 hs)
  | sendHeaders : ReadAs codec payload "sendheaders" .sendHeaders
  | sendHeaders2 : ReadAs codec payload "sendheaders2" .sendHeaders2
  -- any other command keeps its payload
  | unparsed {command : String} : command ∉ commands →
      ReadAs codec payload command (.unparsed command payload)

section

variable {codec : Codec} {command : String} {payload : List UInt8} {message : Message}

theorem decode_of_not_mem (h : command ∉ commands) :
    outcome (decode codec command payload) = .ok (.unparsed command payload) := by
  have hread : read codec command = readUnparsed command := by
    simp only [commands, contentCommands, List.cons_append, List.nil_append, List.mem_cons,
      List.not_mem_nil, or_false, not_or] at h
    rcases h with ⟨h₁, h₂, h₃, h₄, h₅, h₆⟩
    rw [read, if_neg h₁, if_neg h₂, if_neg h₃, if_neg h₄, if_neg h₅, if_neg h₆]
  unfold decode
  rw [hread]
  rfl

theorem exists_of_map_eq_ok {ε α β : Type} {kind : α → β} {content : Except ε α} {b : β}
    (h : content.map kind = .ok b) : ∃ a, content = .ok a ∧ kind a = b := by
  cases content with
  | error e => cases h
  | ok a =>
      cases h
      exact ⟨a, rfl, rfl⟩

theorem readAs_of_decode (h : outcome (decode codec command payload) = .ok message) :
    ReadAs codec payload command message := by
  by_cases hknown : command ∈ commands
  · simp only [commands, contentCommands, List.cons_append, List.nil_append, List.mem_cons,
      List.not_mem_nil, or_false] at hknown
    rcases hknown with rfl | rfl | rfl | rfl | rfl | rfl
    · rw [outcome_decode_getHeaders] at h
      rcases exists_of_map_eq_ok h with ⟨locator, hread, rfl⟩
      exact .getHeaders hread
    · rw [outcome_decode_getHeaders2] at h
      rcases exists_of_map_eq_ok h with ⟨locator, hread, rfl⟩
      exact .getHeaders2 hread
    · rw [outcome_decode_headers] at h
      rcases exists_of_map_eq_ok h with ⟨hs, hread, rfl⟩
      exact .headers hread
    · rw [outcome_decode_headers2] at h
      rcases exists_of_map_eq_ok h with ⟨hs, hread, rfl⟩
      exact .headers2 hread
    · cases (h : Except.ok Message.sendHeaders = Except.ok message)
      exact .sendHeaders
    · cases (h : Except.ok Message.sendHeaders2 = Except.ok message)
      exact .sendHeaders2
  · cases (decode_of_not_mem hknown).symm.trans h
    exact .unparsed hknown

namespace ReadAs

theorem command_eq (h : ReadAs codec payload command message) : message.command = command := by
  cases h with
  | getHeaders _ => rfl
  | getHeaders2 _ => rfl
  | headers _ => rfl
  | headers2 _ => rfl
  | sendHeaders => rfl
  | sendHeaders2 => rfl
  | unparsed _ => rfl

theorem withinLimits (h : ReadAs codec payload command message) : message.WithinLimits := by
  cases h with
  | getHeaders hread =>
      rcases exists_of_outcome_ok hread with ⟨s, hs⟩
      exact Locator.length_le_of_readBounded hs
  | getHeaders2 hread =>
      rcases exists_of_outcome_ok hread with ⟨s, hs⟩
      exact Locator.length_le_of_readBounded hs
  | headers hread =>
      rcases exists_of_outcome_ok hread with ⟨s, hs⟩
      exact HeaderList.length_le_of_read hs
  | headers2 hread =>
      rcases exists_of_outcome_ok hread with ⟨s, hs⟩
      rcases Batch.exists_parse_of_decode hs with ⟨parse, last, _, haccepts⟩
      exact haccepts.length_le
  | sendHeaders => trivial
  | sendHeaders2 => trivial
  | unparsed _ => trivial

end ReadAs

/-! ## Writing what was read -/

theorem exists_encode_of_withinLimits (h : message.WithinLimits) (codec : Codec) :
    ∃ encoded, message.encode codec = .ok encoded := by
  cases message with
  | headers2 hs =>
      -- the one kind of message that a writer refuses for its size
      rcases Batch.encode_of_length_le h codec with ⟨encoded, hencode, _⟩
      exact ⟨encoded, hencode⟩
  | _ => exact ⟨_, rfl⟩

theorem write_of_encode {encoded : Encoded} (h : message.encode codec = .ok encoded)
    (output : Encoded) : message.write codec output = .ok () (output.append encoded) := by
  simp only [write, Writing.ofOutcome, h]

/-- Whatever is read as a message, under whichever command, the message travels under that command
and has a payload, which is put behind any output and is read as the same message. -/
theorem decode_normalises (h : outcome (decode codec command payload) = .ok message) :
    message.command = command ∧
    ∃ encoded, message.encode codec = .ok encoded ∧
      (∀ output : Encoded, message.write codec output = .ok () (output.append encoded)) ∧
      outcome (decode codec command encoded.bytes) = .ok message := by
  have hread := readAs_of_decode h
  rcases exists_encode_of_withinLimits hread.withinLimits codec with ⟨encoded, hencode⟩
  refine ⟨hread.command_eq, encoded, hencode, write_of_encode hencode, ?_⟩
  by_cases hparsed : message.IsParsed
  · have hback := (decode_encoded_iff hparsed hencode).2 hread.withinLimits
    rwa [hread.command_eq] at hback
  · -- a payload that was kept is written as it came
    cases hread with
    | unparsed _ =>
        cases hencode
        exact h
    | _ => exact absurd trivial hparsed

end

/-- A count in three bytes, reserved bits in both records, and in the second one a version in full
that the table holds and a timestamp one below zero, in front of a byte too many: the payload that is
written instead is another one, with the same meaning. -/
theorem decode_normalises_respelled :
    ∃ (parse : Batch.Parse) (message : Message) (encoded : Encoded),
      parse = ⟨2, [0xFD, 2, 0],
        [⟨0xB8, some 4, some Hash.zero, Hash.zero, .full 0, some 1, 2⟩,
          ⟨0x40, some 4, none, Hash.zero, .offset (-1), none, 3⟩], [9]⟩ ∧
      message = .headers2
        [⟨4, Hash.zero, Hash.zero, 0, 1, 2⟩, ⟨4, Hash.zero, Hash.zero, 0xFFFFFFFF, 1, 3⟩] ∧
      outcome (decode ⟨.strict, fun _ => Hash.zero⟩ "headers2" parse.bytes) = .ok message ∧
      message.encode ⟨.strict, fun _ => Hash.zero⟩ = .ok encoded ∧
      encoded.bytes ≠ parse.bytes ∧
      outcome (decode ⟨.strict, fun _ => Hash.zero⟩ "headers2" encoded.bytes) = .ok message := by
  have haccepts : Batch.Parse.Accepts ⟨.strict, fun _ => Hash.zero⟩
      [⟨4, Hash.zero, Hash.zero, 0, 1, 2⟩, ⟨4, Hash.zero, Hash.zero, 0xFFFFFFFF, 1, 3⟩] _
      ⟨2, [0xFD, 2, 0],
        [⟨0xB8, some 4, some Hash.zero, Hash.zero, .full 0, some 1, 2⟩,
          ⟨0x40, some 4, none, Hash.zero, .offset (-1), none, 3⟩], [9]⟩ :=
    { size := CompactSize.Form.two 2
      bounded := by decide
      count := rfl
      spells :=
        .cons ⟨by decide, ⟨by decide, by decide, rfl, rfl, rfl⟩, rfl⟩
          (.cons ⟨by decide, ⟨by decide, by decide, rfl, rfl, rfl⟩, rfl⟩ .nil) }
  have hread := congrArg outcome (decode_headers2_of_ok (Batch.decode_accepted haccepts))
  rcases decode_normalises hread with ⟨_, encoded, hencode, _, hback⟩
  refine ⟨_, _, encoded, rfl, rfl, hread, hencode, ?_, hback⟩
  -- a writer begins with the count in one byte
  rcases Batch.encode_of_length_le haccepts.length_le ⟨.strict, fun _ => Hash.zero⟩ with
    ⟨written, hwritten, hbytes⟩
  cases (hencode.symm.trans hwritten : Except.ok encoded = Except.ok written)
  intro hsame
  rw [hbytes] at hsame
  cases (congrArg List.head? hsame : some (2 : UInt8) = some 0xFD)

end Message
end HeaderRelay
