import HeaderRelay.Proofs.Message.Normalisation
import HeaderRelay.Proofs.Session.Calls
import HeaderRelay.Proofs.Wire.Grammars

/-!
# Payloads that bring no headers

Headers come under two commands. A session that is asked for the headers of any other payload leaves
everything as it is, and there are none to hand out. But it looks at requests for headers, and a
request that is not well formed is an error and not an empty list.

* `Message.requestCommands` — the commands of requests for headers;
* `result_receive_request`, `result_receive_ignored` — what comes of requests and of the rest;
* `others_bring_no_headers` — for which payloads the list is empty, and what is reported otherwise;
* `others_bring_an_error` — a request that breaks off.
-/

namespace HeaderRelay

/-- The commands under which a peer asks for headers. -/
def Message.requestCommands : List String :=
  ["getheaders", "getheaders2"]

namespace Session

open Message (requestCommands)

section OnePayload

variable (session : Session) (payload : List UInt8) {command : String}

/-- A request is read for its own sake, and nothing is made of it. -/
theorem result_receive_request (h : command ∈ requestCommands) :
    (session.receive command payload).result =
      (outcome (Locator.readBounded (.start payload))).map fun _ => [] := by
  simp only [requestCommands, List.mem_cons, List.not_mem_nil, or_false] at h
  rcases h with rfl | rfl
  · rw [(receive_of_ne session payload (by decide)).1, Message.outcome_decode_getHeaders]
    cases outcome (Locator.readBounded (.start payload)) <;> rfl
  · rw [(receive_of_ne session payload (by decide)).1, Message.outcome_decode_getHeaders2]
    cases outcome (Locator.readBounded (.start payload)) <;> rfl

/-- Announcements have no payload to look at, and unknown messages are kept as they came. -/
theorem result_receive_ignored (hheaders : command ≠ "headers") (hheaders2 : command ≠ "headers2")
    (hrequest : command ∉ requestCommands) :
    (session.receive command payload).result = .ok [] := by
  rw [(receive_of_ne session payload hheaders2).1]
  by_cases hknown : command ∈ Message.commands
  · simp only [Message.commands, Message.contentCommands, requestCommands, List.cons_append,
      List.nil_append, List.mem_cons, List.not_mem_nil, or_false, not_or] at hknown hrequest
    rcases hknown with h | h | h | h | rfl | rfl
    · exact absurd h hrequest.1
    · exact absurd h hrequest.2
    · exact absurd h hheaders
    · exact absurd h hheaders2
    · rfl
    · rfl
  · rw [Message.decode_of_not_mem hknown]
    rfl

end OnePayload

/-- Whatever reached a session before, a payload under a command other than those of headers leaves
it as it is. The headers of that payload are an empty list, unless it is to be a request and is none:
then it is refused, with the number of its hashes if these are too many, and else because bytes are
missing. -/
theorem others_bring_no_headers (codec : Codec) (own peer : Services) (calls : List Call)
    (payload : List UInt8) {command : String} (hheaders : command ≠ "headers")
    (hheaders2 : command ≠ "headers2") :
    let session := (start codec own peer).run calls
    (session.receive command payload).session = session ∧
    ((session.receive command payload).result = .ok [] ↔
      command ∈ requestCommands → ∃ locator : Locator,
        locator.Begins payload ∧ locator.hashes.length ≤ Locator.maxHashes) ∧
    (command ∈ requestCommands →
      (∀ locator : Locator, locator.Begins payload →
        Locator.maxHashes < locator.hashes.length →
          (session.receive command payload).result =
            .error (.locatorTooLarge locator.hashes.length Locator.maxHashes)) ∧
      ((¬ ∃ locator : Locator, locator.Begins payload) →
        ∃ e, e.IsTruncation ∧ (session.receive command payload).result = .error e)) := by
  intro session
  have hlarge (hrequest : command ∈ requestCommands) (locator : Locator)
      (hbegins : locator.Begins payload) (hbound : Locator.maxHashes < locator.hashes.length) :
      (session.receive command payload).result =
        .error (.locatorTooLarge locator.hashes.length Locator.maxHashes) := by
    rw [result_receive_request session payload hrequest,
      Locator.outcome_readBounded_of_begins hbegins, if_neg (Nat.not_le.2 hbound)]
    rfl
  have hshort (hrequest : command ∈ requestCommands)
      (hnone : ¬ ∃ locator : Locator, locator.Begins payload) :
      ∃ e, e.IsTruncation ∧ (session.receive command payload).result = .error e := by
    rcases Locator.exists_truncation_of_not_begins hnone with ⟨e, htruncation, hread⟩
    refine ⟨e, htruncation, ?_⟩
    rw [result_receive_request session payload hrequest, hread]
    rfl
  refine ⟨(receive_of_ne session payload hheaders2).2, ⟨?_, ?_⟩,
    fun hrequest => ⟨hlarge hrequest, hshort hrequest⟩⟩
  · intro hempty hrequest
    by_cases hbegins : ∃ locator : Locator, locator.Begins payload
    · rcases hbegins with ⟨locator, hbegins⟩
      by_cases hbound : locator.hashes.length ≤ Locator.maxHashes
      · exact ⟨locator, hbegins, hbound⟩
      · cases hempty.symm.trans (hlarge hrequest locator hbegins (Nat.not_le.1 hbound))
    · rcases hshort hrequest hbegins with ⟨e, _, hread⟩
      cases hempty.symm.trans hread
  · intro hwellFormed
    by_cases hrequest : command ∈ requestCommands
    · rcases hwellFormed hrequest with ⟨locator, hbegins, hbound⟩
      rw [result_receive_request session payload hrequest,
        Locator.outcome_readBounded_of_begins hbegins, if_pos hbound]
      rfl
    · exact result_receive_ignored session payload hheaders hheaders2 hrequest

/-- A locator without hashes and a byte behind it, in the middle of a compressed batch. -/
theorem others_bring_no_headers_request :
    "getheaders2" ≠ "headers" ∧ "getheaders2" ≠ "headers2" ∧
    let session := (start {} ⟨2048⟩ ⟨2048⟩).run [.payload "headers2" [2, 0x38, 4, 0]]
    let locator : Locator := ⟨70230, [], Hash.zero⟩
    (session.receive "getheaders2" (locator.bytes ++ [7])).session = session ∧
    (session.receive "getheaders2" (locator.bytes ++ [7])).result = .ok [] := by
  have hbegins : (Locator.mk 70230 [] Hash.zero).Begins
      ((Locator.mk 70230 [] Hash.zero).bytes ++ [7]) :=
    ⟨_, [7], .mk (CompactSize.form_encode 0) rfl, rfl⟩
  have hheaders : "getheaders2" ≠ "headers" := by decide
  have hheaders2 : "getheaders2" ≠ "headers2" := by decide
  rcases others_bring_no_headers {} ⟨2048⟩ ⟨2048⟩ [.payload "headers2" [2, 0x38, 4, 0]]
    ((Locator.mk 70230 [] Hash.zero).bytes ++ [7]) hheaders hheaders2 with ⟨hsession, hempty, _⟩
  exact ⟨hheaders, hheaders2, hsession, hempty.2 fun _ => ⟨_, hbegins, Nat.zero_le _⟩⟩

/-- One byte where the four of a version have to be. -/
theorem others_bring_an_error :
    "getheaders" ≠ "headers" ∧ "getheaders" ≠ "headers2" ∧
    ((start {} ⟨0⟩ ⟨0⟩).receive "getheaders" [0]).result = .error (.truncated "u32" 0 4 1) ∧
    ((start {} ⟨0⟩ ⟨0⟩).receive "getheaders" [0]).result ≠ .ok [] := by
  have herror : ((start {} ⟨0⟩ ⟨0⟩).receive "getheaders" [0]).result =
      .error (.truncated "u32" 0 4 1) := rfl
  refine ⟨by decide, by decide, herror, ?_⟩
  rw [herror]
  intro h
  cases h

end Session
end HeaderRelay
