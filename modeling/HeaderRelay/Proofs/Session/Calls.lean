import HeaderRelay.Proofs.Wire.Steps
import HeaderRelay.Session

/-!
# What reaches a session

A peer sends messages, of which the session takes note, and payloads, which it reads. Some of the
payloads are refused, and the session goes on from there.

* `Session.Call`, `Session.step`, `Session.run` — what the peer sends and what becomes of a session;
* `result_receive_headers2`, `session_receive_headers2` — a compressed batch is read in the context
  that the session has, and what it leaves of that context stays with the session;
* `receive_of_ne` — any other payload is read by its command alone and changes nothing;
* `exists_context_receive` — no payload changes more of a session than its context;
* `Session.terms`, `terms_run` — the codec and the service bits are settled at the start.
-/

namespace HeaderRelay
namespace Session

/-! ## Calls -/

/-- One thing that the peer sent. -/
inductive Call where
  | message (message : Message)
  | payload (command : String) (bytes : List UInt8)

/-- The session after a call, whatever came of it. -/
def step (session : Session) : Call → Session
  | .message message => (session.onMessage message).1
  | .payload command bytes => (session.receive command bytes).session

/-- The session after calls in a row. -/
def run (session : Session) (calls : List Call) : Session :=
  calls.foldl step session

/-! ## One payload -/

section Payloads

variable (session : Session) (payload : List UInt8)

theorem receive_headers2 : session.receive "headers2" payload = session.receiveBatch payload :=
  if_pos rfl

theorem result_receive_headers2 :
    (session.receive "headers2" payload).result =
      outcome (Batch.decodeIn session.codec session.context payload) := by
  rw [receive_headers2, receiveBatch]
  cases Batch.decodeIn session.codec session.context payload with
  | ok headers s => rfl
  | error e s => rfl

theorem session_receive_headers2 {headers : List BlockHeader} {s : Decoding}
    (h : Batch.decodeIn session.codec session.context payload = .ok headers s) :
    (session.receive "headers2" payload).session = { session with context := s.context } := by
  rw [receive_headers2, receiveBatch, h]

/-- A payload that is not a compressed batch is read without regard to the session, which stays as
it is. -/
theorem receive_of_ne {command : String} (h : command ≠ "headers2") :
    (session.receive command payload).result =
        (outcome (Message.decode session.codec command payload)).map carried ∧
      (session.receive command payload).session = session := by
  rw [receive, if_neg h]
  cases Message.decode session.codec command payload with
  | ok message s => exact ⟨rfl, rfl⟩
  | error e s => exact ⟨rfl, rfl⟩

/-- Of a session, a payload changes the context at most. -/
theorem exists_context_receive (command : String) :
    ∃ ctx : Context,
      (session.receive command payload).session = { session with context := ctx } := by
  by_cases h : command = "headers2"
  · subst h
    cases hread : Batch.decodeIn session.codec session.context payload with
    | ok headers s => exact ⟨s.context, session_receive_headers2 session payload hread⟩
    | error e s =>
        refine ⟨s.context, ?_⟩
        rw [receive_headers2, receiveBatch, hread]
  · exact ⟨session.context, (receive_of_ne session payload h).2⟩

end Payloads

/-! ## What stays -/

/-- What no call changes. -/
structure Terms where
  codec : Codec
  ownServices : Services
  peerServices : Services

def terms (session : Session) : Terms where
  codec := session.codec
  ownServices := session.ownServices
  peerServices := session.peerServices

theorem terms_onMessage (session : Session) (message : Message) :
    (session.onMessage message).1.terms = session.terms := by
  cases message <;> rfl

theorem terms_receive (session : Session) (command : String) (payload : List UInt8) :
    (session.receive command payload).session.terms = session.terms := by
  rcases session.exists_context_receive payload command with ⟨ctx, hsession⟩
  rw [hsession]
  rfl

theorem terms_step (session : Session) (call : Call) :
    (session.step call).terms = session.terms := by
  cases call with
  | message message => exact terms_onMessage session message
  | payload command bytes => exact terms_receive session command bytes

theorem terms_run (session : Session) (calls : List Call) :
    (session.run calls).terms = session.terms := by
  induction calls generalizing session with
  | nil => rfl
  | cons call calls ih =>
      calc
        (session.run (call :: calls)).terms
            = ((session.step call).run calls).terms := rfl
        _ = (session.step call).terms := ih (session.step call)
        _ = session.terms := terms_step session call

theorem codec_run (codec : Codec) (own peer : Services) (calls : List Call) :
    ((start codec own peer).run calls).codec = codec :=
  congrArg Terms.codec (terms_run (start codec own peer) calls)

end Session
end HeaderRelay
