import HeaderRelay.Proofs.Session.Delivery
import Mathlib.Data.Nat.Bitwise

/-!
# What two ends agree on

Each end of a connection announces once how it wants new headers. Announcements may come late, twice
or among other things, and either end may announce something that the two do not have in common.

* `Session.Heard`, `heard_run` — the announcements that a session remembers are those it received;
* `relayFormat_eq_headers2_iff` and its like — the format that follows from them;
* `Sends.compressed` — compressed relay is spoken only where both ends understand it;
* `Connection`, `Delivery`, `Connection.run` — both ends, and whatever reaches them in turn;
* `relay_is_negotiated` — the format at each end, at every moment of every run.
-/

namespace HeaderRelay

/-! ## Service bits and formats -/

theorem Services.headersCompressed_iff (services : Services) :
    services.headersCompressed = true ↔ services.bits.toNat.testBit 11 = true := by
  have hbit : services.headersCompressed = true ↔ services.bits.toNat &&& 2 ^ 11 = 2 ^ 11 := by
    rw [headersCompressed, has, beq_iff_eq, ← UInt64.toNat_inj, UInt64.toNat_and]
    rfl
  rw [hbit, Nat.and_two_pow]
  cases services.bits.toNat.testBit 11 with
  | true => simp
  | false => simp

namespace RelayFormat

/-- Position in the order in which formats get better. -/
def rank : RelayFormat → Nat
  | inventory => 0
  | headers => 1
  | headers2 => 2

theorem eq_of_rank_eq {a b : RelayFormat} (h : a.rank = b.rank) : a = b := by
  cases a <;> cases b <;> first | rfl | cases h

end RelayFormat

/-- Messages that take compressed relay at both ends. -/
def Message.IsCompressed : Message → Prop
  | sendHeaders2 => True
  | getHeaders2 _ => True
  | headers2 _ => True
  | _ => False

/-- Messages that say how their sender wants new headers. -/
def Message.IsAnnouncement : Message → Prop
  | sendHeaders => True
  | sendHeaders2 => True
  | _ => False

namespace Session

/-! ## What a session remembers -/

/-- The session knows that its peer announced the message. -/
def Heard (session : Session) : Message → Prop
  | .sendHeaders => session.wantsHeaders = true
  | .sendHeaders2 => session.wantsHeaders2 = true
  | _ => False

theorem heard_start (codec : Codec) (own peer : Services) (message : Message) :
    ¬ (start codec own peer).Heard message := by
  cases message <;> simp [Heard, start]

theorem heard_onMessage (session : Session) (received : Message) {message : Message}
    (h : message.IsAnnouncement) :
    (session.onMessage received).1.Heard message ↔
      session.Heard message ∨ received = message := by
  cases message with
  | sendHeaders => cases received <;> simp [onMessage, Heard]
  | sendHeaders2 => cases received <;> simp [onMessage, Heard]
  | _ => exact h.elim

theorem heard_receive (session : Session) (command : String) (payload : List UInt8)
    (message : Message) :
    (session.receive command payload).session.Heard message ↔ session.Heard message := by
  rcases session.exists_context_receive payload command with ⟨ctx, hsession⟩
  rw [hsession]
  cases message <;> exact Iff.rfl

theorem heard_step (session : Session) (call : Call) {message : Message}
    (h : message.IsAnnouncement) :
    (session.step call).Heard message ↔ session.Heard message ∨ call = .message message := by
  cases call with
  | message received =>
      rw [step, heard_onMessage session received h, Call.message.injEq]
  | payload command bytes =>
      rw [step, heard_receive]
      exact ⟨Or.inl, fun hor => hor.resolve_right nofun⟩

/-- An announcement is remembered from when it comes on. -/
theorem heard_run (session : Session) (calls : List Call) {message : Message}
    (h : message.IsAnnouncement) :
    (session.run calls).Heard message ↔ session.Heard message ∨ .message message ∈ calls := by
  induction calls generalizing session with
  | nil =>
      exact ⟨Or.inl, fun hor => hor.resolve_right List.not_mem_nil⟩
  | cons call calls ih =>
      calc
        (session.run (call :: calls)).Heard message
            ↔ ((session.step call).run calls).Heard message := Iff.rfl
        _ ↔ (session.step call).Heard message ∨ .message message ∈ calls := ih (session.step call)
        _ ↔ (session.Heard message ∨ call = .message message) ∨ .message message ∈ calls :=
            or_congr_left (heard_step session call h)
        _ ↔ session.Heard message ∨ .message message ∈ call :: calls := by
            rw [or_assoc, List.mem_cons, eq_comm (a := call)]

theorem compressionSupported_run (codec : Codec) (own peer : Services) (calls : List Call) :
    ((start codec own peer).run calls).compressionSupported = true ↔
      own.bits.toNat.testBit 11 = true ∧ peer.bits.toNat.testBit 11 = true := by
  have hterms := terms_run (start codec own peer) calls
  have hown : ((start codec own peer).run calls).ownServices = own :=
    congrArg Terms.ownServices hterms
  have hpeer : ((start codec own peer).run calls).peerServices = peer :=
    congrArg Terms.peerServices hterms
  rw [compressionSupported, hown, hpeer, Bool.and_eq_true, Services.headersCompressed_iff,
    Services.headersCompressed_iff]

/-! ## The format that follows -/

section Format

variable {session other : Session}

theorem relayFormat_eq_headers2_iff :
    session.relayFormat = .headers2 ↔
      session.Heard .sendHeaders2 ∧ session.compressionSupported = true := by
  unfold relayFormat Heard
  cases session.wantsHeaders2 <;> cases session.compressionSupported <;>
    cases session.wantsHeaders <;> simp

theorem relayFormat_eq_headers_iff :
    session.relayFormat = .headers ↔
      session.relayFormat ≠ .headers2 ∧
        (session.Heard .sendHeaders ∨ session.Heard .sendHeaders2) := by
  unfold relayFormat Heard
  cases session.wantsHeaders2 <;> cases session.compressionSupported <;>
    cases session.wantsHeaders <;> simp

theorem relayFormat_eq_inventory_iff :
    session.relayFormat = .inventory ↔
      ¬ session.Heard .sendHeaders ∧ ¬ session.Heard .sendHeaders2 := by
  unfold relayFormat Heard
  cases session.wantsHeaders2 <;> cases session.compressionSupported <;>
    cases session.wantsHeaders <;> simp

/-- Whoever has heard more relays in a format at least as good. -/
theorem rank_le_of_heard (hsupported : session.compressionSupported = other.compressionSupported)
    (h : ∀ message : Message, message.IsAnnouncement → session.Heard message →
      other.Heard message) :
    session.relayFormat.rank ≤ other.relayFormat.rank := by
  cases hformat : session.relayFormat with
  | inventory => exact Nat.zero_le _
  | headers =>
      have hnot : other.relayFormat ≠ .inventory := by
        rw [ne_eq, relayFormat_eq_inventory_iff, not_and_or, not_not, not_not]
        exact (relayFormat_eq_headers_iff.1 hformat).2.imp (h _ trivial) (h _ trivial)
      cases hother : other.relayFormat with
      | inventory => exact absurd hother hnot
      | headers => exact Nat.le_refl 1
      | headers2 => exact Nat.le_succ 1
  | headers2 =>
      rcases relayFormat_eq_headers2_iff.1 hformat with ⟨hheard, hboth⟩
      have hother : other.relayFormat = .headers2 :=
        relayFormat_eq_headers2_iff.2 ⟨h _ trivial hheard, hsupported ▸ hboth⟩
      rw [hother]

theorem relay_of_format_eq_headers2 (h : session.relayFormat = .headers2)
    (headers : List BlockHeader) : session.relay headers = some (.headers2 headers) := by
  rw [relay, h]

theorem relay_of_format_eq_headers (h : session.relayFormat = .headers)
    (headers : List BlockHeader) : session.relay headers = some (.headers headers) := by
  rw [relay, h]

/-- A session speaks of compressed relay only if both ends understand it. -/
theorem Sends.compressed {message : Message} (h : session.Sends message)
    (hcompressed : message.IsCompressed) : session.compressionSupported = true := by
  cases h with
  | announcement =>
      unfold Session.announcement at hcompressed
      split at hcompressed
      case isTrue hboth => exact hboth
      case isFalse => exact hcompressed.elim
  | request locator =>
      unfold Session.request at hcompressed
      split at hcompressed
      case isTrue hboth => exact hboth
      case isFalse => exact hcompressed.elim
  | @relay headers _ hrelay =>
      cases hformat : session.relayFormat with
      | headers2 => exact (relayFormat_eq_headers2_iff.1 hformat).2
      | headers =>
          cases (relay_of_format_eq_headers hformat headers).symm.trans hrelay
          exact hcompressed.elim
      | inventory =>
          rw [Session.relay, hformat] at hrelay
          cases hrelay

end Format

end Session

/-! ## Two ends -/

/-- One of the two ends of a connection. -/
inductive Side where
  | near
  | far
  deriving DecidableEq

def Side.other : Side → Side
  | near => far
  | far => near

structure Connection where
  near : Session
  far : Session

/-- Something that reaches one of the ends. -/
structure Delivery where
  side : Side
  call : Session.Call

namespace Connection

/-- Two ends to which nothing was said yet. What one of them says of itself, the other one knows. -/
def start (codec : Codec) (nearServices farServices : Services) : Connection where
  near := .start codec nearServices farServices
  far := .start codec farServices nearServices

def session (connection : Connection) : Side → Session
  | .near => connection.near
  | .far => connection.far

def deliver (connection : Connection) (delivery : Delivery) : Connection :=
  match delivery.side with
  | .near => { connection with near := connection.near.step delivery.call }
  | .far => { connection with far := connection.far.step delivery.call }

/-- The two ends after deliveries in a row. -/
def run (connection : Connection) (deliveries : List Delivery) : Connection :=
  deliveries.foldl deliver connection

/-- What reaches one of the ends, in the order in which it does. -/
def reaching (side : Side) (deliveries : List Delivery) : List Session.Call :=
  (deliveries.filter (·.side = side)).map Delivery.call

theorem mem_reaching {side : Side} {deliveries : List Delivery} {call : Session.Call} :
    call ∈ reaching side deliveries ↔ ⟨side, call⟩ ∈ deliveries := by
  simp only [reaching, List.mem_map, List.mem_filter, decide_eq_true_eq]
  constructor
  · rintro ⟨⟨side', call'⟩, ⟨hmem, rfl⟩, rfl⟩
    exact hmem
  · intro hmem
    exact ⟨⟨side, call⟩, ⟨hmem, rfl⟩, rfl⟩

/-- Each end goes its own way: what reaches the other one does not touch it. -/
theorem session_run (connection : Connection) (deliveries : List Delivery) (side : Side) :
    (connection.run deliveries).session side =
      (connection.session side).run (reaching side deliveries) := by
  induction deliveries generalizing connection with
  | nil => rfl
  | cons delivery deliveries ih =>
      rcases delivery with ⟨target, call⟩
      refine (ih (connection.deliver ⟨target, call⟩)).trans ?_
      cases target <;> cases side <;> rfl

section Ends

variable (codec : Codec) (a b : Services) (deliveries : List Delivery) (side : Side)

/-- An end knows the announcements that reached it, and no others. -/
theorem heard_run {message : Message} (h : message.IsAnnouncement) :
    (((start codec a b).run deliveries).session side).Heard message ↔
      ⟨side, .message message⟩ ∈ deliveries := by
  rw [session_run, Session.heard_run _ _ h, mem_reaching]
  cases side with
  | near => exact or_iff_right (Session.heard_start codec a b message)
  | far => exact or_iff_right (Session.heard_start codec b a message)

theorem compressionSupported_run :
    (((start codec a b).run deliveries).session side).compressionSupported = true ↔
      a.bits.toNat.testBit 11 = true ∧ b.bits.toNat.testBit 11 = true := by
  rw [session_run]
  cases side with
  | near => exact Session.compressionSupported_run codec a b _
  | far => exact (Session.compressionSupported_run codec b a _).trans and_comm

/-- The more has reached an end, the better its format. -/
theorem rank_run_le {more : List Delivery}
    (h : ∀ message : Message, ⟨side, .message message⟩ ∈ deliveries →
      ⟨side, .message message⟩ ∈ more) :
    (((start codec a b).run deliveries).session side).relayFormat.rank ≤
      (((start codec a b).run more).session side).relayFormat.rank := by
  refine Session.rank_le_of_heard ?_ ?_
  · rw [Bool.eq_iff_iff, compressionSupported_run, compressionSupported_run]
  · intro message hannouncement hheard
    rw [heard_run codec a b deliveries side hannouncement] at hheard
    exact (heard_run codec a b more side hannouncement).2 (h message hheard)

/-- What an end announces is a matter of the service bits. -/
theorem announcement_run :
    (((start codec a b).run deliveries).session side).announcement =
      if a.bits.toNat.testBit 11 = true ∧ b.bits.toNat.testBit 11 = true then .sendHeaders2
      else .sendHeaders := by
  rw [Session.announcement]
  simp only [compressionSupported_run]

end Ends

/-- At every moment of every run between two ends with the same view of their service bits, and at
each of them: compressed batches are relayed exactly if such were asked for and both ends understand
them, headers in full exactly if some other wish for headers came, and inventory else, whatever the
order in which these came; whatever comes later, the format only gets better; nothing compressed is
ever sent if not both ends understand it; and once the other end's announcement, made at whatever
moment, has come, headers are relayed in the best format that the two have in common. -/
theorem relay_is_negotiated (codec : Codec) (a b : Services) (deliveries : List Delivery)
    (side : Side) :
    let both := a.bits.toNat.testBit 11 = true ∧ b.bits.toNat.testBit 11 = true
    let session := ((start codec a b).run deliveries).session side
    (session.relayFormat = .headers2 ↔ ⟨side, .message .sendHeaders2⟩ ∈ deliveries ∧ both) ∧
    (session.relayFormat = .headers ↔ session.relayFormat ≠ .headers2 ∧
      (⟨side, .message .sendHeaders⟩ ∈ deliveries ∨
        ⟨side, .message .sendHeaders2⟩ ∈ deliveries)) ∧
    (session.relayFormat = .inventory ↔
      session.relayFormat ≠ .headers2 ∧ session.relayFormat ≠ .headers) ∧
    (∀ others : List Delivery, others.Perm deliveries →
      (((start codec a b).run others).session side).relayFormat = session.relayFormat) ∧
    (∀ later : List Delivery, session.relayFormat.rank ≤
      (((start codec a b).run (deliveries ++ later)).session side).relayFormat.rank) ∧
    (∀ message : Message, session.Sends message → message.IsCompressed → both) ∧
    ∀ earlier : List Delivery,
      ⟨side, .message (((start codec a b).run earlier).session side.other).announcement⟩ ∈
        deliveries →
      ∀ headers : List BlockHeader,
        (both → session.relay headers = some (.headers2 headers)) ∧
        (¬ both → session.relay headers = some (.headers headers)) := by
  intro both session
  have hheaders := heard_run codec a b deliveries side
    (show Message.sendHeaders.IsAnnouncement from trivial)
  have hheaders2 := heard_run codec a b deliveries side
    (show Message.sendHeaders2.IsAnnouncement from trivial)
  have hcompressed : session.relayFormat = .headers2 ↔
      ⟨side, .message .sendHeaders2⟩ ∈ deliveries ∧ both := by
    rw [Session.relayFormat_eq_headers2_iff, hheaders2, compressionSupported_run]
  have hplain : session.relayFormat = .headers ↔ session.relayFormat ≠ .headers2 ∧
      (⟨side, .message .sendHeaders⟩ ∈ deliveries ∨
        ⟨side, .message .sendHeaders2⟩ ∈ deliveries) := by
    rw [Session.relayFormat_eq_headers_iff, hheaders, hheaders2]
  refine ⟨hcompressed, hplain, ?_, ?_, ?_, ?_, ?_⟩
  · cases session.relayFormat <;> simp
  · intro others hperm
    apply RelayFormat.eq_of_rank_eq
    apply Nat.le_antisymm
    · exact rank_run_le codec a b others side fun message => hperm.mem_iff.1
    · exact rank_run_le codec a b deliveries side fun message => hperm.mem_iff.2
  · intro later
    exact rank_run_le codec a b deliveries side fun message => List.mem_append_left later
  · intro message hsends hmessage
    exact (compressionSupported_run codec a b deliveries side).1 (hsends.compressed hmessage)
  · intro earlier hannounced headers
    rw [announcement_run] at hannounced
    constructor
    · intro hboth
      rw [if_pos hboth] at hannounced
      exact Session.relay_of_format_eq_headers2 (hcompressed.2 ⟨hannounced, hboth⟩) headers
    · intro hboth
      rw [if_neg hboth] at hannounced
      have hformat : session.relayFormat = .headers :=
        hplain.2 ⟨fun h => hboth (hcompressed.1 h).2, Or.inl hannounced⟩
      exact Session.relay_of_format_eq_headers hformat headers

/-- Half a batch, what the other end announces, and a wish for less; and a wish for less at the
other end. -/
def crossedWishes : List Delivery :=
  [⟨.near, .payload "headers2" [2, 0x38]⟩, ⟨.near, .message .sendHeaders2⟩,
    ⟨.near, .message .sendHeaders⟩, ⟨.far, .message .sendHeaders⟩]

theorem relay_is_negotiated_crossed :
    (((start {} ⟨2048⟩ ⟨2049⟩).run []).session Side.near.other).announcement = .sendHeaders2 ∧
    crossedWishes.reverse.Perm crossedWishes ∧
    (((start {} ⟨2048⟩ ⟨2049⟩).run crossedWishes.reverse).session .near).relayFormat =
      (((start {} ⟨2048⟩ ⟨2049⟩).run crossedWishes).session .near).relayFormat ∧
    (((start {} ⟨2048⟩ ⟨2049⟩).run crossedWishes).session .near).relayFormat = .headers2 ∧
    (((start {} ⟨2048⟩ ⟨2049⟩).run crossedWishes).session .near).relay [] =
      some (.headers2 []) ∧
    (((start {} ⟨2048⟩ ⟨2049⟩).run crossedWishes).session .near).Sends (.headers2 []) ∧
    (2048 : UInt64).toNat.testBit 11 = true ∧ (2049 : UInt64).toNat.testBit 11 = true := by
  have hboth : (2048 : UInt64).toNat.testBit 11 = true ∧
      (2049 : UInt64).toNat.testBit 11 = true := by decide
  have hannouncement := (announcement_run {} ⟨2048⟩ ⟨2049⟩ [] Side.near.other).trans (if_pos hboth)
  have hwish : ⟨.near, .message .sendHeaders2⟩ ∈ crossedWishes :=
    List.mem_cons_of_mem _ List.mem_cons_self
  rcases relay_is_negotiated {} ⟨2048⟩ ⟨2049⟩ crossedWishes .near with
    ⟨hformat, _, _, hpermuted, _, hsends, hrelay⟩
  have hperm := List.reverse_perm crossedWishes
  have hrelayed := (hrelay [] (hannouncement ▸ hwish) []).1 hboth
  have hsent := Session.Sends.relay hrelayed
  exact ⟨hannouncement, hperm, hpermuted _ hperm, hformat.2 ⟨hwish, hboth⟩, hrelayed, hsent,
    hsends _ hsent trivial⟩

end Connection
end HeaderRelay
