import AsioServer.Lib.Machine
import AsioServer.Proofs.ReadRun

/-!
# Hostile lengths

`ReadState` is a session between two completions of its reads, together with
the bytes it was delivered so far. Everything that can happen to the session
is an event: a delivery, which needs an armed read, and the calls other threads
make on it, which touch the send queue only. In every state reached with a read
armed, the session stands for the undecoded tail of what was delivered
(`sessionStep_parsing`), so one more delivery is judged by `handleRead_spec`.

A delivery is contained when the call stays inside its buffers and leaves the
session either reading or cleared. The one exit that does neither is the
handler around the loop: a length field from 32768 on is negative as a signed
short, passes the check against `MAX_LENGTH`, and fails in the constructor of
the node.
-/

namespace AsioServer

open Framing

/-! ## Sessions under their events -/

structure ReadState where
  session : CSession
  armed : Bool
  received : Bytes

inductive SessionEvent where
  | delivery (server : CServer) (chunk : Bytes)
  | send (msg : Bytes) (msgId : Int)
  | sendBuffer (msg : Bytes) (maxLength msgId : Int)
  | written

instance (chunk : Bytes) : Decidable (Chunk chunk) :=
  inferInstanceAs (Decidable (_ ∧ _))

/-- What a call of `Send` or `HandleWrite` leaves of the session. An exception
leaves it as it was. -/
def ReadState.afterWrite (l : ReadState) : Except Fault WriteCall → Option ReadState
  | .ok w => some { l with session := w.session }
  | .error f => if f.isException then some l else none

def sessionStep (l : ReadState) : SessionEvent → Option ReadState
  | .delivery server chunk =>
      if l.armed = true ∧ Chunk chunk then
        (l.session.handleRead server false chunk).map fun call =>
          { session := call.session
            armed := decide (call.armed ≠ 0)
            received := l.received ++ chunk }
      else none
  | .send msg msgId => l.afterWrite (l.session.send msg msgId)
  | .sendBuffer msg maxLength msgId =>
      l.afterWrite (l.session.sendBuffer msg maxLength msgId)
  | .written => l.afterWrite l.session.handleWritten

/-- `Start()` on a fresh session. -/
def ReadState.start (uuid : Uuid) : ReadState :=
  { session := CSession.new uuid
    armed := true
    received := [] }

/-- While a read is armed the session stands for the undecoded tail of what
it was delivered, and no header was refused. -/
structure Parsing (uuid : Uuid) (l : ReadState) : Prop where
  uuid_eq : l.session.uuid = uuid
  good : l.armed = true → (wire.decode l.received).bad = false
  held : l.armed = true → Represents l.session (wire.decode l.received).tail

/-- The queue is no part of what a session stands for. -/
theorem Represents.setQue {s : CSession} {held : Bytes} (h : Represents s held)
    (que : List SendNode) : Represents { s with sendQue := que } held := by
  cases h with
  | head flag size holds part => exact .head flag size holds part
  | body flag size msgNode id idLe total lenLe holds part =>
      exact .body flag size msgNode id idLe total lenLe holds part

theorem Parsing.setQue {uuid : Uuid} {l : ReadState} (h : Parsing uuid l)
    (que : List SendNode) :
    Parsing uuid { l with session := { l.session with sendQue := que } } :=
  ⟨h.uuid_eq, h.good, fun ha => (h.held ha).setQue que⟩

theorem Parsing.afterWrite {uuid : Uuid} {l l' : ReadState} {r : Except Fault WriteCall}
    (h : Parsing uuid l)
    (hr : ∀ w, r = .ok w → ∃ que, w.session = { l.session with sendQue := que })
    (hl : l.afterWrite r = some l') : Parsing uuid l' := by
  cases r with
  | ok w =>
      cases hl
      obtain ⟨que, hque⟩ := hr w rfl
      rw [hque]
      exact h.setQue que
  | error f =>
      rw [ReadState.afterWrite] at hl
      split at hl
      · cases hl
        exact h
      · cases hl

theorem handleWritten_session {s : CSession} {w : WriteCall}
    (h : s.handleWritten = .ok w) : ∃ que, w.session = { s with sendQue := que } := by
  unfold CSession.handleWritten at h
  split at h
  · cases h
  · cases h
    exact ⟨_, rfl⟩

/-- A delivery to a session that stands for the tail of what it received. -/
theorem Parsing.callSpec {uuid : Uuid} {l : ReadState} (h : Parsing uuid l)
    (harmed : l.armed = true) (server : CServer) {chunk : Bytes}
    (hchunk : Chunk chunk) :
    CallSpec (ReadCall.start l.session server chunk.length)
      ((wire.decode l.received).tail ++ chunk)
      (l.session.handleRead server false chunk) :=
  handleRead_spec (h.held harmed) hchunk.1 hchunk.2

theorem sessionStep_parsing {uuid : Uuid} {l l' : ReadState} {e : SessionEvent}
    (h : Parsing uuid l) (hl : sessionStep l e = some l') : Parsing uuid l' := by
  cases e with
  | delivery server chunk =>
      rw [sessionStep] at hl
      split at hl
      · next hguard =>
          obtain ⟨harmed, hchunk⟩ := hguard
          obtain ⟨call, hcall, rfl⟩ := Option.map_eq_some_iff.mp hl
          have hspec := h.callSpec harmed server hchunk
          have happ := decode_append l.received chunk (h.good harmed)
          cases hb : (wire.decode ((wire.decode l.received).tail ++ chunk)).bad with
          | false =>
              obtain ⟨c', hr, hu, -, hrep⟩ := hspec.good hb
              cases hr.symm.trans hcall
              refine ⟨hu.uuid.trans h.uuid_eq, fun _ => ?_, fun _ => ?_⟩
              · rw [happ]
                exact hb
              · rw [happ]
                exact hrep
          | true =>
              -- Neither kind of refused header arms a read.
              have hstop : call.armed = 0 ∧ call.session.uuid = uuid := by
                by_cases hn : NegLen (wire.decode
                    ((wire.decode l.received).tail ++ chunk)).tail
                · obtain ⟨c', f, hr, hu, -⟩ := hspec.neg hb hn
                  cases hr.symm.trans hcall
                  exact ⟨hu.armed, hu.uuid.trans h.uuid_eq⟩
                · obtain ⟨c', hr, hu, -⟩ := hspec.bad hb hn
                  cases hr.symm.trans hcall
                  exact ⟨hu.armed, hu.uuid.trans h.uuid_eq⟩
              have hoff : decide (call.armed ≠ 0) = false := by
                rw [hstop.1]
                rfl
              exact ⟨hstop.2, fun ha => absurd (hoff.symm.trans ha) (by decide),
                fun ha => absurd (hoff.symm.trans ha) (by decide)⟩
      · cases hl
  | send msg msgId => exact h.afterWrite (fun _ hw => CSession.enqueue_session hw) hl
  | sendBuffer msg maxLength msgId =>
      exact h.afterWrite (fun _ hw => CSession.enqueue_session hw) hl
  | written => exact h.afterWrite (fun _ hw => handleWritten_session hw) hl

theorem start_parsing (uuid : Uuid) : Parsing uuid (ReadState.start uuid) := by
  have hd : wire.decode [] = ⟨[], [], false⟩ := decode_more rfl
  refine ⟨rfl, fun _ => ?_, fun _ => ?_⟩
  · rw [show (ReadState.start uuid).received = [] from rfl, hd]
  · rw [show (ReadState.start uuid).received = [] from rfl, hd]
    exact represents_new uuid

/-! ## Containment -/

/-- What a delivery of `chunk` may do to a session that received `received`
before: nothing outside its buffers, and the session goes on reading inside the
map or is out of it with no read armed. A refused header takes it out, and
what the call posted are the frames in front of that header. -/
structure Contained (uuid : Uuid) (received chunk : Bytes) (call : ReadCall) :
    Prop where
  inBounds : call.fault = none
  exits : (call.armed = 1 ∧ uuid ∈ call.server.sessions) ∨
    (call.armed = 0 ∧ uuid ∉ call.server.sessions)
  refused : (wire.decode (received ++ chunk)).bad = true →
    uuid ∉ call.server.sessions ∧
      (wire.decode received).msgs.map .ok ++ call.posted.map RecvNode.message =
        (wire.decode (received ++ chunk)).msgs.map .ok

/-- A header with a negative length is a refused one. -/
theorem NegLen.frameHead {xs : Bytes} (h : NegLen xs) : frameHead xs = .bad := by
  obtain ⟨a, b, c, d, rest, rfl, -, hge⟩ := h
  rw [frameHead_cons, if_pos (Or.inr (by rw [maxLength_eq]; omega))]

theorem bad_of_negLen_tail {xs : Bytes} (h : NegLen (wire.decode xs).tail) :
    (wire.decode xs).bad = true := by
  by_contra hgood
  have hmore := head_tail xs (eq_false_of_ne_true hgood)
  rw [wire_head, h.frameHead] at hmore
  cases hmore

/-- A call is contained exactly when the decoder does not stop at a header with
a negative length. -/
theorem Parsing.contained_iff {uuid : Uuid} {l : ReadState} (h : Parsing uuid l)
    (harmed : l.armed = true) {server : CServer} (hmem : uuid ∈ server.sessions)
    {chunk : Bytes} (hchunk : Chunk chunk) :
    ∃ call, l.session.handleRead server false chunk = some call ∧
      (Contained uuid l.received chunk call ↔
        ¬ NegLen (wire.decode (l.received ++ chunk)).tail) := by
  have hspec := h.callSpec harmed server hchunk
  have happ := decode_append l.received chunk (h.good harmed)
  have htail : (wire.decode (l.received ++ chunk)).tail =
      (wire.decode ((wire.decode l.received).tail ++ chunk)).tail := by rw [happ]
  have hbad : (wire.decode (l.received ++ chunk)).bad =
      (wire.decode ((wire.decode l.received).tail ++ chunk)).bad := by rw [happ]
  have hmsgs : (wire.decode (l.received ++ chunk)).msgs = (wire.decode l.received).msgs ++
      (wire.decode ((wire.decode l.received).tail ++ chunk)).msgs := by rw [happ]
  by_cases hn : NegLen (wire.decode (l.received ++ chunk)).tail
  · -- The handler swallows the exception and the call returns.
    have hb := bad_of_negLen_tail hn
    rw [hbad] at hb
    rw [htail] at hn
    obtain ⟨c', f, hr, -⟩ := hspec.neg hb hn
    refine ⟨_, hr, fun hc => ?_, fun hc => ?_⟩
    · cases hc.inBounds
    · rw [htail] at hc
      exact absurd hn hc
  · cases hb : (wire.decode ((wire.decode l.received).tail ++ chunk)).bad with
    | false =>
        obtain ⟨c', hr, hu, -⟩ := hspec.good hb
        refine ⟨_, hr, fun _ => hn, fun _ => ⟨hu.fault, Or.inl ?_, fun hb' => ?_⟩⟩
        · exact ⟨congrArg (· + 1) hu.armed, by
            rw [show c'.arm.server = server from hu.server]; exact hmem⟩
        · rw [hbad, hb] at hb'
          cases hb'
    | true =>
        obtain ⟨c', hr, hu, hp⟩ := hspec.bad hb (by rwa [← htail])
        have hout : uuid ∉ c'.clearSession.server.sessions := by
          show uuid ∉ (c'.server.clearSession c'.session.uuid).sessions
          rw [show c'.session.uuid = uuid from hu.uuid.trans h.uuid_eq]
          simp
        refine ⟨_, hr, fun _ => hn, fun _ => ⟨hu.fault, Or.inr ⟨hu.armed, hout⟩, ?_⟩⟩
        intro _
        refine ⟨hout, ?_⟩
        rw [hmsgs, List.map_append]
        exact congrArg _ (hp.messages rfl)

theorem exec_parsing {uuid : Uuid} {events : List SessionEvent} {l : ReadState}
    (hrun : Machine.exec sessionStep (ReadState.start uuid) events = some l) :
    Parsing uuid l :=
  Machine.exec_invariant (fun _ _ _ h hl => sessionStep_parsing h hl)
    (start_parsing uuid) hrun

/-- In every state a session can reach with a read armed, a delivery is
contained unless what was delivered stops at a header with an id up to
`MAX_LENGTH` and a length field from 32768 on. -/
theorem handleRead_contained (uuid : Uuid) (events : List SessionEvent) (l : ReadState)
    (hrun : Machine.exec sessionStep (ReadState.start uuid) events = some l)
    (harmed : l.armed = true) (server : CServer) (hmem : uuid ∈ server.sessions)
    (chunk : Bytes) (hchunk : Chunk chunk) :
    ∃ call, l.session.handleRead server false chunk = some call ∧
      (Contained uuid l.received chunk call ↔
        ¬ NegLen (wire.decode (l.received ++ chunk)).tail) :=
  (exec_parsing hrun).contained_iff harmed hmem hchunk

/-- A message of two letters cut behind the first byte of its length: with its end the delivery is
contained, and with a header of length 32768 behind that it is not. -/
theorem handleRead_contained_cut :
    let server : CServer := ⟨{.letter 0}⟩
    ∃ l call call', Machine.exec sessionStep (ReadState.start (.letter 0))
        [.delivery server [3, 233, 0]] = some l ∧
      l.session.handleRead server false [2, 104, 105] = some call ∧
      Contained (.letter 0) l.received [2, 104, 105] call ∧
      l.session.handleRead server false [2, 104, 105, 3, 233, 128, 0] = some call' ∧
      ¬ Contained (.letter 0) l.received [2, 104, 105, 3, 233, 128, 0] call' := by
  intro server
  obtain ⟨l, hrun, harmed, hreceived⟩ : ∃ l, Machine.exec sessionStep (ReadState.start (.letter 0))
      [.delivery server [3, 233, 0]] = some l ∧ l.armed = true ∧ l.received = [3, 233, 0] :=
    ⟨_, rfl, rfl, rfl⟩
  have hmem : Uuid.letter 0 ∈ server.sessions := by simp [server]
  have hneg : NegLen [3, 233, 128, 0] :=
    ⟨3, 233, 128, 0, [], rfl, by unfold maxLength; decide, by decide⟩
  have hframe : ∀ rest, wire.head ([3, 233, 0] ++ 2 :: 104 :: 105 :: rest) =
      .frame (1001, [104, 105]) rest := by
    intro rest
    have hid : short (beNat 3 233) = 1001 := by decide
    have hlen : beNat 0 2 = 2 := by decide
    rw [wire_head, List.cons_append, List.cons_append, List.cons_append, List.nil_append,
      frameHead_cons, maxLength_eq, hid, hlen, if_neg (by decide), if_neg (by simp)]
    rfl
  have hhead : wire.head [3, 233, 128, 0] = .bad := (wire_head _).trans hneg.frameHead
  obtain ⟨call, hcall, hiff⟩ := handleRead_contained (.letter 0) _ l hrun harmed server hmem
    [2, 104, 105] ⟨by decide, by decide⟩
  obtain ⟨call', hcall', hiff'⟩ := handleRead_contained (.letter 0) _ l hrun harmed server hmem
    [2, 104, 105, 3, 233, 128, 0] ⟨by decide, by decide⟩
  refine ⟨l, call, call', hrun, hcall, hiff.mpr ?_, hcall', fun hcontained =>
    hiff'.mp hcontained ?_⟩
  · rw [hreceived, decode_frame (hframe []), decode_more rfl]
    rintro ⟨a, b, c, d, rest, h, -⟩
    cases h
  · rw [hreceived, decode_frame (hframe [3, 233, 128, 0]), decode_bad hhead]
    exact hneg

/-- The header `id 1001, length 32768` alone, to a fresh session: the call
returns with the session still in the map and nothing armed. -/
theorem handleRead_not_contained :
    ¬ ∀ (uuid : Uuid) (events : List SessionEvent) (l : ReadState),
      Machine.exec sessionStep (ReadState.start uuid) events = some l →
      l.armed = true → ∀ server : CServer, uuid ∈ server.sessions →
      ∀ chunk, Chunk chunk →
      ∃ call, l.session.handleRead server false chunk = some call ∧
        Contained uuid l.received chunk call := by
  intro hall
  have hchunk : Chunk [3, 233, 128, 0] := ⟨by decide, by decide⟩
  have hmem : Uuid.letter 0 ∈
      (⟨{.letter 0}⟩ : CServer).sessions := by simp
  obtain ⟨call, hcall, hcont⟩ :=
    hall (.letter 0) [] (ReadState.start _) rfl rfl _ hmem _ hchunk
  obtain ⟨call', hcall', hiff⟩ :=
    (start_parsing (.letter 0)).contained_iff rfl hmem hchunk
  obtain rfl : call = call' := Option.some.inj (hcall.symm.trans hcall')
  refine hiff.mp hcont ?_
  have hid : short (beNat 3 233) = 1001 := by decide
  have hlen : beNat 128 0 = 32768 := rfl
  have hneg : NegLen [3, 233, 128, 0] :=
    ⟨3, 233, 128, 0, [], rfl, by unfold maxLength; omega, hlen.ge⟩
  have hhead : wire.head [3, 233, 128, 0] = .bad := (wire_head _).trans hneg.frameHead
  have hreceived : (ReadState.start (.letter 0)).received = [] := rfl
  rw [hreceived, List.nil_append, decode_bad hhead]
  exact hneg

end AsioServer
