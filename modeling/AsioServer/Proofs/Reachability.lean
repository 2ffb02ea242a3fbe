import AsioServer.Proofs.CallBacks
import AsioServer.Proofs.HostileLengths
import AsioServer.Spec.Styled

/-!
# Online users and the session map

`ServerState` is the whole server between two handlers: the tables, the session
map and the sessions (`World`), and for each session whether a read is armed
and what it was delivered. An event is a handler or the processing of a
message; a message may come from any session at any time, which includes those
that `HandleRead` posts. The two steps of `HandleAccept` are one event here.

An online user is reachable while its row names a session in the map. The row
is written by the callbacks and the map by the handlers, and no handler looks
at the tables. What keeps the property is therefore a condition on the
handlers that clear a session, and on logins that arrive after their session
was cleared (`KeepsReachable`); every other step keeps it by itself.
-/

namespace AsioServer

open Framing

structure ServerState where
  world : World
  armed : Uuid → Bool
  received : Uuid → Bytes

inductive ServerEvent where
  | accept (u : Uuid)
  | delivery (u : Uuid) (chunk : Bytes)
  | readError (u : Uuid)
  | written (u : Uuid)
  | writeError (u : Uuid)
  | process (job : Job)

def ServerState.start (db : Db) : ServerState where
  world := .start db
  armed := fun _ => false
  received := fun _ => []

/-- What a handler leaves of its session and of the map. -/
def ServerState.handled (s : ServerState) (u : Uuid) (session : CSession) (server : CServer) :
    ServerState :=
  { s with world :=
    { s.world with server := server, session := Function.update s.world.session u session } }

/-- A completed read of `u`, with what was delivered. -/
def ServerState.afterRead (s : ServerState) (u : Uuid) (chunk : Bytes) (call : ReadCall) :
    ServerState :=
  { s.handled u call.session call.server with
    armed := Function.update s.armed u (decide (call.armed ≠ 0))
    received := Function.update s.received u (s.received u ++ chunk) }

def serverStep (lib : JsonLib) (s : ServerState) : ServerEvent → Option ServerState
  | .accept u =>
      some
        { s.handled u (CSession.new u) (s.world.server.insert u) with
          armed := Function.update s.armed u true
          received := Function.update s.received u [] }
  | .delivery u chunk =>
      if s.armed u = true ∧ Chunk chunk then
        ((s.world.session u).handleRead s.world.server false chunk).map (s.afterRead u chunk)
      else none
  | .readError u =>
      if s.armed u = true then
        ((s.world.session u).handleRead s.world.server true []).map (s.afterRead u [])
      else none
  | .written u =>
      match (s.world.session u).handleWritten with
      | .ok call => some (s.handled u call.session s.world.server)
      | .error _ => none
  | .writeError u =>
      if (s.world.session u).sendQue = [] then none
      else
        let (session, server) := (s.world.session u).handleWriteFailed s.world.server
        some (s.handled u session server)
  | .process job => (jobStep lib s.world job).map fun w => { s with world := w }

/-- The user of an online row can be reached through the map. -/
def OnlineReachable (s : ServerState) : Prop :=
  ∀ row ∈ s.world.db.users.rows, row.state = ascii "online" →
    ∃ u ∈ s.world.server.sessions, row.uuid = some u.text

/-- No user is online with the uuid of `u`. -/
def Unnamed (s : ServerState) (u : Uuid) : Prop :=
  ∀ row ∈ s.world.db.users.rows, row.state = ascii "online" → row.uuid ≠ some u.text

/-- What was delivered stops at a header over the limits. -/
def Refused (received : Bytes) : Prop :=
  (wire.decode received).bad = true ∧ ¬ NegLen (wire.decode received).tail

/-- A session is cleared only while no user is online with its uuid, and a
login is accepted only while its session is in the map. -/
def KeepsReachable (lib : JsonLib) (s : ServerState) : ServerEvent → Prop
  | .accept _ | .written _ => True
  | .delivery u chunk => Refused (s.received u ++ chunk) → Unnamed s u
  | .readError u | .writeError u => Unnamed s u
  | .process job => ∀ id username password, findCallBack job.msgId = some .login →
      (lib.parse job.msgData).2.idField "id" = .ok id →
      (lib.parse job.msgData).2.field "username" = .ok username →
      (lib.parse job.msgData).2.field "password" = .ok password →
      isLoginSuccess (queried (job.env 0) s.world.db id) username password = true →
      job.session ∈ s.world.server.sessions

/-- MySQL succeeds. -/
def DbSucceeds : ServerEvent → Prop
  | .process job => ∀ i, (job.env i).Succeeds
  | _ => True

/-! ## Sessions -/

/-- Every session stands for what it received, as in a run of its own. -/
def AllParsing (s : ServerState) : Prop :=
  ∀ u, Parsing u ⟨s.world.session u, s.armed u, s.received u⟩

theorem start_allParsing (db : Db) : AllParsing (.start db) :=
  fun _ => ⟨rfl, fun h => (by cases h), fun h => (by cases h)⟩

/-- A change of one session. -/
theorem AllParsing.update {s s' : ServerState} (h : AllParsing s) (u : Uuid)
    (hself : Parsing u ⟨s'.world.session u, s'.armed u, s'.received u⟩)
    (hothers : ∀ v, v ≠ u → s'.world.session v = s.world.session v ∧ s'.armed v = s.armed v ∧
      s'.received v = s.received v) : AllParsing s' := by
  intro v
  by_cases hv : v = u
  · subst hv
    exact hself
  · obtain ⟨h₁, h₂, h₃⟩ := hothers v hv
    rw [h₁, h₂, h₃]
    exact h v

theorem afterRead_parsing {s : ServerState} {u : Uuid} {chunk : Bytes} {call : ReadCall}
    (h : AllParsing s)
    (hcall : Parsing u ⟨call.session, decide (call.armed ≠ 0), s.received u ++ chunk⟩) :
    AllParsing (s.afterRead u chunk call) := by
  refine h.update u ?_ fun v hv => ?_
  · simpa [ServerState.afterRead, ServerState.handled] using hcall
  · simp [ServerState.afterRead, ServerState.handled, hv]

theorem handled_parsing {s : ServerState} {u : Uuid} {session : CSession} {server : CServer}
    (h : AllParsing s) (hsession : Parsing u ⟨session, s.armed u, s.received u⟩) :
    AllParsing (s.handled u session server) := by
  refine h.update u ?_ fun v hv => ?_
  · simpa [ServerState.handled] using hsession
  · simp [ServerState.handled, hv]

/-- Closing a session changes nothing that a delivery looks at. -/
theorem Represents.close {s : CSession} {held : Bytes} (h : Represents s held) :
    Represents s.close held := by
  cases h with
  | head flag size holds part => exact .head flag size holds part
  | body flag size msgNode id idLe total lenLe holds part =>
      exact .body flag size msgNode id idLe total lenLe holds part

theorem serverStep_parsing {lib : JsonLib} {s s' : ServerState} {e : ServerEvent}
    (h : AllParsing s) (hstep : serverStep lib s e = some s') : AllParsing s' := by
  cases e with
  | accept u =>
      cases hstep
      refine h.update u ?_ fun v hv => ?_
      · simpa [ServerState.handled, ReadState.start] using start_parsing u
      · simp [ServerState.handled, hv]
  | delivery u chunk =>
      rw [serverStep] at hstep
      split at hstep
      · next hguard =>
          obtain ⟨call, hcall, rfl⟩ := Option.map_eq_some_iff.mp hstep
          refine afterRead_parsing h (sessionStep_parsing (h u)
            (e := .delivery s.world.server chunk) ?_)
          rw [sessionStep, if_pos hguard, hcall]
          rfl
      · cases hstep
  | readError u =>
      rw [serverStep] at hstep
      split at hstep
      · cases hstep
        refine afterRead_parsing h ⟨(h u).uuid_eq, fun ha => ?_, fun ha => ?_⟩
        · cases ha
        · cases ha
      · cases hstep
  | written u =>
      rw [serverStep] at hstep
      split at hstep
      · next call hcall =>
          cases hstep
          obtain ⟨que, hque⟩ := handleWritten_session hcall
          refine handled_parsing h ?_
          rw [hque]
          exact (h u).setQue que
      · cases hstep
  | writeError u =>
      rw [serverStep] at hstep
      split at hstep
      · cases hstep
      · cases hstep
        exact handled_parsing h
          ⟨(h u).uuid_eq, (h u).good, fun ha => ((h u).held ha).close⟩
  | process job =>
      obtain ⟨w', hw', rfl⟩ := Option.map_eq_some_iff.mp hstep
      obtain ⟨hkept, -⟩ := process_ok (jobStep_eq_some.mp hw')
      intro u
      obtain ⟨que, hque⟩ := hkept.session u
      show Parsing u ⟨w'.session u, s.armed u, s.received u⟩
      rw [hque]
      exact (h u).setQue que

/-! ## Rows -/

/-- The property, row by row of the table. -/
theorem onlineReachable_iff {s : ServerState} :
    OnlineReachable s ↔ ∀ id row, s.world.db.users.find id = some row →
      row.state = ascii "online" → ∃ u ∈ s.world.server.sessions, row.uuid = some u.text := by
  constructor
  · exact fun h id row hrow => h row (Table.find_eq_some.mp hrow).1
  · exact fun h row hrow => h row.id row (Table.find_self hrow)

/-- A handler that leaves the tables and only adds to the map. -/
theorem OnlineReachable.mono {s s' : ServerState} (h : OnlineReachable s)
    (hdb : s'.world.db = s.world.db)
    (hserver : ∀ u ∈ s.world.server.sessions, u ∈ s'.world.server.sessions) :
    OnlineReachable s' := by
  intro row hrow hstate
  rw [hdb] at hrow
  obtain ⟨u, hu, huuid⟩ := h row hrow hstate
  exact ⟨u, hserver u hu, huuid⟩

/-- A handler that clears a session keeps the property if it clears no named
one. -/
theorem reachable_clear {s s' : ServerState} {u : Uuid} (h : OnlineReachable s)
    (hdb : s'.world.db = s.world.db)
    (hserver : s'.world.server = s.world.server.clearSession u) :
    OnlineReachable s' ↔ Unnamed s u := by
  constructor
  · intro h' row hrow hstate huuid
    rw [← hdb] at hrow
    obtain ⟨v, hv, hv'⟩ := h' row hrow hstate
    rw [hserver, CServer.mem_clearSession] at hv
    exact hv.1 (Uuid.ext (Option.some.inj (hv'.symm.trans huuid)))
  · intro hnamed row hrow hstate
    rw [hdb] at hrow
    obtain ⟨v, hv, huuid⟩ := h row hrow hstate
    refine ⟨v, ?_, huuid⟩
    rw [hserver, CServer.mem_clearSession]
    exact ⟨fun heq => hnamed row hrow hstate (heq ▸ huuid), hv⟩

/-- A message keeps the property exactly when it is no login that is accepted
from a session outside the map. -/
theorem reachable_process {lib : JsonLib} {s : ServerState} {job : Job} {w' : World}
    (h : OnlineReachable s) (hdb : ∀ i, (job.env i).Succeeds)
    (hjob : jobStep lib s.world job = some w') :
    OnlineReachable { s with world := w' } ↔ KeepsReachable lib s (.process job) := by
  obtain ⟨hkept, sent, -, hproc⟩ := process_ok (jobStep_eq_some.mp hjob)
  rw [onlineReachable_iff]
  rw [onlineReachable_iff] at h
  show (∀ id row, w'.db.users.find id = some row → row.state = ascii "online" →
    ∃ u ∈ w'.server.sessions, row.uuid = some u.text) ↔ _
  rw [hkept.server]
  constructor
  · intro h' id username password hfind hid hname hpass haccepted
    rcases hproc.loggedIn hfind hid hname hpass with ⟨hrefused, -, -⟩ | ⟨-, ⟨done, hupdate⟩, -⟩
    · rw [haccepted] at hrefused
      cases hrefused
    · obtain ⟨row, hrow, -, -, hqid⟩ := accepted_row haccepted
      have hfindRow := transact_updated hupdate (hdb 1).connect (hdb 1).execute
        (Or.inl (hdb 1).commit) id
      rw [hqid, if_pos rfl, hrow] at hfindRow
      obtain ⟨u, hu, huuid⟩ := h' id _ hfindRow rfl
      rwa [Uuid.ext (Option.some.inj huuid)]
  · intro hkeeps id row hrow hstate
    have hstep := hproc.row id
    rw [hrow] at hstep
    generalize hold : s.world.db.users.find id = old at hstep
    cases hstep with
    | kept => exact h id row hold hstate
    | added find offline => rw [hstate] at offline; exact absurd offline (by decide)
    | online find idField name pass accepted =>
        exact ⟨job.session, hkeeps _ _ _ find idField name pass accepted, rfl⟩
    | offline =>
        exact absurd (show ascii "offline" = ascii "online" from hstate) (by decide)

/-! ## Steps -/

/-- A handler leaves the tables; a message does with them what its callback
does. -/
theorem serverStep_db {lib : JsonLib} {s s' : ServerState} {e : ServerEvent}
    (hstep : serverStep lib s e = some s') :
    s'.world.db = s.world.db ∨ ∃ job sent, e = .process job ∧
      Processed lib job.env s.world.db job.session job.msgId job.msgData s'.world.db sent := by
  cases e with
  | accept u =>
      cases hstep
      exact Or.inl rfl
  | delivery u chunk | readError u =>
      rw [serverStep] at hstep
      split at hstep
      · obtain ⟨call, -, rfl⟩ := Option.map_eq_some_iff.mp hstep
        exact Or.inl rfl
      · cases hstep
  | written u =>
      rw [serverStep] at hstep
      split at hstep
      · cases hstep
        exact Or.inl rfl
      · cases hstep
  | writeError u =>
      rw [serverStep] at hstep
      split at hstep
      · cases hstep
      · cases hstep
        exact Or.inl rfl
  | process job =>
      obtain ⟨w', hw', rfl⟩ := Option.map_eq_some_iff.mp hstep
      obtain ⟨-, sent, -, hproc⟩ := process_ok (jobStep_eq_some.mp hw')
      exact Or.inr ⟨job, sent, rfl, hproc⟩

/-- A delivery clears its session exactly when a header is refused. -/
theorem Parsing.server_eq {uuid : Uuid} {l : ReadState} (h : Parsing uuid l)
    (harmed : l.armed = true) {server : CServer} {chunk : Bytes} (hchunk : Chunk chunk)
    {call : ReadCall} (hcall : l.session.handleRead server false chunk = some call) :
    (Refused (l.received ++ chunk) → call.server = server.clearSession uuid) ∧
      (¬ Refused (l.received ++ chunk) → call.server = server) := by
  have hspec := h.callSpec harmed server hchunk
  have hrefused : Refused (l.received ++ chunk) ↔
      (wire.decode ((wire.decode l.received).tail ++ chunk)).bad = true ∧
        ¬ NegLen (wire.decode ((wire.decode l.received).tail ++ chunk)).tail := by
    rw [Refused, decode_append l.received chunk (h.good harmed)]
  rw [hrefused]
  cases hb : (wire.decode ((wire.decode l.received).tail ++ chunk)).bad with
  | false =>
      obtain ⟨c', hr, hu, -⟩ := hspec.good hb
      cases hr.symm.trans hcall
      exact ⟨fun hc => absurd hc.1 (by decide), fun _ => hu.server⟩
  | true =>
      by_cases hn : NegLen (wire.decode ((wire.decode l.received).tail ++ chunk)).tail
      · obtain ⟨c', f, hr, hu, -⟩ := hspec.neg hb hn
        cases hr.symm.trans hcall
        exact ⟨fun hc => absurd hn hc.2, fun _ => hu.server⟩
      · obtain ⟨c', hr, hu, -⟩ := hspec.bad hb hn
        cases hr.symm.trans hcall
        refine ⟨fun _ => ?_, fun hc => absurd ⟨rfl, hn⟩ hc⟩
        show c'.server.clearSession c'.session.uuid = _
        rw [hu.server, hu.uuid]
        exact congrArg _ h.uuid_eq

/-- One step keeps online users reachable exactly when it meets the condition. -/
theorem serverStep_reachable {lib : JsonLib} {s s' : ServerState} {e : ServerEvent}
    (hparsing : AllParsing s) (h : OnlineReachable s) (hdb : DbSucceeds e)
    (hstep : serverStep lib s e = some s') : OnlineReachable s' ↔ KeepsReachable lib s e := by
  cases e with
  | accept u =>
      cases hstep
      refine iff_of_true (h.mono rfl fun v hv => ?_) trivial
      exact CServer.mem_insert.mpr (Or.inr hv)
  | delivery u chunk =>
      rw [serverStep] at hstep
      split at hstep
      · next hguard =>
          obtain ⟨call, hcall, rfl⟩ := Option.map_eq_some_iff.mp hstep
          obtain ⟨hclear, hkeep⟩ := (hparsing u).server_eq hguard.1 hguard.2 hcall
          by_cases hr : Refused (s.received u ++ chunk)
          · have hiff : OnlineReachable (s.afterRead u chunk call) ↔ Unnamed s u :=
              reachable_clear h rfl (hclear hr)
            exact hiff.trans ⟨fun hn _ => hn, fun hn => hn hr⟩
          · refine iff_of_true (h.mono rfl fun v hv => ?_) fun hc => absurd hc hr
            rw [show (s.afterRead u chunk call).world.server = s.world.server from hkeep hr]
            exact hv
      · cases hstep
  | readError u =>
      rw [serverStep] at hstep
      split at hstep
      · cases hstep
        refine reachable_clear h rfl ?_
        show s.world.server.clearSession (s.world.session u).uuid = _
        rw [show (s.world.session u).uuid = u from (hparsing u).uuid_eq]
      · cases hstep
  | written u =>
      rw [serverStep] at hstep
      split at hstep
      · cases hstep
        exact iff_of_true (h.mono rfl fun _ hv => hv) trivial
      · cases hstep
  | writeError u =>
      rw [serverStep] at hstep
      split at hstep
      · cases hstep
      · cases hstep
        refine reachable_clear h rfl ?_
        show s.world.server.clearSession (s.world.session u).uuid = _
        rw [show (s.world.session u).uuid = u from (hparsing u).uuid_eq]
  | process job =>
      obtain ⟨w', hw', rfl⟩ := Option.map_eq_some_iff.mp hstep
      exact reachable_process h hdb hw'

/-! ## Runs -/

/-- From tables without an online user, online users are reachable at every
point of a run exactly when every step of it meets the condition. -/
theorem onlineReachable_always_iff (lib : JsonLib) (db : Db)
    (hoffline : ∀ row ∈ db.users.rows, row.state = ascii "offline") (events : List ServerEvent)
    (hdb : ∀ e ∈ events, DbSucceeds e) :
    Machine.Always (serverStep lib) OnlineReachable (.start db) events ↔
      Machine.Meets (serverStep lib) (KeepsReachable lib) (.start db) events := by
  refine Machine.always_iff_meets (I := AllParsing) (L := DbSucceeds)
    (fun _ _ _ hparsing _ _ _ hstep => serverStep_parsing hparsing hstep)
    (fun _ _ _ hparsing h hdb hstep => serverStep_reachable hparsing h hdb hstep)
    (start_allParsing db) ?_ hdb
  intro row hrow hstate
  rw [hoffline row hrow] at hstate
  exact absurd hstate (by decide)

/-- A session connects, its user registers and logs in, and the connection
breaks. -/
def brokenConnection : List ServerEvent :=
  [.accept .first,
    .process ⟨fun _ => .good 1, .first, msgRegister, registerText⟩,
    .process ⟨fun _ => .good 1, .first, msgLogin, loginText⟩,
    .readError .first]

theorem brokenConnection_dbSucceeds : ∀ e ∈ brokenConnection, DbSucceeds e := by
  simp [brokenConnection, DbSucceeds, good_succeeds]

theorem onlineReachable_always_iff_broken :
    Machine.Always (serverStep scene) OnlineReachable (.start (.empty id)) brokenConnection ↔
      Machine.Meets (serverStep scene) (KeepsReachable scene) (.start (.empty id))
        brokenConnection :=
  onlineReachable_always_iff scene (.empty id) (fun _ h => by cases h) brokenConnection
    brokenConnection_dbSucceeds

/-- The row stays online with the uuid of a session that is gone. -/
theorem onlineReachable_broken :
    ¬ ∀ (lib : JsonLib) (db : Db) (events : List ServerEvent),
      (∀ row ∈ db.users.rows, row.state = ascii "offline") → (∀ e ∈ events, DbSucceeds e) →
      Machine.Always (serverStep lib) OnlineReachable (.start db) events := by
  intro hall
  have halways := hall scene (.empty id) brokenConnection (fun _ h => by cases h)
    brokenConnection_dbSucceeds
  obtain ⟨s', hrun, hrows, hserver⟩ : ∃ s',
      Machine.exec (serverStep scene) (.start (.empty id)) brokenConnection = some s' ∧
      s'.world.db.users.rows =
        [⟨1, ascii "amy", ascii "pw", ascii "online", some (Uuid.first).text⟩] ∧
      s'.world.server = (CServer.insert ⟨∅⟩ .first).clearSession .first :=
    ⟨_, rfl, rfl, rfl⟩
  obtain ⟨u, hu, -⟩ := Machine.always_iff.mp halways brokenConnection [] s'
    (List.append_nil _).symm hrun _ (by rw [hrows]; exact List.mem_singleton_self _) rfl
  rw [hserver] at hu
  simp at hu

end AsioServer
