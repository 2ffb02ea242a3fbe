import AsioServer.Proofs.Reachability

/-!
# Accepting a session

`HandleAccept` starts a session and then enters it in the map, and between the
two a thread of the pool may already run the handlers of the session and the
worker its messages. `AcceptState` is the server with these steps apart: the
session that `HandleAccept` has started and not yet entered, the queue of
posted messages, and for each session what has happened to it so far. A session
that is cleared in between is entered after all and stays in the map, and a
message that is dispatched in between finds its session missing
(`accept_always_iff`). `HandleAccept` runs on one thread and arms the next
accept at its end, so one session at a time is between the two steps. An accept
that failed changes nothing and is left out.
-/

namespace AsioServer

open Framing

structure AcceptState where
  core : ServerState
  accepting : Option Uuid
  msgQue : List LogicNode
  started : Finset Uuid
  inserted : Finset Uuid
  cleared : Finset Uuid
  dispatched : Finset Uuid

inductive AcceptEvent where
  | start (u : Uuid)
  | insert
  | delivery (u : Uuid) (chunk : Bytes)
  | readError (u : Uuid)
  | written (u : Uuid)
  | writeError (u : Uuid)
  | dispatch (env : Nat → Outcome)

def AcceptState.start (db : Db) : AcceptState where
  core := .start db
  accepting := none
  msgQue := []
  started := ∅
  inserted := ∅
  cleared := ∅
  dispatched := ∅

/-- A call of `HandleRead` that neither arms a read nor ends in an exception
has cleared its session. -/
def ReadCall.cleared (c : ReadCall) : Bool := c.armed = 0 ∧ c.fault = none

/-- A completed read of `u`. -/
def AcceptState.afterRead (s : AcceptState) (u : Uuid) (chunk : Bytes) (call : ReadCall) :
    AcceptState :=
  { s with
    core := s.core.afterRead u chunk call
    msgQue := s.msgQue ++ call.posted.map fun node => ⟨u, node⟩
    cleared := if call.cleared then insert u s.cleared else s.cleared }

/-- The uuid of a session is random, so each session has one of its own. -/
def acceptStep (lib : JsonLib) (s : AcceptState) : AcceptEvent → Option AcceptState
  | .start u =>
      if s.accepting = none ∧ u ∉ s.started then
        some
          { s with
            core :=
              { s.core.handled u (CSession.new u) s.core.world.server with
                armed := Function.update s.core.armed u true
                received := Function.update s.core.received u [] }
            accepting := some u
            started := insert u s.started }
      else none
  | .insert =>
      match s.accepting with
      | some u =>
          some
            { s with
              core :=
                { s.core with
                  world := { s.core.world with server := s.core.world.server.insert u } }
              accepting := none
              inserted := insert u s.inserted }
      | none => none
  | .delivery u chunk =>
      if s.core.armed u = true ∧ Chunk chunk then
        ((s.core.world.session u).handleRead s.core.world.server false chunk).map
          (s.afterRead u chunk)
      else none
  | .readError u =>
      if s.core.armed u = true then
        ((s.core.world.session u).handleRead s.core.world.server true []).map (s.afterRead u [])
      else none
  | .written u =>
      match (s.core.world.session u).handleWritten with
      | .ok call => some { s with core := s.core.handled u call.session s.core.world.server }
      | .error _ => none
  | .writeError u =>
      if (s.core.world.session u).sendQue = [] then none
      else
        let (session, server) := (s.core.world.session u).handleWriteFailed s.core.world.server
        some
          { s with
            core := s.core.handled u session server
            cleared := insert u s.cleared }
  | .dispatch env =>
      match s.msgQue with
      | [] => none
      | node :: rest =>
          match dealMsg lib env s.core.world (node :: rest) with
          | .ok (w, rest) =>
              some
                { s with
                  core := { s.core with world := w }
                  msgQue := rest
                  dispatched :=
                    if (findCallBack node.recvnode.msgId).isSome then
                      insert node.session s.dispatched
                    else s.dispatched }
          | .error _ => none

/-- A session that was cleared is not in the map, and one whose message was
dispatched to a callback has been. -/
structure AcceptOk (s : AcceptState) : Prop where
  cleared : ∀ u ∈ s.cleared, u ∉ s.core.world.server.sessions
  dispatched : ∀ u ∈ s.dispatched, u ∈ s.inserted

/-- A session is entered before it is cleared, and a message is not dispatched
while its session is about to be entered. -/
def AcceptSafe (s : AcceptState) : AcceptEvent → Prop
  | .insert => ∀ u, s.accepting = some u → u ∉ s.cleared
  | .dispatch _ => ∀ node rest, s.msgQue = node :: rest →
      (findCallBack node.recvnode.msgId).isSome → s.accepting ≠ some node.session
  | _ => True

/-- What is known of a session in every state. -/
structure Accepting (s : AcceptState) : Prop where
  parsing : AllParsing s.core
  armed : ∀ u, s.core.armed u = true → u ∈ s.started
  queued : ∀ node ∈ s.msgQue, node.session ∈ s.started
  started : ∀ u ∈ s.started, s.accepting = some u ∨ u ∈ s.inserted
  inserted : ∀ u ∈ s.inserted, u ∈ s.started
  pending : ∀ u, s.accepting = some u → u ∈ s.started ∧ u ∉ s.inserted

theorem start_accepting (db : Db) : Accepting (.start db) :=
  ⟨start_allParsing db, fun _ h => (by cases h), fun _ h => (by cases h), fun _ h => (by cases h),
    fun _ h => (by cases h), fun _ h => (by cases h)⟩

/-- The two steps of `HandleAccept` one after the other are the one step of
`serverStep`. -/
theorem start_insert_accept (lib : JsonLib) {s : AcceptState} {u : Uuid}
    (hfree : s.accepting = none) (hnew : u ∉ s.started) :
    ∃ s', Machine.exec (acceptStep lib) s [.start u, .insert] = some s' ∧
      serverStep lib s.core (.accept u) = some s'.core := by
  refine ⟨_, Machine.exec_cons.mpr ⟨_, if_pos ⟨hfree, hnew⟩, Machine.exec_singleton.mpr rfl⟩, ?_⟩
  rfl

/-! ## Steps -/

section

variable {lib : JsonLib} {s s' : AcceptState} {u : Uuid} {chunk : Bytes} {call : ReadCall}

/-- What a delivery does to the map, read off how its call ended. -/
theorem Parsing.cleared_eq {l : ReadState} (h : Parsing u l) (harmed : l.armed = true)
    {server : CServer} (hchunk : Chunk chunk)
    (hcall : l.session.handleRead server false chunk = some call) :
    call.server = if call.cleared then server.clearSession u else server := by
  have hspec := h.callSpec harmed server hchunk
  cases hb : (wire.decode ((wire.decode l.received).tail ++ chunk)).bad with
  | false =>
      obtain ⟨c', hr, hu, -⟩ := hspec.good hb
      cases hr.symm.trans hcall
      have hrearmed : c'.arm.cleared = false := by simp [ReadCall.cleared, ReadCall.arm]
      rw [hrearmed]
      exact hu.server
  | true =>
      by_cases hn : NegLen (wire.decode ((wire.decode l.received).tail ++ chunk)).tail
      · obtain ⟨c', f, hr, hu, -⟩ := hspec.neg hb hn
        cases hr.symm.trans hcall
        have hraised : (c'.raise f).cleared = false := by simp [ReadCall.cleared, ReadCall.raise]
        rw [hraised]
        exact hu.server
      · obtain ⟨c', hr, hu, -⟩ := hspec.bad hb hn
        cases hr.symm.trans hcall
        have hcleared : c'.clearSession.cleared = true := by
          have harmed : c'.clearSession.armed = 0 := hu.armed
          have hfault : c'.clearSession.fault = none := hu.fault
          simp [ReadCall.cleared, harmed, hfault]
        rw [hcleared]
        show c'.server.clearSession c'.session.uuid = _
        rw [hu.server, hu.uuid]
        exact congrArg _ h.uuid_eq

/-- An iteration of the worker takes the front message off the queue and keeps
the map. -/
theorem dealMsg_kept {env : Nat → Outcome} {w w' : World} {node : LogicNode}
    {rest rest' : List LogicNode} (h : dealMsg lib env w (node :: rest) = .ok (w', rest')) :
    Kept w w' ∧ rest' = rest := by
  rw [dealMsg] at h
  cases hfind : findCallBack node.recvnode.msgId with
  | none =>
      rw [hfind] at h
      cases h
      exact ⟨.refl w, rfl⟩
  | some callBack =>
      rw [hfind] at h
      obtain ⟨msgData, -, h⟩ := bind_eq_ok.mp h
      obtain ⟨w₁, hcall, h⟩ := bind_eq_ok.mp h
      cases h
      have hprocess : w.process lib env node.session node.recvnode.msgId msgData = .ok w' := by
        rw [World.process, hfind]
        exact hcall
      exact ⟨(process_ok hprocess).1, rfl⟩

/-- The session of a completed read was started, and so were those of the
queue. -/
theorem Accepting.afterRead (h : Accepting s) (harmed : s.core.armed u = true)
    (hparsing : AllParsing (s.core.afterRead u chunk call)) :
    Accepting (s.afterRead u chunk call) := by
  have hu := h.armed u harmed
  refine ⟨hparsing, fun v hv => ?_, fun node hnode => ?_, h.started, h.inserted, h.pending⟩
  · by_cases hvu : v = u
    · rw [hvu]
      exact hu
    · refine h.armed v ?_
      rw [← hv]
      exact (Function.update_of_ne hvu _ _).symm
  · rcases List.mem_append.mp hnode with hnode | hnode
    · exact h.queued node hnode
    · obtain ⟨recvnode, -, rfl⟩ := List.mem_map.mp hnode
      exact hu

/-- A handler of the writing side, or of the worker, leaves the parsing. -/
theorem Accepting.setCore {core : ServerState} {cleared dispatched : Finset Uuid}
    {msgQue : List LogicNode} (h : Accepting s) (hparsing : AllParsing core)
    (harmed : core.armed = s.core.armed) (hque : ∀ node ∈ msgQue, node ∈ s.msgQue) :
    Accepting
      { s with core := core, msgQue := msgQue, cleared := cleared, dispatched := dispatched } :=
  ⟨hparsing, fun u hu => h.armed u (by rw [← harmed]; exact hu),
    fun node hnode => h.queued node (hque node hnode), h.started, h.inserted, h.pending⟩

/-- A session is started while no other waits for its place in the map. -/
theorem Accepting.start {core : ServerState} (h : Accepting s) (hfree : s.accepting = none)
    (hnew : u ∉ s.started) (hparsing : AllParsing core)
    (harmed : ∀ v, v ≠ u → core.armed v = s.core.armed v) :
    Accepting { s with core := core, accepting := some u, started := insert u s.started } := by
  refine ⟨hparsing, fun v hv => ?_, fun node hnode => ?_, fun v hv => ?_, fun v hv => ?_,
    fun v hv => ?_⟩
  · by_cases hvu : v = u
    · exact Finset.mem_insert.mpr (Or.inl hvu)
    · exact Finset.mem_insert.mpr (Or.inr (h.armed v ((harmed v hvu).symm.trans hv)))
  · exact Finset.mem_insert.mpr (Or.inr (h.queued node hnode))
  · rcases Finset.mem_insert.mp hv with rfl | hv
    · exact Or.inl rfl
    · rcases h.started v hv with hacc | hins
      · rw [hfree] at hacc
        cases hacc
      · exact Or.inr hins
  · exact Finset.mem_insert.mpr (Or.inr (h.inserted v hv))
  · cases hv
    exact ⟨Finset.mem_insert_self u _, fun hins => hnew (h.inserted u hins)⟩

/-- And it is entered. -/
theorem Accepting.enter {core : ServerState} (h : Accepting s) (hacc : s.accepting = some u)
    (hparsing : AllParsing core) (harmed : core.armed = s.core.armed) :
    Accepting { s with core := core, accepting := none, inserted := insert u s.inserted } := by
  refine ⟨hparsing, fun v hv => h.armed v (by rw [← harmed]; exact hv), h.queued,
    fun v hv => Or.inr ?_, fun v hv => ?_, fun v hv => (by cases hv)⟩
  · rcases h.started v hv with hpending | hins
    · obtain rfl := Option.some.inj (hacc.symm.trans hpending)
      exact Finset.mem_insert_self u _
    · exact Finset.mem_insert_of_mem hins
  · rcases Finset.mem_insert.mp hv with rfl | hv
    · exact (h.pending v hacc).1
    · exact h.inserted v hv

theorem acceptStep_accepting {e : AcceptEvent} (h : Accepting s)
    (hstep : acceptStep lib s e = some s') : Accepting s' := by
  cases e with
  | start u =>
      rw [acceptStep] at hstep
      split at hstep
      · next hguard =>
          cases hstep
          -- the map is no part of what the parsing is about
          have hcore : serverStep lib s.core (.accept u) = some _ := rfl
          have hparsing := serverStep_parsing h.parsing hcore
          exact h.start hguard.1 hguard.2 hparsing fun v hvu => Function.update_of_ne hvu _ _
      · cases hstep
  | insert =>
      rw [acceptStep] at hstep
      split at hstep
      · next u hacc =>
          cases hstep
          exact h.enter hacc h.parsing rfl
      · cases hstep
  | delivery u chunk =>
      rw [acceptStep] at hstep
      split at hstep
      · next hguard =>
          obtain ⟨call, hcall, rfl⟩ := Option.map_eq_some_iff.mp hstep
          have hcore : serverStep lib s.core (.delivery u chunk) =
              some (s.core.afterRead u chunk call) := by
            rw [serverStep, if_pos hguard, hcall]
            rfl
          exact h.afterRead hguard.1 (serverStep_parsing h.parsing hcore)
      · cases hstep
  | readError u =>
      rw [acceptStep] at hstep
      split at hstep
      · next harmed =>
          obtain ⟨call, hcall, rfl⟩ := Option.map_eq_some_iff.mp hstep
          have hcore : serverStep lib s.core (.readError u) =
              some (s.core.afterRead u [] call) := by
            rw [serverStep, if_pos harmed, hcall]
            rfl
          exact h.afterRead harmed (serverStep_parsing h.parsing hcore)
      · cases hstep
  | written u =>
      rw [acceptStep] at hstep
      split at hstep
      · next call hcall =>
          cases hstep
          have hcore : serverStep lib s.core (.written u) =
              some (s.core.handled u call.session s.core.world.server) := by
            rw [serverStep, hcall]
          exact h.setCore (serverStep_parsing h.parsing hcore) rfl fun _ hnode => hnode
      · cases hstep
  | writeError u =>
      rw [acceptStep] at hstep
      split at hstep
      · cases hstep
      · next hque =>
          cases hstep
          have hcore : serverStep lib s.core (.writeError u) = some _ := if_neg hque
          exact h.setCore (serverStep_parsing h.parsing hcore) rfl fun _ hnode => hnode
  | dispatch env =>
      rw [acceptStep] at hstep
      split at hstep
      · cases hstep
      · next node rest hque =>
          split at hstep
          · next w rest' hdeal =>
              cases hstep
              obtain ⟨hkept, rfl⟩ := dealMsg_kept hdeal
              refine h.setCore (fun u => ?_) rfl fun n hn => ?_
              · obtain ⟨que, hsession⟩ := hkept.session u
                show Parsing u ⟨w.session u, s.core.armed u, s.core.received u⟩
                rw [hsession]
                exact (h.parsing u).setQue que
              · rw [hque]
                exact List.mem_cons_of_mem _ hn
          · cases hstep

/-- A handler that clears its session, or leaves the map, keeps the property. -/
theorem AcceptOk.clear {core : ServerState} {msgQue : List LogicNode} (h : AcceptOk s)
    (cleared : Bool) (hserver : core.world.server =
      if cleared then s.core.world.server.clearSession u else s.core.world.server) :
    AcceptOk
      { s with
        core := core
        msgQue := msgQue
        cleared := if cleared then insert u s.cleared else s.cleared } := by
  refine ⟨fun v hv (hmem : v ∈ core.world.server.sessions) => ?_, h.dispatched⟩
  rw [hserver] at hmem
  cases cleared with
  | false => exact h.cleared v hv hmem
  | true =>
      rw [if_pos rfl, CServer.mem_clearSession] at hmem
      rcases Finset.mem_insert.mp hv with rfl | hv
      · exact hmem.1 rfl
      · exact h.cleared v hv hmem.2

/-- Entering a session keeps it exactly when the session was not cleared before. -/
theorem AcceptOk.enter_iff {core : ServerState} (hok : AcceptOk s) (hacc : s.accepting = some u)
    (hserver : core.world.server = s.core.world.server.insert u) :
    AcceptOk { s with core := core, accepting := none, inserted := insert u s.inserted } ↔
      u ∉ s.cleared := by
  constructor
  · intro hok' hcleared
    refine hok'.cleared u hcleared ?_
    show u ∈ core.world.server.sessions
    rw [hserver]
    exact CServer.mem_insert.mpr (Or.inl rfl)
  · intro hsafe
    refine ⟨fun v hv (hmem : v ∈ core.world.server.sessions) => ?_,
      fun v hv => Finset.mem_insert_of_mem (hok.dispatched v hv)⟩
    rw [hserver] at hmem
    rcases CServer.mem_insert.mp hmem with rfl | hmem
    · exact hsafe hv
    · exact hok.cleared v hv hmem

/-- Dispatching a message does when it has no callback, or its session was entered. -/
theorem AcceptOk.dispatch_iff {core : ServerState} {node : LogicNode} {rest : List LogicNode}
    (h : Accepting s) (hok : AcceptOk s) (hque : s.msgQue = node :: rest)
    (hserver : core.world.server = s.core.world.server) :
    AcceptOk
        { s with
          core := core
          msgQue := rest
          dispatched :=
            if (findCallBack node.recvnode.msgId).isSome then insert node.session s.dispatched
            else s.dispatched } ↔
      ((findCallBack node.recvnode.msgId).isSome → s.accepting ≠ some node.session) := by
  have hnode := h.started node.session (h.queued node (by rw [hque]; exact List.mem_cons_self))
  have hcleared : ∀ v ∈ s.cleared, v ∉ core.world.server.sessions := by
    rw [hserver]
    exact hok.cleared
  constructor
  · intro hok' hsome hacc
    have hins := hok'.dispatched node.session (by
      rw [if_pos hsome]
      exact Finset.mem_insert_self _ _)
    exact (h.pending _ hacc).2 hins
  · intro hsafe
    refine ⟨hcleared, fun v hv => ?_⟩
    by_cases hsome : (findCallBack node.recvnode.msgId).isSome
    · rw [if_pos hsome] at hv
      rcases Finset.mem_insert.mp hv with rfl | hv
      · exact hnode.resolve_left (hsafe hsome)
      · exact hok.dispatched v hv
    · rw [if_neg hsome] at hv
      exact hok.dispatched v hv

/-- A step keeps the property exactly when it meets the condition. -/
theorem acceptStep_ok_iff {e : AcceptEvent} (h : Accepting s) (hok : AcceptOk s)
    (hstep : acceptStep lib s e = some s') : AcceptOk s' ↔ AcceptSafe s e := by
  cases e with
  | start u =>
      rw [acceptStep] at hstep
      split at hstep
      · cases hstep
        exact iff_of_true ⟨hok.cleared, hok.dispatched⟩ trivial
      · cases hstep
  | insert =>
      rw [acceptStep] at hstep
      split at hstep
      · next u hacc =>
          cases hstep
          rw [hok.enter_iff hacc rfl]
          constructor
          · intro hsafe v hv
            obtain rfl := Option.some.inj (hacc.symm.trans hv)
            exact hsafe
          · exact fun hsafe => hsafe u hacc
      · cases hstep
  | delivery u chunk =>
      rw [acceptStep] at hstep
      split at hstep
      · next hguard =>
          obtain ⟨call, hcall, rfl⟩ := Option.map_eq_some_iff.mp hstep
          have hserver := (h.parsing u).cleared_eq hguard.1 hguard.2 hcall
          exact iff_of_true (hok.clear call.cleared hserver) trivial
      · cases hstep
  | readError u =>
      rw [acceptStep] at hstep
      split at hstep
      · cases hstep
        refine iff_of_true (hok.clear true ?_) trivial
        show s.core.world.server.clearSession (s.core.world.session u).uuid = _
        rw [show (s.core.world.session u).uuid = u from (h.parsing u).uuid_eq]
        rfl
      · cases hstep
  | written u =>
      rw [acceptStep] at hstep
      split at hstep
      · cases hstep
        exact iff_of_true ⟨hok.cleared, hok.dispatched⟩ trivial
      · cases hstep
  | writeError u =>
      rw [acceptStep] at hstep
      split at hstep
      · cases hstep
      · cases hstep
        refine iff_of_true (hok.clear true ?_) trivial
        show s.core.world.server.clearSession (s.core.world.session u).uuid = _
        rw [show (s.core.world.session u).uuid = u from (h.parsing u).uuid_eq]
        rfl
  | dispatch env =>
      rw [acceptStep] at hstep
      split at hstep
      · cases hstep
      · next node rest hque =>
          split at hstep
          · next w rest' hdeal =>
              cases hstep
              obtain ⟨hkept, rfl⟩ := dealMsg_kept hdeal
              rw [hok.dispatch_iff h hque hkept.server]
              constructor
              · intro hsafe node' rest'' hque'
                obtain ⟨rfl, rfl⟩ := List.cons.inj (hque.symm.trans hque')
                exact hsafe
              · exact fun hsafe => hsafe node _ hque
          · cases hstep

end

/-! ## Runs -/

/-- In every run from the start of the server, whatever the order of the steps,
a cleared session stays out of the map and no message is dispatched before its
session is entered, exactly when every step of the run meets the condition. -/
theorem accept_always_iff (lib : JsonLib) (db : Db) (events : List AcceptEvent) :
    Machine.Always (acceptStep lib) AcceptOk (.start db) events ↔
      Machine.Meets (acceptStep lib) AcceptSafe (.start db) events := by
  refine Machine.always_iff_meets (I := Accepting) (L := fun _ => True)
    (fun _ _ _ h _ _ _ hstep => acceptStep_accepting h hstep)
    (fun _ _ _ h hok _ hstep => acceptStep_ok_iff h hok hstep) (start_accepting db) ?_
    fun _ _ => trivial
  exact ⟨fun _ h => (by cases h), fun _ h => (by cases h)⟩

/-- A peer closes its connection before the session is entered. -/
def closedEarly : List AcceptEvent := [.start .first, .readError .first, .insert]

/-- The session is entered, and no handler of it will run again. -/
theorem accept_cleared_inserted :
    ¬ ∀ (lib : JsonLib) (db : Db) (events : List AcceptEvent),
      Machine.Always (acceptStep lib) AcceptOk (.start db) events := by
  intro hall
  obtain ⟨s, hrun, hcleared, hserver⟩ : ∃ s,
      Machine.exec (acceptStep scene) (.start (.empty id)) closedEarly = some s ∧
      s.cleared = insert .first ∅ ∧
      s.core.world.server = (CServer.clearSession ⟨∅⟩ .first).insert .first :=
    ⟨_, rfl, rfl, rfl⟩
  have hok := Machine.always_iff.mp (hall scene (.empty id) closedEarly) closedEarly [] s
    (List.append_nil _).symm hrun
  refine hok.cleared .first ?_ ?_
  · rw [hcleared]
    exact Finset.mem_insert_self _ _
  · rw [hserver]
    exact CServer.mem_insert.mpr (Or.inl rfl)

end AsioServer
