import AsioServer.Proofs.Reachability
import AsioServer.Ref.Pipeline

/-!
# From the bytes of a connection to the worker

What a session posts are the frames its bytes decode to, and the queue hands
them on in the order in which they came. So of every session the messages taken
by the worker, followed by those still queued, are what the bytes it has
received amount to so far: none lost, none twice, none out of order, and none
made up of the bytes of two connections. What other sessions do in between
plays no part in it.

`PipelineStep` says once what each step can do; the invariants of this module
and of those that build on it are proved by its cases.
-/

namespace AsioServer

open Framing

/-! ## Steps -/

/-- What a step does. -/
inductive PipelineStep (lib : JsonLib) (p : Pipeline) : PipelineEvent → Pipeline → Prop
  | start {u : Uuid} (idle : p.accepting = none) (fresh : u ∉ p.opened) :
      PipelineStep lib p (.start u)
        { p.afterRead u [] ((CSession.new u).start p.world.server) with
          accepting := some u
          opened := u :: p.opened }
  | enter {u : Uuid} (accepting : p.accepting = some u) :
      PipelineStep lib p .enter
        { p with
          world := { p.world with server := p.world.server.insert u }
          accepting := none }
  | delivery {u : Uuid} {chunk : Bytes} {call : ReadCall} (reading : p.reading u = true)
      (chunked : Chunk chunk)
      (returns : (p.world.session u).handleRead p.world.server false chunk = some call)
      (defined : call.fault.all Fault.isException = true) :
      PipelineStep lib p (.delivery u chunk) (p.afterRead u chunk call)
  | readError {u : Uuid} (reading : p.reading u = true) :
      PipelineStep lib p (.readError u)
        (p.afterRead u []
          { ReadCall.start (p.world.session u) p.world.server 0 with
            session := (p.world.session u).close }.clearSession)
  | written {u : Uuid} {node : SendNode} {call : WriteCall} (writing : p.writing u = some node)
      (returns : (p.world.session u).handleWritten = .ok call) :
      PipelineStep lib p (.written u)
        { p with
          world := { p.world with session := Function.update p.world.session u call.session }
          writing := Function.update p.writing u call.wrote
          written := Function.update p.written u (p.written u ++ [node]) }
  | writeError {u : Uuid} {node : SendNode} (writing : p.writing u = some node) :
      PipelineStep lib p (.writeError u)
        { p with
          world :=
            { p.world with
              server := p.world.server.clearSession (p.world.session u).uuid
              session := Function.update p.world.session u (p.world.session u).close }
          writing := Function.update p.writing u none }
  | dispatch {env : Nat → Outcome} {msgNode : LogicNode} {rest msgQue : List LogicNode}
      {world : World} (front : p.msgQue = msgNode :: rest)
      (dealt : dealMsg lib env p.world (msgNode :: rest) = .ok (world, msgQue)) :
      PipelineStep lib p (.dispatch env)
        { p with
          world := world
          writing := started p.world world p.writing
          msgQue := msgQue
          taken := p.taken ++ [msgNode] }

theorem pipelineStep_inv {lib : JsonLib} {p p' : Pipeline} {e : PipelineEvent}
    (h : pipelineStep lib p e = some p') : PipelineStep lib p e p' := by
  cases e with
  | start u =>
      rw [pipelineStep] at h
      split at h
      · next hguard =>
          cases h
          exact .start hguard.1 hguard.2
      · cases h
  | enter =>
      rw [pipelineStep] at h
      split at h
      · cases h
      · next u hu =>
          cases h
          exact .enter hu
  | delivery u chunk =>
      rw [pipelineStep] at h
      split at h
      · next hguard =>
          split at h
          · cases h
          · next call hcall =>
              split at h
              · next hdefined =>
                  cases h
                  exact .delivery hguard.1 hguard.2 hcall hdefined
              · cases h
      · cases h
  | readError u =>
      rw [pipelineStep] at h
      split at h
      · next hreading =>
          cases h
          exact .readError hreading
      · cases h
  | written u =>
      rw [pipelineStep] at h
      split at h
      · cases h
      · next node hnode =>
          split at h
          · cases h
          · next call hcall =>
              cases h
              exact .written hnode hcall
  | writeError u =>
      rw [pipelineStep] at h
      split at h
      · cases h
      · next node hnode =>
          cases h
          exact .writeError hnode
  | dispatch env =>
      rw [pipelineStep] at h
      split at h
      · cases h
      · next msgNode rest hque =>
          split at h
          · cases h
          · next world msgQue hdealt =>
              cases h
              rw [hque] at hdealt
              exact .dispatch hque hdealt

/-! ## Messages -/

theorem wire_decode_nil : wire.decode [] = ⟨[], [], false⟩ := decode_more rfl

/-- The messages of `u` among some nodes. -/
def messagesOf (u : Uuid) (nodes : List LogicNode) : List (Except Fault Message) :=
  (nodes.filter fun n => n.session = u).map fun n => n.recvnode.message

theorem messagesOf_append (u : Uuid) (xs ys : List LogicNode) :
    messagesOf u (xs ++ ys) = messagesOf u xs ++ messagesOf u ys := by
  rw [messagesOf, List.filter_append, List.map_append, messagesOf, messagesOf]

theorem messagesOf_posted (u : Uuid) (posted : List RecvNode) :
    messagesOf u (posted.map fun node => ⟨u, node⟩) = posted.map RecvNode.message := by
  rw [messagesOf, List.filter_eq_self.mpr (by simp), List.map_map]
  rfl

theorem messagesOf_other {u v : Uuid} (h : v ≠ u) (posted : List RecvNode) :
    messagesOf v (posted.map fun node => ⟨u, node⟩) = [] := by
  rw [messagesOf, List.filter_eq_nil_iff.mpr (by simpa using fun _ _ => Ne.symm h)]
  rfl

/-- A call posts what its delivery adds to the decoded messages. -/
theorem Parsing.posted_eq {uuid : Uuid} {l : ReadState} (h : Parsing uuid l)
    (harmed : l.armed = true) {server : CServer} {chunk : Bytes} (hchunk : Chunk chunk)
    {call : ReadCall} (hcall : l.session.handleRead server false chunk = some call) :
    (wire.decode l.received).msgs.map .ok ++ call.posted.map RecvNode.message =
      (wire.decode (l.received ++ chunk)).msgs.map .ok := by
  have hspec := h.callSpec harmed server hchunk
  have hposted : call.posted.map RecvNode.message =
      (wire.decode ((wire.decode l.received).tail ++ chunk)).msgs.map .ok := by
    cases hb : (wire.decode ((wire.decode l.received).tail ++ chunk)).bad with
    | false =>
        obtain ⟨c', hr, -, hp, -⟩ := hspec.good hb
        cases hr.symm.trans hcall
        exact hp.messages rfl
    | true =>
        by_cases hn : NegLen (wire.decode ((wire.decode l.received).tail ++ chunk)).tail
        · obtain ⟨c', f, hr, -, hp⟩ := hspec.neg hb hn
          cases hr.symm.trans hcall
          exact hp.messages rfl
        · obtain ⟨c', hr, -, hp⟩ := hspec.bad hb hn
          cases hr.symm.trans hcall
          exact hp.messages rfl
  rw [hposted, decode_append l.received chunk (h.good harmed), List.map_append]

/-- It touches neither the send queue nor the map, but for its own session. -/
theorem Parsing.keeps {uuid : Uuid} {l : ReadState} (h : Parsing uuid l)
    (harmed : l.armed = true) {server : CServer} {chunk : Bytes} (hchunk : Chunk chunk)
    {call : ReadCall} (hcall : l.session.handleRead server false chunk = some call) :
    call.session.sendQue = l.session.sendQue ∧
      (call.server = server ∨ call.server = server.clearSession uuid) := by
  obtain ⟨hclear, hkeep⟩ := h.server_eq harmed hchunk hcall
  refine ⟨?_, (Classical.em _).elim (fun hr => Or.inr (hclear hr)) fun hr => Or.inl (hkeep hr)⟩
  have hspec := h.callSpec harmed server hchunk
  cases hb : (wire.decode ((wire.decode l.received).tail ++ chunk)).bad with
  | false =>
      obtain ⟨c', hr, hu, -⟩ := hspec.good hb
      cases hr.symm.trans hcall
      exact hu.sendQue
  | true =>
      by_cases hn : NegLen (wire.decode ((wire.decode l.received).tail ++ chunk)).tail
      · obtain ⟨c', f, hr, hu, -⟩ := hspec.neg hb hn
        cases hr.symm.trans hcall
        exact hu.sendQue
      · obtain ⟨c', hr, hu, -⟩ := hspec.bad hb hn
        cases hr.symm.trans hcall
        exact hu.sendQue

/-! ## The invariant -/

/-- The sessions stand for what they received, and the messages taken and queued are
what was received. -/
structure InOrder (p : Pipeline) : Prop where
  parsing : ∀ u, Parsing u ⟨p.world.session u, p.reading u, p.received u⟩
  unopened : ∀ u, u ∉ p.opened → p.reading u = false ∧ p.received u = []
  posted : ∀ u, messagesOf u (p.taken ++ p.msgQue) = (wire.decode (p.received u)).msgs.map .ok

theorem start_inOrder (db : Db) : InOrder (.start db) where
  parsing _ := ⟨rfl, fun h => (by cases h), fun h => (by cases h)⟩
  unopened _ _ := ⟨rfl, rfl⟩
  posted u := by
    rw [show (Pipeline.start db).received u = [] from rfl, wire_decode_nil]
    rfl

/-- A node taken or queued is a whole message of its session. -/
theorem InOrder.message {p : Pipeline} (h : InOrder p) {n : LogicNode}
    (hn : n ∈ p.taken ++ p.msgQue) :
    ∃ msg, n.recvnode.message = .ok msg ∧ msg ∈ (wire.decode (p.received n.session)).msgs := by
  have hmem : n.recvnode.message ∈ messagesOf n.session (p.taken ++ p.msgQue) :=
    List.mem_map.mpr ⟨n, List.mem_filter.mpr ⟨hn, by simp⟩, rfl⟩
  rw [h.posted, List.mem_map] at hmem
  obtain ⟨msg, hmsg, hok⟩ := hmem
  exact ⟨msg, hok.symm, hmsg⟩

/-- The front message is processed and leaves the queue. -/
theorem InOrder.dealt {lib : JsonLib} {env : Nat → Outcome} {p : Pipeline} (h : InOrder p)
    {msgNode : LogicNode} {rest msgQue : List LogicNode} {world : World}
    (hfront : p.msgQue = msgNode :: rest)
    (hdealt : dealMsg lib env p.world (msgNode :: rest) = .ok (world, msgQue)) :
    msgQue = rest ∧ ∃ msg, msgNode.recvnode.message = .ok msg ∧
      p.world.process lib env msgNode.session msg.1 msg.2 = .ok world := by
  obtain ⟨⟨msgId, msgData⟩, hmsg, -⟩ := h.message (n := msgNode) (by simp [hfront])
  rw [dealMsg_eq lib env p.world rest hmsg] at hdealt
  cases hproc : p.world.process lib env msgNode.session msgId msgData with
  | error f => rw [hproc] at hdealt; cases hdealt
  | ok w =>
      rw [hproc] at hdealt
      cases hdealt
      exact ⟨rfl, (msgId, msgData), hmsg, hproc⟩

/-! ## Steps keep it -/

/-- A change of one session that posts nothing and delivers nothing. -/
theorem InOrder.update {p p' : Pipeline} (h : InOrder p) {u : Uuid} {session : CSession}
    {armed : Bool} (hself : Parsing u ⟨session, armed, p.received u⟩)
    (hsession : p'.world.session = Function.update p.world.session u session)
    (hreading : p'.reading = Function.update p.reading u armed)
    (hreceived : p'.received = p.received) (hnodes : p'.taken ++ p'.msgQue = p.taken ++ p.msgQue)
    (hopened : ∀ v, v ∉ p'.opened → v ∉ p.opened) (hidle : u ∉ p'.opened → armed = false) :
    InOrder p' where
  parsing v := by
    rw [hreceived, hsession, hreading]
    by_cases hv : v = u
    · subst hv
      rwa [Function.update_self, Function.update_self]
    · rw [Function.update_of_ne hv, Function.update_of_ne hv]
      exact h.parsing v
  unopened v hv := by
    rw [hreceived, hreading]
    refine ⟨?_, (h.unopened v (hopened v hv)).2⟩
    by_cases hvu : v = u
    · subst hvu
      rw [Function.update_self]
      exact hidle hv
    · rw [Function.update_of_ne hvu]
      exact (h.unopened v (hopened v hv)).1
  posted v := by
    rw [hnodes, hreceived]
    exact h.posted v

theorem InOrder.delivery {p : Pipeline} {u : Uuid} {chunk : Bytes} {call : ReadCall}
    (h : InOrder p) (hreading : p.reading u = true) (hchunk : Chunk chunk)
    (hcall : (p.world.session u).handleRead p.world.server false chunk = some call) :
    InOrder (p.afterRead u chunk call) where
  parsing v := by
    by_cases hv : v = u
    · subst hv
      have hstep := sessionStep_parsing (h.parsing v) (e := .delivery p.world.server chunk)
        (by rw [sessionStep, if_pos ⟨hreading, hchunk⟩, hcall]; rfl)
      simpa [Pipeline.afterRead] using hstep
    · simpa [Pipeline.afterRead, hv] using h.parsing v
  unopened v hv := by
    have hv' : v ∉ p.opened := hv
    obtain ⟨hidle, hnone⟩ := h.unopened v hv'
    have hvu : v ≠ u := by
      rintro rfl
      rw [hreading] at hidle
      cases hidle
    simpa [Pipeline.afterRead, hvu] using h.unopened v hv'
  posted v := by
    show messagesOf v (p.taken ++ (p.msgQue ++ call.posted.map fun node => ⟨u, node⟩)) = _
    rw [← List.append_assoc, messagesOf_append, h.posted v]
    by_cases hv : v = u
    · subst hv
      rw [messagesOf_posted, (h.parsing v).posted_eq hreading hchunk hcall]
      simp [Pipeline.afterRead]
    · rw [messagesOf_other hv, List.append_nil]
      simp [Pipeline.afterRead, hv]

theorem pipelineStep_inOrder {lib : JsonLib} {p p' : Pipeline} {e : PipelineEvent}
    (h : InOrder p) (hstep : PipelineStep lib p e p') : InOrder p' := by
  cases hstep with
  | @start u idle fresh =>
      have hself : Parsing u ⟨CSession.new u, true, p.received u⟩ := by
        rw [(h.unopened u fresh).2]
        exact start_parsing u
      refine h.update hself rfl rfl ?_ (by simp [Pipeline.afterRead]; rfl) (fun v hv hmem => ?_)
        fun hu => absurd List.mem_cons_self hu
      · simp [Pipeline.afterRead]
      · exact hv (List.mem_cons_of_mem _ hmem)
  | @enter u accepting => exact ⟨h.parsing, h.unopened, h.posted⟩
  | delivery reading chunked returns defined => exact h.delivery reading chunked returns
  | @readError u reading =>
      have hself : Parsing u ⟨(p.world.session u).close, false, p.received u⟩ :=
        ⟨(h.parsing u).uuid_eq, fun ha => (by cases ha), fun ha => (by cases ha)⟩
      refine h.update hself rfl rfl ?_ ?_ (fun _ hv => hv) fun _ => rfl
      · simp [Pipeline.afterRead]
      · simp [Pipeline.afterRead, ReadCall.start, ReadCall.clearSession]
  | @written u node call writing returns =>
      obtain ⟨que, hque⟩ := handleWritten_session returns
      have hself : Parsing u ⟨call.session, p.reading u, p.received u⟩ := by
        rw [hque]
        exact (h.parsing u).setQue que
      exact h.update hself rfl (Function.update_eq_self u p.reading).symm rfl rfl
        (fun _ hv => hv) fun hu => (h.unopened u hu).1
  | @writeError u node writing =>
      have hu := h.parsing u
      have hself : Parsing u ⟨(p.world.session u).close, p.reading u, p.received u⟩ :=
        ⟨hu.uuid_eq, hu.good, fun ha => (hu.held ha).close⟩
      exact h.update hself rfl (Function.update_eq_self u p.reading).symm rfl rfl
        (fun _ hv => hv) fun hu => (h.unopened u hu).1
  | @dispatch env msgNode rest msgQue world front dealt =>
      obtain ⟨rfl, msg, -, hproc⟩ := h.dealt front dealt
      obtain ⟨hkept, -⟩ := process_ok hproc
      refine ⟨fun v => ?_, h.unopened, fun v => ?_⟩
      · obtain ⟨que, hque⟩ := hkept.session v
        show Parsing v ⟨world.session v, p.reading v, p.received v⟩
        rw [hque]
        exact (h.parsing v).setQue que
      · show messagesOf v (p.taken ++ [msgNode] ++ msgQue) = _
        rw [List.append_assoc, List.singleton_append, ← front]
        exact h.posted v

theorem exec_inOrder {lib : JsonLib} {db : Db} {events : List PipelineEvent} {p : Pipeline}
    (hrun : Machine.exec (pipelineStep lib) (.start db) events = some p) : InOrder p :=
  Machine.exec_invariant (fun _ _ _ h hstep => pipelineStep_inOrder h (pipelineStep_inv hstep))
    (start_inOrder db) hrun

/-- In every run the messages of a session that were taken by the worker, and behind
them those still queued, are the ones its bytes decode to. -/
theorem pipeline_in_order (lib : JsonLib) (db : Db) (events : List PipelineEvent) (p : Pipeline)
    (hrun : Machine.exec (pipelineStep lib) (.start db) events = some p) (u : Uuid) :
    messagesOf u (p.taken ++ p.msgQue) = (wire.decode (p.received u)).msgs.map .ok :=
  (exec_inOrder hrun).posted u

/-- A registration that arrives in two pieces, and between them a message of another
session. -/
def interleaved : List PipelineEvent :=
  let frame := encode (msgRegister, registerText)
  [.start .first, .enter, .start .second, .delivery .first (frame.take 3), .enter,
    .delivery .second (encode (7, ascii "hi")), .delivery .first (frame.drop 3),
    .dispatch fun _ => .good 1]

theorem pipeline_in_order_interleaved :
    ∃ p, Machine.exec (pipelineStep scene) (.start (.empty id)) interleaved = some p ∧
      p.taken.length = 1 ∧ p.msgQue.length = 1 ∧
      messagesOf .first (p.taken ++ p.msgQue) =
        (wire.decode (p.received .first)).msgs.map .ok := by
  obtain ⟨p, hrun, htaken, hque⟩ : ∃ p,
      Machine.exec (pipelineStep scene) (.start (.empty id)) interleaved = some p ∧
      p.taken.length = 1 ∧ p.msgQue.length = 1 := ⟨_, rfl, rfl, rfl⟩
  exact ⟨p, hrun, htaken, hque, pipeline_in_order scene (.empty id) interleaved p hrun .first⟩

end AsioServer
