import AsioServer.Proofs.Codec
import AsioServer.Proofs.OneChat
import AsioServer.Proofs.Pipeline

/-!
# From the worker to the client

The other way through the system. What was written to a session, followed by
what still waits in its queue, is a selection of the calls of `Send` made on it,
in their order: a call that finds the queue full is passed over, and nothing
else is. Every call answers a message the worker took: it replies to the session
of that message, or it hands on the payload of a chat. Both together with the
codec say what the reading thread of a client can print: an answer to a message
of its own, or, byte for byte, what the connection of some session carried as a
chat.
-/

namespace AsioServer

/-! ## Queues -/

/-- The node that a call of `Send` builds. -/
def Sent.Builds (s : Sent) (node : SendNode) : Prop :=
  SendNode.new (s.text ++ [0]) (short s.text.length) s.msgId = .ok node

/-- Some of the calls, in their order, and their nodes. -/
def Accepted (sents : List Sent) (nodes : List SendNode) : Prop :=
  ∃ accepted, List.Sublist accepted sents ∧ List.Forall₂ Sent.Builds accepted nodes

theorem Accepted.append {sents sents' : List Sent} {nodes nodes' : List SendNode}
    (h : Accepted sents nodes) (h' : Accepted sents' nodes') :
    Accepted (sents ++ sents') (nodes ++ nodes') := by
  obtain ⟨accepted, hsub, hnodes⟩ := h
  obtain ⟨accepted', hsub', hnodes'⟩ := h'
  exact ⟨accepted ++ accepted', hsub.append hsub', List.rel_append hnodes hnodes'⟩

/-- What a queue takes are nodes behind those it had. -/
theorem Takes.accepted {que que' : List SendNode} {sents : List Sent} (h : Takes que sents que') :
    ∃ nodes, que' = que ++ nodes ∧ Accepted sents nodes := by
  induction h with
  | nil => exact ⟨[], (List.append_nil _).symm, [], .slnil, .nil⟩
  | full full rest ih =>
      obtain ⟨nodes, hque, accepted, hsub, hnodes⟩ := ih
      exact ⟨nodes, hque, accepted, hsub.cons _, hnodes⟩
  | @queued _ _ s _ node room build rest ih =>
      obtain ⟨nodes, hque, accepted, hsub, hnodes⟩ := ih
      refine ⟨node :: nodes, ?_, s :: accepted, hsub.cons_cons s, .cons build hnodes⟩
      rw [hque, List.append_assoc, List.singleton_append]

/-! ## Answers -/

/-- A call of `Send` made for a message: a reply to its session, or the payload of a
chat. -/
structure Answers (n : LogicNode) (msg : Message) (s : Sent) : Prop where
  found : (findCallBack msg.1).isSome
  id : s.msgId = msg.1
  target : s.session = n.session ∨ (findCallBack msg.1 = some .oneChat ∧ s.text = msg.2)

/-- A message without a callback sends nothing. -/
theorem found_of_sent {lib : JsonLib} {env : Nat → Outcome} {w w' : World} {session : Uuid}
    {msgId : Int} {msgData : Bytes} {sents : List Sent} {s : Sent}
    (hproc : w.process lib env session msgId msgData = .ok w') (hlog : w'.sent = w.sent ++ sents)
    (hs : s ∈ sents) : (findCallBack msgId).isSome := by
  cases hfind : findCallBack msgId with
  | some callBack => rfl
  | none =>
      rw [World.process, hfind] at hproc
      cases hproc
      rw [List.self_eq_append_right.mp hlog] at hs
      cases hs

/-- The calls a message leads to answer it, and those on other sessions go to sessions
of the map. -/
theorem Outgoing.answers {lib : JsonLib} {env : Nat → Outcome} {w : World} {n : LogicNode}
    {msg : Message} {sents : List Sent} (h : Outgoing lib env w n.session msg.1 msg.2 sents)
    {s : Sent} (hs : s ∈ sents) (hfound : (findCallBack msg.1).isSome) :
    Answers n msg s ∧ (s.session = n.session ∨ s.session ∈ w.server.sessions) := by
  have hreply : ∀ r : Json, Answers n msg (.reply lib n.session msg.1 r) ∧
      ((Sent.reply lib n.session msg.1 r).session = n.session ∨
        (Sent.reply lib n.session msg.1 r).session ∈ w.server.sessions) :=
    fun r => ⟨⟨hfound, rfl, Or.inl rfl⟩, Or.inl rfl⟩
  cases h with
  | silent hello chat => cases hs
  | plain hello chat plain => rw [List.mem_singleton.mp hs]; exact hreply _
  | hello find answer => rw [List.mem_singleton.mp hs]; exact hreply _
  | refused find idField offline => rw [List.mem_singleton.mp hs]; exact hreply _
  | unheard find idField online nobody => rw [List.mem_singleton.mp hs]; exact hreply _
  | forwarded find idField online somebody =>
      rcases List.mem_pair.mp hs with rfl | rfl
      · exact ⟨⟨hfound, rfl, Or.inr ⟨find, rfl⟩⟩, Or.inr (getSession_eq_some.mp somebody).2⟩
      · exact hreply _

/-! ## The invariant -/

structure Delivering (p : Pipeline) : Prop where
  sends : ∀ u, Accepted (p.world.sent.filter fun s => s.session = u)
    (p.written u ++ (p.world.session u).sendQue)
  front : ∀ u node, p.writing u = some node → (p.world.session u).sendQue.head? = some node
  unopened : ∀ u, u ∉ p.opened → (p.world.session u).sendQue = [] ∧ p.written u = []
  mapped : ∀ u ∈ p.world.server.sessions, u ∈ p.opened
  accepting : ∀ u, p.accepting = some u → u ∈ p.opened
  answers : ∀ s ∈ p.world.sent, ∃ n ∈ p.taken, ∃ msg, n.recvnode.message = .ok msg ∧
    Answers n msg s

theorem start_delivering (db : Db) : Delivering (.start db) where
  sends _ := ⟨[], .slnil, .nil⟩
  front _ _ h := by cases h
  unopened _ _ := ⟨rfl, rfl⟩
  mapped _ h := by cases h
  accepting _ h := by cases h
  answers _ h := by cases h

/-- A handler that leaves the queues and the history alone, and adds to the map only what
was opened. -/
theorem Delivering.handled {p p' : Pipeline} (h : Delivering p)
    (hque : ∀ u, (p'.world.session u).sendQue = (p.world.session u).sendQue)
    (hsent : p'.world.sent = p.world.sent) (hwritten : p'.written = p.written)
    (hwriting : ∀ u node, p'.writing u = some node → p.writing u = some node)
    (hopened : ∀ u ∈ p.opened, u ∈ p'.opened)
    (hmapped : ∀ u ∈ p'.world.server.sessions, u ∈ p.world.server.sessions ∨ u ∈ p'.opened)
    (haccepting : ∀ u, p'.accepting = some u → u ∈ p'.opened)
    (htaken : p'.taken = p.taken) : Delivering p' where
  sends u := by
    rw [hsent, hwritten, hque]
    exact h.sends u
  front u node hnode := by
    rw [hque]
    exact h.front u node (hwriting u node hnode)
  unopened u hu := by
    rw [hque, hwritten]
    exact h.unopened u fun hmem => hu (hopened u hmem)
  mapped u hu := (hmapped u hu).elim (fun hmem => hopened u (h.mapped u hmem)) id
  accepting := haccepting
  answers s hs := by
    rw [hsent] at hs
    rw [htaken]
    exact h.answers s hs

/-- A completed write: its node leaves the queue. -/
theorem Delivering.written {p : Pipeline} {u : Uuid} {node : SendNode} {call : WriteCall}
    (h : Delivering p) (hnode : p.writing u = some node)
    (hcall : (p.world.session u).handleWritten = .ok call) :
    Delivering
      { p with
        world := { p.world with session := Function.update p.world.session u call.session }
        writing := Function.update p.writing u call.wrote
        written := Function.update p.written u (p.written u ++ [node]) } := by
  have hfront := h.front u node hnode
  obtain ⟨rest, hque⟩ : ∃ rest, (p.world.session u).sendQue = node :: rest := by
    cases hq : (p.world.session u).sendQue with
    | nil => rw [hq] at hfront; cases hfront
    | cons first rest => rw [hq] at hfront; exact ⟨rest, by rw [Option.some.inj hfront]⟩
  obtain rfl : call = ⟨{ p.world.session u with sendQue := rest }, rest.head?⟩ := by
    rw [CSession.handleWritten, hque] at hcall
    exact (Except.ok.inj hcall).symm
  refine ⟨fun v => ?_, fun v n hn => ?_, fun v hv => ?_, h.mapped, h.accepting, h.answers⟩
  · have hsends := h.sends v
    by_cases hv : v = u
    · subst hv
      simpa [hque] using hsends
    · simpa [hv] using hsends
  · by_cases hv : v = u
    · subst hv
      simpa using hn
    · simpa [hv] using h.front v n (by simpa [hv] using hn)
  · obtain ⟨hempty, hnone⟩ := h.unopened v hv
    have hvu : v ≠ u := by
      rintro rfl
      rw [hque] at hempty
      cases hempty
    simpa [hvu] using ⟨hempty, hnone⟩

/-- A message: its calls are answers, and the queues take them. -/
theorem Delivering.dispatch {lib : JsonLib} {env : Nat → Outcome} {p : Pipeline} {world : World}
    {n : LogicNode} {rest : List LogicNode} {msg : Message} (h : Delivering p)
    (hopened : n.session ∈ p.opened) (hmsg : n.recvnode.message = .ok msg)
    (hproc : p.world.process lib env n.session msg.1 msg.2 = .ok world) :
    Delivering
      { p with
        world := world
        writing := started p.world world p.writing
        msgQue := rest
        taken := p.taken ++ [n] } := by
  obtain ⟨hkept, -⟩ := process_ok hproc
  obtain ⟨sents, hpushes, hout⟩ := process_outgoing hproc
  have hanswers := fun s (hs : s ∈ sents) => hout.answers hs (found_of_sent hproc hpushes.log hs)
  refine ⟨fun v => ?_, fun v node hnode => ?_, fun v hv => ?_, fun v hv => ?_, h.accepting,
    fun s hs => ?_⟩
  · obtain ⟨nodes, hque, haccepted⟩ := (hpushes.takes v).accepted
    show Accepted (world.sent.filter _) (p.written v ++ (world.session v).sendQue)
    rw [hpushes.log, List.filter_append, hque, ← List.append_assoc]
    exact (h.sends v).append haccepted
  · obtain ⟨nodes, hque, -⟩ := (hpushes.takes v).accepted
    have hnode' : started p.world world p.writing v = some node := hnode
    rw [started] at hnode'
    show (world.session v).sendQue.head? = some node
    split at hnode'
    · exact hnode'
    · have hfront := h.front v node hnode'
      rw [hque, List.head?_append, hfront]
      rfl
  · -- nothing is sent to a session that was never opened
    obtain ⟨hempty, hnone⟩ := h.unopened v hv
    refine ⟨(hpushes.kept fun s hs heq => ?_).trans hempty, hnone⟩
    obtain ⟨-, htarget⟩ := hanswers s hs
    rw [heq] at htarget
    exact hv (htarget.elim (fun hself => hself ▸ hopened) (h.mapped v))
  · have hv' : v ∈ world.server.sessions := hv
    rw [hkept.server] at hv'
    exact h.mapped v hv'
  · have hs' : s ∈ world.sent := hs
    rw [hpushes.log] at hs'
    rcases List.mem_append.mp hs' with hold | hnew
    · obtain ⟨m, hm, hanswer⟩ := h.answers s hold
      exact ⟨m, List.mem_append_left _ hm, hanswer⟩
    · exact ⟨n, List.mem_append_right _ (List.mem_singleton_self n), msg, hmsg,
        (hanswers s hnew).1⟩

theorem pipelineStep_delivering {lib : JsonLib} {p p' : Pipeline} {e : PipelineEvent}
    (horder : InOrder p) (h : Delivering p) (hstep : PipelineStep lib p e p') : Delivering p' := by
  cases hstep with
  | @start u idle fresh =>
      refine h.handled (fun v => ?_) rfl rfl (fun _ _ hn => hn)
        (fun v hv => List.mem_cons_of_mem u hv) (fun v hv => Or.inl hv) ?_ rfl
      · by_cases hv : v = u
        · subst hv
          rw [(h.unopened v fresh).1]
          simp [Pipeline.afterRead, CSession.start, ReadCall.start, ReadCall.arm, CSession.new]
        · simp [Pipeline.afterRead, hv]
      · rintro v hv
        obtain rfl : u = v := Option.some.inj hv
        exact List.mem_cons_self
  | @enter u accepting =>
      refine h.handled (fun _ => rfl) rfl rfl (fun _ _ hn => hn) (fun _ hv => hv) (fun v hv => ?_)
        (fun _ hv => by cases hv) rfl
      rcases CServer.mem_insert.mp hv with rfl | hv
      · exact Or.inr (h.accepting _ accepting)
      · exact Or.inl hv
  | @delivery u chunk call reading chunked returns defined =>
      obtain ⟨hque, hserver⟩ := (horder.parsing u).keeps reading chunked returns
      refine h.handled (fun v => ?_) rfl rfl (fun _ _ hn => hn) (fun _ hv => hv) (fun v hv => ?_)
        h.accepting rfl
      · by_cases hv : v = u
        · subst hv
          simpa [Pipeline.afterRead] using hque
        · simp [Pipeline.afterRead, hv]
      · have hv' : v ∈ call.server.sessions := hv
        rcases hserver with hsame | hclear
        · rw [hsame] at hv'
          exact Or.inl hv'
        · rw [hclear] at hv'
          exact Or.inl (CServer.mem_clearSession.mp hv').2
  | @readError u reading =>
      refine h.handled (fun v => ?_) rfl rfl (fun _ _ hn => hn) (fun _ hv => hv)
        (fun v hv => Or.inl (CServer.mem_clearSession.mp hv).2) h.accepting rfl
      by_cases hv : v = u
      · subst hv
        simp [Pipeline.afterRead, ReadCall.start, ReadCall.clearSession, CSession.close]
      · simp [Pipeline.afterRead, hv]
  | written writing returns => exact h.written writing returns
  | @writeError u node writing =>
      refine h.handled (fun v => ?_) rfl rfl (fun v n hn => ?_) (fun _ hv => hv)
        (fun v hv => Or.inl (CServer.mem_clearSession.mp hv).2) h.accepting rfl
      · by_cases hv : v = u
        · subst hv
          simp [CSession.close]
        · simp [hv]
      · by_cases hv : v = u
        · subst hv
          simp at hn
        · simpa [hv] using hn
  | @dispatch env msgNode rest msgQue world front dealt =>
      obtain ⟨rfl, msg, hmsg, hproc⟩ := horder.dealt front dealt
      refine h.dispatch ?_ hmsg hproc
      by_contra hclosed
      obtain ⟨msg', -, hmem⟩ := horder.message (n := msgNode) (by simp [front])
      rw [(horder.unopened _ hclosed).2, wire_decode_nil] at hmem
      cases hmem

theorem exec_delivering {lib : JsonLib} {db : Db} {events : List PipelineEvent} {p : Pipeline}
    (hrun : Machine.exec (pipelineStep lib) (.start db) events = some p) :
    InOrder p ∧ Delivering p :=
  Machine.exec_invariant (I := fun p => InOrder p ∧ Delivering p)
    (fun _ _ _ h hstep => ⟨pipelineStep_inOrder h.1 (pipelineStep_inv hstep),
      pipelineStep_delivering h.1 h.2 (pipelineStep_inv hstep)⟩)
    ⟨start_inOrder db, start_delivering db⟩ hrun

/-- In every run the nodes written to a session, and behind them those that wait, are
some of the calls of `Send` made on it, in their order; and each of these calls answers
a message the worker has taken. -/
theorem delivered_in_order (lib : JsonLib) (db : Db) (events : List PipelineEvent) (p : Pipeline)
    (hrun : Machine.exec (pipelineStep lib) (.start db) events = some p) (u : Uuid) :
    Accepted (p.world.sent.filter fun s => s.session = u)
        (p.written u ++ (p.world.session u).sendQue) ∧
      ∀ s ∈ p.world.sent, s.session = u →
        ∃ n ∈ p.taken, ∃ msg, n.recvnode.message = .ok msg ∧ Answers n msg s :=
  have h := (exec_delivering hrun).2
  ⟨h.sends u, fun s hs _ => h.answers s hs⟩

/-- The registration of `interleaved` is processed and answered. -/
def answered : List PipelineEvent :=
  interleaved ++ [.dispatch fun _ => .good 1, .written .first]

theorem delivered_in_order_answered :
    ∃ p, Machine.exec (pipelineStep scene) (.start (.empty id)) answered = some p ∧
      (p.written .first).length = 1 ∧
      Accepted (p.world.sent.filter fun s => s.session = .first)
          (p.written .first ++ (p.world.session .first).sendQue) ∧
        ∀ s ∈ p.world.sent, s.session = .first →
          ∃ n ∈ p.taken, ∃ msg, n.recvnode.message = .ok msg ∧ Answers n msg s := by
  obtain ⟨p, hrun, hwritten⟩ : ∃ p,
      Machine.exec (pipelineStep scene) (.start (.empty id)) answered = some p ∧
      (p.written .first).length = 1 := ⟨_, rfl, rfl⟩
  exact ⟨p, hrun, hwritten, delivered_in_order scene (.empty id) answered p hrun .first⟩

/-! ## The reading thread -/

/-- A stream that ends within a frame gives no message. -/
theorem readMessage_cut (lib : JsonLib) (upper : Int) {msg : Message} (h : msg.Valid)
    {stream : Bytes} (hpre : stream <+: encode msg) (hcut : stream.length < (encode msg).length) :
    readMessage lib upper stream = none := by
  have hlen := h.length_le
  rw [maxLength_eq] at hlen
  rw [length_encode, headTotalLen] at hcut
  obtain ⟨a, b, c, d, henc, -, hcd⟩ := h.header
  rcases Nat.lt_or_ge stream.length clientHeadTotal with hshort | hhead
  · rw [readMessage, netRead, if_neg (by omega)]
  · obtain ⟨body, rfl, hbody⟩ : ∃ body, stream = a :: b :: c :: d :: body ∧ body <+: msg.2 := by
      rw [henc] at hpre
      rcases stream with _ | ⟨a', _ | ⟨b', _ | ⟨c', _ | ⟨d', body⟩⟩⟩⟩
      case cons.cons.cons.cons =>
        simp only [List.cons_prefix_cons] at hpre
        obtain ⟨ha, hb, hc, hd, hbody⟩ := hpre
        exact ⟨body, by rw [ha, hb, hc, hd], hbody⟩
      all_goals simp [clientHeadTotal] at hhead
    have hnetHead : netRead clientHeadTotal (a :: b :: c :: d :: body) =
        some ([a, b, c, d], body) := netRead_append [a, b, c, d] body
    have hmsglen : short (networkToHostShort (loadShort c d)) = msg.2.length := by
      rw [networkToHostShort_loadShort, hcd]
      exact short_eq (by omega) (by omega)
    have hnetBody : netRead (msgBuffer msg.2.length) body = none := by
      rw [msgBuffer, sizeT_natCast (by omega), maxLength_eq, Nat.min_eq_right hlen, netRead,
        if_neg]
      simp only [List.length_cons] at hcut
      omega
    rw [readMessage, hnetHead]
    simp only [hmsglen, hnetBody, Option.map_none]

/-- Of a stream of frames the thread prints the messages that have arrived whole. -/
theorem readThread_begins (lib : JsonLib) (upper : Nat → Int) {msgs : List Message} :
    ∀ {rounds : Nat} {stream : Bytes}, (∀ msg ∈ msgs, Message.Valid msg) →
      stream <+: (msgs.map encode).flatten → stream.length < rounds →
      ∃ printed, readThread lib upper rounds stream = some printed ∧
        printed.map (fun q => (q.msgid, q.msg)) <+: msgs := by
  induction msgs with
  | nil =>
      intro rounds stream _ hpre hrounds
      obtain rfl : stream = [] := List.prefix_nil.mp hpre
      obtain ⟨rounds, rfl⟩ := Nat.exists_eq_succ_of_ne_zero (Nat.ne_of_gt hrounds)
      exact ⟨[], rfl, List.nil_prefix⟩
  | cons msg msgs ih =>
      intro rounds stream hmsgs hpre hrounds
      have hvalid := hmsgs msg List.mem_cons_self
      obtain ⟨rounds, rfl⟩ :=
        Nat.exists_eq_succ_of_ne_zero (Nat.ne_of_gt (Nat.zero_lt_of_lt hrounds))
      rw [List.map_cons, List.flatten_cons] at hpre
      rcases Nat.lt_or_ge stream.length (encode msg).length with hcut | hwhole
      · refine ⟨[], ?_, List.nil_prefix⟩
        have hpre' : stream <+: encode msg :=
          List.prefix_of_prefix_length_le hpre (List.prefix_append _ _) (Nat.le_of_lt hcut)
        rw [readThread, readMessage_cut lib (upper rounds) hvalid hpre' hcut]
      · obtain ⟨rest, rfl⟩ :=
          List.prefix_of_prefix_length_le (List.prefix_append _ _) hpre hwhole
        rw [List.prefix_append_right_inj] at hpre
        rw [List.length_append, length_encode, headTotalLen] at hrounds
        obtain ⟨printed, hread, hprinted⟩ :=
          @ih rounds _ (fun m hm => hmsgs m (List.mem_cons_of_mem _ hm)) hpre (by omega)
        refine ⟨⟨msg.1, msg.2, lib.toStyledString (lib.parse msg.2).2⟩ :: printed, ?_, ?_⟩
        · rw [readThread, readMessage_encode lib (upper rounds) hvalid]
          simp only [hread, Option.map_some]
        · rw [List.map_cons, List.cons_prefix_cons]
          exact ⟨rfl, hprinted⟩

/-! ## End to end -/

/-- Nodes of short texts hold the frames of their calls. -/
theorem Accepted.frames {sents : List Sent} {nodes : List SendNode} (h : Accepted sents nodes)
    (hshort : ∀ s ∈ sents, s.text.length ≤ maxLength) :
    ∃ accepted, List.Sublist accepted sents ∧
      nodes.map SendNode.frame = (accepted.map fun s => (s.msgId, s.text)).map encode := by
  obtain ⟨accepted, hsub, hnodes⟩ := h
  refine ⟨accepted, hsub, ?_⟩
  have hshort' := fun s hs => hshort s (hsub.subset hs)
  clear hsub
  induction hnodes with
  | nil => rfl
  | @cons s node accepted nodes build rest ih =>
      rw [List.map_cons, List.map_cons, List.map_cons,
        ih fun t ht => hshort' t (List.mem_cons_of_mem s ht),
        Sent.frame_eq (hshort' s List.mem_cons_self) build]
      rfl

/-- The ids that have a callback fit a header. -/
theorem found_id {msgId : Int} (h : (findCallBack msgId).isSome) :
    0 ≤ msgId ∧ msgId ≤ maxLength := by
  rw [findCallBack, List.lookup_isSome_iff] at h
  obtain ⟨pair, hmem, hid⟩ := h
  rw [beq_iff_eq.mp hid]
  have hall : ∀ pair ∈ registerCallBacks, 0 ≤ pair.1 ∧ pair.1 ≤ (maxLength : Int) := by decide
  exact hall pair hmem

/-- Whatever has arrived of what a session is sent, the client prints some of the calls
made on the session, in their order, and each of them answers a message of its own or hands on,
byte for byte, a chat that the connection of some session carried. -/
theorem printed_sound (lib client : JsonLib) (upper : Nat → Int) (db : Db)
    (events : List PipelineEvent) (p : Pipeline)
    (hrun : Machine.exec (pipelineStep lib) (.start db) events = some p) (u : Uuid)
    (hshort : ∀ s ∈ p.world.sent, s.session = u → s.text.length ≤ maxLength) (stream : Bytes)
    (harrived : stream <+:
      ((p.written u ++ (p.world.session u).sendQue).map SendNode.frame).flatten) :
    ∃ printed, readThread client upper (stream.length + 1) stream = some printed ∧
      List.Sublist (printed.map fun q => (q.msgid, q.msg))
        ((p.world.sent.filter fun s => s.session = u).map fun s => (s.msgId, s.text)) ∧
      ∀ q ∈ printed, ∃ v, ∃ msg ∈ (wire.decode (p.received v)).msgs, q.msgid = msg.1 ∧
        (v = u ∨ (findCallBack msg.1 = some .oneChat ∧ q.msg = msg.2)) := by
  obtain ⟨horder, hdelivering⟩ := exec_delivering hrun
  have hshort' : ∀ s ∈ p.world.sent.filter fun s => s.session = u,
      s.text.length ≤ maxLength := fun s hs =>
    hshort s (List.mem_filter.mp hs).1 (by simpa using (List.mem_filter.mp hs).2)
  obtain ⟨accepted, hsub, hframes⟩ := (hdelivering.sends u).frames hshort'
  -- the message that a call of `Send` answers
  have hanswer : ∀ s ∈ accepted, s.session = u ∧ ∃ n msg,
      msg ∈ (wire.decode (p.received n.session)).msgs ∧ Answers n msg s := by
    intro s hs
    have hmem := List.mem_filter.mp (hsub.subset hs)
    obtain ⟨n, hn, msg, hmsg, hanswers⟩ := hdelivering.answers s hmem.1
    obtain ⟨msg', hmsg', hmem'⟩ := horder.message (List.mem_append_left p.msgQue hn)
    obtain rfl : msg = msg' := Except.ok.inj (hmsg.symm.trans hmsg')
    exact ⟨by simpa using hmem.2, n, msg, hmem', hanswers⟩
  have hvalid : ∀ m ∈ accepted.map fun s => (s.msgId, s.text), Message.Valid m := by
    intro m hm
    obtain ⟨s, hs, rfl⟩ := List.mem_map.mp hm
    obtain ⟨-, n, msg, -, hanswers⟩ := hanswer s hs
    obtain ⟨hnonneg, hle⟩ := found_id hanswers.found
    rw [← hanswers.id] at hnonneg hle
    exact ⟨hnonneg, hle, hshort' s (hsub.subset hs)⟩
  rw [hframes] at harrived
  obtain ⟨printed, hread, hprinted⟩ :=
    readThread_begins client upper hvalid harrived (Nat.lt_succ_self _)
  refine ⟨printed, hread, hprinted.sublist.trans (hsub.map _), fun q hq => ?_⟩
  obtain ⟨s, hs, hsq⟩ := List.mem_map.mp (hprinted.subset (List.mem_map_of_mem hq))
  obtain ⟨hsession, n, msg, hmsg, hanswers⟩ := hanswer s hs
  obtain ⟨hid, htext⟩ := Prod.mk.inj hsq
  refine ⟨n.session, msg, hmsg, hid.symm.trans hanswers.id, ?_⟩
  rcases hanswers.target with hself | ⟨hchat, hpayload⟩
  · exact Or.inl (hself.symm.trans hsession)
  · exact Or.inr ⟨hchat, htext.symm.trans hpayload⟩

/-- The client prints the answer to its registration. -/
theorem printed_sound_answered :
    ∃ (p : Pipeline) (printed : List Printed),
      Machine.exec (pipelineStep scene) (.start (.empty id)) answered = some p ∧
      printed.map Printed.msgid = [msgRegister] ∧
      List.Sublist (printed.map fun q => (q.msgid, q.msg))
        ((p.world.sent.filter fun s => s.session = .first).map fun s => (s.msgId, s.text)) ∧
      ∀ q ∈ printed, ∃ v, ∃ msg ∈ (wire.decode (p.received v)).msgs, q.msgid = msg.1 ∧
        (v = .first ∨ (findCallBack msg.1 = some .oneChat ∧ q.msg = msg.2)) := by
  obtain ⟨p, hrun, hshort, hids⟩ : ∃ p,
      Machine.exec (pipelineStep scene) (.start (.empty id)) answered = some p ∧
      (∀ s ∈ p.world.sent, s.session = .first → s.text.length ≤ maxLength) ∧
      let stream := ((p.written .first ++ (p.world.session .first).sendQue).map
        SendNode.frame).flatten
      (readThread scene (fun _ => 0) (stream.length + 1) stream).map (·.map Printed.msgid) =
        some [msgRegister] := ⟨_, rfl, by decide, by decide +kernel⟩
  obtain ⟨printed, hread, hsub, hcause⟩ := printed_sound scene scene (fun _ => 0) (.empty id)
    answered p hrun .first hshort _ (List.prefix_refl _)
  dsimp only at hids
  rw [hread] at hids
  exact ⟨p, printed, hrun, Option.some.inj hids, hsub, hcause⟩

end AsioServer
