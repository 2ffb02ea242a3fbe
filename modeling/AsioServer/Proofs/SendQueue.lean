import AsioServer.Lib.Machine
import AsioServer.Ref.CSession
import AsioServer.Proofs.SendNode

/-!
# The send queue under its two threads

`Send` runs on any thread and `HandleWrite` on the thread of the socket, both
under `_send_lock`, so a run is a list of such calls in the order in which they
took it. `SendState` adds to the session what no field of it says: which writes
are under way, each with the number of nodes popped when it was started (which
names the node, not only its bytes), which frames were written, and which frames the
accepted calls of `Send` asked for. Nothing in the step function keeps a second
write from being started; that there never is one is `SendQueueOk`.

The invariant needs one thing more: the node whose write failed is never popped
(`Stuck`), which is what keeps every later `Send` from starting a write.

A `Send` breaks the property in one way. Its node is built before it is queued,
and where the length does not fit (`SendFits`) the call was accepted and no node
of its frame enters the queue.
-/

namespace AsioServer

structure SendState where
  session : CSession
  server : CServer
  outstanding : List (Nat × SendNode)
  popped : Nat
  failed : Bool
  fault : Option Fault
  accepted : List Bytes
  succeeded : List Bytes

inductive SendEvent where
  | send (msg : Bytes) (msgId : Int)
  | sendBuffer (msg : Bytes) (maxLength msgId : Int)
  /-- The `i`-th of the writes under way completes. -/
  | complete (i : Nat) (ok : Bool)

/-- The payload a call of `Send` is given. -/
def bufferPayload (msg : Bytes) (maxLength : Int) : Bytes :=
  msg.take (short maxLength).toNat

/-- `async_write` of a node. -/
def SendState.issue (l : SendState) (node : Option SendNode) : SendState :=
  { l with outstanding := l.outstanding ++ (node.map fun n => (l.popped, n)).toList }

/-- A call of `Send` whose frame is `frame`. It is accepted if it finds at most
`MAX_SENDQUE` nodes. -/
def SendState.afterSend (l : SendState) (frame : Bytes) (r : Except Fault WriteCall) :
    SendState :=
  let l :=
    if l.session.sendQue.length ≤ maxSendque then { l with accepted := l.accepted ++ [frame] }
    else l
  match r with
  | .ok w => { l with session := w.session }.issue w.wrote
  | .error f => { l with fault := some f }

def SendState.afterWritten (l : SendState) (frame : Bytes) (r : Except Fault WriteCall) :
    SendState :=
  match r with
  | .ok w =>
      { l with
        session := w.session
        popped := l.popped + 1
        succeeded := l.succeeded ++ [frame] }.issue w.wrote
  | .error f => { l with fault := some f }

def sendStep (l : SendState) : SendEvent → Option SendState
  | .send msg msgId =>
      some (l.afterSend (encode (msgId, msg)) (l.session.send msg msgId))
  | .sendBuffer msg maxLength msgId =>
      some (l.afterSend (encode (msgId, bufferPayload msg maxLength))
        (l.session.sendBuffer msg maxLength msgId))
  | .complete i ok =>
      match l.outstanding[i]? with
      | none => none
      | some (_, node) =>
          let l := { l with outstanding := l.outstanding.eraseIdx i }
          if ok then some (l.afterWritten node.frame l.session.handleWritten)
          else
            let (session, server) := l.session.handleWriteFailed l.server
            some { l with session := session, server := server, failed := true }

def SendState.start (uuid : Uuid) (server : CServer) : SendState :=
  { session := CSession.new uuid
    server := server
    outstanding := []
    popped := 0
    failed := false
    fault := none
    accepted := []
    succeeded := [] }

/-- Frames are neither lost, duplicated nor reordered. -/
structure SendQueueOk (l : SendState) : Prop where
  faultless : l.fault = none
  single : l.outstanding.length ≤ 1
  front : l.failed = false →
    l.outstanding = (l.session.sendQue.head?.map fun n => (l.popped, n)).toList
  stopped : l.failed = true → l.outstanding = []
  order : l.succeeded ++ l.session.sendQue.map SendNode.frame = l.accepted

/-- The node of a failed write stays at the front of the queue. -/
def Stuck (l : SendState) : Prop :=
  l.failed = true → l.session.sendQue ≠ []

/-- The call is dropped, or the length of its frame is a short that the buffer
covers. -/
def SendFits (l : SendState) : SendEvent → Prop
  | .send msg _ => maxSendque < l.session.sendQue.length ∨ msg.length ≤ sendMax
  | .sendBuffer msg len _ => maxSendque < l.session.sendQue.length ∨
      (0 ≤ short len ∧ short len ≤ sendMax ∧ short len ≤ msg.length)
  | .complete _ _ => True

theorem start_ok (uuid : Uuid) (server : CServer) :
    SendQueueOk (SendState.start uuid server) :=
  ⟨rfl, Nat.zero_le _, fun _ => rfl, fun _ => rfl, rfl⟩

/-! ## Send -/

/-- A dropped call changes nothing. -/
theorem afterSend_full {l : SendState} {frame msg : Bytes} {len id : Int}
    (hfull : maxSendque < l.session.sendQue.length) :
    l.afterSend frame (l.session.enqueue msg len id) = l := by
  rw [CSession.enqueue_full hfull, SendState.afterSend, if_neg (by omega)]
  simp [SendState.issue]

/-- An accepted call whose node is the frame keeps everything: with a node in the
queue it starts nothing, and into an empty queue, whose writes are all done and
have not failed, it starts the one write. -/
theorem afterSend_ok {l : SendState} {frame msg : Bytes} {len id : Int} {node : SendNode}
    (h : SendQueueOk l) (hs : Stuck l) (hroom : l.session.sendQue.length ≤ maxSendque)
    (hnode : SendNode.new msg len id = .ok node) (hframe : node.frame = frame) :
    SendQueueOk (l.afterSend frame (l.session.enqueue msg len id)) ∧
      Stuck (l.afterSend frame (l.session.enqueue msg len id)) := by
  have hout := h.front
  have horder := h.order
  rw [CSession.enqueue_ok hroom hnode, SendState.afterSend, if_pos hroom]
  cases hque : l.session.sendQue with
  | nil =>
      have hlive : l.failed = false := by
        by_contra hf
        exact hs (eq_true_of_ne_false hf) hque
      have hnone : l.outstanding = [] := by simpa [hque] using hout hlive
      refine ⟨⟨h.faultless, ?_, fun _ => ?_, fun hf => ?_, ?_⟩, fun hf => ?_⟩
      · simp [SendState.issue, hnone]
      · simp [SendState.issue, hnone]
      · exact absurd (hlive.symm.trans hf) (by decide)
      · simp [SendState.issue, ← horder, hque, hframe]
      · exact absurd (hlive.symm.trans hf) (by decide)
  | cons front rest =>
      refine ⟨⟨h.faultless, ?_, fun hf => ?_, fun hf => ?_, ?_⟩, fun _ => ?_⟩
      · simpa [SendState.issue] using h.single
      · simpa [SendState.issue, hque] using hout hf
      · simpa [SendState.issue] using h.stopped hf
      · simp [SendState.issue, ← horder, hque, hframe]
      · simp [SendState.issue]

/-- A call that is accepted without its frame entering the queue loses it. -/
theorem afterSend_lost {l : SendState} {frame msg : Bytes} {len id : Int}
    (h : SendQueueOk l) (hroom : l.session.sendQue.length ≤ maxSendque)
    (hlost : ∀ node, SendNode.new msg len id = .ok node → node.frame ≠ frame) :
    ¬ SendQueueOk (l.afterSend frame (l.session.enqueue msg len id)) := by
  intro h'
  cases hnode : SendNode.new msg len id with
  | ok node =>
      have horder := h'.order
      rw [CSession.enqueue_ok hroom hnode, SendState.afterSend, if_pos hroom] at horder
      simp only [SendState.issue, ← h.order, List.map_append, List.map_cons, List.map_nil,
        ← List.append_assoc] at horder
      exact hlost node hnode (List.cons.inj (List.append_cancel_left horder)).1
  | error f =>
      have hfault := h'.faultless
      rw [CSession.enqueue_error hroom hnode, SendState.afterSend, if_pos hroom] at hfault
      cases hfault

/-- `Send` of a string: the frame is that of the string exactly when its length
fits. -/
theorem send_frame (msg : Bytes) (id : Int) (hfits : (msg.length : Int) ≤ sendMax) :
    ∃ node, SendNode.new (msg ++ [0]) (short msg.length) id = .ok node ∧
      node.frame = encode (id, msg) := by
  have hshort : short msg.length = msg.length := by
    unfold sendMax at hfits
    exact short_eq (by omega) (by omega)
  obtain ⟨node, hnew, -, -, hframe⟩ :=
    SendNode.new_ok (msg ++ [0]) id (Int.natCast_nonneg msg.length) hfits
      (by rw [List.length_append]; omega)
  refine ⟨node, by rw [hshort]; exact hnew, ?_⟩
  rw [hframe, Int.toNat_natCast, List.take_left]
  rfl

theorem send_lost {msg : Bytes} (id : Int) (hlong : ¬ (msg.length : Int) ≤ sendMax)
    (node : SendNode) (hnode : SendNode.new (msg ++ [0]) (short msg.length) id = .ok node) :
    node.frame ≠ encode (id, msg) := by
  have hbounds := short_bounds msg.length
  obtain ⟨h₀, hmax, hmsg⟩ := SendNode.new_inv hnode hbounds.1 hbounds.2
  obtain ⟨node', hnode', -, -, hframe⟩ := SendNode.new_ok _ id h₀ hmax hmsg
  obtain rfl : node = node' := Except.ok.inj (hnode.symm.trans hnode')
  -- The frame that was built is shorter than that of the string.
  intro heq
  have hlen := congrArg List.length (hframe.symm.trans heq)
  rw [length_encode, List.length_append, List.length_take] at hlen
  have hhdr : (beBytes id ++ beBytes (short msg.length)).length = 4 := rfl
  rw [hhdr] at hlen
  simp only [headTotalLen] at hlen
  omega

theorem sendBuffer_frame (msg : Bytes) (len id : Int) (h₀ : 0 ≤ short len)
    (hmax : short len ≤ sendMax) (hmsg : short len ≤ msg.length) :
    ∃ node, SendNode.new msg (short len) id = .ok node ∧
      node.frame = encode (id, bufferPayload msg len) := by
  obtain ⟨node, hnew, -, -, hframe⟩ := SendNode.new_ok _ id h₀ hmax hmsg
  have hlen : ((bufferPayload msg len).length : Int) = short len := by
    rw [bufferPayload, List.length_take]
    omega
  refine ⟨node, hnew, ?_⟩
  rw [hframe, encode, hlen]
  rfl

/-! ## Steps -/

/-- A completion. Before a failure the write that completes is the front's, so
its success pops the node whose frame was written and starts the next; after a
failure nothing is under way. -/
theorem complete_ok {l l' : SendState} {i : Nat} {ok : Bool} (h : SendQueueOk l)
    (hstep : sendStep l (.complete i ok) = some l') : SendQueueOk l' ∧ Stuck l' := by
  rw [sendStep] at hstep
  split at hstep
  · cases hstep
  · next serial node hout =>
      have hlive : l.failed = false := by
        by_contra hf
        rw [h.stopped (eq_true_of_ne_false hf)] at hout
        cases hout
      have hfront := h.front hlive
      cases hque : l.session.sendQue with
      | nil =>
          rw [hfront, hque] at hout
          cases hout
      | cons front rest =>
          rw [hque] at hfront
          have hfront' : l.outstanding = [(l.popped, front)] := hfront
          obtain ⟨rfl, hnode⟩ : i = 0 ∧ front = node := by
            rw [hfront'] at hout
            cases i with
            | zero => cases hout; exact ⟨rfl, rfl⟩
            | succ i => cases hout
          have horder := h.order
          rw [hque] at horder
          simp only [hfront', List.eraseIdx_cons_zero] at hstep
          cases ok with
          | true =>
              have hw : l.session.handleWritten =
                  .ok ⟨{ l.session with sendQue := rest }, rest.head?⟩ := by
                rw [CSession.handleWritten, hque]
              rw [if_pos rfl] at hstep
              cases hstep
              rw [hw, SendState.afterWritten, ← hnode]
              refine ⟨⟨h.faultless, ?_, fun _ => ?_, fun hf => ?_, ?_⟩, fun hf => ?_⟩
              · cases rest <;> simp [SendState.issue]
              · simp [SendState.issue]
              · exact absurd (hlive.symm.trans hf) (by decide)
              · simpa [SendState.issue] using horder
              · exact absurd (hlive.symm.trans hf) (by decide)
          | false =>
              rw [if_neg (by decide)] at hstep
              cases hstep
              refine ⟨⟨h.faultless, Nat.zero_le _, fun hf => ?_, fun _ => rfl, ?_⟩, fun _ => ?_⟩
              · cases hf
              · exact h.order
              · show l.session.sendQue ≠ []
                rw [hque]
                exact List.cons_ne_nil _ _

/-- One step keeps the property exactly when it is no call of `Send` that is
accepted and does not fit. -/
theorem sendStep_ok_iff {l l' : SendState} {e : SendEvent} (hs : Stuck l)
    (h : SendQueueOk l) (hstep : sendStep l e = some l') :
    (SendQueueOk l' ↔ SendFits l e) ∧ (SendQueueOk l' → Stuck l') := by
  cases e with
  | complete i ok =>
      obtain ⟨h', hs'⟩ := complete_ok h hstep
      exact ⟨⟨fun _ => trivial, fun _ => h'⟩, fun _ => hs'⟩
  | send msg id =>
      cases hstep
      rcases Nat.lt_or_ge maxSendque l.session.sendQue.length with hfull | hroom
      · rw [CSession.send, afterSend_full hfull]
        exact ⟨⟨fun _ => Or.inl hfull, fun _ => h⟩, fun _ => hs⟩
      · by_cases hfits : (msg.length : Int) ≤ sendMax
        · obtain ⟨node, hnode, hframe⟩ := send_frame msg id hfits
          obtain ⟨h', hs'⟩ := afterSend_ok h hs hroom hnode hframe
          exact ⟨⟨fun _ => Or.inr hfits, fun _ => h'⟩, fun _ => hs'⟩
        · have hlost := afterSend_lost h hroom (send_lost id hfits)
          exact ⟨⟨fun h' => absurd h' hlost, fun hc => absurd hfits (by
            rcases hc with hc | hc
            · omega
            · exact absurd hc hfits)⟩, fun h' => absurd h' hlost⟩
  | sendBuffer msg len id =>
      cases hstep
      rcases Nat.lt_or_ge maxSendque l.session.sendQue.length with hfull | hroom
      · rw [CSession.sendBuffer, afterSend_full hfull]
        exact ⟨⟨fun _ => Or.inl hfull, fun _ => h⟩, fun _ => hs⟩
      · by_cases hfits : 0 ≤ short len ∧ short len ≤ sendMax ∧ short len ≤ msg.length
        · obtain ⟨node, hnode, hframe⟩ :=
            sendBuffer_frame msg len id hfits.1 hfits.2.1 hfits.2.2
          obtain ⟨h', hs'⟩ := afterSend_ok h hs hroom hnode hframe
          exact ⟨⟨fun _ => Or.inr hfits, fun _ => h'⟩, fun _ => hs'⟩
        · have hnone : ∀ node, SendNode.new msg (short len) id = .ok node →
              node.frame ≠ encode (id, bufferPayload msg len) := fun node hnode =>
            absurd (SendNode.new_inv hnode (short_bounds len).1 (short_bounds len).2) hfits
          have hlost := afterSend_lost h hroom hnone
          exact ⟨⟨fun h' => absurd h' hlost, fun hc => absurd hfits (by
            rcases hc with hc | hc
            · omega
            · exact absurd hc hfits)⟩, fun h' => absurd h' hlost⟩

/-- A run keeps the send queue in order, at every point, exactly when every
call of `Send` in it is dropped or fits. -/
theorem sendQueue_always_iff (uuid : Uuid) (server : CServer) (events : List SendEvent) :
    Machine.Always sendStep SendQueueOk (SendState.start uuid server) events ↔
      Machine.Meets sendStep SendFits (SendState.start uuid server) events :=
  Machine.always_iff_meets (I := Stuck) (L := fun _ => True)
    (fun _ _ _ hs h h' _ hstep => (sendStep_ok_iff hs h hstep).2 h')
    (fun _ _ _ hs h _ hstep => (sendStep_ok_iff hs h hstep).1)
    (fun hf => by cases hf) (start_ok uuid server) (fun _ _ => trivial)

/-- One string of 32764 bytes, to a session with nothing queued: the call is
accepted and its frame is never queued. -/
theorem sendQueue_long_string :
    ¬ ∀ (uuid : Uuid) (server : CServer) (events : List SendEvent),
      Machine.Always sendStep SendQueueOk (SendState.start uuid server) events := by
  intro hall
  have hstart := start_ok (.letter 0) ⟨∅⟩
  have h := (hall (.letter 0) ⟨∅⟩ [.send (List.replicate 32764 65) 1001]).2 _ rfl
  obtain ⟨hiff, -⟩ := sendStep_ok_iff (e := .send (List.replicate 32764 65) 1001)
    (fun hf => by cases hf) hstart rfl
  rcases hiff.mp h with hfull | hfits
  · exact absurd hfull (Nat.not_lt_zero _)
  · rw [List.length_replicate] at hfits
    exact absurd hfits (by decide)

end AsioServer
