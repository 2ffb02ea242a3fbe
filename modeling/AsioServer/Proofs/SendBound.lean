import AsioServer.Proofs.SendQueue

/-!
# How long the send queue gets

`Send` drops a call that finds more than `MAX_SENDQUE` nodes, so the call that
finds exactly that many is taken and leaves one node too many; a completion never
adds a node. A call that finds fewer nodes is taken, but its node is built before
it is queued: where the length fits no node (`SendBuilds`), the constructor throws
or reads behind the message, and nothing is queued.
-/

namespace AsioServer

/-- The limit, the node in flight included. -/
def SendBounded (l : SendState) : Prop := l.session.sendQue.length ≤ maxSendque

/-- The call returns and has queued one more node. -/
def Queued (s : CSession) (r : Except Fault WriteCall) : Prop :=
  ∃ call node, r = .ok call ∧ call.session.sendQue = s.sendQue ++ [node]

/-- A call of `Send` that finds fewer than `MAX_SENDQUE` nodes is not dropped. -/
def QueuedBelowLimit (l : SendState) : SendEvent → Prop
  | .send msg msgId =>
      l.session.sendQue.length < maxSendque → Queued l.session (l.session.send msg msgId)
  | .sendBuffer msg maxLength msgId =>
      l.session.sendQue.length < maxSendque →
        Queued l.session (l.session.sendBuffer msg maxLength msgId)
  | .complete _ _ => True

/-- As a short, the length is one that a node can be built for. -/
def SendBuilds : SendEvent → Prop
  | .send msg _ => 0 ≤ short msg.length ∧ short msg.length ≤ sendMax
  | .sendBuffer msg maxLength _ =>
      0 ≤ short maxLength ∧ short maxLength ≤ sendMax ∧ short maxLength ≤ msg.length
  | .complete _ _ => False

/-- A call of `Send` that finds fewer than `MAX_SENDQUE` nodes can build its node, and one that
can does not find exactly so many. -/
def SendsInLimit (l : SendState) : SendEvent → Prop
  | .complete _ _ => True
  | e => (l.session.sendQue.length < maxSendque → SendBuilds e) ∧
      (SendBuilds e → l.session.sendQue.length ≠ maxSendque)

/-! ## Building a node -/

/-- A node is built for the lengths of `SendNode.new_ok` and no others. -/
theorem new_builds_iff (msg : Bytes) (len id : Int) :
    (∃ node, SendNode.new msg (short len) id = .ok node) ↔
      0 ≤ short len ∧ short len ≤ sendMax ∧ short len ≤ msg.length := by
  obtain ⟨hlo, hhi⟩ := short_bounds len
  constructor
  · rintro ⟨node, hnode⟩
    exact SendNode.new_inv hnode hlo hhi
  · rintro ⟨h₀, hmax, hmsg⟩
    obtain ⟨node, hnode, -⟩ := SendNode.new_ok msg id h₀ hmax hmsg
    exact ⟨node, hnode⟩

/-- A string is never shorter than its length as a short. -/
theorem string_builds_iff (msg : Bytes) (id : Int) :
    (∃ node, SendNode.new (msg ++ [0]) (short msg.length) id = .ok node) ↔
      0 ≤ short msg.length ∧ short msg.length ≤ sendMax := by
  have hmod := short_emod msg.length
  rw [new_builds_iff, List.length_append, List.length_singleton]
  refine and_congr_right fun h₀ => and_iff_left_of_imp fun hmax => ?_
  unfold sendMax at hmax
  omega

/-- With room in the queue a call is not dropped exactly if its node can be built. -/
theorem enqueue_queued_iff {s : CSession} (hroom : s.sendQue.length ≤ maxSendque) (msg : Bytes)
    (len id : Int) :
    Queued s (s.enqueue msg len id) ↔ ∃ node, SendNode.new msg len id = .ok node := by
  cases hnode : SendNode.new msg len id with
  | ok node =>
      rw [CSession.enqueue_ok hroom hnode]
      exact iff_of_true ⟨_, node, rfl, rfl⟩ ⟨node, rfl⟩
  | error f =>
      rw [CSession.enqueue_error hroom hnode]
      exact iff_of_false (fun ⟨_, _, h, _⟩ => by cases h) fun ⟨_, h⟩ => by cases h

theorem queuedBelowLimit_iff (l : SendState) (e : SendEvent) :
    QueuedBelowLimit l e ↔
      match e with
      | .complete _ _ => True
      | e => l.session.sendQue.length < maxSendque → SendBuilds e := by
  cases e with
  | complete i ok => exact Iff.rfl
  | send msg msgId =>
      refine imp_congr_right fun hroom => ?_
      rw [CSession.send, enqueue_queued_iff (Nat.le_of_lt hroom), string_builds_iff]
      exact Iff.rfl
  | sendBuffer msg maxLength msgId =>
      refine imp_congr_right fun hroom => ?_
      rw [CSession.sendBuffer, enqueue_queued_iff (Nat.le_of_lt hroom), new_builds_iff]
      exact Iff.rfl

/-! ## One step -/

/-- A call that is taken and whose node is built adds it. -/
theorem afterSend_built {l : SendState} {frame msg : Bytes} {len id : Int} {node : SendNode}
    (hroom : l.session.sendQue.length ≤ maxSendque)
    (hnode : SendNode.new msg len id = .ok node) :
    (l.afterSend frame (l.session.enqueue msg len id)).session.sendQue =
      l.session.sendQue ++ [node] := by
  rw [CSession.enqueue_ok hroom hnode]
  simp [SendState.afterSend, SendState.issue, hroom]

theorem afterSend_unbuilt {l : SendState} {frame msg : Bytes} {len id : Int}
    (hroom : l.session.sendQue.length ≤ maxSendque)
    (hnode : ¬ ∃ node, SendNode.new msg len id = .ok node) :
    (l.afterSend frame (l.session.enqueue msg len id)).session.sendQue = l.session.sendQue := by
  cases hnew : SendNode.new msg len id with
  | ok node => exact absurd ⟨node, hnew⟩ hnode
  | error f =>
      rw [CSession.enqueue_error hroom hnew]
      simp [SendState.afterSend, hroom]

theorem complete_length_le {l l' : SendState} {i : Nat} {ok : Bool}
    (hstep : sendStep l (.complete i ok) = some l') :
    l'.session.sendQue.length ≤ l.session.sendQue.length := by
  rw [sendStep] at hstep
  split at hstep
  · cases hstep
  · cases ok with
    | false =>
        cases hstep
        exact Nat.le_refl _
    | true =>
        cases hstep
        cases hque : l.session.sendQue with
        | nil => simp [CSession.handleWritten, SendState.afterWritten, hque]
        | cons front rest =>
            simp [CSession.handleWritten, SendState.afterWritten, SendState.issue, hque]

/-- A call keeps the limit exactly when it does not find it reached. -/
theorem afterSend_bounded_iff {l : SendState} {frame msg : Bytes} {len id : Int}
    (h : SendBounded l) :
    SendBounded (l.afterSend frame (l.session.enqueue msg len id)) ↔
      ((∃ node, SendNode.new msg len id = .ok node) → l.session.sendQue.length ≠ maxSendque) := by
  unfold SendBounded at h ⊢
  by_cases hbuilt : ∃ node, SendNode.new msg len id = .ok node
  · obtain ⟨node, hnode⟩ := hbuilt
    rw [afterSend_built h hnode, List.length_append, List.length_singleton]
    constructor
    · intro hlen _
      omega
    · intro hne
      have := hne ⟨node, hnode⟩
      omega
  · rw [afterSend_unbuilt h hbuilt]
    exact iff_of_true h fun hc => absurd hc hbuilt

/-- No call whose node is built finds exactly `MAX_SENDQUE` nodes. -/
def SendsOffLimit (l : SendState) (e : SendEvent) : Prop :=
  SendBuilds e → l.session.sendQue.length ≠ maxSendque

theorem sendStep_bounded_iff {l l' : SendState} {e : SendEvent} (h : SendBounded l)
    (hstep : sendStep l e = some l') : SendBounded l' ↔ SendsOffLimit l e := by
  cases e with
  | send msg msgId =>
      cases hstep
      rw [CSession.send, afterSend_bounded_iff h, string_builds_iff]
      exact Iff.rfl
  | sendBuffer msg maxLength msgId =>
      cases hstep
      rw [CSession.sendBuffer, afterSend_bounded_iff h, new_builds_iff]
      exact Iff.rfl
  | complete i ok =>
      exact iff_of_true (Nat.le_trans (complete_length_le hstep) h) fun hc => absurd hc id

theorem sendsInLimit_iff (l : SendState) (e : SendEvent) :
    SendsOffLimit l e ∧ QueuedBelowLimit l e ↔ SendsInLimit l e := by
  rw [queuedBelowLimit_iff]
  cases e with
  | complete i ok => exact iff_of_true ⟨fun hc => absurd hc id, trivial⟩ trivial
  | send msg msgId => exact And.comm
  | sendBuffer msg maxLength msgId => exact And.comm

/-- A run keeps the queue within its limit, at every point, and drops no call that finds fewer
nodes, exactly when each call that finds fewer can build its node and none that can finds the
limit reached. -/
theorem sendQueue_bounded_iff (uuid : Uuid) (server : CServer) (events : List SendEvent) :
    (Machine.Always sendStep SendBounded (SendState.start uuid server) events ∧
        Machine.Meets sendStep QueuedBelowLimit (SendState.start uuid server) events) ↔
      Machine.Meets sendStep SendsInLimit (SendState.start uuid server) events := by
  have hbounded : Machine.Always sendStep SendBounded (SendState.start uuid server) events ↔
      Machine.Meets sendStep SendsOffLimit (SendState.start uuid server) events :=
    Machine.always_iff_meets (I := fun _ => True) (L := fun _ => True)
      (fun _ _ _ _ _ _ _ _ => trivial)
      (fun _ _ _ _ h _ hstep => sendStep_bounded_iff h hstep) trivial (Nat.zero_le _)
      (fun _ _ => trivial)
  have hsame : (fun l e => SendsOffLimit l e ∧ QueuedBelowLimit l e) = SendsInLimit :=
    funext fun l => funext fun e => propext (sendsInLimit_iff l e)
  rw [hbounded, Machine.meets_and, hsame]

/-- As many empty strings as one likes, up to the limit and one more. -/
theorem exec_sends (uuid : Uuid) (server : CServer) {n : Nat} (hn : n ≤ maxSendque + 1) :
    ∃ l, Machine.exec sendStep (SendState.start uuid server)
        (List.replicate n (.send [] msgHelloWord)) = some l ∧ l.session.sendQue.length = n := by
  induction n with
  | zero => exact ⟨_, rfl, rfl⟩
  | succ n ih =>
      obtain ⟨l, hrun, hlen⟩ := ih (by omega)
      obtain ⟨node, hnode, -⟩ := send_frame [] msgHelloWord (by decide)
      rw [List.replicate_succ']
      refine ⟨_, Machine.exec_snoc.mpr ⟨l, hrun, rfl⟩, ?_⟩
      rw [CSession.send, afterSend_built (by omega) hnode, List.length_append, hlen]
      rfl

/-- One call more than the limit, with nothing written yet. -/
theorem sendQueue_not_bounded :
    ¬ ∀ (uuid : Uuid) (server : CServer) (events : List SendEvent),
      Machine.Always sendStep SendBounded (SendState.start uuid server) events ∧
        Machine.Meets sendStep QueuedBelowLimit (SendState.start uuid server) events := by
  intro hall
  obtain ⟨l, hrun, hlen⟩ := exec_sends .first ⟨∅⟩ (Nat.le_refl (maxSendque + 1))
  have h := Machine.always_iff.mp (hall .first ⟨∅⟩ _).1 _ [] l (List.append_nil _).symm hrun
  unfold SendBounded at h
  omega

end AsioServer
