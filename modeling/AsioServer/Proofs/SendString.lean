import AsioServer.Proofs.SendQueue

/-!
# `Send` of a string of any length

`Send(std::string, short)` hands `msg.length()` to a `short`. Up to `sendMax`
the short is the length and the node is the frame of the string. Beyond, it is
the residue of the length modulo 2^16 that decides. A residue that is a payload
length again gives the frame of a shorter string; one from 65531 on gives an
array that the constructor leaves; and in between the size of the array is
negative, `new` throws, and nothing is queued.
-/

namespace AsioServer

/-- The node is the frame of the whole string. -/
structure SendNode.Whole (node : SendNode) (msg : Bytes) (msgId : Int) : Prop where
  total : node.totalLen = headTotalLen + msg.length
  frame : node.frame = beBytes msgId ++ beBytes msg.length ++ msg
  fits : msg.length < 65536

/-- A call of `Send` queues nothing or a node of the whole string, and no
array is left. An exception leaves the queue as it was. -/
inductive SendsWhole (s : CSession) (msg : Bytes) (msgId : Int) :
    Except Fault WriteCall → Prop where
  | dropped {call : WriteCall} (que : call.session.sendQue = s.sendQue) :
      SendsWhole s msg msgId (.ok call)
  | queued {call : WriteCall} {node : SendNode}
      (que : call.session.sendQue = s.sendQue ++ [node]) (whole : node.Whole msg msgId) :
      SendsWhole s msg msgId (.ok call)
  | thrown {f : Fault} (exception : f.isException = true) : SendsWhole s msg msgId (.error f)

/-- The queue is full, the length is a payload length, or it makes the size of
the array negative. -/
def WholeOrRefused (s : CSession) (msg : Bytes) : Prop :=
  maxSendque < s.sendQue.length ∨ msg.length ≤ sendMax ∨
    (32764 ≤ msg.length % 65536 ∧ msg.length % 65536 ≤ 65530)

/-! ## How the constructor fails -/

theorem MsgNode.memcpy_fault {n : MsgNode} {off : Int} {src : Bytes} {f : Fault}
    (h : n.memcpy off src = .error f) : f = .outOfBounds := by
  unfold MsgNode.memcpy at h
  split at h
  · cases h
  · cases h
    rfl

theorem readData_fault {data : Bytes} {off len : Nat} {f : Fault}
    (h : readData data off len = .error f) : f = .outOfBounds := by
  unfold readData at h
  split at h
  · cases h
  · cases h
    rfl

/-- The constructor throws exactly when the size of its array is negative; any
other failure is an access outside an array. -/
theorem SendNode.new_fault {msg : Bytes} {maxLen id : Int} {f : Fault}
    (h : SendNode.new msg maxLen id = .error f) :
    f.isException = true ↔ short (maxLen + headTotalLen) + 1 < 0 := by
  rw [SendNode.new] at h
  rcases bind_eq_error.mp h with h | ⟨n₀, hn₀, h⟩
  · unfold MsgNode.new at h
    split at h
    · next hneg =>
        cases h
        exact ⟨fun _ => hneg, fun _ => rfl⟩
    · next hpos =>
        split at h
        · cases h
          exact ⟨fun hx => (by cases hx), fun hneg => absurd hneg hpos⟩
        · cases h
  · have hpos := (MsgNode.new_inv hn₀).1
    have hbounds : f = .outOfBounds := by
      rcases bind_eq_error.mp h with h | ⟨n₁, -, h⟩
      · exact MsgNode.memcpy_fault h
      rcases bind_eq_error.mp h with h | ⟨n₂, -, h⟩
      · exact MsgNode.memcpy_fault h
      rcases bind_eq_error.mp h with h | ⟨src, -, h⟩
      · exact readData_fault h
      rcases bind_eq_error.mp h with h | ⟨n₃, -, h⟩
      · exact MsgNode.memcpy_fault h
      cases h
    rw [hbounds]
    exact ⟨fun hx => (by cases hx), fun hneg => absurd hpos (by omega)⟩

/-! ## Lengths -/

/-- The lengths whose array has a negative size. -/
theorem negative_size_iff (len : Nat) :
    short (short len + headTotalLen) + 1 < 0 ↔
      32764 ≤ len % 65536 ∧ len % 65536 ≤ 65530 := by
  have h₁ := short_emod (short len + headTotalLen)
  have h₂ := short_bounds (short len + headTotalLen)
  have h₃ := short_emod len
  have h₄ := short_bounds len
  have hhead : headTotalLen = 4 := rfl
  rw [hhead] at h₁ h₂ ⊢
  omega

/-- A node that was built is that of the whole string only up to `sendMax`. -/
theorem SendNode.whole_iff {msg : Bytes} {msgId : Int} {node : SendNode}
    (h : SendNode.new (msg ++ [0]) (short msg.length) msgId = .ok node) :
    node.Whole msg msgId ↔ msg.length ≤ sendMax := by
  have hbounds := short_bounds msg.length
  have hmod := short_emod msg.length
  obtain ⟨h₀, hmax, hmsg⟩ := SendNode.new_inv h hbounds.1 hbounds.2
  obtain ⟨node', hnode', -, htotal, hframe⟩ := SendNode.new_ok _ msgId h₀ hmax hmsg
  obtain rfl : node = node' := Except.ok.inj (h.symm.trans hnode')
  constructor
  · intro hw
    have hlen := hw.total
    rw [htotal] at hlen
    omega
  · intro hfits
    have hshort : short msg.length = msg.length := by
      unfold sendMax at hfits
      exact short_eq (by omega) (by omega)
    refine ⟨?_, ?_, ?_⟩
    · rw [htotal, hshort]
      omega
    · rw [hframe, hshort, Int.toNat_natCast, List.take_left]
    · unfold sendMax at hfits
      omega

/-- A call of `Send` queues the whole string or nothing, inside its arrays,
exactly when the queue is full or the length is none of those that are cut or
leave the array. -/
theorem send_whole_iff (s : CSession) (msg : Bytes) (msgId : Int) :
    SendsWhole s msg msgId (s.send msg msgId) ↔ WholeOrRefused s msg := by
  unfold WholeOrRefused
  rw [CSession.send]
  rcases Nat.lt_or_ge maxSendque s.sendQue.length with hfull | hroom
  · rw [CSession.enqueue_full hfull]
    exact ⟨fun _ => Or.inl hfull, fun _ => .dropped rfl⟩
  · have hnot : ¬ maxSendque < s.sendQue.length := by omega
    cases hnode : SendNode.new (msg ++ [0]) (short msg.length) msgId with
    | ok node =>
        have hsize : ¬ (32764 ≤ msg.length % 65536 ∧ msg.length % 65536 ≤ 65530) := by
          rw [← negative_size_iff]
          obtain ⟨n₀, hn₀, -⟩ := bind_eq_ok.mp hnode
          have := (MsgNode.new_inv hn₀).1
          omega
        rw [CSession.enqueue_ok hroom hnode, ← SendNode.whole_iff hnode]
        constructor
        · intro h
          cases h with
          | dropped que => simp at que
          | @queued _ node' que whole =>
              obtain rfl : node = node' := by simpa using que
              exact Or.inr (Or.inl whole)
        · rintro (hfull | hwhole | hneg)
          · exact absurd hfull hnot
          · exact .queued rfl hwhole
          · exact absurd hneg hsize
    | error f =>
        rw [CSession.enqueue_error hroom hnode]
        have hthrown : SendsWhole s msg msgId (.error f) ↔ f.isException = true :=
          ⟨fun h => (by cases h; assumption), .thrown⟩
        rw [hthrown, SendNode.new_fault hnode, negative_size_iff]
        constructor
        · exact fun hneg => Or.inr (Or.inr hneg)
        · rintro (hfull | hfits | hneg)
          · exact absurd hfull hnot
          · obtain ⟨node, hok, -⟩ := send_frame msg msgId hfits
            rw [hok] at hnode
            cases hnode
          · exact hneg

/-- A string of 65536 bytes: its node is the frame of the empty string. -/
theorem send_cut :
    ¬ ∀ (s : CSession) (msg : Bytes) (msgId : Int),
      SendsWhole s msg msgId (s.send msg msgId) := by
  intro hall
  have hcut : ∀ msg : Bytes, msg.length = 65536 → False := by
    intro msg hlen
    have hroom : (CSession.new .first).sendQue.length ≤ maxSendque := Nat.zero_le _
    have hshort : short msg.length = 0 := by
      rw [hlen]
      decide
    obtain ⟨node, hnode, -⟩ := SendNode.new_ok (msg ++ [0]) msgHelloWord
      (show 0 ≤ short msg.length by omega) (by unfold sendMax; omega) (by omega)
    have hsend := hall (CSession.new .first) msg msgHelloWord
    rw [CSession.send, CSession.enqueue_ok hroom hnode] at hsend
    cases hsend with
    | dropped que => cases que
    | queued que whole =>
        obtain rfl := (List.cons.inj que).1
        have hfits := (SendNode.whole_iff hnode).mp whole
        unfold sendMax at hfits
        omega
  exact hcut (List.replicate 65536 65) List.length_replicate

end AsioServer
