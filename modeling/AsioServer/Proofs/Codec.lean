import AsioServer.Ref.Peers
import AsioServer.Proofs.ReadRun
import AsioServer.Proofs.SendNode

/-!
# Three encoders, two decoders

Each encoder writes the frame that `encode` defines, for every payload it can
take; from there on it no longer matters which one wrote it. The server reads
such a stream back by the independence of the cut, the client's reading thread
because each round takes exactly one frame.
-/

namespace AsioServer

open Framing

/-- A message both header fields can carry. -/
structure Message.Valid (msg : Message) : Prop where
  id_nonneg : 0 ≤ msg.1
  id_le : msg.1 ≤ maxLength
  length_le : msg.2.length ≤ maxLength

/-! ## The encoders write the frame -/

theorem copyInto_behind {buffer held : Bytes} (src : Bytes) (hheld : buffer.take held.length = held)
    (hfit : held.length + src.length ≤ buffer.length) :
    ∃ buffer', copyInto buffer held.length src = .ok buffer' ∧
      buffer'.length = buffer.length ∧
      buffer'.take (held ++ src).length = held ++ src := by
  refine ⟨_, if_pos hfit, ?_, ?_⟩
  · simp only [List.length_append, List.length_take, List.length_drop]
    omega
  · rw [hheld, List.take_append_of_le_length (Nat.le_refl _), List.take_length]

/-- Three pieces copied one behind the other into a buffer that has room. -/
theorem copyInto_three {buffer xs ys zs : Bytes}
    (hfit : xs.length + ys.length + zs.length ≤ buffer.length) :
    ∃ b₁ b₂ b₃, copyInto buffer 0 xs = .ok b₁ ∧ copyInto b₁ xs.length ys = .ok b₂ ∧
      copyInto b₂ (xs ++ ys).length zs = .ok b₃ ∧ b₃.length = buffer.length ∧
      b₃.take (xs ++ ys ++ zs).length = xs ++ ys ++ zs := by
  obtain ⟨b₁, h₁, hlen₁, htake₁⟩ :=
    copyInto_behind xs (show buffer.take ([] : Bytes).length = [] from rfl)
      (by rw [List.length_nil]; omega)
  rw [List.nil_append] at htake₁
  obtain ⟨b₂, h₂, hlen₂, htake₂⟩ := copyInto_behind ys htake₁ (by omega)
  obtain ⟨b₃, h₃, hlen₃, htake₃⟩ :=
    copyInto_behind zs htake₂ (by rw [List.length_append]; omega)
  exact ⟨b₁, b₂, b₃, h₁, h₂, h₃, by omega, htake₃⟩

theorem clientSend_eq (msgid : Int) {request : Bytes} (h : request.length ≤ 2044) :
    clientSend msgid request = .ok (encode (msgid, request)) := by
  have hhdr : (beBytes msgid ++ beBytes request.length).length = 4 := rfl
  have hfit : (beBytes msgid).length + (beBytes (request.length : Int)).length +
      request.length ≤ (List.replicate maxLength (0 : UInt8)).length := by
    rw [List.length_replicate, maxLength_eq, ← List.length_append, hhdr]
    omega
  obtain ⟨b₁, b₂, b₃, h₁, h₂, h₃, hlen, htake⟩ := copyInto_three hfit
  rw [clientSend, storeShort_hostToNetworkShort, storeShort_hostToNetworkShort]
  refine bind_ok h₁ (bind_ok h₂ (bind_ok h₃ ?_))
  have htotal : request.length + clientHeadTotal =
      (beBytes msgid ++ beBytes request.length ++ request).length := by
    rw [List.length_append, hhdr, clientHeadTotal, Nat.add_comm]
  rw [readData_ok, List.drop_zero, htotal, htake]
  · rfl
  · rw [hlen, List.length_replicate, maxLength_eq, clientHeadTotal]
    omega

theorem createMessage_eq (id : Int) (dataString : List UInt16) :
    createMessage id dataString = .ok (encode (id, textEncode dataString)) := by
  have hhdr : (beBytes id ++ beBytes (textEncode dataString).length).length = 4 := rfl
  have hfit : (beBytes id).length + (beBytes ((textEncode dataString).length : Int)).length +
      (textEncode dataString).length ≤
      (List.replicate (4 + (textEncode dataString).length) (0 : UInt8)).length := by
    rw [List.length_replicate, ← List.length_append, hhdr]
  obtain ⟨b₁, b₂, b₃, h₁, h₂, h₃, hlen, htake⟩ := copyInto_three hfit
  have hwhole : b₃ = encode (id, textEncode dataString) := by
    rw [List.length_append, hhdr, ← List.length_replicate (n := 4 + _) (a := (0 : UInt8)),
      ← hlen, List.take_length] at htake
    exact htake
  rw [createMessage]
  refine bind_ok h₁ (bind_ok h₂ ?_)
  rw [← hwhole]
  exact h₃

theorem sendNode_eq (id : Int) {payload : Bytes} (behind : Bytes)
    (h : payload.length ≤ maxLength) :
    ∃ node, SendNode.new (payload ++ behind) payload.length id = .ok node ∧
      node.frame = encode (id, payload) := by
  rw [maxLength_eq] at h
  obtain ⟨node, hnew, -, -, hframe⟩ :=
    SendNode.new_ok (payload ++ behind) id (Int.natCast_nonneg payload.length)
      (by unfold sendMax; omega) (by rw [List.length_append]; omega)
  refine ⟨node, hnew, ?_⟩
  rw [hframe, Int.toNat_natCast, List.take_left]
  rfl

/-! ## The decoders read it back -/

/-- The four header bytes of a valid message. -/
theorem Message.Valid.header {msg : Message} (h : msg.Valid) :
    ∃ a b c d, encode msg = a :: b :: c :: d :: msg.2 ∧ (beNat a b : Int) = msg.1 ∧
      beNat c d = msg.2.length := by
  have hid := h.id_le
  have hnonneg := h.id_nonneg
  have hlen := h.length_le
  rw [maxLength_eq] at hid hlen
  obtain ⟨a, b, hab⟩ : ∃ a b, beBytes msg.1 = [a, b] := ⟨_, _, rfl⟩
  obtain ⟨c, d, hcd⟩ : ∃ c d, beBytes msg.2.length = [c, d] := ⟨_, _, rfl⟩
  have hid' := beNat_beBytes msg.1 hab
  have hlen' := beNat_beBytes msg.2.length hcd
  refine ⟨a, b, c, d, ?_, by omega, by omega⟩
  rw [encode, hab, hcd]
  rfl

theorem encode_reads {msg : Message} (h : msg.Valid) : Reads wire msg (encode msg) := by
  intro ys
  have hid := h.id_le
  have hnonneg := h.id_nonneg
  have hlen := h.length_le
  obtain ⟨a, b, c, d, henc, hab, hcd⟩ := h.header
  have hshort : short (beNat a b) = msg.1 := by
    rw [hab]
    rw [maxLength_eq] at hid
    exact short_eq (by omega) (by omega)
  rw [wire_head, henc]
  simp only [List.cons_append]
  rw [frameHead_cons, hshort, hcd, if_neg (by omega),
    if_neg (by rw [List.length_append]; omega), List.take_left, List.drop_left]

theorem netRead_append (xs ys : Bytes) : netRead xs.length (xs ++ ys) = some (xs, ys) := by
  rw [netRead, if_pos (by rw [List.length_append]; omega), List.take_left, List.drop_left]

/-- The bytes of the int that were never written do not reach the id. -/
theorem networkToHostShort_loadHalf (upper : Int) (b₀ b₁ : UInt8) :
    networkToHostShort (loadHalf upper b₀ b₁) = beNat b₀ b₁ := by
  have h₀ := b₀.toNat_lt
  have h₁ := b₁.toNat_lt
  unfold networkToHostShort loadHalf beNat
  omega

/-- One round of the reading thread. -/
theorem readMessage_encode (lib : JsonLib) (upper : Int) {msg : Message}
    (h : msg.Valid) (ys : Bytes) :
    readMessage lib upper (encode msg ++ ys) =
      some
        ({ msgid := msg.1
           msg := msg.2
           response := lib.toStyledString (lib.parse msg.2).2 }, ys) := by
  have hlen := h.length_le
  rw [maxLength_eq] at hlen
  obtain ⟨a, b, c, d, henc, hab, hcd⟩ := h.header
  have hhead : netRead clientHeadTotal (encode msg ++ ys) =
      some ([a, b, c, d], msg.2 ++ ys) := by
    rw [henc]
    exact netRead_append [a, b, c, d] (msg.2 ++ ys)
  have hmsglen : short (networkToHostShort (loadShort c d)) = msg.2.length := by
    rw [networkToHostShort_loadShort, hcd]
    exact short_eq (by omega) (by omega)
  have hmsgid : networkToHostShort (loadHalf upper a b) = msg.1 :=
    (networkToHostShort_loadHalf upper a b).trans hab
  have hbody : netRead (msgBuffer msg.2.length) (msg.2 ++ ys) = some (msg.2, ys) := by
    rw [msgBuffer, sizeT_natCast (by omega),
      Nat.min_eq_right (by rw [maxLength_eq]; exact hlen)]
    exact netRead_append msg.2 ys
  rw [readMessage, hhead]
  simp only [hmsglen, hmsgid, hbody, Option.map_some]

/-- The encoders of the repository: the constructor of `SendNode`, with the
memory that lies behind the payload; the client; the page. -/
inductive Encoder where
  | sendNode (behind : Bytes)
  | client
  | page (dataString : List UInt16)

def Encoder.frame : Encoder → Message → Except Fault Bytes
  | .sendNode behind, msg =>
      (SendNode.new (msg.2 ++ behind) msg.2.length msg.1).map SendNode.frame
  | .client, msg => clientSend msg.1 msg.2
  | .page dataString, msg => createMessage msg.1 dataString

/-- The payloads an encoder can be given. -/
def Encoder.Takes : Encoder → Message → Prop
  | .sendNode _, _ => True
  | .client, msg => msg.2.length ≤ 2044
  | .page dataString, msg => textEncode dataString = msg.2

theorem Encoder.frame_eq (e : Encoder) {msg : Message} (h : msg.Valid) (ht : e.Takes msg) :
    e.frame msg = .ok (encode msg) := by
  cases e with
  | sendNode behind =>
      obtain ⟨node, hnew, hframe⟩ := sendNode_eq msg.1 behind h.length_le
      rw [Encoder.frame, hnew]
      exact congrArg Except.ok hframe
  | client => exact clientSend_eq msg.1 ht
  | page dataString =>
      have ht' : textEncode dataString = msg.2 := ht
      rw [Encoder.frame, createMessage_eq, ht']

theorem encoded_valid {msgs : List Message} (h : ∀ msg ∈ msgs, Message.Valid msg) :
    List.Forall₂ (Reads wire) msgs (msgs.map encode) := by
  induction msgs with
  | nil => exact .nil
  | cons msg msgs ih =>
      exact .cons (encode_reads (h msg List.mem_cons_self))
        (ih fun m hm => h m (List.mem_cons_of_mem _ hm))

end AsioServer
