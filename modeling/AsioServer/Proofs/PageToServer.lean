import AsioServer.Proofs.Codec
import AsioServer.Proofs.Pipeline
import AsioServer.Proofs.WsRelay

/-!
# From the page to the worker

A message made by `createMessage` on a page goes out as a WebSocket message, the
relay writes its bytes to the server, and the session there cuts them into messages
again. No layer keeps the cuts of the one before: frames may come in any chunks, and
the TCP stream in any others. What the worker gets are the page's messages.
-/

namespace AsioServer

open Framing Ws

/-- The calls of `ws.send` that a page makes for its messages. -/
def pageCalls (frames : List Bytes) : List SendCall := frames.map fun data => .send data true true

theorem createMessage_all {sent : List (Int × List UInt16)} {frames : List Bytes}
    (h : List.Forall₂ (fun m frame => createMessage m.1 m.2 = .ok frame) sent frames) :
    frames = (sent.map fun m => (m.1, textEncode m.2)).map encode := by
  induction h with
  | nil => rfl
  | cons hone _ ih =>
      rw [createMessage_eq] at hone
      rw [List.map_cons, List.map_cons, ← ih, Except.ok.inj hone]

/-- Whole binary messages are delivered as they are. -/
theorem delivered_pageCalls (frames : List Bytes) :
    (Ws.delivered none (pageCalls frames)).filterMap WsEvent.message? = frames := by
  induction frames with
  | nil => rfl
  | cons data frames ih => exact congrArg (data :: ·) ih

theorem acceptable_pageCalls {o : ReceiverOptions} {frames : List Bytes}
    (h : ∀ data ∈ frames, o.Fits data) : Acceptable o none (pageCalls frames) := by
  induction frames with
  | nil => trivial
  | cons data frames ih =>
      rw [List.forall_mem_cons] at h
      exact ⟨h.1, fun hb => (by cases hb), ih h.2⟩

theorem encode_fits (isUtf8 : Option (Bytes → Bool)) {msg : Message} (h : msg.Valid) :
    (ReceiverOptions.server isUtf8).Fits (encode msg) := by
  have hlen := h.length_le
  rw [maxLength_eq] at hlen
  refine Or.inr ?_
  rw [length_encode]
  show headTotalLen + msg.2.length ≤ 100 * 1024 * 1024
  unfold headTotalLen
  omega

/-- Whatever the chunks, the keys, the microtasks, the other browsers and the scheduling of the
server: the messages that a session's worker has taken or will take from its queue are, in order,
messages the page made, and all of them when all bytes have arrived. -/
theorem page_to_server (isUtf8 : Option (Bytes → Bool)) (sent : List (Int × List UInt16))
    (frames : List Bytes) (calls : List (SendCall × Option Mask)) (bytes : Bytes)
    (hcreate : List.Forall₂ (fun m frame => createMessage m.1 m.2 = .ok frame) sent frames)
    (hvalid : ∀ m ∈ sent, Message.Valid (m.1, textEncode m.2))
    (hcalls : calls.map Prod.fst = pageCalls frames) (hmasks : ∀ c ∈ calls, c.2.isSome = true)
    (hframed : Sender.calls ⟨true⟩ calls = .ok bytes)
    (steps : List RelayEvent) (s : RelayState) (i : Nat) (b : Bridge)
    (hrelay : Machine.exec (RelayState.step (.server isUtf8)) .new steps = some s)
    (hb : s.bridges[i]? = some b) (harrived : browserBytes (bridgeEvents i steps) <+: bytes)
    (lib : JsonLib) (db : Db) (events : List PipelineEvent) (p : Pipeline)
    (hserver : Machine.exec (pipelineStep lib) (.start db) events = some p) (u : Uuid)
    (hreceived : p.received u <+: b.toServer) :
    let messages := sent.map fun m => (.ok (m.1, textEncode m.2) : Except Fault Message)
    messagesOf u (p.taken ++ p.msgQue) <+: messages ∧
      (browserBytes (bridgeEvents i steps) = bytes → b.tcp = .connected →
        b.input.step (.server isUtf8) .task = none → p.received u = b.toServer →
        messagesOf u (p.taken ++ p.msgQue) = messages) := by
  intro messages
  have hwhole : ∀ msg ∈ sent.map fun m => (m.1, textEncode m.2), Message.Valid msg := by
    intro msg hmsg
    obtain ⟨m, hm, rfl⟩ := List.mem_map.mp hmsg
    exact hvalid m hm
  have hframes := createMessage_all hcreate
  have hdecode : wire.decode frames.flatten =
      ⟨sent.map fun m => (m.1, textEncode m.2), [], false⟩ := by
    rw [hframes]
    exact decode_encoded (g := wire) rfl (encoded_valid hwhole)
  have hread : (Ws.events (.server isUtf8) bytes).filterMap WsEvent.message? = frames := by
    have haccept : Acceptable (.server isUtf8) none (calls.map Prod.fst) := by
      rw [hcalls]
      refine acceptable_pageCalls fun data hdata => ?_
      rw [hframes] at hdata
      obtain ⟨msg, hmsg, rfl⟩ := List.mem_map.mp hdata
      exact encode_fits isUtf8 (hwhole msg hmsg)
    have hevents : Ws.events (.server isUtf8) bytes = Ws.delivered none (calls.map Prod.fst) :=
      calls_read .new hframed hmasks haccept
    rw [hevents, hcalls, delivered_pageCalls]
  obtain ⟨emitted, hkept⟩ := relay_bridge_kept (client_of _) hrelay hb
  have hposted := (exec_inOrder hserver).posted u
  rw [hposted]
  refine ⟨?_, fun hall htcp hquiet hreceivedAll => ?_⟩
  · have hwritten : b.toServer <+: frames.flatten := by
      obtain ⟨more, rfl⟩ := harrived
      have hbegins : (Ws.events (.server isUtf8)
          (browserBytes (bridgeEvents i steps))).filterMap WsEvent.message? <+: frames := by
        rw [← hread]
        exact (Puller.out_begins _ _ _).filterMap _
      obtain ⟨rest, hrest⟩ := hbegins
      refine hkept.written.trans ?_
      rw [← hrest, List.flatten_append]
      exact List.prefix_append _ _
    obtain ⟨more, hmore⟩ := hreceived.trans hwritten
    have hmsgs := decode_msgs_append (g := wire) (p.received u) more
    rw [hmore, hdecode] at hmsgs
    have hmap := hmsgs.map fun msg => (.ok msg : Except Fault Message)
    rwa [List.map_map] at hmap
  · rw [hreceivedAll, hkept.written_all htcp hquiet, hall, hread, hdecode, List.map_map]
    rfl

/-- A chat of two letters, in two chunks to the relay and in two to the server. -/
theorem page_to_server_hi :
    ∃ s b p, Machine.exec (RelayState.step (.server none)) .new
        [.connection, .on 0 (.browser (.data [0x82, 0x86, 1, 2, 3])),
          .on 0 (.browser (.data [4, 2, 0xEB, 3, 6, 0x69, 0x6B])), .on 0 (.browser .task)] = some s ∧
      s.bridges[0]? = some b ∧
      Machine.exec (pipelineStep scene) (.start (.empty id))
        [.start .first, .enter, .delivery .first [0x03, 0xE9, 0x00],
          .delivery .first [0x02, 0x68, 0x69]] = some p ∧
      messagesOf .first (p.taken ++ p.msgQue) = [.ok (1001, ascii "hi")] := by
  have hbridge : ((Machine.exec (RelayState.step (.server none)) .new
      [.connection, .on 0 (.browser (.data [0x82, 0x86, 1, 2, 3])),
        .on 0 (.browser (.data [4, 2, 0xEB, 3, 6, 0x69, 0x6B])), .on 0 (.browser .task)]).bind
      fun s => s.bridges[0]?).map (fun b => (b.toServer, b.tcp, b.input.receiver.deferred)) =
      some ([0x03, 0xE9, 0x00, 0x02, 0x68, 0x69], .connected, none) := by decide +kernel
  obtain ⟨b, hb, hstate⟩ := Option.map_eq_some_iff.mp hbridge
  obtain ⟨s, hs, hb⟩ := Option.bind_eq_some_iff.mp hb
  obtain ⟨p, hp, hreceived⟩ : ∃ p, Machine.exec (pipelineStep scene) (.start (.empty id))
      [.start .first, .enter, .delivery .first [0x03, 0xE9, 0x00],
        .delivery .first [0x02, 0x68, 0x69]] = some p ∧
      p.received .first = [0x03, 0xE9, 0x00, 0x02, 0x68, 0x69] := ⟨_, rfl, rfl⟩
  simp only [Prod.mk.injEq] at hstate
  obtain ⟨hserver, htcp, hdeferred⟩ := hstate
  have hquiet : b.input.step (.server none) .task = none := by
    rw [Input.step, hdeferred, Option.map_none]
  have hall := page_to_server none [(1001, [0x68, 0x69])] [[0x03, 0xE9, 0x00, 0x02, 0x68, 0x69]]
    [(.send [0x03, 0xE9, 0x00, 0x02, 0x68, 0x69] true true, some ⟨1, 2, 3, 4⟩)]
    [0x82, 0x86, 1, 2, 3, 4, 2, 0xEB, 3, 6, 0x69, 0x6B]
    (.cons (by decide) .nil) (by simpa using ⟨by decide, by decide, by decide⟩) rfl (by decide)
    (by decide +kernel) _ s 0 b hs hb (by decide) scene (.empty id) _ p hp .first
    (by rw [hreceived, hserver])
  refine ⟨s, b, p, hs, hb, hp, ?_⟩
  rw [hall.2 (by decide) htcp hquiet (hreceived.trans hserver.symm)]
  decide

end AsioServer
