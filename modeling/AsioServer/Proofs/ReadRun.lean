import AsioServer.Lib.Machine
import AsioServer.Proofs.HandleRead

/-!
# Calls and runs of `HandleRead`

A call is a run of rounds over one delivery, so it decodes the bytes held back
before it followed by the delivery (`handleRead_spec`). That makes the session
a receiver of the wire format in the sense of `Framing.Receiver`, and the
independence of the cut is the library's.

Two results are drawn. On streams whose lengths are not negative the posted
messages and the state between two calls are those of the reference decoder,
whatever the cut. On any stream, a call is contained exactly when the header
that stopped it, if one did, is not one of those the code lets pass its own
check.
-/

namespace AsioServer

open Framing

/-- The nodes posted between two points of a call, as messages. -/
def Posts (c c' : ReadCall) (msgs : List Message) : Prop :=
  ∃ nodes, c'.posted = c.posted ++ nodes ∧
    List.Forall₂ RecvNode.Complete nodes msgs

theorem Posts.nil {c c' : ReadCall} (h : c'.posted = c.posted) : Posts c c' [] :=
  ⟨[], by rw [h, List.append_nil], .nil⟩

theorem Posts.cons {c c₁ c₂ : ReadCall} {node : RecvNode} {msg : Message}
    {msgs : List Message} (h₁ : c₁.posted = c.posted ++ [node])
    (hnode : node.Complete msg) (h₂ : Posts c₁ c₂ msgs) :
    Posts c c₂ (msg :: msgs) := by
  obtain ⟨nodes, hposted, hnodes⟩ := h₂
  refine ⟨node :: nodes, ?_, .cons hnode hnodes⟩
  rw [hposted, h₁, List.append_assoc, List.singleton_append]

theorem Posts.messages {c c' : ReadCall} {msgs : List Message}
    (hc : c.posted = []) (h : Posts c c' msgs) :
    c'.posted.map RecvNode.message = msgs.map .ok := by
  obtain ⟨nodes, hposted, hnodes⟩ := h
  rw [hposted, hc, List.nil_append]
  clear hposted
  induction hnodes with
  | nil => rfl
  | cons hnode _ ih => rw [List.map_cons, List.map_cons, ih, hnode.message]

/-- How a call that starts at `c` ends on a stretch of the stream. -/
structure CallSpec (c : ReadCall) (stream : Bytes) (r : Option ReadCall) : Prop where
  good : (wire.decode stream).bad = false → ∃ c', r = some c'.arm ∧ Untouched c c' ∧
    Posts c c' (wire.decode stream).msgs ∧
    Represents c'.session (wire.decode stream).tail
  bad : (wire.decode stream).bad = true → ¬ NegLen (wire.decode stream).tail →
    ∃ c', r = some c'.clearSession ∧ Untouched c c' ∧
      Posts c c' (wire.decode stream).msgs
  neg : (wire.decode stream).bad = true → NegLen (wire.decode stream).tail →
    ∃ c' f, r = some (c'.raise f) ∧ Untouched c c' ∧
      Posts c c' (wire.decode stream).msgs

/-- A call goes on behind a posted frame. -/
theorem CallSpec.of_frame {c c₁ : ReadCall} {stream rest : Bytes} {msg : Message}
    {node : RecvNode} {r : Option ReadCall}
    (hf : frameHead stream = .frame msg rest) (hu : Untouched c c₁)
    (hp : c₁.posted = c.posted ++ [node]) (hnode : node.Complete msg)
    (h : CallSpec c₁ rest r) : CallSpec c stream r := by
  have hd : wire.decode stream = (wire.decode rest).cons msg := decode_frame hf
  refine ⟨?_, ?_, ?_⟩ <;> rw [hd]
  · intro hb
    obtain ⟨c', hr, hu', hp', hrep⟩ := h.good hb
    exact ⟨c', hr, hu.trans hu', .cons hp hnode hp', hrep⟩
  · intro hb hn
    obtain ⟨c', hr, hu', hp'⟩ := h.bad hb hn
    exact ⟨c', hr, hu.trans hu', .cons hp hnode hp'⟩
  · intro hb hn
    obtain ⟨c', f, hr, hu', hp'⟩ := h.neg hb hn
    exact ⟨c', f, hr, hu.trans hu', .cons hp hnode hp'⟩

/-- A frame is never complete before its last byte has arrived, so a frame at
the head of what was held back takes something from the delivery. -/
theorem rest_lt_of_held {held rest rest' : Bytes} {msg : Message}
    (hheld : frameHead held = .more)
    (hf : frameHead (held ++ rest) = .frame msg rest') :
    rest'.length < rest.length := by
  have hne : frameHead (held ++ rest) ≠ .more := by simp [hf]
  obtain ⟨a, b, d, e, tl, hsplit⟩ := header_of_ne_more hne
  have hlen := congrArg List.length hsplit
  simp only [List.length_append, List.length_cons] at hlen
  rw [hsplit, frameHead_cons] at hf
  split at hf
  · cases hf
  · next hok =>
      split at hf
      · cases hf
      · injection hf with _ hrest
        rw [← hrest, List.length_drop]
        rcases short_or_header held with hshort | ⟨a', b', d', e', body, rfl⟩
        · unfold headTotalLen at hshort
          omega
        · simp only [List.cons_append, List.cons.injEq] at hsplit
          obtain ⟨rfl, rfl, rfl, rfl, rfl⟩ := hsplit
          rw [frameHead_cons, if_neg hok] at hheld
          split at hheld
          · rw [List.length_append] at *
            omega
          · cases hheld

/-- The loop ends, and the rounds it takes decode the stream. The induction is
on the rounds granted: each consumes a byte of the delivery. -/
theorem readLoop_spec {data : Bytes} (hdata : data.length ≤ maxLength) :
    ∀ {rounds : Nat} {c : ReadCall} {held rest : Bytes},
      Represents c.session held → Ahead data c rest → rest ≠ [] →
      rest.length ≤ rounds →
      CallSpec c (held ++ rest) (readLoop data rounds c) := by
  intro rounds
  induction rounds with
  | zero =>
      intro c held rest _ _ hne hle
      exact absurd (List.length_eq_zero_iff.mp (Nat.le_zero.mp hle)) hne
  | succ rounds ih =>
      intro c held rest hrep hc hne hle
      have hpos : c.bytesTransferred > 0 := by
        rw [hc.bytes]
        exact List.length_pos_iff.mpr hne
      have hround := round_spec hrep hc hdata
      cases hhead : frameHead (held ++ rest) with
      | more =>
          obtain ⟨c', hret, hu, hp, hrep'⟩ := hround.more hhead
          have hd : wire.decode (held ++ rest) = ⟨[], held ++ rest, false⟩ :=
            decode_more hhead
          have hloop : readLoop data (rounds + 1) c = some c'.arm := by
            rw [readLoop, if_pos hpos, hret]
          rw [hloop]
          refine ⟨?_, ?_, ?_⟩ <;> rw [hd]
          · exact fun _ => ⟨c', rfl, hu, .nil hp, hrep'⟩
          · exact fun hb => by cases hb
          · exact fun hb => by cases hb
      | bad =>
          have hd : wire.decode (held ++ rest) = ⟨[], held ++ rest, true⟩ :=
            decode_bad hhead
          refine ⟨?_, ?_, ?_⟩ <;> rw [hd]
          · exact fun hb => by cases hb
          · intro _ hn
            obtain ⟨c', hret, hu, hp⟩ := hround.bad hhead hn
            exact ⟨c', by rw [readLoop, if_pos hpos, hret], hu, .nil hp⟩
          · intro _ hn
            obtain ⟨c', f, hret, hu, hp⟩ := hround.neg hhead hn
            exact ⟨c', f, by rw [readLoop, if_pos hpos, hret], hu, .nil hp⟩
      | frame msg rest' =>
          obtain ⟨c', node, hret, hu, hp, hnode, hrep', hc'⟩ :=
            hround.frame msg rest' hhead
          by_cases hend : rest' = []
          · -- The delivery ends with the frame.
            subst hend
            have hloop : readLoop data (rounds + 1) c = some c'.arm := by
              rw [readLoop, if_pos hpos, hret, if_pos rfl]
            rw [hloop]
            have hd : wire.decode [] = ⟨[], [], false⟩ := decode_more rfl
            refine .of_frame hhead hu hp hnode ?_
            refine ⟨?_, ?_, ?_⟩ <;> rw [hd]
            · exact fun _ => ⟨c', rfl, .refl c', .nil rfl, hrep'⟩
            · exact fun hb => by cases hb
            · exact fun hb => by cases hb
          · have hlt := rest_lt_of_held hrep.frameHead hhead
            have hloop : readLoop data (rounds + 1) c = readLoop data rounds c' := by
              rw [readLoop, if_pos hpos, hret, if_neg hend]
            rw [hloop]
            exact .of_frame hhead hu hp hnode (ih hrep' hc' hend (by omega))

/-- One call of `HandleRead` on a delivery that is not empty and fits the
buffer. -/
theorem handleRead_spec {s : CSession} {server : CServer} {held chunk : Bytes}
    (hrep : Represents s held) (hne : chunk ≠ []) (hlen : chunk.length ≤ maxLength) :
    CallSpec (ReadCall.start s server chunk.length) (held ++ chunk)
      (s.handleRead server false chunk) :=
  readLoop_spec hlen hrep ⟨rfl, Nat.zero_add _⟩ hne (Nat.le_succ _)

/-- A delivery: some bytes, at most a buffer full. -/
def Chunk (chunk : Bytes) : Prop := chunk ≠ [] ∧ chunk.length ≤ maxLength

/-- Every call returns. -/
theorem handleRead_returns {s : CSession} {server : CServer} {held chunk : Bytes}
    (hrep : Represents s held) (hchunk : Chunk chunk) :
    ∃ c, s.handleRead server false chunk = some c := by
  have h : CallSpec _ (held ++ chunk) (s.handleRead server false chunk) :=
    handleRead_spec hrep hchunk.1 hchunk.2
  cases hb : (wire.decode (held ++ chunk)).bad with
  | false => obtain ⟨c', hr, -⟩ := h.good hb; exact ⟨_, hr⟩
  | true =>
      by_cases hn : NegLen (wire.decode (held ++ chunk)).tail
      · obtain ⟨c', f, hr, -⟩ := h.neg hb hn
        exact ⟨_, hr⟩
      · obtain ⟨c', hr, -⟩ := h.bad hb hn
        exact ⟨_, hr⟩

/-! ## Runs -/

/-- The session as a receiver of chunks. -/
def recv (c : ReadCall) (chunk : Bytes) : Fed ReadCall (Except Fault Message) :=
  match c.session.handleRead c.server false chunk with
  | some c => ⟨c, c.posted.map RecvNode.message, decide (c.armed ≠ 0)⟩
  | none => ⟨{ c with posted := [] }, [], false⟩

theorem recv_out (c : ReadCall) (chunk : Bytes) :
    (recv c chunk).out = (recv c chunk).state.posted.map RecvNode.message := by
  rw [recv]
  split <;> rfl

/-- Between two deliveries: one read is armed, the session stands for the
bytes kept back, and the session map is as it was. -/
structure Reading (uuid : Uuid) (server : CServer) (c : ReadCall) (held : Bytes) :
    Prop where
  session : Represents c.session held
  uuid_eq : c.session.uuid = uuid
  server_eq : c.server = server
  armed : c.armed = 1
  fault : c.fault = none

/-- After a refused header: the session is out of the map and reads no more. -/
structure Stopped (uuid : Uuid) (c : ReadCall) : Prop where
  cleared : uuid ∉ c.server.sessions
  armed : c.armed = 0
  fault : c.fault = none

/-- A refused head is no header with a negative length when all lengths met
are not negative. -/
theorem not_negLen_tail {xs : Bytes} (h : LensNonneg xs) :
    ¬ NegLen (wire.decode xs).tail := by
  have htail : LenNonneg (wire.decode xs).tail := by
    induction xs using wire.decode_induction with
    | more xs hm => rw [decode_more hm]; exact h _ (mem_heads_self _ _)
    | bad xs hb => rw [decode_bad hb]; exact h _ (mem_heads_self _ _)
    | frame xs msg rest hf ih =>
        rw [decode_frame hf]
        refine ih fun x hx => h x ?_
        rw [heads_frame hf]
        exact List.mem_cons_of_mem _ hx
  rintro ⟨a, b, c, d, rest, heq, -, hge⟩
  exact absurd (htail a b c d rest heq) (by omega)

theorem recv_receiver (uuid : Uuid) (server : CServer) :
    Receiver wire recv Except.ok (Reading uuid server) (Stopped uuid) LenNonneg
      Chunk where
  deliver := by
    intro c held chunk hI _ hchunk hok
    have hspec : CallSpec _ (held ++ chunk) (c.session.handleRead c.server false chunk) :=
      handleRead_spec hI.session hchunk.1 hchunk.2
    cases hb : (wire.decode (held ++ chunk)).bad with
    | false =>
        obtain ⟨c', hr, hu, hp, hrep⟩ := hspec.good hb
        have hrecv : recv c chunk = ⟨c'.arm, c'.posted.map RecvNode.message, true⟩ := by
          rw [recv, hr]
          rfl
        rw [hrecv]
        refine ⟨hp.messages rfl, rfl, fun _ => ?_, fun hbad => absurd hbad (by decide)⟩
        exact ⟨hrep, hu.uuid.trans hI.uuid_eq, hu.server.trans hI.server_eq,
          congrArg (· + 1) hu.armed, hu.fault⟩
    | true =>
        obtain ⟨c', hr, hu, hp⟩ := hspec.bad hb (not_negLen_tail hok)
        have harmed : c'.armed = 0 := hu.armed
        have huuid : c'.session.uuid = uuid := hu.uuid.trans hI.uuid_eq
        have hrecv : recv c chunk =
            ⟨c'.clearSession, c'.posted.map RecvNode.message, false⟩ := by
          rw [recv, hr]
          show Fed.mk _ _ (decide (c'.armed ≠ 0)) = _
          rw [harmed]
          rfl
        rw [hrecv]
        refine ⟨hp.messages rfl, rfl, fun hgood => absurd hgood (by decide), fun _ => ?_⟩
        refine ⟨?_, harmed, hu.fault⟩
        show uuid ∉ (c'.server.clearSession c'.session.uuid).sessions
        rw [huuid]
        simp

/-- The run as the model defines it is the receiver's. -/
theorem readRun_eq {uuid : Uuid} {server : CServer} {chunks : List Bytes} :
    ∀ {c : ReadCall} {held : Bytes}, Reading uuid server c held →
      wire.head held = .more → (∀ chunk ∈ chunks, Chunk chunk) →
      LensNonneg (held ++ chunks.flatten) →
      readRun c chunks = (feedAll recv c chunks).map fun f => some f.state := by
  induction chunks with
  | nil => intros; rfl
  | cons chunk chunks ih =>
      intro c held hI hm hchunks hlens
      have hchunk := hchunks chunk List.mem_cons_self
      rw [List.flatten_cons, ← List.append_assoc] at hlens
      obtain ⟨-, hlive, hInv, hStop⟩ := (recv_receiver uuid server).deliver c held chunk
        hI hm hchunk (heads_of_append lenNonneg_of_append _ _ hlens)
      obtain ⟨c', hr⟩ : ∃ c', c.session.handleRead c.server false chunk = some c' :=
        handleRead_returns hI.session hchunk
      have hstate : (recv c chunk).state = c' := by rw [recv, hr]
      have harmed : c.armed ≠ 0 := by rw [hI.armed]; decide
      have hrun : readRun c (chunk :: chunks) = some c' :: readRun c' chunks := by
        rw [readRun, if_neg harmed, hr]
      rw [hrun, feedAll, List.map_cons, hstate]
      congr 1
      rw [hstate] at hInv hStop
      cases hb : (wire.decode (held ++ chunk)).bad with
      | false =>
          rw [if_pos (by rw [hlive, hb]; rfl)]
          exact ih (hInv hb) (head_tail _ hb)
            (fun d hd => hchunks d (List.mem_cons_of_mem _ hd))
            (heads_tail_append _ _ hb hlens)
      | true =>
          rw [if_neg (by rw [hlive, hb]; decide), List.map_nil]
          cases chunks with
          | nil => rfl
          | cons d ds => rw [readRun, if_pos (hStop hb).armed]

theorem start_reading (uuid : Uuid) (server : CServer) :
    Reading uuid server ((CSession.new uuid).start server) [] :=
  ⟨represents_new uuid, rfl, rfl, rfl, rfl⟩

section

variable {chunks : List Bytes} (uuid : Uuid) (server : CServer)
  (hchunks : ∀ chunk ∈ chunks, Chunk chunk) (hlens : LensNonneg chunks.flatten)

/-- The calls of the run of a fresh session. -/
def readCalls (chunks : List Bytes) : List ReadCall :=
  (feedAll recv ((CSession.new uuid).start server) chunks).map Fed.state

include hchunks hlens

theorem readRun_start :
    readRun ((CSession.new uuid).start server) chunks =
      (readCalls uuid server chunks).map some := by
  rw [readRun_eq (start_reading uuid server) rfl hchunks hlens, readCalls, List.map_map]
  rfl

theorem readCalls_messages :
    (readCalls uuid server chunks).flatMap (fun c => c.posted.map RecvNode.message) =
      (wire.decode chunks.flatten).msgs.map .ok := by
  have hout := feedAll_out (recv_receiver uuid server) lenNonneg_of_append
    (start_reading uuid server) rfl hchunks hlens
  rw [List.nil_append] at hout
  rw [readCalls, ← hout, List.flatMap_map]
  refine List.flatMap_congr fun f hf => ?_
  obtain ⟨c, chunk, rfl⟩ := mem_feedAll hf
  exact (recv_out c chunk).symm

theorem readCalls_length (hgood : (wire.decode chunks.flatten).bad = false) :
    (readCalls uuid server chunks).length = chunks.length := by
  rw [readCalls, List.length_map]
  exact feedAll_length (recv_receiver uuid server) lenNonneg_of_append
    (start_reading uuid server) rfl hchunks hlens hgood

/-- After each call the session stands for the undecoded tail of what arrived,
or has been stopped by a refused header, and then the call was the last. -/
theorem readCalls_state {k : Nat} {call : ReadCall}
    (hcall : (readCalls uuid server chunks)[k]? = some call) :
    ((wire.decode (chunks.take (k + 1)).flatten).bad = false →
      Reading uuid server call (wire.decode (chunks.take (k + 1)).flatten).tail) ∧
    ((wire.decode (chunks.take (k + 1)).flatten).bad = true →
      Stopped uuid call ∧ (readCalls uuid server chunks).length = k + 1) := by
  rw [readCalls, List.getElem?_map, Option.map_eq_some_iff] at hcall
  obtain ⟨f, hf, rfl⟩ := hcall
  rw [readCalls, List.length_map]
  exact feedAll_state (recv_receiver uuid server) lenNonneg_of_append
    (start_reading uuid server) rfl hchunks hlens k f hf

end

/-- Framing does not depend on how the stream is cut. -/
theorem readRun_framing (uuid : Uuid) (server : CServer) (stream : Bytes)
    (chunks : List Bytes) (hcut : chunks.flatten = stream)
    (hchunks : ∀ chunk ∈ chunks, Chunk chunk) (hlens : LensNonneg stream) :
    ∃ calls : List ReadCall,
      readRun ((CSession.new uuid).start server) chunks = calls.map some ∧
      calls.flatMap (fun c => c.posted.map RecvNode.message) =
        (wire.decode stream).msgs.map .ok ∧
      ((wire.decode stream).bad = false → calls.length = chunks.length) ∧
      ∀ k call, calls[k]? = some call →
        call.fault = none ∧
        ((wire.decode (chunks.take (k + 1)).flatten).bad = false →
          call.armed = 1 ∧ call.server = server ∧
          Represents call.session (wire.decode (chunks.take (k + 1)).flatten).tail) ∧
        ((wire.decode (chunks.take (k + 1)).flatten).bad = true →
          call.armed = 0 ∧ uuid ∉ call.server.sessions ∧ calls.length = k + 1) := by
  subst hcut
  refine ⟨readCalls uuid server chunks, readRun_start uuid server hchunks hlens,
    readCalls_messages uuid server hchunks hlens,
    readCalls_length uuid server hchunks hlens, fun k call hcall => ?_⟩
  obtain ⟨hgood, hbad⟩ := readCalls_state uuid server hchunks hlens hcall
  refine ⟨?_, fun hb => ?_, fun hb => ?_⟩
  · cases hb : (wire.decode (chunks.take (k + 1)).flatten).bad with
    | false => exact (hgood hb).fault
    | true => exact (hbad hb).1.fault
  · exact ⟨(hgood hb).armed, (hgood hb).server_eq, (hgood hb).session⟩
  · exact ⟨(hbad hb).1.armed, (hbad hb).1.cleared, (hbad hb).2⟩

/-- A frame with one payload byte, cut inside the header. -/
theorem readRun_framing_two_chunks :
    ∃ calls : List ReadCall,
      readRun ((CSession.new (.letter 0)).start ⟨∅⟩)
        [[3, 233], [0, 1, 65]] = calls.map some ∧
      calls.flatMap (fun c => c.posted.map RecvNode.message) = [.ok (1001, [65])] := by
  have hid : short (beNat 3 233) = 1001 := by decide
  have hlen : beNat 0 1 = 1 := by decide
  have hhead : wire.head [3, 233, 0, 1, 65] = .frame (1001, [65]) [] := by
    rw [wire_head, frameHead_cons, maxLength_eq, hid, hlen, if_neg (by decide),
      if_neg (by decide)]
    rfl
  have hnil : wire.head [] = .more := rfl
  have hlens : LensNonneg [3, 233, 0, 1, 65] := by
    have hheads : wire.heads [3, 233, 0, 1, 65] = [[3, 233, 0, 1, 65], []] := by
      rw [heads_frame hhead, heads_stop (by rw [hnil]; simp)]
    intro x hx a b c d rest heq
    rw [hheads] at hx
    rcases List.mem_pair.mp hx with rfl | rfl
    · cases heq
      decide
    · cases heq
  have hchunks : ∀ chunk ∈ [[3, 233], [0, 1, 65]], Chunk chunk := by
    intro chunk hmem
    rcases List.mem_pair.mp hmem with rfl | rfl <;> exact ⟨by decide, by decide⟩
  obtain ⟨calls, hrun, hout, -⟩ :=
    readRun_framing (.letter 0) ⟨∅⟩ [3, 233, 0, 1, 65]
      [[3, 233], [0, 1, 65]] rfl hchunks hlens
  have hdecode : wire.decode [3, 233, 0, 1, 65] = ⟨[(1001, [65])], [], false⟩ := by
    rw [decode_frame hhead, decode_more hnil]
    rfl
  rw [hdecode] at hout
  exact ⟨calls, hrun, hout⟩

end AsioServer
