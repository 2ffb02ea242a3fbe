import AsioServer.Ref.CSession
import AsioServer.Spec.Decoder

/-!
# One delivery is one stretch of the stream

`HandleRead` decides by counters: how many bytes the header node has, how many
the message node lacks, how many of the delivery are left. `Represents` reads
the counters back as bytes: in every state between two rounds the session
stands for a stretch of the stream that is not yet a frame. A round then does
what the wire format says of that stretch followed by the rest of the
delivery: it takes the whole rest in and waits for more, or it posts the frame
at the head and leaves the session empty, or it refuses the header.

The three cases are `RoundSpec`, and `round_spec` proves them for both branches
of the loop. A refused header comes in two kinds, and the code tells them
apart where the format does not: a length that is negative as a signed short
passes the check and fails in the constructor of the node.
-/

namespace AsioServer

open Framing

/-- The parse state of a session stands for the bytes `held`: less than a
header in the header node, or a header and a part of its body in the message
node. -/
inductive Represents (s : CSession) : Bytes → Prop where
  | head {held : Bytes} (flag : s.bHeadParse = false)
      (size : s.recvHeadNode.totalLen = headTotalLen)
      (holds : s.recvHeadNode.Holds held) (part : held.length < headTotalLen) :
      Represents s held
  | body {a b c d : UInt8} {body : Bytes} {node : RecvNode}
      (flag : s.bHeadParse = true)
      (size : s.recvHeadNode.totalLen = headTotalLen)
      (msgNode : s.recvMsgNode = some node)
      (id : node.msgId = short (beNat a b)) (idLe : short (beNat a b) ≤ maxLength)
      (total : node.totalLen = beNat c d) (lenLe : beNat c d ≤ maxLength)
      (holds : node.Holds body) (part : body.length < beNat c d) :
      Represents s (a :: b :: c :: d :: body)

/-- A fresh session stands for nothing. -/
theorem represents_new (uuid : Uuid) : Represents (CSession.new uuid) [] :=
  .head rfl rfl ⟨rfl, rfl⟩ (by decide)

theorem Represents.frameHead {s : CSession} {held : Bytes} (h : Represents s held) :
    frameHead held = .more := by
  cases h with
  | head _ _ _ part => exact frameHead_short part
  | body _ _ _ _ idLe _ lenLe _ part =>
      rw [frameHead_cons, if_neg (by omega), if_pos part]

/-- A posted node is a complete message. -/
structure RecvNode.Complete (n : RecvNode) (msg : Message) : Prop where
  id : n.msgId = msg.1
  total : n.totalLen = msg.2.length
  bound : msg.2.length ≤ maxLength
  holds : n.Holds msg.2

theorem RecvNode.Complete.message {n : RecvNode} {msg : Message}
    (h : n.Complete msg) : n.message = .ok msg := by
  have hbound := h.bound
  rw [maxLength_eq] at hbound
  rw [RecvNode.message, MsgNode.str_ok h.holds (by rw [h.total]) (by omega), h.id]
  rfl

/-- A call and a later point of it: nothing outside the parse state, the
locals and the posted nodes has changed. -/
structure Untouched (c c' : ReadCall) : Prop where
  server : c'.server = c.server
  armed : c'.armed = c.armed
  fault : c'.fault = c.fault
  uuid : c'.session.uuid = c.session.uuid
  sendQue : c'.session.sendQue = c.session.sendQue

theorem Untouched.refl (c : ReadCall) : Untouched c c := ⟨rfl, rfl, rfl, rfl, rfl⟩

theorem Untouched.trans {c c₁ c₂ : ReadCall} (h₁ : Untouched c c₁)
    (h₂ : Untouched c₁ c₂) : Untouched c c₂ :=
  ⟨h₂.server.trans h₁.server, h₂.armed.trans h₁.armed, h₂.fault.trans h₁.fault,
    h₂.uuid.trans h₁.uuid, h₂.sendQue.trans h₁.sendQue⟩

/-- `rest` are the bytes of the delivery that the call has not used. -/
structure Ahead (data : Bytes) (c : ReadCall) (rest : Bytes) : Prop where
  drop : data.drop c.copyLen = rest
  length : c.copyLen + c.bytesTransferred = data.length

theorem Ahead.bytes {data : Bytes} {c : ReadCall} {rest : Bytes}
    (h : Ahead data c rest) : c.bytesTransferred = rest.length := by
  have hl := h.length
  rw [← h.drop, List.length_drop]
  omega

/-- The code's own exception to the format: an id it accepts in front of a
length that is negative as a signed short. -/
def NegLen (xs : Bytes) : Prop :=
  ∃ a b c d rest, xs = a :: b :: c :: d :: rest ∧
    short (beNat a b) ≤ maxLength ∧ 32768 ≤ beNat c d

/-- What a round does with the stretch of the stream it sees. -/
structure RoundSpec (data : Bytes) (c : ReadCall) (stream : Bytes) (r : Ctl) :
    Prop where
  more : frameHead stream = .more → ∃ c', r = .ret c'.arm ∧ Untouched c c' ∧
    c'.posted = c.posted ∧ Represents c'.session stream
  frame : ∀ msg rest, frameHead stream = .frame msg rest → ∃ c' node,
    r = (if rest = [] then .ret c'.arm else .again c') ∧ Untouched c c' ∧
    c'.posted = c.posted ++ [node] ∧ node.Complete msg ∧
    Represents c'.session [] ∧ Ahead data c' rest
  bad : frameHead stream = .bad → ¬ NegLen stream →
    ∃ c', r = .ret c'.clearSession ∧ Untouched c c' ∧ c'.posted = c.posted
  neg : frameHead stream = .bad → NegLen stream →
    ∃ c' f, r = .ret (c'.raise f) ∧ Untouched c c' ∧ c'.posted = c.posted

theorem RoundSpec.of_untouched {data stream : Bytes} {c c₁ : ReadCall} {r : Ctl}
    (hu : Untouched c c₁) (hp : c₁.posted = c.posted)
    (h : RoundSpec data c₁ stream r) : RoundSpec data c stream r where
  more hm := by
    obtain ⟨c', hr, hu', hp', hrep⟩ := h.more hm
    exact ⟨c', hr, hu.trans hu', hp'.trans hp, hrep⟩
  frame msg rest hf := by
    obtain ⟨c', node, hr, hu', hp', h⟩ := h.frame msg rest hf
    exact ⟨c', node, hr, hu.trans hu', by rw [hp', hp], h⟩
  bad hb hn := by
    obtain ⟨c', hr, hu', hp'⟩ := h.bad hb hn
    exact ⟨c', hr, hu.trans hu', hp'.trans hp⟩
  neg hb hn := by
    obtain ⟨c', f, hr, hu', hp'⟩ := h.neg hb hn
    exact ⟨c', f, hr, hu.trans hu', hp'.trans hp⟩

/-! ## The pieces of a round -/

/-- The next `len` bytes of the delivery behind those a node holds. -/
theorem MsgNode.fill_ahead {n : MsgNode} {held data rest : Bytes} {c : ReadCall}
    {len : Nat} (hn : n.Holds held) (hc : Ahead data c rest)
    (hdata : data.length ≤ maxLength) (hlen : len ≤ rest.length)
    (hfit : held.length + len ≤ n.totalLen + 1) (hmax : held.length ≤ maxLength) :
    ∃ n', n.fill data c.copyLen len = .ok n' ∧ n'.totalLen = n.totalLen ∧
      n'.data.take (held.length + len) = (held ++ rest.take len).map some ∧
      (n'.advance len).Holds (held ++ rest.take len) := by
  have hl := hc.length
  rw [hc.bytes] at hl
  rw [maxLength_eq] at hdata hmax
  obtain ⟨n', hfill, htotal, hcur, hdata'⟩ :=
    MsgNode.fill_ok hn (show c.copyLen + len ≤ data.length by omega) (by omega) hfit
  rw [hc.drop] at hdata'
  refine ⟨n', hfill, htotal, hdata', ?_⟩
  exact MsgNode.advance_holds (by rw [hcur, hn.cur])
    (by rw [List.length_take]; omega) (by omega) hdata'

/-- The end of a message: the node is posted, the session is empty, and the
call stops exactly when the delivery is used up. -/
theorem deliver_spec {data rest payload : Bytes} (node : RecvNode) (c : ReadCall)
    (hnode : node.Holds payload) (htotal : node.totalLen = payload.length)
    (hbound : payload.length ≤ maxLength)
    (hsize : c.session.recvHeadNode.totalLen = headTotalLen)
    (hc : Ahead data c rest) :
    ∃ c' n, deliver node c = (if rest = [] then .ret c'.arm else .again c') ∧
      Untouched c c' ∧ c'.posted = c.posted ++ [n] ∧
      n.Complete (node.msgId, payload) ∧ Represents c'.session [] ∧
      Ahead data c' rest := by
  have hstop : c.bytesTransferred ≤ 0 ↔ rest = [] := by
    rw [hc.bytes, ← List.length_eq_zero_iff]
    omega
  unfold deliver
  simp only [hstop]
  refine ⟨_, _, rfl, ⟨rfl, rfl, rfl, rfl, rfl⟩, rfl, ?_, ?_, hc.drop, hc.length⟩
  · exact ⟨rfl, htotal, hbound, MsgNode.terminate_holds hnode (by rw [htotal])⟩
  · exact .head rfl hsize (MsgNode.clear_holds _) (by decide)

theorem frameHead_body {a b c d : UInt8} (xs : Bytes)
    (hid : short (beNat a b) ≤ maxLength) (hlen : beNat c d ≤ maxLength) :
    frameHead (a :: b :: c :: d :: xs) =
      if xs.length < beNat c d then .more
      else .frame (short (beNat a b), xs.take (beNat c d)) (xs.drop (beNat c d)) := by
  rw [frameHead_cons, if_neg (by omega)]

theorem Ahead.skip {data rest : Bytes} {c : ReadCall} {len : Nat}
    (hc : Ahead data c rest) (hlen : len ≤ rest.length) :
    Ahead data
      { c with
        copyLen := c.copyLen + len
        bytesTransferred := c.bytesTransferred - len }
      (rest.drop len) := by
  have hl := hc.length
  have hb := hc.bytes
  constructor
  · rw [← hc.drop, List.drop_drop]
  · show c.copyLen + len + (c.bytesTransferred - len) = data.length
    omega

/-- A round that takes the whole rest in, in front of an incomplete body. -/
theorem RoundSpec.of_more {data stream : Bytes} {c c' : ReadCall} {r : Ctl}
    (hm : frameHead stream = .more) (hr : r = .ret c'.arm) (hu : Untouched c c')
    (hp : c'.posted = c.posted) (hrep : Represents c'.session stream) :
    RoundSpec data c stream r where
  more _ := ⟨c', hr, hu, hp, hrep⟩
  frame _ _ hf := by rw [hm] at hf; cases hf
  bad hb := by rw [hm] at hb; cases hb
  neg hb := by rw [hm] at hb; cases hb

/-- A round that posts the frame at the head. -/
theorem RoundSpec.of_frame {data stream rest : Bytes} {msg : Message}
    {c c' : ReadCall} {node : RecvNode} {r : Ctl}
    (hf : frameHead stream = .frame msg rest)
    (hr : r = (if rest = [] then .ret c'.arm else .again c'))
    (hu : Untouched c c') (hp : c'.posted = c.posted ++ [node])
    (hnode : node.Complete msg) (hrep : Represents c'.session [])
    (hahead : Ahead data c' rest) : RoundSpec data c stream r where
  more hm := by rw [hf] at hm; cases hm
  frame msg' rest' hf' := by
    rw [hf] at hf'
    cases hf'
    exact ⟨c', node, hr, hu, hp, hnode, hrep, hahead⟩
  bad hb := by rw [hf] at hb; cases hb
  neg hb := by rw [hf] at hb; cases hb

/-- A message node that takes in the body of a frame, from the part `body` it
holds on. Both branches of the loop end this way. -/
theorem bodyRound_spec {data rest body : Bytes} {a b d e : UInt8} {node : RecvNode}
    {c : ReadCall} {r : Ctl} (hid : short (beNat a b) ≤ maxLength)
    (hlen : beNat d e ≤ maxLength) (hnode : node.Holds body)
    (hpart : body.length ≤ beNat d e) (hmsgId : node.msgId = short (beNat a b))
    (htotal : node.totalLen = beNat d e)
    (hsize : c.session.recvHeadNode.totalLen = headTotalLen)
    (hc : Ahead data c rest) (hdata : data.length ≤ maxLength)
    (hmore : body.length + rest.length < beNat d e → ∀ n,
      node.fill data c.copyLen rest.length = .ok n →
      r = .ret
        { c with
          session :=
            { c.session with
              recvMsgNode := some { node with toMsgNode := n.advance rest.length }
              bHeadParse := true } }.arm)
    (hframe : beNat d e ≤ body.length + rest.length → ∀ n,
      node.fill data c.copyLen ((beNat d e - body.length : Nat) : Int) = .ok n →
      r = deliver { node with toMsgNode := n.advance (beNat d e - body.length : Nat) }
        { c with
          copyLen := c.copyLen + (beNat d e - body.length)
          bytesTransferred := c.bytesTransferred - (beNat d e - body.length) }) :
    RoundSpec data c (a :: b :: d :: e :: (body ++ rest)) r := by
  have hmax : beNat d e ≤ 2048 := by rwa [maxLength_eq] at hlen
  have hbody : body.length ≤ maxLength := hpart.trans hlen
  have hhead := frameHead_body (body ++ rest) hid hlen
  rw [List.length_append] at hhead
  by_cases hlt : body.length + rest.length < beNat d e
  · -- The delivery ends inside the body.
    rw [if_pos hlt] at hhead
    obtain ⟨n, hfill, hn, -, hholds⟩ :=
      MsgNode.fill_ahead hnode hc hdata (le_refl rest.length) (by omega) hbody
    rw [List.take_length] at hholds
    refine .of_more hhead (hmore hlt n hfill) ⟨rfl, rfl, rfl, rfl, rfl⟩ rfl ?_
    exact .body rfl hsize rfl hmsgId hid (hn.trans htotal) hlen hholds
      (by rwa [List.length_append])
  · -- The body is complete; `rest` goes on behind it.
    rw [if_neg hlt] at hhead
    have hle : beNat d e - body.length ≤ rest.length := by omega
    obtain ⟨n, hfill, hn, -, hholds⟩ :=
      MsgNode.fill_ahead hnode hc hdata hle (by omega) hbody
    have htake : (body ++ rest).take (beNat d e) =
        body ++ rest.take (beNat d e - body.length) := by
      rw [List.take_append, List.take_of_length_le hpart]
    have hdrop : (body ++ rest).drop (beNat d e) =
        rest.drop (beNat d e - body.length) := by
      rw [List.drop_append, List.drop_of_length_le hpart, List.nil_append]
    have hsz : (body ++ rest.take (beNat d e - body.length)).length = beNat d e := by
      rw [List.length_append, List.length_take]
      omega
    rw [htake, hdrop] at hhead
    obtain ⟨c', n', hret, hu, hpost, hcomp, hrep, hahead⟩ :=
      deliver_spec
        { node with toMsgNode := n.advance (beNat d e - body.length : Nat) }
        { c with
          copyLen := c.copyLen + (beNat d e - body.length)
          bytesTransferred := c.bytesTransferred - (beNat d e - body.length) }
        hholds (by rw [hsz]; exact hn.trans htotal) (by rw [hsz]; exact hlen) hsize
        (hc.skip hle)
    have hcomp' : n'.Complete
        (short (beNat a b), body ++ rest.take (beNat d e - body.length)) := by
      rw [← hmsgId]
      exact hcomp
    exact .of_frame hhead ((hframe (by omega) n hfill).trans hret)
      ⟨hu.server, hu.armed, hu.fault, hu.uuid, hu.sendQue⟩ hpost hcomp' hrep hahead

/-- `firstBody`: a body that starts in this delivery. -/
theorem firstBody_spec {data rest : Bytes} {a b d e : UInt8} {node : RecvNode}
    {c : ReadCall} (hid : short (beNat a b) ≤ maxLength)
    (hlen : beNat d e ≤ maxLength) (hnode : node.Holds [])
    (hmsgId : node.msgId = short (beNat a b)) (htotal : node.totalLen = beNat d e)
    (hsize : c.session.recvHeadNode.totalLen = headTotalLen)
    (hc : Ahead data c rest) (hdata : data.length ≤ maxLength) :
    RoundSpec data c (a :: b :: d :: e :: rest)
      (firstBody data node (beNat d e) c) := by
  have hlt := beNat_lt d e
  have hsz : sizeT (beNat d e) = beNat d e := sizeT_natCast (by omega)
  refine bodyRound_spec hid hlen hnode (Nat.zero_le _) hmsgId htotal hsize hc hdata
    ?_ ?_
  · intro hpart n hfill
    rw [List.length_nil, Nat.zero_add] at hpart
    rw [firstBody, hsz, hc.bytes, if_pos hpart, hfill]
  · intro hwhole n hfill
    rw [List.length_nil, Nat.zero_add] at hwhole
    rw [List.length_nil, Nat.sub_zero] at hfill ⊢
    rw [firstBody, hsz, hc.bytes, if_neg (by omega), hfill]

/-- `bodyStep`: a body that an earlier delivery started. -/
theorem bodyStep_spec {data rest body : Bytes} {a b d e : UInt8} {node : RecvNode}
    {c : ReadCall} (hmsgNode : c.session.recvMsgNode = some node)
    (hflag : c.session.bHeadParse = true) (hid : short (beNat a b) ≤ maxLength)
    (hlen : beNat d e ≤ maxLength) (hnode : node.Holds body)
    (hpart : body.length < beNat d e) (hmsgId : node.msgId = short (beNat a b))
    (htotal : node.totalLen = beNat d e)
    (hsize : c.session.recvHeadNode.totalLen = headTotalLen)
    (hc : Ahead data c rest) (hdata : data.length ≤ maxLength) :
    RoundSpec data c (a :: b :: d :: e :: (body ++ rest)) (bodyStep data c) := by
  have hlt := beNat_lt d e
  have hremain : node.totalLen - node.curLen = (beNat d e - body.length : Nat) := by
    rw [htotal, hnode.cur]
    omega
  have hsz : sizeT ((beNat d e - body.length : Nat) : Int) = beNat d e - body.length :=
    sizeT_natCast (by omega)
  refine bodyRound_spec hid hlen hnode hpart.le hmsgId htotal hsize hc hdata ?_ ?_
  · intro hmore n hfill
    simp only [bodyStep, hmsgNode, hremain, hsz]
    rw [hc.bytes, if_pos (by omega), hfill, hflag]
  · intro hwhole n hfill
    simp only [bodyStep, hmsgNode, hremain, hsz]
    rw [hc.bytes, if_neg (by omega), hfill]

/-! ## Headers -/

/-- The length of a header is read as a signed short: it passes the check
against `MAX_LENGTH` when it is small enough, or when it is negative. -/
theorem short_beNat_le {d e : UInt8} (h : beNat d e < 32768) :
    short (beNat d e) = beNat d e := short_eq (by omega) (by omega)

theorem short_beNat_neg {d e : UInt8} (h : 32768 ≤ beNat d e) :
    short (beNat d e) < 0 := by
  have hlt := beNat_lt d e
  have hmod := short_emod (beNat d e)
  have hbounds := short_bounds (beNat d e)
  omega

/-- A header node that holds a whole header. -/
theorem header_spec {data rest : Bytes} {a b d e : UInt8} {c : ReadCall}
    (hhead : c.session.recvHeadNode.data.take [a, b, d, e].length =
      [a, b, d, e].map some)
    (hsize : c.session.recvHeadNode.totalLen = headTotalLen)
    (hc : Ahead data c rest) (hdata : data.length ≤ maxLength) :
    RoundSpec data c (a :: b :: d :: e :: rest) (header data c) := by
  have hload₀ : c.session.recvHeadNode.loadShort 0 = .ok (loadShort a b) :=
    MsgNode.loadShort_ok hhead rfl rfl
  have hload₂ : c.session.recvHeadNode.loadShort headIdLen = .ok (loadShort d e) :=
    MsgNode.loadShort_ok hhead rfl rfl
  have hcons := frameHead_cons a b d e rest
  rw [header, hload₀, hload₂]
  simp only [networkToHostShort_loadShort]
  by_cases hid : short (beNat a b) > maxLength
  · -- The id is refused.
    have hbad : frameHead (a :: b :: d :: e :: rest) = .bad := by
      rw [hcons, if_pos (Or.inl hid)]
    have hret : RoundSpec data c (a :: b :: d :: e :: rest) (.ret c.clearSession) :=
      { more := fun hm => by rw [hbad] at hm; cases hm
        frame := fun _ _ hf => by rw [hbad] at hf; cases hf
        bad := fun _ _ => ⟨c, rfl, .refl c, rfl⟩
        neg := fun _ hn => by
          obtain ⟨_, _, _, _, _, heq, hle, -⟩ := hn
          cases heq
          omega }
    rwa [if_pos hid]
  · rw [if_neg hid]
    rcases Nat.lt_or_ge (beNat d e) 32768 with hpos | hneg
    · rw [short_beNat_le hpos]
      by_cases hlen : beNat d e > maxLength
      · -- The length is refused.
        have hbad : frameHead (a :: b :: d :: e :: rest) = .bad := by
          rw [hcons, if_pos (Or.inr hlen)]
        have hret :
            RoundSpec data c (a :: b :: d :: e :: rest) (.ret c.clearSession) :=
          { more := fun hm => by rw [hbad] at hm; cases hm
            frame := fun _ _ hf => by rw [hbad] at hf; cases hf
            bad := fun _ _ => ⟨c, rfl, .refl c, rfl⟩
            neg := fun _ hn => by
              obtain ⟨_, _, _, _, _, heq, -, hge⟩ := hn
              cases heq
              omega }
        rwa [if_pos (by omega)]
      · rw [if_neg (by omega)]
        obtain ⟨node, hnew, htotal, hmsgId, hnode⟩ :=
          RecvNode.new_ok (short (beNat a b)) (Int.natCast_nonneg (beNat d e))
        rw [hnew]
        exact firstBody_spec (by omega) (by omega) hnode hmsgId htotal hsize hc hdata
    · -- The length passes the check because it is negative.
      have hlt := short_beNat_neg hneg
      have hbad : frameHead (a :: b :: d :: e :: rest) = .bad := by
        rw [hcons, if_pos (Or.inr (by rw [maxLength_eq]; omega))]
      obtain ⟨f, hf⟩ := RecvNode.new_error (short (beNat a b)) hlt
      rw [if_neg (by omega), hf]
      exact
        { more := fun hm => by rw [hbad] at hm; cases hm
          frame := fun _ _ hf => by rw [hbad] at hf; cases hf
          bad := fun _ hn => absurd ⟨a, b, d, e, rest, rfl, by omega, hneg⟩ hn
          neg := fun _ _ => ⟨c, f, rfl, .refl c, rfl⟩ }

/-- `headStep`: bytes for the header node. -/
theorem headStep_spec {data rest held : Bytes} {c : ReadCall}
    (hflag : c.session.bHeadParse = false)
    (hsize : c.session.recvHeadNode.totalLen = headTotalLen)
    (hholds : c.session.recvHeadNode.Holds held) (hpart : held.length < headTotalLen)
    (hc : Ahead data c rest) (hdata : data.length ≤ maxLength) :
    RoundSpec data c (held ++ rest) (headStep data c) := by
  have hhead : headTotalLen = 4 := rfl
  have hcur : sizeT c.session.recvHeadNode.curLen = held.length := by
    rw [hholds.cur, sizeT_natCast (by omega)]
  have hmax : held.length ≤ maxLength := by
    rw [maxLength_eq]
    omega
  by_cases hlt : rest.length + held.length < headTotalLen
  · -- Still not a whole header.
    obtain ⟨n, hfill, hn, -, hholds'⟩ :=
      MsgNode.fill_ahead hholds hc hdata (le_refl rest.length)
        (by rw [hsize]; omega) hmax
    rw [List.take_length] at hholds'
    have hpart' : (held ++ rest).length < headTotalLen := by
      rw [List.length_append]
      omega
    have hret : headStep data c = .ret
        { c with
          session := { c.session with recvHeadNode := n.advance rest.length } }.arm := by
      rw [headStep, hcur, hc.bytes, if_pos hlt, hfill]
    refine .of_more (frameHead_short hpart') hret ⟨rfl, rfl, rfl, rfl, rfl⟩ rfl ?_
    exact .head hflag (hn.trans hsize) hholds' hpart'
  · -- The header is complete and `rest` goes on behind it.
    have hremain : (headTotalLen : Int) - c.session.recvHeadNode.curLen =
        (headTotalLen - held.length : Nat) := by
      rw [hholds.cur]
      omega
    have hsz : sizeT ((headTotalLen - held.length : Nat) : Int) =
        headTotalLen - held.length := sizeT_natCast (by omega)
    have hle : headTotalLen - held.length ≤ rest.length := by omega
    obtain ⟨n, hfill, hn, hdata', -⟩ :=
      MsgNode.fill_ahead hholds hc hdata hle (by rw [hsize]; omega) hmax
    have hsplit : held ++ rest = (held ++ rest.take (headTotalLen - held.length)) ++
        rest.drop (headTotalLen - held.length) := by
      rw [List.append_assoc, List.take_append_drop]
    have hfour : (held ++ rest.take (headTotalLen - held.length)).length = 4 := by
      rw [List.length_append, List.length_take]
      omega
    rw [show held.length + (headTotalLen - held.length) = 4 by omega] at hdata'
    obtain ⟨a, b, d, e, habde⟩ := List.length_eq_four.mp hfour
    rw [hsplit, habde]
    rw [habde] at hdata'
    have hret : headStep data c = header data
        { c with
          session := { c.session with recvHeadNode := n }
          copyLen := c.copyLen + (headTotalLen - held.length)
          bytesTransferred := c.bytesTransferred - (headTotalLen - held.length) } := by
      rw [headStep, hcur, if_neg (by rw [hc.bytes]; exact hlt), hremain]
      simp only [hfill, hsz]
    have hahead : Ahead data
        { c with
          session := { c.session with recvHeadNode := n }
          copyLen := c.copyLen + (headTotalLen - held.length)
          bytesTransferred := c.bytesTransferred - (headTotalLen - held.length) }
        (rest.drop (headTotalLen - held.length)) :=
      ⟨(hc.skip hle).drop, (hc.skip hle).length⟩
    rw [hret]
    have hspec := header_spec hdata' (hn.trans hsize) hahead hdata
    refine RoundSpec.of_untouched ?_ ?_ hspec
    · exact ⟨rfl, rfl, rfl, rfl, rfl⟩
    · rfl

/-- A round of the loop, on a session that stands for `held` and with `rest`
of the delivery ahead. -/
theorem round_spec {data rest held : Bytes} {c : ReadCall}
    (hrep : Represents c.session held) (hc : Ahead data c rest)
    (hdata : data.length ≤ maxLength) :
    RoundSpec data c (held ++ rest) (round data c) := by
  cases hrep with
  | head flag size holds part =>
      rw [round, flag]
      exact headStep_spec flag size holds part hc hdata
  | body flag size msgNode id idLe total lenLe holds part =>
      rw [round, flag]
      exact bodyStep_spec msgNode flag idLe lenLe holds part id total size hc hdata

end AsioServer
