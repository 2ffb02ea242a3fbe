import AsioServer.Ref.MsgNode
import AsioServer.Ref.CServer

/-!
# A session's reading and writing (`CSession.h`, `CSession.cpp`)

`HandleRead` is a loop over the bytes of one delivery. It keeps what it cannot
use yet in one of two nodes: the header node while a header is incomplete, the
message node while a body is. `ReadCall` holds the locals of one call with the
session and the server it acts on, and counts what it does to the outside: the
nodes it posts to the logic system, the reads it arms, and the fault that
ended it, if one did. The whole body of the function stands in a handler that
swallows exceptions, so after one of them the call returns like any other; an
undefined access is no exception and ends in no handler.

`_data` appears as the bytes delivered, the first `bytes_transferred` of the
buffer: every read of the buffer is checked against them. The rest of the
buffer is zeroed before it is handed out again and never read. The socket, the
log and the session's own reference count decide nothing and are left out.
-/

namespace AsioServer

structure CSession where
  uuid : Uuid
  bClose : Bool
  sendQue : List SendNode
  recvMsgNode : Option RecvNode
  bHeadParse : Bool
  recvHeadNode : MsgNode
  deriving DecidableEq

/-- What `make_shared<MsgNode>(HEAD_TOTAL_LEN)` builds. -/
def headNode : MsgNode :=
  { curLen := 0
    totalLen := headTotalLen
    data := List.replicate headTotalLen none ++ [some 0]
    total_nonneg := by decide
    alloc := by decide }

theorem new_headTotalLen : MsgNode.new headTotalLen = .ok headNode := rfl

/-- The constructor. -/
def CSession.new (uuid : Uuid) : CSession :=
  { uuid := uuid
    bClose := false
    sendQue := []
    recvMsgNode := none
    bHeadParse := false
    recvHeadNode := headNode }

/-- `Close()`. -/
def CSession.close (s : CSession) : CSession := { s with bClose := true }

/-! ## Reading -/

/-- One call of `HandleRead`: its locals and what it does. -/
structure ReadCall where
  session : CSession
  server : CServer
  copyLen : Nat
  bytesTransferred : Nat
  posted : List RecvNode
  armed : Nat
  fault : Option Fault
  deriving DecidableEq

/-- `_socket.async_read_some(boost::asio::buffer(_data, MAX_LENGTH), ...)`. -/
def ReadCall.arm (c : ReadCall) : ReadCall := { c with armed := c.armed + 1 }

/-- `_server->ClearSession(_uuid)`. -/
def ReadCall.clearSession (c : ReadCall) : ReadCall :=
  { c with server := c.server.clearSession c.session.uuid }

def ReadCall.raise (c : ReadCall) (f : Fault) : ReadCall := { c with fault := some f }

/-- How one round of the loop ends. -/
inductive Ctl where
  | ret (c : ReadCall)
  | again (c : ReadCall)

/-- The common end of both message branches: the node is terminated and
posted, the header node is cleared, and the next read is armed if nothing is
left of this delivery. -/
def deliver (node : RecvNode) (c : ReadCall) : Ctl :=
  let node := { node with toMsgNode := node.terminate }
  let c :=
    { c with
      posted := c.posted ++ [node]
      session :=
        { c.session with
          recvMsgNode := some node
          bHeadParse := false
          recvHeadNode := c.session.recvHeadNode.clear } }
  if c.bytesTransferred ≤ 0 then .ret c.arm else .again c

/-- Behind a complete header: the body starts in the same delivery. -/
def firstBody (data : Bytes) (node : RecvNode) (msgLen : Int) (c : ReadCall) : Ctl :=
  if c.bytesTransferred < sizeT msgLen then
    match node.fill data c.copyLen c.bytesTransferred with
    | .error f => .ret (c.raise f)
    | .ok n =>
        .ret
          { c with
            session :=
              { c.session with
                recvMsgNode :=
                  some { node with toMsgNode := n.advance c.bytesTransferred }
                bHeadParse := true } }.arm
  else
    match node.fill data c.copyLen msgLen with
    | .error f => .ret (c.raise f)
    | .ok n =>
        deliver { node with toMsgNode := n.advance msgLen }
          { c with
            copyLen := c.copyLen + sizeT msgLen
            bytesTransferred := c.bytesTransferred - sizeT msgLen }

/-- The header node is full: the id and the length are read, and checked
against `MAX_LENGTH` as signed shorts. -/
def header (data : Bytes) (c : ReadCall) : Ctl :=
  match c.session.recvHeadNode.loadShort 0 with
  | .error f => .ret (c.raise f)
  | .ok idMem =>
      let msgId := short (networkToHostShort idMem)
      if msgId > maxLength then .ret c.clearSession
      else
        match c.session.recvHeadNode.loadShort headIdLen with
        | .error f => .ret (c.raise f)
        | .ok lenMem =>
            let msgLen := short (networkToHostShort lenMem)
            if msgLen > maxLength then .ret c.clearSession
            else
              match RecvNode.new msgLen msgId with
              | .error f => .ret (c.raise f)
              | .ok node => firstBody data node msgLen c

/-- `!_b_head_parse`: bytes for the header node. -/
def headStep (data : Bytes) (c : ReadCall) : Ctl :=
  let head := c.session.recvHeadNode
  if c.bytesTransferred + sizeT head.curLen < headTotalLen then
    match head.fill data c.copyLen c.bytesTransferred with
    | .error f => .ret (c.raise f)
    | .ok n =>
        .ret
          { c with
            session := { c.session with recvHeadNode := n.advance c.bytesTransferred } }.arm
  else
    let headRemain : Int := headTotalLen - head.curLen
    match head.fill data c.copyLen headRemain with
    | .error f => .ret (c.raise f)
    | .ok n =>
        header data
          { c with
            session := { c.session with recvHeadNode := n }
            copyLen := c.copyLen + sizeT headRemain
            bytesTransferred := c.bytesTransferred - sizeT headRemain }

/-- `_b_head_parse`: bytes for the message node. -/
def bodyStep (data : Bytes) (c : ReadCall) : Ctl :=
  match c.session.recvMsgNode with
  | none => .ret (c.raise .nullPointer)
  | some node =>
      let remainMsg := node.totalLen - node.curLen
      if c.bytesTransferred < sizeT remainMsg then
        match node.fill data c.copyLen c.bytesTransferred with
        | .error f => .ret (c.raise f)
        | .ok n =>
            .ret
              { c with
                session :=
                  { c.session with
                    recvMsgNode :=
                      some { node with toMsgNode := n.advance c.bytesTransferred } } }.arm
      else
        match node.fill data c.copyLen remainMsg with
        | .error f => .ret (c.raise f)
        | .ok n =>
            deliver { node with toMsgNode := n.advance remainMsg }
              { c with
                copyLen := c.copyLen + sizeT remainMsg
                bytesTransferred := c.bytesTransferred - sizeT remainMsg }

/-- One round of the loop. -/
def round (data : Bytes) (c : ReadCall) : Ctl :=
  if !c.session.bHeadParse then headStep data c else bodyStep data c

/-- `while (bytes_transferred > 0)`. The number of rounds is not bounded by the
code; `none` says that the rounds granted were not enough. -/
def readLoop (data : Bytes) : Nat → ReadCall → Option ReadCall
  | 0, _ => none
  | rounds + 1, c =>
      if c.bytesTransferred > 0 then
        match round data c with
        | .ret c => some c
        | .again c => readLoop data rounds c
      else some c

/-- The call a delivery starts with. -/
def ReadCall.start (s : CSession) (server : CServer) (bytes : Nat) : ReadCall :=
  { session := s
    server := server
    copyLen := 0
    bytesTransferred := bytes
    posted := []
    armed := 0
    fault := none }

/-- `HandleRead(error, bytes_transferred, shared_self)`. -/
def CSession.handleRead (s : CSession) (server : CServer) (error : Bool) (data : Bytes) :
    Option ReadCall :=
  let c := ReadCall.start s server data.length
  if !error then readLoop data (data.length + 1) c
  else some { c with session := c.session.close }.clearSession

/-- `Start()`: the first read is armed. -/
def CSession.start (s : CSession) (server : CServer) : ReadCall :=
  (ReadCall.start s server 0).arm

/-- A run of deliveries: each chunk completes the read that the call before it
armed, and without an armed read nothing is delivered any more. A call that
does not return is the last of its run. -/
def readRun : ReadCall → List Bytes → List (Option ReadCall)
  | _, [] => []
  | c, chunk :: chunks =>
      if c.armed = 0 then []
      else
        match c.session.handleRead c.server false chunk with
        | none => [none]
        | some c => some c :: readRun c chunks

/-! ## Writing -/

/-- What a call of `Send` or `HandleWrite` did: the session left behind and
the node handed to `async_write`, if a write was started. -/
structure WriteCall where
  session : CSession
  wrote : Option SendNode
  deriving DecidableEq

/-- The common body of the two overloads of `Send`, which differ in the type
the message comes in: at the end of the queue if it is not full, and on its
way at once if the queue was empty. -/
def CSession.enqueue (s : CSession) (msg : Bytes) (maxLength msgId : Int) :
    Except Fault WriteCall :=
  let sendQueSize := s.sendQue.length
  if sendQueSize > maxSendque then .ok ⟨s, none⟩
  else do
    let node ← SendNode.new msg maxLength msgId
    let s := { s with sendQue := s.sendQue ++ [node] }
    if sendQueSize > 0 then return ⟨s, none⟩
    return ⟨s, s.sendQue.head?⟩

theorem CSession.enqueue_full {s : CSession} {msg : Bytes} {len id : Int}
    (h : s.sendQue.length > maxSendque) : s.enqueue msg len id = .ok ⟨s, none⟩ :=
  if_pos h

theorem CSession.enqueue_ok {s : CSession} {msg : Bytes} {len id : Int} {node : SendNode}
    (h : s.sendQue.length ≤ maxSendque) (hnode : SendNode.new msg len id = .ok node) :
    s.enqueue msg len id = .ok
      ⟨{ s with sendQue := s.sendQue ++ [node] },
        if s.sendQue = [] then some node else none⟩ := by
  rw [enqueue, if_neg (by omega), hnode]
  cases hque : s.sendQue with
  | nil => rfl
  | cons front rest => rfl

theorem CSession.enqueue_error {s : CSession} {msg : Bytes} {len id : Int} {f : Fault}
    (h : s.sendQue.length ≤ maxSendque) (hnode : SendNode.new msg len id = .error f) :
    s.enqueue msg len id = .error f := by
  rw [enqueue, if_neg (by omega), hnode]
  rfl

/-- Only the queue changes. -/
theorem CSession.enqueue_session {s : CSession} {msg : Bytes} {len id : Int} {w : WriteCall}
    (h : s.enqueue msg len id = .ok w) :
    ∃ que, w.session = { s with sendQue := que } := by
  rcases Nat.lt_or_ge maxSendque s.sendQue.length with hfull | hroom
  · rw [enqueue_full hfull] at h
    cases h
    exact ⟨s.sendQue, rfl⟩
  · cases hnode : SendNode.new msg len id with
    | ok node =>
        rw [enqueue_ok hroom hnode] at h
        cases h
        exact ⟨_, rfl⟩
    | error f =>
        rw [enqueue_error hroom hnode] at h
        cases h

/-- `Send(std::string msg, short msgid)`: the length becomes a short, and
behind the bytes of `msg` stands the terminator `c_str()` adds. -/
def CSession.send (s : CSession) (msg : Bytes) (msgId : Int) : Except Fault WriteCall :=
  s.enqueue (msg ++ [0]) (short msg.length) msgId

/-- `Send(char* msg, short max_length, short msgid)`. -/
def CSession.sendBuffer (s : CSession) (msg : Bytes) (maxLength msgId : Int) :
    Except Fault WriteCall :=
  s.enqueue msg (short maxLength) msgId

/-- `HandleWrite(error, shared_self)` without an error: the front leaves the
queue and the next node follows. `pop` of an empty queue is undefined. -/
def CSession.handleWritten (s : CSession) : Except Fault WriteCall :=
  match s.sendQue with
  | [] => .error .outOfBounds
  | _ :: rest => .ok ⟨{ s with sendQue := rest }, rest.head?⟩

/-- `HandleWrite` with an error. -/
def CSession.handleWriteFailed (s : CSession) (server : CServer) : CSession × CServer :=
  (s.close, server.clearSession s.uuid)

end AsioServer
