import AsioServer.Ref.CSession
import AsioServer.Ref.LogicQueue
import AsioServer.Ref.Model

/-!
# The callbacks (`LogicSystem.cpp`)

A callback runs on the worker thread with the session a message came from, its
id and its payload. It reads and changes the database and appends to the send
queues of sessions, which it reaches through the session map or directly; a
session that was cleared from the map still exists while a message of it does.
`World` is what callbacks see, and `sent` remembers the calls of `Send` they
made, in order, with the response object where the text is the styled form of
one.

What the callbacks print is left out, except that printing a member converts
it to a string, which can throw.
-/

namespace AsioServer

/-- A call of `Send` by a callback. -/
structure Sent where
  session : Uuid
  msgId : Int
  response : Option Json
  text : Bytes

structure World where
  db : Db
  server : CServer
  session : Uuid → CSession
  sent : List Sent

/-- Before the first connection, over given tables. -/
def World.start (db : Db) : World where
  db := db
  server := ⟨∅⟩
  session := CSession.new
  sent := []

def World.send (w : World) (target : Uuid) (text : Bytes) (msgId : Int)
    (response : Option Json) : Except Fault World := do
  let call ← (w.session target).send text msgId
  return { w with
    session := Function.update w.session target call.session
    sent := w.sent ++ [⟨target, msgId, response, text⟩] }

/-- `return_str = response.toStyledString(); session->Send(return_str, msg_id)`. -/
def World.reply (lib : JsonLib) (w : World) (session : Uuid) (msgId : Int) (response : Json) :
    Except Fault World :=
  w.send session (lib.toStyledString response) msgId (some response)

/-- A response with `code` and a text under `key`. -/
def response (code : Int) (key text : String) : Json :=
  .obj [(ascii "code", .int code), (ascii key, .str (ascii text))]

/-- `stoi(root[key].asString())`. -/
def Json.idField (key : String) (root : Json) : Except Fault Int := do
  let text ← root.field key
  stoi text

section

variable (lib : JsonLib) (env : Nat → Outcome) (w : World) (session : Uuid) (msgId : Int)
  (msgData : Bytes)

def helloWordCallBack : Except Fault World := do
  let root := (lib.parse msgData).2
  let data ← root.field "data"
  let root ← root.setMember (ascii "data")
    (.str (ascii "server has received msg, msg data is " ++ data))
  w.reply lib session msgId root

def registerResponse (user : User) : Json :=
  .obj [(ascii "code", .int codeRegisterSuccess), (ascii "id", .int user.id),
    (ascii "msg", .str (ascii "register success"))]

def registerCallBack : Except Fault World := do
  let root := (lib.parse msgData).2
  let username ← root.field "username"
  let password ← root.field "password"
  let user := { User.default with name := username, password := password }
  let (db, user, isInsertSuccess) ← UserModel.insert (env 0) w.db user
  let w := { w with db := db }
  if isInsertSuccess then w.reply lib session msgId (registerResponse user)
  else w.reply lib session msgId (response codeRegisterFailed "msg" "register failed")

/-- The decision of `LoginCallBack` on the user it queried. -/
def isLoginSuccess (user : User) (username password : Bytes) : Bool :=
  if user.id = -1 then false
  else if user.name ≠ username ∨ user.password ≠ password then false
  else if user.state = ascii "online" then false
  else true

def loginCallBack : Except Fault World := do
  let root := (lib.parse msgData).2
  let id ← root.idField "id"
  let username ← root.field "username"
  let password ← root.field "password"
  let user ← UserModel.query (env 0) w.db id
  if isLoginSuccess user username password then
    let user := { user with state := ascii "online", uuid := session.text }
    let (db, _) ← UserModel.updateState (env 1) w.db user
    let w := { w with db := db }
    w.reply lib session msgId (response codeLoginSuccess "msg" "login success")
  else w.reply lib session msgId (response codeLoginFailed "msg" "login failed")

def logoutCallBack : Except Fault World := do
  let root := (lib.parse msgData).2
  let id ← root.idField "id"
  let user := User.new id [] [] (ascii "offline") []
  let (db, _) ← UserModel.updateState (env 0) w.db user
  return { w with db := db }

def addFriendCallBack : Except Fault World := do
  let root := (lib.parse msgData).2
  let idStr ← root.field "id"
  let friendidStr ← root.field "friendid"
  let id ← stoi idStr
  let friendid ← stoi friendidStr
  let (db, isAddSuccess) ← FriendModel.insert (env 0) w.db id friendid
  let w := { w with db := db }
  if isAddSuccess then
    w.reply lib session msgId (response codeAddFriendSuccess "msg" "add friend success")
  else w.reply lib session msgId (response codeAddFriendFailed "msg" "add friend failed")

def oneChatCallBack : Except Fault World := do
  let root := (lib.parse msgData).2
  let toid ← root.idField "toid"
  let user ← UserModel.query (env 0) w.db toid
  if user.id = -1 then
    w.reply lib session msgId (response codeOneChatFailed "msg" "one chat failed")
  else if user.state = ascii "online" then
    let w ←
      match w.server.getSession user.uuid with
      | some toSession => w.send toSession msgData msgId none
      | none => pure w
    w.reply lib session msgId (response codeOneChatSuccess "msg" "one chat success")
  else w.reply lib session msgId (response codeOneChatFailed "msg" "one chat failed")

/-- `CreateGroupCallBack` and `JoinGroupCallBack`: nothing is done yet, and a
success is reported. -/
def groupCallBack (code : Int) (text : String) : Except Fault World := do
  let root := (lib.parse msgData).2
  let _ ← root.field "data"
  w.reply lib session msgId (response code "data" text)

def createGroupCallBack : Except Fault World :=
  groupCallBack lib w session msgId msgData codeCreateGroupSuccess "create group success"

def joinGroupCallBack : Except Fault World :=
  groupCallBack lib w session msgId msgData codeJoinGroupSuccess "join group success"

def groupChatCallBack : Except Fault World := do
  let root := (lib.parse msgData).2
  let _ ← root.field "data"
  return w

/-- A call through `_fun_callbacks`. -/
def CallBack.call : CallBack → Except Fault World
  | .helloWord => helloWordCallBack lib w session msgId msgData
  | .register => registerCallBack lib env w session msgId msgData
  | .login => loginCallBack lib env w session msgId msgData
  | .logout => logoutCallBack lib env w msgData
  | .addFriend => addFriendCallBack lib env w session msgId msgData
  | .oneChat => oneChatCallBack lib env w session msgId msgData
  | .joinGroup => joinGroupCallBack lib w session msgId msgData
  | .createGroup => createGroupCallBack lib w session msgId msgData
  | .groupChat => groupChatCallBack lib w msgData

/-- What a message does: nothing, if no callback is registered for its id. -/
def World.process : Except Fault World :=
  match findCallBack msgId with
  | none => .ok w
  | some callBack => callBack.call lib env w session msgId msgData

end

/-- One iteration of `DealMsg` on a queue that is not empty: the front message is
dispatched and popped. An exception leaves `DealMsg`, and with it the thread. -/
def dealMsg (lib : JsonLib) (env : Nat → Outcome) (w : World) :
    List LogicNode → Except Fault (World × List LogicNode)
  | [] => .ok (w, [])
  | msgNode :: rest =>
      match findCallBack msgNode.recvnode.msgId with
      | none => .ok (w, rest)
      | some callBack => do
          let msgData ← msgNode.recvnode.str
          let w ← callBack.call lib env w msgNode.session msgNode.recvnode.msgId msgData
          return (w, rest)

/-- The iteration does what `World.process` says of the message. -/
theorem dealMsg_eq (lib : JsonLib) (env : Nat → Outcome) (w : World) {msgNode : LogicNode}
    {msgId : Int} {msgData : Bytes} (rest : List LogicNode)
    (h : msgNode.recvnode.message = .ok (msgId, msgData)) :
    dealMsg lib env w (msgNode :: rest) =
      (w.process lib env msgNode.session msgId msgData).map fun w => (w, rest) := by
  obtain ⟨bytes, hstr, hmsg⟩ := bind_eq_ok.mp h
  obtain ⟨rfl, rfl⟩ : msgNode.recvnode.msgId = msgId ∧ bytes = msgData := by
    simpa [pure, Except.pure] using hmsg
  rw [dealMsg, World.process]
  cases findCallBack msgNode.recvnode.msgId with
  | none => rfl
  | some callBack =>
      simp only [hstr]
      show (callBack.call lib env w msgNode.session msgNode.recvnode.msgId bytes >>=
        fun w => pure (w, rest)) = _
      cases callBack.call lib env w msgNode.session msgNode.recvnode.msgId bytes <;> rfl

/-! ## Runs of the worker -/

/-- A message, with what MySQL does while it is processed. -/
structure Job where
  env : Nat → Outcome
  session : Uuid
  msgId : Int
  msgData : Bytes

/-- A message is processed; the worker is gone if that fails. -/
def jobStep (lib : JsonLib) (w : World) (job : Job) : Option World :=
  (w.process lib job.env job.session job.msgId job.msgData).toOption

theorem jobStep_eq_some {lib : JsonLib} {w w' : World} {job : Job} :
    jobStep lib w job = some w' ↔
      w.process lib job.env job.session job.msgId job.msgData = .ok w' := by
  unfold jobStep
  cases w.process lib job.env job.session job.msgId job.msgData <;> simp [Except.toOption]

end AsioServer
