import AsioServer.Ref.Binding
import AsioServer.Ref.Model
import AsioServer.Ref.SqlLexer
import AsioServer.Ref.Tcp

/-!
# The statements of the model classes (`userModel.h`, `friendModel.h`)

In `Ref/Model` a function of the model classes does to the tables what its SQL
says. Here it goes through its `sqlstatement`: the text is prepared, variables of
the function are bound, the statement is executed, and a query has a record
fetched into them. `mysqlServer` is MySQL's part. It is handed a text and what
arrives for the question marks, and it knows what the texts of these functions
mean once they are translated.

The variables of a function have the addresses below. `mem` is what the memory
holds from an address on before the function writes there.
-/

namespace AsioServer

/-! ## Memory -/

def idVar : Address := 1
def nameVar : Address := 2
def passwordVar : Address := 3
def stateVar : Address := 4
def uuidVar : Address := 5
/-- `userId` of `UserModel::query`, `friendid` of `FriendModel::insert`. -/
def otherIdVar : Address := 6

/-- A store of these bytes at an address. -/
def Variables.write (mem : Variables) (a : Address) (bytes : Bytes) : Variables :=
  Function.update mem a (bytes ++ (mem a).drop bytes.length)

/-- `std::strcpy` into the array of `size` chars at `a`. -/
def Variables.strcpy (mem : Variables) (a : Address) (size : Nat) (s : Bytes) :
    Except Fault Variables :=
  (AsioServer.strcpy size s).map fun s => mem.write a (s ++ [0])

/-- The `int` at an address. -/
def Variables.int (mem : Variables) (a : Address) : Int :=
  match mem a with
  | b₀ :: b₁ :: b₂ :: b₃ :: _ => AsioServer.int (beWord b₃ b₂ b₁ b₀)
  | _ => 0

/-! ## Texts -/

def insertUserText : Bytes :=
  ascii "INSERT INTO User (name, password, state,uuid) VALUES (:1, :2, :3, :4)"

def queryUserText : Bytes :=
  ascii "SELECT id, name, password, state,uuid FROM User WHERE id = :1"

def updateStateText : Bytes := ascii "UPDATE User SET state = :1, uuid = :2 WHERE id = :3"

def insertFriendText : Bytes := ascii "INSERT INTO Friend (userid, friendid) VALUES (:1, :2)"

def queryFriendText : Bytes :=
  ascii "        SELECT id, name, state,uuid FROM User WHERE id IN " ++
    ascii "(SELECT friendid FROM Friend WHERE userid = :1)"

/-! ## The server -/

inductive SqlValue where
  | null
  | int (i : Int)
  | text (s : Bytes)

def SqlValue.ofText : Option Bytes → SqlValue
  | none => .null
  | some s => .text s

/-- What arrived, as the value of a VARCHAR column. -/
def Received.text : Received → Option Bytes
  | .data _ bytes => some bytes
  | .null => none

/-- And of an INT column. -/
def Received.int : Received → Option Int
  | .data .long [b₀, b₁, b₂, b₃] => some (AsioServer.int (beWord b₃ b₂ b₁ b₀))
  | _ => none

/-- Translated, the texts above have question marks. -/
def insertUserSql : Bytes :=
  ascii "INSERT INTO User (name, password, state,uuid) VALUES (?, ?, ?, ?)"

def queryUserSql : Bytes :=
  ascii "SELECT id, name, password, state,uuid FROM User WHERE id = ?"

def updateStateSql : Bytes := ascii "UPDATE User SET state = ?, uuid = ? WHERE id = ?"

def insertFriendSql : Bytes := ascii "INSERT INTO Friend (userid, friendid) VALUES (?, ?)"

def queryFriendSql : Bytes :=
  ascii "        SELECT id, name, state,uuid FROM User WHERE id IN " ++
    ascii "(SELECT friendid FROM Friend WHERE userid = ?)"

/-- A statement that changes a table. -/
def Db.write (db : Db) (autoId : Int) (sql : Bytes) (params : List Received) : Option Db :=
  if sql = insertUserSql then
    match params with
    | [name, password, state, uuid] =>
        db.insertUser autoId name.text password.text state.text uuid.text
    | _ => none
  else if sql = updateStateSql then
    match params with
    | [state, uuid, id] => id.int.bind fun id => db.updateUser state.text uuid.text id
    | _ => none
  else if sql = insertFriendSql then
    match params with
    | [userid, friendid] =>
        userid.int.bind fun userid => friendid.int.bind fun friendid =>
          db.insertFriend userid friendid
    | _ => none
  else none

/-- The rows a query selects, and their columns. -/
def Db.select (db : Db) (sql : Bytes) (params : List Received) : Option (List (List SqlValue)) :=
  if sql = queryUserSql then
    match params with
    | [id] =>
        id.int.map fun id => (db.users.find id).toList.map fun row =>
          [.int row.id, .text row.name, .text row.password, .text row.state, .ofText row.uuid]
    | _ => none
  else if sql = queryFriendSql then
    match params with
    | [userid] =>
        userid.int.map fun userid => (db.friendRows userid).map fun row =>
          [.int row.id, .text row.name, .text row.state, .ofText row.uuid]
    | _ => none
  else none

/-- The number of columns of a query. -/
def fieldCount (sql : Bytes) : Nat :=
  if sql = queryUserSql then 5 else if sql = queryFriendSql then 4 else 0

/-- `ER_UNKNOWN_ERROR`. -/
def refusal : MysqlError := ⟨1105, ascii "Unknown error", by decide⟩

/-- MySQL on these tables. -/
def mysqlServer (o : Outcome) (db : Db) : MysqlLib where
  prepare := fun sql => .ok (mysqlLexer.paramCount sql, fieldCount sql)
  bindParam := fun _ => none
  bindResult := fun _ => none
  execute := fun sql params =>
    if o.execute then
      match db.write o.autoId sql params, db.select sql params with
      | some _, _ => .ok 1
      | none, some rows => .ok rows.length
      | none, none => .error refusal
    else .error refusal

/-! ## Fetching -/

/-- `mysql_stmt_fetch` for one column: a NULL leaves the variable, and a string that fills its
array gets no terminator. Conversions are left out; the functions below ask for none. -/
def MysqlBind.fetch (b : MysqlBind) (mem : Variables) : SqlValue → Variables
  | .null => mem
  | .int i => if b.bufferType = .long then mem.write b.buffer (storeInt i) else mem
  | .text s =>
      if b.bufferType = .varString then
        mem.write b.buffer
          (s.take b.bufferLength ++ if s.length < b.bufferLength then [0] else [])
      else mem

def fetchRow : List MysqlBind → List SqlValue → Variables → Variables
  | b :: binds, v :: row, mem => fetchRow binds row (b.fetch mem v)
  | _, _, mem => mem

/-- A call of `next()`: what it returns, and what it leaves of the statement, the variables
and the result set. -/
structure Fetched where
  rc : Int
  statement : Sqlstatement
  mem : Variables
  rows : List (List SqlValue)

/-- The exit when the fetch fails. -/
def Sqlstatement.lost (st : Sqlstatement) (mem : Variables) (rows : List (List SqlValue)) :
    Fetched :=
  ⟨(st.errReport refusal).mCda.rc, st.errReport refusal, mem, rows⟩

/-- `next()`. -/
def Sqlstatement.nextRow (o : Outcome) (st : Sqlstatement) (mem : Variables)
    (rows : List (List SqlValue)) : Fetched :=
  if !st.mState then ⟨-1, st.notOpen, mem, rows⟩
  else if st.mCda.rc ≠ 0 then ⟨st.mCda.rc, st, mem, rows⟩
  else if st.mSqltype ≠ 0 then
    ⟨-1, { st with mCda := { st.mCda with rc := -1, message := ascii "no recordset found.\n" } },
      mem, rows⟩
  else if !o.fetch then st.lost mem rows
  else
    match rows with
    | [] => ⟨mysqlNoData, st, mem, []⟩
    | row :: rest =>
        ⟨0, { st with mCda := { st.mCda with rpc := st.mCda.rpc + 1 } },
          fetchRow st.mHandle.results row mem, rest⟩

/-! ## The functions -/

/-- The statement of `UserModel::query`, and what is made of the variables. -/
def UserModel.queryStatement (o : Outcome) (db : Db) (mem : Variables) (st : Sqlstatement)
    (id : Int) : Except Fault User := do
  let mem := mem.write idVar (storeInt id)
  let (st, _) ← st.prepare (mysqlServer o db) queryUserText []
  let (st, _) ← Sqlstatement.bindinInt idVar st 1
  let (st, _) ← Sqlstatement.bindoutInt otherIdVar st 1
  let (st, _) ← Sqlstatement.bindoutChars nameVar 50 st 2
  let (st, _) ← Sqlstatement.bindoutChars passwordVar 50 st 3
  let (st, _) ← Sqlstatement.bindoutChars stateVar 10 st 4
  let (st, _) ← Sqlstatement.bindoutChars uuidVar 50 st 5
  let done ← st.execute (mysqlServer o db) mem
  if done.rc ≠ 0 then return User.default
  let rows := (done.received.bind (db.select done.statement.mSql)).getD []
  let fetched := done.statement.nextRow o mem rows
  if fetched.rc ≠ 0 then return User.default
  let mem := fetched.mem
  return { id := mem.int otherIdVar
           name := cStr (mem nameVar)
           password := cStr (mem passwordVar)
           state := cStr (mem stateVar)
           uuid := cStr (mem uuidVar) }

/-- `UserModel::query`, through its statement. -/
def UserModel.queryBy (o : Outcome) (db : Db) (mem : Variables) (st : Sqlstatement) (id : Int) :
    Except Fault User := do
  let (conn, rc) := connecttodb o db
  if rc ≠ 0 then
    conn.destroy o
    return User.default
  let user ← UserModel.queryStatement o db mem st id
  conn.destroy o
  return user

/-- The loop of `FriendModel::query`, with the rounds granted to it. The variables are bound
after the descriptions were handed over, and MySQL keeps those it was given. -/
def FriendModel.collectStatement (o : Outcome) :
    Nat → Sqlstatement → Variables → List (List SqlValue) → List User →
      Except Fault (Option (List User))
  | 0, _, _, _, _ => .ok none
  | rounds + 1, st, mem, rows, vec => do
      let fetched := st.nextRow o mem rows
      if fetched.rc ≠ 0 then
        let mem := fetched.mem
        let (st, _) ← Sqlstatement.bindoutInt idVar fetched.statement 1
        let (st, _) ← Sqlstatement.bindoutChars nameVar 50 st 2
        let (st, _) ← Sqlstatement.bindoutChars stateVar 10 st 3
        let (st, _) ← Sqlstatement.bindoutChars uuidVar 50 st 4
        let user := User.new (mem.int idVar) (cStr (mem nameVar)) [] (cStr (mem stateVar))
          (cStr (mem uuidVar))
        FriendModel.collectStatement o rounds st mem fetched.rows (vec ++ [user])
      else return some vec

/-- The statement of `FriendModel::query`; the variable it binds is a parameter of the
function, apart from those of the loop. -/
def FriendModel.queryStatement (o : Outcome) (rounds : Nat) (db : Db) (mem : Variables)
    (st : Sqlstatement) (userid : Int) : Except Fault (Option (List User)) := do
  let mem := mem.write otherIdVar (storeInt userid)
  let (st, _) ← st.prepare (mysqlServer o db) queryFriendText []
  let (st, _) ← Sqlstatement.bindinInt otherIdVar st 1
  let done ← st.execute (mysqlServer o db) mem
  if done.rc ≠ 0 then return some []
  let rows := (done.received.bind (db.select done.statement.mSql)).getD []
  FriendModel.collectStatement o rounds done.statement mem rows []

/-- `FriendModel::query`, through its statement. -/
def FriendModel.queryBy (o : Outcome) (rounds : Nat) (db : Db) (mem : Variables)
    (st : Sqlstatement) (userid : Int) : Except Fault (Option (List User)) := do
  let (conn, rc) := connecttodb o db
  if rc ≠ 0 then
    conn.destroy o
    return some []
  match ← FriendModel.queryStatement o rounds db mem st userid with
  | none => return none
  | some vec =>
      conn.destroy o
      return some vec

end AsioServer
