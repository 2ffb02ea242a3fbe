import AsioServer.Ref.Database

/-!
# Users and friends (`user.h`, `userModel.h`, `friendModel.h`)
-/

namespace AsioServer

structure User where
  id : Int
  name : Bytes
  password : Bytes
  state : Bytes
  uuid : Bytes
  deriving DecidableEq

/-- The constructor; it does not use its last argument. -/
def User.new (id : Int) (name password state _uuid : Bytes) : User :=
  { id := id
    name := name
    password := password
    state := state
    uuid := [] }

/-- `User()`: the default arguments. -/
def User.default : User := User.new (-1) [] [] (ascii "offline") []

/-- `UserModel::insert`. The user gets the id of its row. -/
def UserModel.insert (o : Outcome) (db : Db) (user : User) : Except Fault (Db × User × Bool) := do
  let (db, done) ← transact o db do
    let name ← strcpy 50 user.name
    let password ← strcpy 50 user.password
    let state ← strcpy 10 user.state
    let uuid ← strcpy 50 user.uuid
    return fun db =>
      db.insertUser o.autoId (bindString name) (bindString password) (bindString state)
        (bindString uuid)
  return (db, if done then { user with id := o.autoId } else user, done)

/-- What `UserModel::query` makes of a fetched row. -/
def User.fetched (stack : Nat → Bytes) (row : UserRow) : User :=
  { id := row.id
    name := fetchString 50 (stack 2) (some row.name)
    password := fetchString 50 (stack 3) (some row.password)
    state := fetchString 10 (stack 4) (some row.state)
    uuid := fetchString 50 (stack 5) row.uuid }

/-- `UserModel::query`. -/
def UserModel.query (o : Outcome) (db : Db) (id : Int) : Except Fault User := do
  let (conn, rc) := connecttodb o db
  if rc ≠ 0 then
    conn.destroy o
    return User.default
  let user :=
    if o.execute && o.fetch then
      match db.users.find id with
      | some row => User.fetched o.stack row
      | none => User.default
    else User.default
  conn.destroy o
  return user

/-- `UserModel::updateState`. -/
def UserModel.updateState (o : Outcome) (db : Db) (user : User) : Except Fault (Db × Bool) :=
  transact o db do
    let state ← strcpy 10 user.state
    let uuid ← strcpy 50 user.uuid
    return fun db => db.updateUser (bindString state) (bindString uuid) user.id

/-- `FriendModel::insert`. -/
def FriendModel.insert (o : Outcome) (db : Db) (userid friendid : Int) :
    Except Fault (Db × Bool) :=
  transact o db (return fun db => db.insertFriend userid friendid)

/-- The rows of `SELECT id, name, state,uuid FROM User WHERE id IN (SELECT
friendid FROM Friend WHERE userid = :1)`. -/
def Db.friendRows (db : Db) (userid : Int) : List UserRow :=
  db.users.rows.filter fun r => (userid, r.id) ∈ db.friends.rows

/-- `MYSQL_NO_DATA`. -/
def mysqlNoData : Int := 100

/-- `stmt.next()` on what is left of a result set: the value it returns, and
what is left behind the fetch. -/
def Sqlstatement.next (o : Outcome) : List UserRow → Int × List UserRow
  | [] => (if o.fetch then mysqlNoData else -1, [])
  | row :: rows => if o.fetch then (0, rows) else (-1, row :: rows)

/-- `while (stmt.next() != 0)` in `FriendModel::query`. The output variables are
bound inside the loop, after the statement was executed, so no fetch writes
them; they are the same memory in every round. The number of rounds is not
bounded by the code; `none` says that the rounds granted were not enough. -/
def FriendModel.collect (o : Outcome) (stackId : Int) :
    Nat → List UserRow → List User → Option (List User)
  | 0, _, _ => none
  | rounds + 1, rows, vec =>
      let (rc, rows) := Sqlstatement.next o rows
      if rc ≠ 0 then
        let user := User.new stackId (o.stack 2) [] (o.stack 3) (o.stack 4)
        FriendModel.collect o stackId rounds rows (vec ++ [user])
      else some vec

/-- `FriendModel::query`, with the rounds granted to its loop; `stackId` is what
the memory of its `int id` reads as. -/
def FriendModel.query (o : Outcome) (stackId : Int) (rounds : Nat) (db : Db) (userid : Int) :
    Except Fault (Option (List User)) := do
  let (conn, rc) := connecttodb o db
  if rc ≠ 0 then
    conn.destroy o
    return some []
  if !o.execute then
    conn.destroy o
    return some []
  match FriendModel.collect o stackId rounds (db.friendRows userid) [] with
  | none => return none
  | some vec =>
      conn.destroy o
      return some vec

end AsioServer
