import AsioServer.Lib.Table
import AsioServer.Ref.Json

/-!
# The database (`user.sql`, `friend.sql`, `_mysql.cpp`)

The tables with the constraints their definitions state: primary keys, the
unique name, the foreign keys. Names are compared by the collation of the
column. A statement that would break a constraint, or put NULL where the table
forbids it, fails and changes nothing.

`Connection` is the `connection` object of one call of a model function:
`m_state`, and `m_conn` with the transaction behind the handle, as the tables
look to it. Nothing is changed for others before `commit`; a failed `commit`
closes the handle and leaves `m_state` at 1, so that the destructor hands a null
handle to `mysql_rollback`. `Outcome` is MySQL's part: which of its calls
succeed, the value the server gives an AUTO_INCREMENT column, whether
`mysql_rollback` returns when it is called like that, and what the memory
behind the output buffers reads as. A `sqlstatement` that could not be
initialised, prepared or bound fails in `execute`, so these calls have no
outcome of their own.
-/

namespace AsioServer

/-! ## Tables -/

structure UserRow where
  id : Int
  name : Bytes
  password : Bytes
  state : Bytes
  uuid : Option Bytes
  deriving DecidableEq

structure Db where
  users : Table UserRow UserRow.id
  friends : Table (Int × Int) id
  collation : Bytes → Bytes
  unique_name : (users.rows.map fun r => collation r.name).Nodup
  foreign : ∀ f ∈ friends.rows, (users.find f.1).isSome ∧ (users.find f.2).isSome

def Db.empty (collation : Bytes → Bytes) : Db where
  users := .empty
  friends := .empty
  collation := collation
  unique_name := List.nodup_nil
  foreign := fun _ h => by cases h

/-- `INSERT INTO User (name, password, state, uuid)`, with the id the server
gives the row. -/
def Db.insertUser (db : Db) (autoId : Int) (name password state uuid : Option Bytes) :
    Option Db :=
  match name, password, state with
  | some name, some password, some state =>
      if hname : ∀ r ∈ db.users.rows, db.collation r.name ≠ db.collation name then
        if 0 < autoId ∧ autoId ≤ 2147483647 then
          match hins : db.users.insert ⟨autoId, name, password, state, uuid⟩ with
          | some users =>
              some
                { db with
                  users := users
                  unique_name := by
                    rw [(Table.insert_eq_some hins).1, List.map_append, List.nodup_append]
                    refine ⟨db.unique_name, List.nodup_singleton _, ?_⟩
                    intro c hc c' hc'
                    obtain ⟨r, hr, rfl⟩ := List.mem_map.mp hc
                    rw [List.map_singleton, List.mem_singleton] at hc'
                    rw [hc']
                    exact hname r hr
                  foreign := by
                    have hkeep : ∀ k, (db.users.find k).isSome → (users.find k).isSome := by
                      intro k hk
                      rw [Table.find_insert hins]
                      split
                      · rfl
                      · exact hk
                    intro f hf
                    exact ⟨hkeep _ (db.foreign f hf).1, hkeep _ (db.foreign f hf).2⟩ }
          | none => none
        else none
      else none
  | _, _, _ => none

/-- `UPDATE User SET state = :1, uuid = :2 WHERE id = :3`. -/
def Db.updateUser (db : Db) (state uuid : Option Bytes) (id : Int) : Option Db :=
  match state with
  | some state =>
      some
        { db with
          users := db.users.modify id (fun r => { r with state := state, uuid := uuid })
            fun _ => rfl
          unique_name := by
            have hnames : (db.users.modify id
                (fun r => { r with state := state, uuid := uuid }) fun _ => rfl).rows.map
                  (fun r => db.collation r.name) =
                db.users.rows.map fun r => db.collation r.name := by
              rw [Table.modify, List.map_map]
              refine List.map_congr_left fun r _ => ?_
              show db.collation (UserRow.name (if _ then _ else _)) = _
              split <;> rfl
            rw [hnames]
            exact db.unique_name
          foreign := by
            have hkeep : ∀ k, (db.users.find k).isSome → ((db.users.modify id
                (fun r => { r with state := state, uuid := uuid }) fun _ => rfl).find k).isSome := by
              intro k hk
              rw [Table.find_modify]
              split
              · next heq => rw [← heq, Option.isSome_map]; exact hk
              · exact hk
            intro f hf
            exact ⟨hkeep _ (db.foreign f hf).1, hkeep _ (db.foreign f hf).2⟩ }
  | none => none

/-- `INSERT INTO Friend (userid, friendid)`. -/
def Db.insertFriend (db : Db) (userid friendid : Int) : Option Db :=
  if hkeys : (db.users.find userid).isSome ∧ (db.users.find friendid).isSome then
    match hins : db.friends.insert (userid, friendid) with
    | some friends =>
        some
          { db with
            friends := friends
            foreign := by
              intro f hf
              rw [(Table.insert_eq_some hins).1, List.mem_append] at hf
              rcases hf with hf | hf
              · exact db.foreign f hf
              · rw [List.mem_singleton.mp hf]
                exact hkeys }
    | none => none
  else none

/-! ## Connections -/

structure Outcome where
  connect : Bool
  execute : Bool
  fetch : Bool
  commit : Bool
  rollbackNull : Bool
  autoId : Int
  stack : Nat → Bytes

/-- All calls succeed. -/
structure Outcome.Succeeds (o : Outcome) : Prop where
  connect : o.connect = true
  execute : o.execute = true
  fetch : o.fetch = true
  commit : o.commit = true

structure Connection where
  mState : Bool
  mConn : Option Db

/-- `connecttodb`, with the value it returns. -/
def connecttodb (o : Outcome) (db : Db) : Connection × Int :=
  if o.connect then (⟨true, some db⟩, 0) else (⟨false, none⟩, -1)

/-- `stmt.execute()` of a statement that changes tables; `none` is a value other
than 0. -/
def Connection.execute (c : Connection) (o : Outcome) (stmt : Db → Option Db) :
    Option Connection :=
  match c.mConn with
  | some db => if o.execute then (stmt db).map fun db => { c with mConn := some db } else none
  | none => none

/-- `commit`, with what it leaves of the tables. -/
def Connection.commit (c : Connection) (o : Outcome) (db : Db) : Except Fault (Connection × Db) :=
  if c.mState then
    match c.mConn with
    | some pending =>
        if o.commit then .ok (c, pending) else .ok ({ c with mConn := none }, db)
    | none => .error .nullPointer
  else .ok (c, db)

/-- The destructor: `disconnect`, and in it `rollback`, which drops what was not
committed. -/
def Connection.destroy (c : Connection) (o : Outcome) : Except Fault Unit :=
  if c.mState then
    match c.mConn with
    | some _ => .ok ()
    | none => if o.rollbackNull then .ok () else .error .nullPointer
  else .ok ()

/-- What the model functions that change a table do around their statement:
connect, fill the parameters, execute, commit. The value says whether the
function gets past `execute`; that of `commit` is not looked at. -/
def transact (o : Outcome) (db : Db) (prepare : Except Fault (Db → Option Db)) :
    Except Fault (Db × Bool) := do
  let (conn, rc) := connecttodb o db
  if rc ≠ 0 then
    conn.destroy o
    return (db, false)
  let stmt ← prepare
  match conn.execute o stmt with
  | none =>
      conn.destroy o
      return (db, false)
  | some conn =>
      let (conn, db) ← conn.commit o db
      conn.destroy o
      return (db, true)

/-- A string bound with `bindin`: an empty one is NULL. -/
def bindString (s : Bytes) : Option Bytes := if s.isEmpty then none else some s

/-- `strcpy` into an array of `size` chars. -/
def strcpy (size : Nat) (s : Bytes) : Except Fault Bytes :=
  if (cStr s).length < size then .ok (cStr s) else .error .outOfBounds

/-- The string read from an array of `size` chars that `bindout` names, after a
fetch. NULL leaves the array as it was, and a value that fills it leaves no room
for the terminator; `stack` is the string read from where the fetch wrote
nothing. -/
def fetchString (size : Nat) (stack : Bytes) : Option Bytes → Bytes
  | none => stack
  | some v =>
      if v.length < size ∨ 0 ∈ v.take size then cStr (v.take size)
      else v.take size ++ stack

end AsioServer
