import Mathlib.Data.List.TakeWhile
import AsioServer.Ref.CServer
import AsioServer.Ref.Model

/-!
# What the model functions do to the tables

`Transact` lists the ways through `transact`: no connection, a parameter that
does not fit its array, a statement that is refused, and a statement that is
executed and then committed or lost. In the last case the value of `commit` is
dropped, and the function reports success if the destructor returns. Each model
function is an instance, so what a caller may conclude from its result is read
off here.
-/

namespace AsioServer

/-! ## Statements -/

theorem insertUser_eq_some {db db' : Db} {autoId : Int} {name password state uuid : Option Bytes}
    (h : db.insertUser autoId name password state uuid = some db') :
    ∃ row : UserRow, row.id = autoId ∧ name = some row.name ∧ password = some row.password ∧
      state = some row.state ∧ row.uuid = uuid ∧ db.users.insert row = some db'.users ∧
      0 < autoId ∧ autoId ≤ 2147483647 ∧ db'.friends = db.friends := by
  unfold Db.insertUser at h
  split at h
  · next name password state =>
      split at h
      · split at h
        · next hid =>
            split at h
            · next users hins =>
                cases h
                exact ⟨_, rfl, rfl, rfl, rfl, rfl, hins, hid.1, hid.2, rfl⟩
            · cases h
        · cases h
      · cases h
  · cases h

theorem find_updateUser {db db' : Db} {state uuid : Option Bytes} {id : Int}
    (h : db.updateUser state uuid id = some db') :
    ∃ text, state = some text ∧ db'.friends = db.friends ∧ ∀ k, db'.users.find k =
      if k = id then (db.users.find id).map fun r => { r with state := text, uuid := uuid }
      else db.users.find k := by
  unfold Db.updateUser at h
  split at h
  · cases h
    refine ⟨_, rfl, rfl, fun k => ?_⟩
    show (db.users.modify id (fun r => { r with state := _, uuid := uuid })
      fun _ => rfl).find k = _
    rw [Table.find_modify]
  · cases h

theorem updateUser_ids {db db' : Db} {state uuid : Option Bytes} {id : Int}
    (h : db.updateUser state uuid id = some db') :
    db'.users.rows.map UserRow.id = db.users.rows.map UserRow.id := by
  unfold Db.updateUser at h
  split at h
  · cases h
    exact Table.keys_change db.users.rows id fun _ => rfl
  · cases h

theorem insertFriend_rows {db db' : Db} {userid friendid : Int}
    (h : db.insertFriend userid friendid = some db') :
    db'.friends.rows = db.friends.rows ++ [(userid, friendid)] := by
  unfold Db.insertFriend at h
  split at h
  · split at h
    · next hins =>
        cases h
        exact (Table.insert_eq_some hins).1
    · cases h
  · cases h

theorem insertFriend_users {db db' : Db} {userid friendid : Int}
    (h : db.insertFriend userid friendid = some db') : db'.users = db.users := by
  unfold Db.insertFriend at h
  split at h
  · split at h
    · cases h
      rfl
    · cases h
  · cases h

/-! ## Connections -/

/-- The ways through `transact`. -/
inductive Transact (o : Outcome) (db : Db) (prepare : Except Fault (Db → Option Db)) :
    Except Fault (Db × Bool) → Prop where
  | disconnected (connect : o.connect = false) : Transact o db prepare (.ok (db, false))
  | unprepared {f : Fault} (connect : o.connect = true) (fault : prepare = .error f) :
      Transact o db prepare (.error f)
  | refused {stmt : Db → Option Db} (connect : o.connect = true) (prepared : prepare = .ok stmt)
      (failed : o.execute = true → stmt db = none) : Transact o db prepare (.ok (db, false))
  | committed {stmt : Db → Option Db} {new : Db} (connect : o.connect = true)
      (prepared : prepare = .ok stmt) (execute : o.execute = true) (done : stmt db = some new)
      (commit : o.commit = true) : Transact o db prepare (.ok (new, true))
  | lost {stmt : Db → Option Db} {new : Db} (connect : o.connect = true)
      (prepared : prepare = .ok stmt) (execute : o.execute = true) (done : stmt db = some new)
      (commit : o.commit = false) (rollback : o.rollbackNull = true) :
      Transact o db prepare (.ok (db, true))
  | crashed {stmt : Db → Option Db} {new : Db} (connect : o.connect = true)
      (prepared : prepare = .ok stmt) (execute : o.execute = true) (done : stmt db = some new)
      (commit : o.commit = false) (rollback : o.rollbackNull = false) :
      Transact o db prepare (.error .nullPointer)

/-- What is left of a transaction with a connection and a statement. -/
theorem transact_connected {o : Outcome} (hc : o.connect = true) (db : Db)
    (stmt : Db → Option Db) :
    transact o db (.ok stmt) =
      match if o.execute then stmt db else none with
      | none => .ok (db, false)
      | some new =>
          if o.commit then .ok (new, true)
          else if o.rollbackNull then .ok (db, true)
          else .error .nullPointer := by
  unfold transact connecttodb Connection.execute Connection.commit Connection.destroy
  rw [hc]
  cases o.execute with
  | false => rfl
  | true =>
      cases hs : stmt db with
      | none => simp [hs, bind, Except.bind, pure, Except.pure]
      | some new =>
          cases o.commit <;> cases o.rollbackNull <;>
            simp [hs, bind, Except.bind, pure, Except.pure]

theorem transact_spec (o : Outcome) (db : Db) (prepare : Except Fault (Db → Option Db)) :
    Transact o db prepare (transact o db prepare) := by
  cases hc : o.connect with
  | false =>
      have hout : transact o db prepare = .ok (db, false) := by
        unfold transact connecttodb
        rw [hc]
        rfl
      rw [hout]
      exact .disconnected hc
  | true =>
      cases prepare with
      | error f =>
          have hout : transact o db (.error f) = .error f := by
            unfold transact connecttodb
            rw [hc]
            rfl
          rw [hout]
          exact .unprepared hc rfl
      | ok stmt =>
          rw [transact_connected hc]
          cases hx : o.execute with
          | false => exact .refused hc rfl fun h => absurd (hx.symm.trans h) (by decide)
          | true =>
              cases hs : stmt db with
              | none => exact .refused hc rfl fun _ => hs
              | some new =>
                  cases hm : o.commit with
                  | true => exact .committed hc rfl hx hs hm
                  | false =>
                      cases hn : o.rollbackNull with
                      | true => exact .lost hc rfl hx hs hm hn
                      | false => exact .crashed hc rfl hx hs hm hn
/-- A transaction returns unless a parameter does not fit, or the connection of
a failed commit is not survived. -/
theorem transact_returns {o : Outcome} {db : Db} {prepare : Except Fault (Db → Option Db)} :
    (∃ r, transact o db prepare = .ok r) ↔
      (o.connect = true → ∃ stmt, prepare = .ok stmt ∧
        (o.execute = true → (stmt db).isSome → o.commit = true ∨ o.rollbackNull = true)) := by
  have hspec := transact_spec o db prepare
  generalize hr : transact o db prepare = r at hspec
  cases hspec with
  | disconnected connect => simp [connect]
  | unprepared connect fault => simp [connect, fault]
  | refused connect prepared failed =>
      refine ⟨fun _ _ => ⟨_, prepared, fun hx hs => ?_⟩, fun _ => ⟨_, rfl⟩⟩
      rw [failed hx] at hs
      cases hs
  | committed connect prepared execute done commit =>
      exact ⟨fun _ _ => ⟨_, prepared, fun _ _ => Or.inl commit⟩, fun _ => ⟨_, rfl⟩⟩
  | lost connect prepared execute done commit rollback =>
      exact ⟨fun _ _ => ⟨_, prepared, fun _ _ => Or.inr rollback⟩, fun _ => ⟨_, rfl⟩⟩
  | crashed connect prepared execute done commit rollback =>
      refine ⟨fun ⟨_, h⟩ => (by cases h), fun h => ?_⟩
      obtain ⟨stmt, hstmt, hcommit⟩ := h connect
      obtain rfl := Except.ok.inj (prepared.symm.trans hstmt)
      rcases hcommit execute (by rw [done]; rfl) with h | h
      · rw [commit] at h; cases h
      · rw [rollback] at h; cases h

/-- What can be said of a transaction that returned: nothing changed and that is
reported, or the statement was executed, and its effect is there if it was
committed. -/
theorem transact_ok {o : Outcome} {db db' : Db} {done : Bool}
    {prepare : Except Fault (Db → Option Db)} (h : transact o db prepare = .ok (db', done)) :
    (done = false ∧ db' = db) ∨
      (done = true ∧ o.connect = true ∧ o.execute = true ∧ ∃ stmt new, prepare = .ok stmt ∧
        stmt db = some new ∧
        ((o.commit = true ∧ db' = new) ∨
          (o.commit = false ∧ o.rollbackNull = true ∧ db' = db))) := by
  have hspec := transact_spec o db prepare
  rw [h] at hspec
  cases hspec with
  | disconnected connect => exact Or.inl ⟨rfl, rfl⟩
  | refused connect prepared failed => exact Or.inl ⟨rfl, rfl⟩
  | committed connect prepared execute done commit =>
      exact Or.inr ⟨rfl, connect, execute, _, _, prepared, done, Or.inl ⟨commit, rfl⟩⟩
  | lost connect prepared execute done commit rollback =>
      exact Or.inr ⟨rfl, connect, execute, _, _, prepared, done, Or.inr ⟨commit, rollback, rfl⟩⟩

/-- A transaction leaves the tables, or makes them what its statement does. -/
theorem transact_db {o : Outcome} {db db' : Db} {stmt : Db → Option Db} {done : Bool}
    (h : transact o db (.ok stmt) = .ok (db', done)) : db' = db ∨ stmt db = some db' := by
  rcases transact_ok h with ⟨-, hdb⟩ | ⟨-, -, -, stmt', new, hstmt, hnew, hend⟩
  · exact Or.inl hdb
  · obtain rfl := Except.ok.inj hstmt
    rcases hend with ⟨-, rfl⟩ | ⟨-, -, hdb⟩
    · exact Or.inr hnew
    · exact Or.inl hdb

/-- Whether the statement of a transaction was executed. -/
theorem transact_done {o : Outcome} {db db' : Db} {stmt : Db → Option Db} {done : Bool}
    (h : transact o db (.ok stmt) = .ok (db', done)) :
    done = true ↔ o.connect = true ∧ o.execute = true ∧ (stmt db).isSome := by
  have hspec := transact_spec o db (.ok stmt)
  rw [h] at hspec
  cases hspec with
  | disconnected connect => simp [connect]
  | refused connect prepared failed =>
      cases prepared
      refine ⟨fun hd => (by cases hd), fun ⟨_, hx, hs⟩ => ?_⟩
      rw [failed hx] at hs
      cases hs
  | committed connect prepared execute done commit =>
      cases prepared
      simp [connect, execute, done]
  | lost connect prepared execute done commit rollback =>
      cases prepared
      simp [connect, execute, done]

/-- A change that reached the commit is committed, or lost together with the
process. -/
def Outcome.Commits (o : Outcome) : Prop := o.commit = true ∨ o.rollbackNull = false

theorem not_commits {o : Outcome} :
    ¬ o.Commits ↔ o.commit = false ∧ o.rollbackNull = true := by
  simp [Outcome.Commits]

/-- A statement that was executed and committed. -/
theorem transact_written {o : Outcome} {db db' new : Db} {stmt : Db → Option Db} {done : Bool}
    (h : transact o db (.ok stmt) = .ok (db', done)) (hc : o.connect = true)
    (hx : o.execute = true) (hs : stmt db = some new) (hcommits : o.Commits) : db' = new := by
  have hdone := (transact_done h).mpr ⟨hc, hx, by rw [hs]; rfl⟩
  rcases transact_ok h with ⟨hd, -⟩ | ⟨-, -, -, stmt', new', hstmt, hnew, hend⟩
  · rw [hdone] at hd; cases hd
  · obtain rfl := Except.ok.inj hstmt
    obtain rfl := Option.some.inj (hs.symm.trans hnew)
    rcases hend with ⟨-, hnew⟩ | ⟨hcommit, hroll, -⟩
    · exact hnew
    · exact absurd hcommits (not_commits.mpr ⟨hcommit, hroll⟩)

/-- What is found after an update that was executed and committed. -/
theorem transact_updated {o : Outcome} {db db' : Db} {state : Bytes} {uuid : Option Bytes}
    {id : Int} {done : Bool}
    (h : transact o db (.ok fun now => now.updateUser (some state) uuid id) = .ok (db', done))
    (hc : o.connect = true) (hx : o.execute = true) (hcommits : o.Commits) (k : Int) :
    db'.users.find k =
      if k = id then (db.users.find id).map fun r => { r with state := state, uuid := uuid }
      else db.users.find k := by
  obtain ⟨new, hnew⟩ : ∃ new, db.updateUser (some state) uuid id = some new := ⟨_, rfl⟩
  obtain rfl := transact_written h hc hx hnew hcommits
  obtain ⟨_, hstate, -, hfind⟩ := find_updateUser hnew
  cases hstate
  exact hfind k

/-- And of one that was not. -/
theorem transact_unwritten {o : Outcome} (db : Db) (stmt : Db → Option Db)
    (h : ¬ (o.connect = true ∧ o.execute = true ∧ o.Commits)) :
    ∃ done, transact o db (.ok stmt) = .ok (db, done) := by
  have hspec := transact_spec o db (.ok stmt)
  generalize transact o db (.ok stmt) = r at hspec
  cases hspec with
  | disconnected connect => exact ⟨_, rfl⟩
  | unprepared connect fault => cases fault
  | refused connect prepared failed => exact ⟨_, rfl⟩
  | committed connect prepared execute done commit =>
      exact absurd ⟨connect, execute, Or.inl commit⟩ h
  | lost connect prepared execute done commit rollback => exact ⟨_, rfl⟩
  | crashed connect prepared execute done commit rollback =>
      exact absurd ⟨connect, execute, Or.inr rollback⟩ h

/-- MySQL on a good day, with the id it gives the next row. -/
def Outcome.good (autoId : Int) : Outcome where
  connect := true
  execute := true
  fetch := true
  commit := true
  rollbackNull := true
  autoId := autoId
  stack := fun _ => []

theorem good_succeeds (autoId : Int) : (Outcome.good autoId).Succeeds := ⟨rfl, rfl, rfl, rfl⟩

/-- The first of two users, and the only one of a small database. -/
def amy : UserRow := ⟨1, ascii "amy", ascii "pw", ascii "offline", none⟩

def Db.single (row : UserRow) : Db where
  users := ⟨[row], List.nodup_singleton _⟩
  friends := .empty
  collation := id
  unique_name := List.nodup_singleton _
  foreign := fun _ h => by cases h

/-- Her friend. -/
def ben : UserRow := ⟨2, ascii "ben", ascii "pw", ascii "online", some (ascii "u")⟩

def Db.friends2 : Db where
  users := ⟨[amy, ben], by decide⟩
  friends := ⟨[(1, 2)], List.nodup_singleton _⟩
  collation := id
  unique_name := by decide
  foreign := by decide

/-! ## The model functions -/

theorem strcpy_ok {size : Nat} {s : Bytes} (h : (cStr s).length < size) :
    strcpy size s = .ok (cStr s) := if_pos h

theorem strcpy_inv {size : Nat} {s got : Bytes} (h : strcpy size s = .ok got) :
    (cStr s).length < size ∧ got = cStr s := by
  unfold strcpy at h
  split at h
  · cases h
    exact ⟨by assumption, rfl⟩
  · cases h

/-- The statement of `UserModel::insert`, for a user with this name and
password. -/
def insertStmt (autoId : Int) (username password : Bytes) (db : Db) : Option Db :=
  db.insertUser autoId (bindString (cStr username)) (bindString (cStr password))
    (some (ascii "offline")) none

/-- And its parameters. -/
def insertPrepare (autoId : Int) (username password : Bytes) : Except Fault (Db → Option Db) := do
  let _ ← strcpy 50 username
  let _ ← strcpy 50 password
  return insertStmt autoId username password

theorem insert_eq (o : Outcome) (db : Db) (username password : Bytes) :
    UserModel.insert o db { User.default with name := username, password := password } = do
      let (db, done) ← transact o db (insertPrepare o.autoId username password)
      return (db, { User.default with
        id := if done then o.autoId else -1, name := username, password := password }, done) := by
  have hprep : (do
      let name ← strcpy 50 username
      let password ← strcpy 50 password
      let state ← strcpy 10 User.default.state
      let uuid ← strcpy 50 User.default.uuid
      return fun db : Db =>
        db.insertUser o.autoId (bindString name) (bindString password) (bindString state)
          (bindString uuid)) = insertPrepare o.autoId username password := by
    unfold insertPrepare
    cases hn : strcpy 50 username with
    | error f => rfl
    | ok name =>
        cases hp : strcpy 50 password with
        | error f => rfl
        | ok pass =>
            obtain ⟨-, rfl⟩ := strcpy_inv hn
            obtain ⟨-, rfl⟩ := strcpy_inv hp
            rfl
  unfold UserModel.insert
  rw [hprep]
  cases transact o db (insertPrepare o.autoId username password) with
  | error f => rfl
  | ok r =>
      obtain ⟨db', done⟩ := r
      cases done <;> rfl

theorem insertPrepare_ok {autoId : Int} {username password : Bytes} {stmt : Db → Option Db} :
    insertPrepare autoId username password = .ok stmt ↔
      (cStr username).length < 50 ∧ (cStr password).length < 50 ∧
        stmt = insertStmt autoId username password := by
  unfold insertPrepare
  constructor
  · intro h
    obtain ⟨_, hn, h⟩ := bind_eq_ok.mp h
    obtain ⟨_, hp, h⟩ := bind_eq_ok.mp h
    exact ⟨(strcpy_inv hn).1, (strcpy_inv hp).1, (Except.ok.inj h).symm⟩
  · rintro ⟨hn, hp, rfl⟩
    rw [strcpy_ok hn, strcpy_ok hp]
    rfl

/-- A registration that was executed had parameters that fit. -/
theorem insertPrepare_db {o : Outcome} {db db' : Db} {username password : Bytes} {done : Bool}
    (h : transact o db (insertPrepare o.autoId username password) = .ok (db', done)) :
    db' = db ∨ insertStmt o.autoId username password db = some db' := by
  cases hprep : insertPrepare o.autoId username password with
  | ok stmt =>
      obtain ⟨-, -, rfl⟩ := insertPrepare_ok.mp hprep
      rw [hprep] at h
      exact transact_db h
  | error f =>
      rcases transact_ok h with ⟨-, hdb⟩ | ⟨-, -, -, _, _, hstmt, -⟩
      · exact Or.inl hdb
      · rw [hprep] at hstmt
        cases hstmt

/-- Neither a state of the server nor the text of a uuid is too long. -/
theorem updateState_eq (o : Outcome) (db : Db) (user : User)
    (hstate : (cStr user.state).length < 10)
    (huuid : (cStr user.uuid).length < 50) :
    UserModel.updateState o db user = transact o db (.ok fun db =>
      db.updateUser (bindString (cStr user.state)) (bindString (cStr user.uuid)) user.id) := by
  rw [UserModel.updateState, strcpy_ok hstate, strcpy_ok huuid]
  rfl

theorem bindString_inv {s v : Bytes} (h : bindString s = some v) : v = s := by
  unfold bindString at h
  split at h
  · cases h
  · exact (Option.some.inj h).symm

theorem bindString_of_ne_nil {s : Bytes} (h : s ≠ []) : bindString s = some s := by
  rw [bindString, if_neg (by simpa using h)]

/-- What a login writes. -/
theorem updateState_login (o : Outcome) (db : Db) (user : User) (session : Uuid) :
    UserModel.updateState o db { user with state := ascii "online", uuid := session.text } =
      transact o db (.ok fun db =>
        db.updateUser (some (ascii "online")) (some session.text) user.id) := by
  have hlen := session.length_eq
  have hne : session.text ≠ [] := by
    intro h
    rw [h] at hlen
    cases hlen
  have hc : cStr session.text = session.text := cStr_of_nulFree session.nulFree
  rw [updateState_eq o db _ (show (cStr (ascii "online")).length < 10 by decide)
    (by show (cStr session.text).length < 50; rw [hc]; omega)]
  show transact o db (.ok fun db => db.updateUser _ (bindString (cStr session.text)) user.id) = _
  rw [hc, bindString_of_ne_nil hne]
  rfl

/-- What a logout writes. -/
theorem updateState_logout (o : Outcome) (db : Db) (id : Int) :
    UserModel.updateState o db (User.new id [] [] (ascii "offline") []) =
      transact o db (.ok fun db => db.updateUser (some (ascii "offline")) none id) :=
  updateState_eq o db _ (show (cStr (ascii "offline")).length < 10 by decide)
    (show (cStr []).length < 50 by decide)

/-- The user `UserModel::query` returns. -/
def queried (o : Outcome) (db : Db) (id : Int) : User :=
  if o.connect && o.execute && o.fetch then
    match db.users.find id with
    | some row => User.fetched o.stack row
    | none => User.default
  else User.default

theorem query_eq (o : Outcome) (db : Db) (id : Int) :
    UserModel.query o db id = .ok (queried o db id) := by
  unfold UserModel.query connecttodb queried
  cases hc : o.connect <;> cases hx : o.execute <;> cases hf : o.fetch <;> rfl

/-- A short string in a column is read as its bytes. -/
theorem fetchString_some {size : Nat} {stack v : Bytes} (h : v.length < size) (hz : 0 ∉ v) :
    fetchString size stack (some v) = v := by
  show (if _ then _ else _) = v
  rw [if_pos (Or.inl h), List.take_of_length_le (by omega), cStr_of_nulFree hz]

end AsioServer
