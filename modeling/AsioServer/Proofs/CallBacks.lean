import AsioServer.Ref.LogicSystem
import AsioServer.Proofs.Models
import AsioServer.Proofs.SendNode

/-!
# What a message does

One lemma takes each callback apart (`registerCallBack_inv` and so on).
`process_ok` puts together what a message whose callback returned can have done
to the database, with the facts that made it do so and the replies it sent; the
properties of runs are read off its cases, or off those of a request that is
known (`Processed.registered`, `Processed.loggedIn`, `Processed.befriended`).
-/

namespace AsioServer

/-! ## Sending -/

/-- No callback touches the session map, or more of a session than its send
queue. -/
structure Kept (w w' : World) : Prop where
  server : w'.server = w.server
  session : ∀ u, ∃ que, w'.session u = { w.session u with sendQue := que }

theorem Kept.refl (w : World) : Kept w w := ⟨rfl, fun u => ⟨(w.session u).sendQue, rfl⟩⟩

theorem Kept.trans {w w₁ w₂ : World} (h₁ : Kept w w₁) (h₂ : Kept w₁ w₂) : Kept w w₂ := by
  refine ⟨h₂.server.trans h₁.server, fun u => ?_⟩
  obtain ⟨que₁, hque₁⟩ := h₁.session u
  obtain ⟨que₂, hque₂⟩ := h₂.session u
  exact ⟨que₂, by rw [hque₂, hque₁]⟩

theorem Kept.setDb (w : World) (db : Db) : Kept w { w with db := db } :=
  ⟨rfl, (Kept.refl w).session⟩

/-- A call of `Send` that was made. -/
structure Sends (w w' : World) (sent : Sent) : Prop where
  kept : Kept w w'
  db : w'.db = w.db
  log : w'.sent = w.sent ++ [sent]

theorem send_ok {w w' : World} {target : Uuid} {text : Bytes} {msgId : Int}
    {r : Option Json} (h : w.send target text msgId r = .ok w') :
    Sends w w' ⟨target, msgId, r, text⟩ := by
  obtain ⟨call, hcall, h⟩ := bind_eq_ok.mp h
  cases h
  refine ⟨⟨rfl, fun u => ?_⟩, rfl, rfl⟩
  by_cases hu : u = target
  · subst hu
    obtain ⟨que, hque⟩ := CSession.enqueue_session hcall
    exact ⟨que, by rw [← hque]; exact Function.update_self ..⟩
  · exact ⟨(w.session u).sendQue, Function.update_of_ne hu _ _⟩

/-- The reply a callback logs. -/
def Sent.reply (lib : JsonLib) (session : Uuid) (msgId : Int) (r : Json) : Sent :=
  ⟨session, msgId, some r, lib.toStyledString r⟩

theorem reply_ok {lib : JsonLib} {w w' : World} {session : Uuid} {msgId : Int} {r : Json}
    (h : w.reply lib session msgId r = .ok w') : Sends w w' (.reply lib session msgId r) :=
  send_ok h

/-! ## Accepted logins -/

theorem isLoginSuccess_iff {user : User} {username password : Bytes} :
    isLoginSuccess user username password = true ↔ user.id ≠ -1 ∧ user.name = username ∧
      user.password = password ∧ user.state ≠ ascii "online" := by
  unfold isLoginSuccess
  split
  · simp [*]
  · split
    · next hne =>
        refine ⟨fun h => (by cases h), fun ⟨_, hname, hpass, _⟩ => ?_⟩
        rcases hne with hne | hne
        · exact absurd hname hne
        · exact absurd hpass hne
    · split
      · simp [*]
      · simp_all

/-- A user that was found comes from a row. -/
theorem queried_found {o : Outcome} {db : Db} {id : Int} (h : (queried o db id).id ≠ -1) :
    ∃ row, db.users.find id = some row ∧ queried o db id = User.fetched o.stack row := by
  unfold queried at h ⊢
  split at h
  · next hcalls =>
      rw [if_pos hcalls]
      cases hrow : db.users.find id with
      | none => rw [hrow] at h; exact absurd rfl h
      | some row => exact ⟨row, rfl, rfl⟩
  · exact absurd rfl h

theorem fetched_online {stack : Nat → Bytes} {row : UserRow} (h : row.state = ascii "online") :
    (User.fetched stack row).state = ascii "online" := by
  show fetchString 10 (stack 4) (some row.state) = _
  rw [h]
  exact fetchString_some (by decide) (by decide)

/-- A login is accepted for a row that is there and not online. -/
theorem accepted_row {o : Outcome} {db : Db} {id : Int} {username password : Bytes}
    (h : isLoginSuccess (queried o db id) username password = true) :
    ∃ row, db.users.find id = some row ∧ row.state ≠ ascii "online" ∧
      queried o db id = User.fetched o.stack row ∧ (queried o db id).id = id := by
  obtain ⟨hid, -, -, hstate⟩ := isLoginSuccess_iff.mp h
  obtain ⟨row, hrow, huser⟩ := queried_found hid
  refine ⟨row, hrow, fun hon => hstate ?_, huser, ?_⟩
  · rw [huser]
    exact fetched_online hon
  · rw [huser]
    exact (Table.find_eq_some.mp hrow).2

/-! ## The cases of a message -/

section

variable (lib : JsonLib) (env : Nat → Outcome) (db : Db) (session : Uuid) (msgId : Int)
  (msgData : Bytes)

/-- What a message can have done to the tables, and the replies it sent. -/
inductive Processed : Db → List Sent → Prop where
  | other {sent : List Sent} (register : findCallBack msgId ≠ some .register)
      (login : findCallBack msgId ≠ some .login) (logout : findCallBack msgId ≠ some .logout)
      (addFriend : findCallBack msgId ≠ some .addFriend) : Processed db sent
  | register {username password : Bytes} {db' : Db} {done : Bool}
      (find : findCallBack msgId = some .register)
      (name : (lib.parse msgData).2.field "username" = .ok username)
      (pass : (lib.parse msgData).2.field "password" = .ok password)
      (insert : transact (env 0) db (insertPrepare (env 0).autoId username password) =
        .ok (db', done)) :
      Processed db' [.reply lib session msgId
        (if done then registerResponse { User.default with id := (env 0).autoId }
        else response codeRegisterFailed "msg" "register failed")]
  | loginRefused {id : Int} {username password : Bytes}
      (find : findCallBack msgId = some .login)
      (idField : (lib.parse msgData).2.idField "id" = .ok id)
      (name : (lib.parse msgData).2.field "username" = .ok username)
      (pass : (lib.parse msgData).2.field "password" = .ok password)
      (refused : isLoginSuccess (queried (env 0) db id) username password = false) :
      Processed db [.reply lib session msgId (response codeLoginFailed "msg" "login failed")]
  | login {id : Int} {username password : Bytes} {db' : Db} {done : Bool}
      (find : findCallBack msgId = some .login)
      (idField : (lib.parse msgData).2.idField "id" = .ok id)
      (name : (lib.parse msgData).2.field "username" = .ok username)
      (pass : (lib.parse msgData).2.field "password" = .ok password)
      (accepted : isLoginSuccess (queried (env 0) db id) username password = true)
      (update : transact (env 1) db (.ok fun now =>
        now.updateUser (some (ascii "online")) (some session.text)
          (queried (env 0) db id).id) = .ok (db', done)) :
      Processed db' [.reply lib session msgId (response codeLoginSuccess "msg" "login success")]
  | logout {id : Int} {db' : Db} {done : Bool} (find : findCallBack msgId = some .logout)
      (idField : (lib.parse msgData).2.idField "id" = .ok id)
      (update : transact (env 0) db (.ok fun now =>
        now.updateUser (some (ascii "offline")) none id) = .ok (db', done)) :
      Processed db' []
  | addFriend {userid friendid : Int} {db' : Db} {done : Bool}
      (find : findCallBack msgId = some .addFriend)
      (idField : (lib.parse msgData).2.idField "id" = .ok userid)
      (friendidField : (lib.parse msgData).2.idField "friendid" = .ok friendid)
      (insert : transact (env 0) db (.ok fun now => now.insertFriend userid friendid) =
        .ok (db', done)) :
      Processed db' [.reply lib session msgId
        (if done then response codeAddFriendSuccess "msg" "add friend success"
        else response codeAddFriendFailed "msg" "add friend failed")]

end

section

variable {lib : JsonLib} {env : Nat → Outcome} {w w' : World} {session : Uuid} {msgId : Int}
  {msgData : Bytes}

theorem registerCallBack_inv (h : registerCallBack lib env w session msgId msgData = .ok w') :
    ∃ username password db' done, (lib.parse msgData).2.field "username" = .ok username ∧
      (lib.parse msgData).2.field "password" = .ok password ∧
      transact (env 0) w.db (insertPrepare (env 0).autoId username password) = .ok (db', done) ∧
      World.reply lib { w with db := db' } session msgId
        (if done then registerResponse { User.default with id := (env 0).autoId }
          else response codeRegisterFailed "msg" "register failed") = .ok w' := by
  obtain ⟨username, hu, h⟩ := bind_eq_ok.mp h
  obtain ⟨password, hp, h⟩ := bind_eq_ok.mp h
  obtain ⟨⟨db', user, done⟩, hins, h⟩ := bind_eq_ok.mp h
  rw [insert_eq] at hins
  obtain ⟨⟨db'', done'⟩, htrans, hins⟩ := bind_eq_ok.mp hins
  cases hins
  refine ⟨username, password, db', done, hu, hp, htrans, ?_⟩
  cases done <;> exact h

theorem registerCallBack_ok (hfind : findCallBack msgId = some .register)
    (h : registerCallBack lib env w session msgId msgData = .ok w') :
    Kept w w' ∧ ∃ sent, w'.sent = w.sent ++ sent ∧
      Processed lib env w.db session msgId msgData w'.db sent := by
  obtain ⟨username, password, db', done, hu, hp, htrans, hreply⟩ := registerCallBack_inv h
  have hs := reply_ok hreply
  refine ⟨(Kept.setDb w db').trans hs.kept, _, hs.log, ?_⟩
  rw [hs.db]
  exact .register hfind hu hp htrans

theorem loginCallBack_inv (h : loginCallBack lib env w session msgId msgData = .ok w') :
    ∃ id username password, (lib.parse msgData).2.idField "id" = .ok id ∧
      (lib.parse msgData).2.field "username" = .ok username ∧
      (lib.parse msgData).2.field "password" = .ok password ∧
      ((isLoginSuccess (queried (env 0) w.db id) username password = false ∧
        w.reply lib session msgId (response codeLoginFailed "msg" "login failed") = .ok w') ∨
      (isLoginSuccess (queried (env 0) w.db id) username password = true ∧ ∃ db' done,
        transact (env 1) w.db (.ok fun now => now.updateUser (some (ascii "online"))
          (some session.text) (queried (env 0) w.db id).id) = .ok (db', done) ∧
        World.reply lib { w with db := db' } session msgId
          (response codeLoginSuccess "msg" "login success") = .ok w')) := by
  obtain ⟨id, hid, h⟩ := bind_eq_ok.mp h
  obtain ⟨username, hu, h⟩ := bind_eq_ok.mp h
  obtain ⟨password, hp, h⟩ := bind_eq_ok.mp h
  obtain ⟨user, hq, h⟩ := bind_eq_ok.mp h
  rw [query_eq] at hq
  cases hq
  refine ⟨id, username, password, hid, hu, hp, ?_⟩
  cases hsuccess : isLoginSuccess (queried (env 0) w.db id) username password with
  | false =>
      rw [hsuccess, if_neg (by decide)] at h
      exact Or.inl ⟨rfl, h⟩
  | true =>
      rw [hsuccess, if_pos rfl] at h
      obtain ⟨⟨db', done⟩, hupd, h⟩ := bind_eq_ok.mp h
      rw [updateState_login] at hupd
      exact Or.inr ⟨rfl, db', done, hupd, h⟩

theorem loginCallBack_ok (hfind : findCallBack msgId = some .login)
    (h : loginCallBack lib env w session msgId msgData = .ok w') :
    Kept w w' ∧ ∃ sent, w'.sent = w.sent ++ sent ∧
      Processed lib env w.db session msgId msgData w'.db sent := by
  obtain ⟨id, username, password, hid, hu, hp, hcases⟩ := loginCallBack_inv h
  rcases hcases with ⟨hrefused, hreply⟩ | ⟨haccepted, db', done, hupd, hreply⟩
  · have hs := reply_ok hreply
    refine ⟨hs.kept, _, hs.log, ?_⟩
    rw [hs.db]
    exact .loginRefused hfind hid hu hp hrefused
  · have hs := reply_ok hreply
    have hdb : w'.db = db' := hs.db
    refine ⟨(Kept.setDb w db').trans hs.kept, _, hs.log, ?_⟩
    rw [hdb]
    exact .login hfind hid hu hp haccepted hupd

theorem logoutCallBack_inv (h : logoutCallBack lib env w msgData = .ok w') :
    ∃ id db' done, (lib.parse msgData).2.idField "id" = .ok id ∧
      transact (env 0) w.db (.ok fun now => now.updateUser (some (ascii "offline")) none id) =
        .ok (db', done) ∧ w' = { w with db := db' } := by
  obtain ⟨id, hid, h⟩ := bind_eq_ok.mp h
  obtain ⟨⟨db', done⟩, hupd, h⟩ := bind_eq_ok.mp h
  rw [updateState_logout] at hupd
  cases h
  exact ⟨id, db', done, hid, hupd, rfl⟩

theorem logoutCallBack_ok (hfind : findCallBack msgId = some .logout)
    (h : logoutCallBack lib env w msgData = .ok w') :
    Kept w w' ∧ ∃ sent, w'.sent = w.sent ++ sent ∧
      Processed lib env w.db session msgId msgData w'.db sent := by
  obtain ⟨id, db', done, hid, hupd, rfl⟩ := logoutCallBack_inv h
  exact ⟨.setDb w db', [], (List.append_nil _).symm, .logout hfind hid hupd⟩

theorem addFriendCallBack_inv (h : addFriendCallBack lib env w session msgId msgData = .ok w') :
    ∃ userid friendid db' done, (lib.parse msgData).2.idField "id" = .ok userid ∧
      (lib.parse msgData).2.idField "friendid" = .ok friendid ∧
      transact (env 0) w.db (.ok fun now => now.insertFriend userid friendid) =
        .ok (db', done) ∧
      World.reply lib { w with db := db' } session msgId
        (if done then response codeAddFriendSuccess "msg" "add friend success"
          else response codeAddFriendFailed "msg" "add friend failed") = .ok w' := by
  obtain ⟨idStr, hid, h⟩ := bind_eq_ok.mp h
  obtain ⟨friendidStr, hfriendid, h⟩ := bind_eq_ok.mp h
  obtain ⟨userid, huserid, h⟩ := bind_eq_ok.mp h
  obtain ⟨friendid, hfriend, h⟩ := bind_eq_ok.mp h
  obtain ⟨⟨db', done⟩, hins, h⟩ := bind_eq_ok.mp h
  refine ⟨userid, friendid, db', done, bind_ok hid huserid, bind_ok hfriendid hfriend, hins, ?_⟩
  cases done <;> exact h

theorem addFriendCallBack_ok (hfind : findCallBack msgId = some .addFriend)
    (h : addFriendCallBack lib env w session msgId msgData = .ok w') :
    Kept w w' ∧ ∃ sent, w'.sent = w.sent ++ sent ∧
      Processed lib env w.db session msgId msgData w'.db sent := by
  obtain ⟨userid, friendid, db', done, huserid, hfriendid, hins, hreply⟩ :=
    addFriendCallBack_inv h
  have hs := reply_ok hreply
  refine ⟨(Kept.setDb w db').trans hs.kept, _, hs.log, ?_⟩
  rw [hs.db]
  exact .addFriend hfind huserid hfriendid hins

/-- A chat is answered with a failure, or with a success behind the payload if
there is a session to send it to. -/
theorem oneChatCallBack_inv (h : oneChatCallBack lib env w session msgId msgData = .ok w') :
    ∃ toid, (lib.parse msgData).2.idField "toid" = .ok toid ∧
      ((¬ ((queried (env 0) w.db toid).id ≠ -1 ∧
          (queried (env 0) w.db toid).state = ascii "online") ∧
        w.reply lib session msgId (response codeOneChatFailed "msg" "one chat failed") = .ok w') ∨
      (((queried (env 0) w.db toid).id ≠ -1 ∧
          (queried (env 0) w.db toid).state = ascii "online") ∧
        ((w.server.getSession (queried (env 0) w.db toid).uuid = none ∧
          w.reply lib session msgId (response codeOneChatSuccess "msg" "one chat success") =
            .ok w') ∨
        ∃ toSession w₁, w.server.getSession (queried (env 0) w.db toid).uuid = some toSession ∧
          w.send toSession msgData msgId none = .ok w₁ ∧
          w₁.reply lib session msgId (response codeOneChatSuccess "msg" "one chat success") =
            .ok w'))) := by
  obtain ⟨toid, htoid, h⟩ := bind_eq_ok.mp h
  obtain ⟨user, hq, h⟩ := bind_eq_ok.mp h
  rw [query_eq] at hq
  cases hq
  refine ⟨toid, htoid, ?_⟩
  by_cases hid : (queried (env 0) w.db toid).id = -1
  · rw [if_pos hid] at h
    exact Or.inl ⟨fun hfound => hfound.1 hid, h⟩
  · rw [if_neg hid] at h
    by_cases hstate : (queried (env 0) w.db toid).state = ascii "online"
    · rw [if_pos hstate] at h
      refine Or.inr ⟨⟨hid, hstate⟩, ?_⟩
      cases hto : w.server.getSession (queried (env 0) w.db toid).uuid with
      | none =>
          rw [hto] at h
          exact Or.inl ⟨rfl, h⟩
      | some toSession =>
          rw [hto] at h
          obtain ⟨w₁, hforward, h⟩ := bind_eq_ok.mp h
          exact Or.inr ⟨toSession, w₁, rfl, hforward, h⟩
    · rw [if_neg hstate] at h
      exact Or.inl ⟨fun hfound => hstate hfound.2, h⟩

/-- A chat forwards the payload or not, and replies; the tables stay. -/
theorem oneChatCallBack_ok (h : oneChatCallBack lib env w session msgId msgData = .ok w') :
    w'.db = w.db ∧ Kept w w' ∧ ∃ sent, w'.sent = w.sent ++ sent := by
  obtain ⟨toid, -, hcases⟩ := oneChatCallBack_inv h
  have hreplied : ∀ {r : Json}, w.reply lib session msgId r = .ok w' →
      w'.db = w.db ∧ Kept w w' ∧ ∃ sent, w'.sent = w.sent ++ sent := fun hreply =>
    ⟨(reply_ok hreply).db, (reply_ok hreply).kept, _, (reply_ok hreply).log⟩
  rcases hcases with ⟨-, hreply⟩ | ⟨-, ⟨-, hreply⟩ | ⟨toSession, w₁, -, hforward, hreply⟩⟩
  · exact hreplied hreply
  · exact hreplied hreply
  · have hs₁ := send_ok hforward
    have hs := reply_ok hreply
    refine ⟨hs.db.trans hs₁.db, hs₁.kept.trans hs.kept, ?_⟩
    rw [hs.log, hs₁.log, List.append_assoc]
    exact ⟨_, rfl⟩

theorem helloWordCallBack_inv (h : helloWordCallBack lib w session msgId msgData = .ok w') :
    ∃ data root, (lib.parse msgData).2.field "data" = .ok data ∧
      (lib.parse msgData).2.setMember (ascii "data")
        (.str (ascii "server has received msg, msg data is " ++ data)) = .ok root ∧
      w.reply lib session msgId root = .ok w' := by
  obtain ⟨data, hdata, h⟩ := bind_eq_ok.mp h
  obtain ⟨root, hroot, h⟩ := bind_eq_ok.mp h
  exact ⟨data, root, hdata, hroot, h⟩

theorem helloWordCallBack_ok (h : helloWordCallBack lib w session msgId msgData = .ok w') :
    w'.db = w.db ∧ Kept w w' ∧ ∃ sent, w'.sent = w.sent ++ sent := by
  obtain ⟨data, root, -, -, hreply⟩ := helloWordCallBack_inv h
  have hs := reply_ok hreply
  exact ⟨hs.db, hs.kept, _, hs.log⟩

theorem groupCallBack_inv {code : Int} {text : String}
    (h : groupCallBack lib w session msgId msgData code text = .ok w') :
    (∃ data, (lib.parse msgData).2.field "data" = .ok data) ∧
      w.reply lib session msgId (response code "data" text) = .ok w' := by
  obtain ⟨data, hdata, h⟩ := bind_eq_ok.mp h
  exact ⟨⟨data, hdata⟩, h⟩

theorem groupCallBack_ok {code : Int} {text : String}
    (h : groupCallBack lib w session msgId msgData code text = .ok w') :
    w'.db = w.db ∧ Kept w w' ∧ ∃ sent, w'.sent = w.sent ++ sent := by
  have hs := reply_ok (groupCallBack_inv h).2
  exact ⟨hs.db, hs.kept, _, hs.log⟩

theorem groupChatCallBack_ok (h : groupChatCallBack lib w msgData = .ok w') : w' = w := by
  obtain ⟨_, _, h⟩ := bind_eq_ok.mp h
  cases h
  rfl

/-- A message whose callback leaves the tables alone. -/
theorem Processed.of_other {callBack : CallBack} (hfind : findCallBack msgId = some callBack)
    (hother : callBack ≠ .register ∧ callBack ≠ .login ∧ callBack ≠ .logout ∧
      callBack ≠ .addFriend)
    (h : w'.db = w.db ∧ Kept w w' ∧ ∃ sent, w'.sent = w.sent ++ sent) :
    Kept w w' ∧ ∃ sent, w'.sent = w.sent ++ sent ∧
      Processed lib env w.db session msgId msgData w'.db sent := by
  obtain ⟨hdb, hkept, sent, hsent⟩ := h
  refine ⟨hkept, sent, hsent, ?_⟩
  rw [hdb]
  obtain ⟨h₁, h₂, h₃, h₄⟩ := hother
  exact .other (by simpa [hfind] using h₁) (by simpa [hfind] using h₂)
    (by simpa [hfind] using h₃) (by simpa [hfind] using h₄)

theorem process_ok (h : w.process lib env session msgId msgData = .ok w') :
    Kept w w' ∧ ∃ sent, w'.sent = w.sent ++ sent ∧
      Processed lib env w.db session msgId msgData w'.db sent := by
  rw [World.process] at h
  cases hfind : findCallBack msgId with
  | none =>
      rw [hfind] at h
      cases h
      exact ⟨.refl w, [], (List.append_nil _).symm,
        .other (by simp [hfind]) (by simp [hfind]) (by simp [hfind]) (by simp [hfind])⟩
  | some callBack =>
      rw [hfind] at h
      cases callBack with
      | register => exact registerCallBack_ok hfind h
      | login => exact loginCallBack_ok hfind h
      | logout => exact logoutCallBack_ok hfind h
      | addFriend => exact addFriendCallBack_ok hfind h
      | helloWord => exact Processed.of_other hfind (by simp) (helloWordCallBack_ok h)
      | oneChat => exact Processed.of_other hfind (by simp) (oneChatCallBack_ok h)
      | joinGroup => exact Processed.of_other hfind (by simp) (groupCallBack_ok h)
      | createGroup => exact Processed.of_other hfind (by simp) (groupCallBack_ok h)
      | groupChat =>
          obtain rfl := groupChatCallBack_ok h
          exact Processed.of_other hfind (by simp) ⟨rfl, .refl w', [], (List.append_nil _).symm⟩

end

/-! ## Requests that are known -/

section

variable {lib : JsonLib} {env : Nat → Outcome} {db db' : Db} {session : Uuid} {msgId : Int}
  {msgData : Bytes} {sent : List Sent}

theorem Processed.registered {username password : Bytes}
    (h : Processed lib env db session msgId msgData db' sent)
    (hfind : findCallBack msgId = some .register)
    (hname : (lib.parse msgData).2.field "username" = .ok username)
    (hpass : (lib.parse msgData).2.field "password" = .ok password) :
    ∃ done, transact (env 0) db (insertPrepare (env 0).autoId username password) =
        .ok (db', done) ∧
      sent = [.reply lib session msgId
        (if done then registerResponse { User.default with id := (env 0).autoId }
        else response codeRegisterFailed "msg" "register failed")] := by
  cases h with
  | other hregister => exact absurd hfind hregister
  | loginRefused find | login find | logout find | addFriend find =>
      rw [hfind] at find
      cases find
  | register find name pass insert =>
      obtain rfl := Except.ok.inj (hname.symm.trans name)
      obtain rfl := Except.ok.inj (hpass.symm.trans pass)
      exact ⟨_, insert, rfl⟩

theorem Processed.loggedIn {id : Int} {username password : Bytes}
    (h : Processed lib env db session msgId msgData db' sent)
    (hfind : findCallBack msgId = some .login)
    (hid : (lib.parse msgData).2.idField "id" = .ok id)
    (hname : (lib.parse msgData).2.field "username" = .ok username)
    (hpass : (lib.parse msgData).2.field "password" = .ok password) :
    (isLoginSuccess (queried (env 0) db id) username password = false ∧ db' = db ∧
      sent = [.reply lib session msgId (response codeLoginFailed "msg" "login failed")]) ∨
    (isLoginSuccess (queried (env 0) db id) username password = true ∧
      (∃ done, transact (env 1) db (.ok fun now => now.updateUser (some (ascii "online"))
        (some session.text) (queried (env 0) db id).id) = .ok (db', done)) ∧
      sent = [.reply lib session msgId (response codeLoginSuccess "msg" "login success")]) := by
  cases h with
  | other _ hlogin => exact absurd hfind hlogin
  | register find | logout find | addFriend find =>
      rw [hfind] at find
      cases find
  | loginRefused find idField name pass refused =>
      obtain rfl := Except.ok.inj (hid.symm.trans idField)
      obtain rfl := Except.ok.inj (hname.symm.trans name)
      obtain rfl := Except.ok.inj (hpass.symm.trans pass)
      exact Or.inl ⟨refused, rfl, rfl⟩
  | login find idField name pass accepted update =>
      obtain rfl := Except.ok.inj (hid.symm.trans idField)
      obtain rfl := Except.ok.inj (hname.symm.trans name)
      obtain rfl := Except.ok.inj (hpass.symm.trans pass)
      exact Or.inr ⟨accepted, ⟨_, update⟩, rfl⟩

theorem Processed.befriended {userid friendid : Int}
    (h : Processed lib env db session msgId msgData db' sent)
    (hfind : findCallBack msgId = some .addFriend)
    (hid : (lib.parse msgData).2.idField "id" = .ok userid)
    (hfriendid : (lib.parse msgData).2.idField "friendid" = .ok friendid) :
    ∃ done, transact (env 0) db (.ok fun now => now.insertFriend userid friendid) =
        .ok (db', done) ∧
      sent = [.reply lib session msgId
        (if done then response codeAddFriendSuccess "msg" "add friend success"
        else response codeAddFriendFailed "msg" "add friend failed")] := by
  cases h with
  | other _ _ _ haddFriend => exact absurd hfind haddFriend
  | register find | loginRefused find | login find | logout find =>
      rw [hfind] at find
      cases find
  | addFriend find idField friendidField insert =>
      obtain rfl := Except.ok.inj (hid.symm.trans idField)
      obtain rfl := Except.ok.inj (hfriendid.symm.trans friendidField)
      exact ⟨_, insert, rfl⟩

end

/-! ## What becomes of a row -/

/-- What a message can do to the row of a user: register adds it, a login
that is accepted and a logout that names it write its state and uuid. -/
inductive RowStep (lib : JsonLib) (env : Nat → Outcome) (db : Db) (session : Uuid) (msgId : Int)
    (msgData : Bytes) (id : Int) : Option UserRow → Option UserRow → Prop where
  | kept {r : Option UserRow} : RowStep lib env db session msgId msgData id r r
  | added {row : UserRow} (find : findCallBack msgId = some .register)
      (state : row.state = ascii "offline") (uuid : row.uuid = none) :
      RowStep lib env db session msgId msgData id none (some row)
  | online {row : UserRow} {username password : Bytes} (find : findCallBack msgId = some .login)
      (idField : (lib.parse msgData).2.idField "id" = .ok id)
      (name : (lib.parse msgData).2.field "username" = .ok username)
      (pass : (lib.parse msgData).2.field "password" = .ok password)
      (accepted : isLoginSuccess (queried (env 0) db id) username password = true)
      (state : row.state ≠ ascii "online") :
      RowStep lib env db session msgId msgData id (some row)
        (some { row with state := ascii "online", uuid := some session.text })
  | offline {row : UserRow} (find : findCallBack msgId = some .logout)
      (idField : (lib.parse msgData).2.idField "id" = .ok id) :
      RowStep lib env db session msgId msgData id (some row)
        (some { row with state := ascii "offline", uuid := none })

theorem Processed.row {lib : JsonLib} {env : Nat → Outcome} {db db' : Db} {session : Uuid}
    {msgId : Int} {msgData : Bytes} {sent : List Sent}
    (h : Processed lib env db session msgId msgData db' sent) (k : Int) :
    RowStep lib env db session msgId msgData k (db.users.find k) (db'.users.find k) := by
  cases h with
  | other => exact .kept
  | loginRefused => exact .kept
  | register find name pass insert =>
      rcases insertPrepare_db insert with rfl | hins
      · exact .kept
      · obtain ⟨row, -, -, -, hstate, huuid, hrows, -⟩ := insertUser_eq_some hins
        rw [Table.find_insert hrows]
        split
        · next hk =>
            have hnone : db.users.find k = none := by
              rw [Table.find_eq_none, hk]
              exact (Table.insert_eq_some hrows).2
            rw [hnone]
            exact .added find (Option.some.inj hstate).symm huuid
        · exact .kept
  | @login id _ _ _ _ find idField name pass accepted update =>
      rcases transact_db update with rfl | hupd
      · exact .kept
      · obtain ⟨_, hstate, -, hfind⟩ := find_updateUser hupd
        cases hstate
        obtain ⟨row, hrow, hoffline, -, hid⟩ := accepted_row accepted
        rw [hid] at hfind
        rw [hfind]
        split
        · next hk =>
            subst hk
            rw [hrow]
            exact .online find idField name pass accepted hoffline
        · exact .kept
  | @logout id _ _ find idField update =>
      rcases transact_db update with rfl | hupd
      · exact .kept
      · obtain ⟨_, hstate, -, hfind⟩ := find_updateUser hupd
        cases hstate
        rw [hfind]
        split
        · next hk =>
            subst hk
            cases db.users.find k with
            | none => exact .kept
            | some row => exact .offline find idField
        · exact .kept
  | addFriend find idField friendidField insert =>
      rcases transact_db insert with rfl | hins
      · exact .kept
      · rw [insertFriend_users hins]
        exact .kept

end AsioServer
