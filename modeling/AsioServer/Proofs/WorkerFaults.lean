import AsioServer.Proofs.CallBacks
import AsioServer.Spec.Styled

/-!
# Messages the worker does not survive

Nothing catches what a callback throws: an exception leaves `DealMsg`, and the
process with it. `Survives` says for each callback when it returns, in terms of
the payload as the library parses it, of the tables, and of the calls of MySQL:
the members it reads convert to text (`Json.readable`) and, for ids, to an int;
a registered name and password fit their arrays; a connection whose commit
fails is survived; and what `HelloWordCallBack` sends back fits a frame. The
other responses always do (`reply_isOk`).
-/

namespace AsioServer

/-! ## Members -/

/-- A member that converts to text, of a value that has members. -/
def Json.readable (key : String) : Json → Bool
  | .null => true
  | .obj members =>
      match members.lookup (ascii key) with
      | some (.arr _) | some (.obj _) => false
      | _ => true
  | _ => false

theorem field_isOk (key : String) (v : Json) :
    (∃ s, v.field key = .ok s) ↔ v.readable key = true := by
  have hobj : ∀ members, (∃ s, Json.field key (.obj members) = .ok s) ↔
      ∃ s, ((members.lookup (ascii key)).getD .null).asString = .ok s := fun _ => Iff.rfl
  cases v with
  | null => exact ⟨fun _ => rfl, fun _ => ⟨[], rfl⟩⟩
  | obj members =>
      rw [hobj, Json.readable]
      cases members.lookup (ascii key) with
      | none => simp [Json.asString]
      | some m => cases m <;> simp [Json.asString]
  | bool | int | real | str | arr => exact ⟨fun ⟨_, h⟩ => (by cases h), fun h => (by cases h)⟩

/-- A value with a readable member takes an assignment to it. -/
theorem setMember_isOk {key : String} {v : Json} (h : v.readable key = true) (k : Bytes)
    (m : Json) : ∃ v', v.setMember k m = .ok v' := by
  cases v with
  | null => exact ⟨_, rfl⟩
  | obj members => exact ⟨_, rfl⟩
  | bool | int | real | str | arr => cases h

/-! ## Sending -/

/-- `Send` of a text returns: it is dropped, or its length is a short that
leaves room for the header. -/
def SendReturns (s : CSession) (text : Bytes) : Prop :=
  maxSendque < s.sendQue.length ∨ (0 ≤ short text.length ∧ short text.length ≤ sendMax)

theorem send_isOk (w : World) (target : Uuid) (text : Bytes) (msgId : Int) (r : Option Json) :
    (∃ w', w.send target text msgId r = .ok w') ↔ SendReturns (w.session target) text := by
  have hmod := short_emod text.length
  have hbounds := short_bounds text.length
  constructor
  · rintro ⟨w', h⟩
    obtain ⟨call, hcall, -⟩ := bind_eq_ok.mp h
    rcases Nat.lt_or_ge maxSendque (w.session target).sendQue.length with hfull | hroom
    · exact Or.inl hfull
    · cases hnode : SendNode.new (text ++ [0]) (short text.length) msgId with
      | ok node =>
          obtain ⟨h₀, hmax, -⟩ := SendNode.new_inv hnode hbounds.1 hbounds.2
          exact Or.inr ⟨h₀, hmax⟩
      | error f =>
          rw [CSession.send, CSession.enqueue_error hroom hnode] at hcall
          cases hcall
  · intro h
    have hcall : ∃ call, (w.session target).send text msgId = .ok call := by
      rcases Nat.lt_or_ge maxSendque (w.session target).sendQue.length with hfull | hroom
      · exact ⟨_, CSession.enqueue_full hfull⟩
      · obtain ⟨h₀, hmax⟩ : 0 ≤ short text.length ∧ short text.length ≤ sendMax := by
          rcases h with hfull | hfits
          · omega
          · exact hfits
        obtain ⟨node, hnode, -⟩ := SendNode.new_ok (text ++ [0]) msgId h₀ hmax (by
          rw [List.length_append]
          omega)
        exact ⟨_, CSession.enqueue_ok hroom hnode⟩
    obtain ⟨call, hcall⟩ := hcall
    exact ⟨_, bind_ok hcall rfl⟩

theorem sendReturns_of_length {s : CSession} {text : Bytes} (h : text.length ≤ maxLength) :
    SendReturns s text := by
  rw [maxLength_eq] at h
  have hshort : short text.length = text.length := short_eq (by omega) (by omega)
  refine Or.inr ?_
  rw [hshort]
  unfold sendMax
  omega

/-- The responses that say the same whatever the request was. -/
def fixedResponses : List Json :=
  [response codeRegisterFailed "msg" "register failed",
    response codeLoginSuccess "msg" "login success",
    response codeLoginFailed "msg" "login failed",
    response codeAddFriendSuccess "msg" "add friend success",
    response codeAddFriendFailed "msg" "add friend failed",
    response codeOneChatSuccess "msg" "one chat success",
    response codeOneChatFailed "msg" "one chat failed",
    response codeCreateGroupSuccess "data" "create group success",
    response codeJoinGroupSuccess "data" "join group success"]

theorem fixedResponses_plain : ∀ r ∈ fixedResponses, r.plainObj = true := by decide

/-- A response the server makes up itself is always sent. -/
theorem reply_isOk {lib : JsonLib} (hlib : lib.StylesPlain) (w : World) (session : Uuid)
    (msgId : Int) {r : Json} (hr : r.plainObj = true) :
    ∃ w', w.reply lib session msgId r = .ok w' :=
  (send_isOk w session (lib.toStyledString r) msgId (some r)).mpr
    (sendReturns_of_length (by have := hlib r hr; rw [maxLength_eq]; omega))

theorem reply_fixed_isOk {lib : JsonLib} (hlib : lib.StylesPlain) (w : World) (session : Uuid)
    (msgId : Int) {r : Json} (hr : r ∈ fixedResponses) :
    ∃ w', w.reply lib session msgId r = .ok w' :=
  reply_isOk hlib w session msgId (fixedResponses_plain r hr)

/-! ## Callbacks -/

/-- A transaction whose statement applies returns: if the commit is reached, it
succeeds, or its connection is destroyed without a crash. -/
def Outcome.Returns (o : Outcome) (applies : Prop) : Prop :=
  o.connect = true → o.execute = true → applies → o.commit = true ∨ o.rollbackNull = true

theorem transact_isOk {o : Outcome} {db : Db} {stmt : Db → Option Db} :
    (∃ r, transact o db (.ok stmt) = .ok r) ↔ o.Returns (stmt db).isSome := by
  rw [transact_returns]
  constructor
  · intro h hc hx hs
    obtain ⟨stmt', hstmt, hcommit⟩ := h hc
    obtain rfl := Except.ok.inj hstmt
    exact hcommit hx hs
  · exact fun h hc => ⟨stmt, rfl, h hc⟩

theorem update_isOk {o : Outcome} {db : Db} {state : Bytes} {uuid : Option Bytes} {id : Int} :
    (∃ r, transact o db (.ok fun now => now.updateUser (some state) uuid id) = .ok r) ↔
      o.Returns True := by
  rw [transact_isOk]
  exact Iff.of_eq (congrArg _ (eq_true rfl))

theorem insert_isOk {o : Outcome} {db : Db} {username password : Bytes} :
    (∃ r, transact o db (insertPrepare o.autoId username password) = .ok r) ↔
      (o.connect = true → (cStr username).length < 50 ∧ (cStr password).length < 50) ∧
        o.Returns (insertStmt o.autoId username password db).isSome := by
  rw [transact_returns]
  constructor
  · intro h
    refine ⟨fun hc => ?_, fun hc hx hs => ?_⟩
    · obtain ⟨stmt, hstmt, -⟩ := h hc
      obtain ⟨hu, hp, -⟩ := insertPrepare_ok.mp hstmt
      exact ⟨hu, hp⟩
    · obtain ⟨stmt, hstmt, hcommit⟩ := h hc
      obtain ⟨-, -, rfl⟩ := insertPrepare_ok.mp hstmt
      exact hcommit hx hs
  · rintro ⟨hlen, hreturns⟩ hc
    exact ⟨_, insertPrepare_ok.mpr ⟨(hlen hc).1, (hlen hc).2, rfl⟩, hreturns hc⟩

section

variable (lib : JsonLib) (env : Nat → Outcome) (w : World) (session : Uuid) (msgId : Int)
  (msgData : Bytes)

/-- When a callback returns. -/
def Survives : CallBack → Prop
  | .helloWord => (lib.parse msgData).2.readable "data" = true ∧ ∀ data root,
      (lib.parse msgData).2.field "data" = .ok data →
      (lib.parse msgData).2.setMember (ascii "data")
        (.str (ascii "server has received msg, msg data is " ++ data)) = .ok root →
      SendReturns (w.session session) (lib.toStyledString root)
  | .register => ∃ username password,
      (lib.parse msgData).2.field "username" = .ok username ∧
      (lib.parse msgData).2.field "password" = .ok password ∧
      ((env 0).connect = true → (cStr username).length < 50 ∧ (cStr password).length < 50) ∧
      (env 0).Returns (insertStmt (env 0).autoId username password w.db).isSome
  | .login => ∃ id username password,
      (lib.parse msgData).2.idField "id" = .ok id ∧
      (lib.parse msgData).2.field "username" = .ok username ∧
      (lib.parse msgData).2.field "password" = .ok password ∧
      (isLoginSuccess (queried (env 0) w.db id) username password = true →
        (env 1).Returns True)
  | .logout => (∃ id, (lib.parse msgData).2.idField "id" = .ok id) ∧ (env 0).Returns True
  | .addFriend => ∃ userid friendid,
      (lib.parse msgData).2.idField "id" = .ok userid ∧
      (lib.parse msgData).2.idField "friendid" = .ok friendid ∧
      (env 0).Returns (w.db.insertFriend userid friendid).isSome
  | .oneChat => ∃ toid, (lib.parse msgData).2.idField "toid" = .ok toid
  | .joinGroup | .createGroup | .groupChat => (lib.parse msgData).2.readable "data" = true

variable {lib env w session msgId msgData}

theorem helloWordCallBack_isOk :
    (∃ w', helloWordCallBack lib w session msgId msgData = .ok w') ↔
      Survives lib env w session msgData .helloWord := by
  constructor
  · rintro ⟨w', h⟩
    obtain ⟨data, root, hdata, hroot, hreply⟩ := helloWordCallBack_inv h
    refine ⟨(field_isOk _ _).mp ⟨data, hdata⟩, fun data' root' hdata' hroot' => ?_⟩
    obtain rfl := Except.ok.inj (hdata.symm.trans hdata')
    obtain rfl := Except.ok.inj (hroot.symm.trans hroot')
    exact (send_isOk w session _ msgId (some root)).mp ⟨w', hreply⟩
  · rintro ⟨hread, hsend⟩
    obtain ⟨data, hdata⟩ := (field_isOk _ _).mpr hread
    obtain ⟨root, hroot⟩ := setMember_isOk hread (ascii "data")
      (.str (ascii "server has received msg, msg data is " ++ data))
    obtain ⟨w', h⟩ := (send_isOk w session _ msgId (some root)).mpr (hsend data root hdata hroot)
    exact ⟨w', bind_ok hdata (bind_ok hroot h)⟩

theorem plainObj_registerResponse (user : User) :
    (registerResponse user).plainObj = Json.plain (.int user.id) := by
  have hcode : Json.plain (.int codeRegisterSuccess) = true := by decide
  have hmsg : Json.plain (.str (ascii "register success")) = true := by decide
  have hkeys : (ascii "code").length ≤ 8 ∧ (ascii "id").length ≤ 8 ∧
      (ascii "msg").length ≤ 8 := by decide
  simp [registerResponse, Json.plainObj, hcode, hmsg, hkeys]

/-- The response of a registration that went through carries an int. -/
theorem registerResponse_plain {o : Outcome} {db db' : Db} {username password : Bytes}
    {done : Bool}
    (h : transact o db (insertPrepare o.autoId username password) = .ok (db', done)) :
    (if done then registerResponse { User.default with id := o.autoId }
      else response codeRegisterFailed "msg" "register failed").plainObj = true := by
  rcases transact_ok h with ⟨rfl, -⟩ | ⟨rfl, -, -, stmt, new, hstmt, hnew, -⟩
  · exact fixedResponses_plain _ (by simp [fixedResponses])
  · obtain ⟨-, -, rfl⟩ := insertPrepare_ok.mp hstmt
    obtain ⟨row, -, -, -, -, -, -, hpos, hmax, -⟩ := insertUser_eq_some hnew
    have hid : Json.plain (.int o.autoId) = true := by
      simp only [Json.plain, Bool.and_eq_true, decide_eq_true_eq]
      omega
    rw [if_pos rfl, plainObj_registerResponse]
    exact hid

theorem registerCallBack_isOk (hlib : lib.StylesPlain) :
    (∃ w', registerCallBack lib env w session msgId msgData = .ok w') ↔
      Survives lib env w session msgData .register := by
  constructor
  · rintro ⟨w', h⟩
    obtain ⟨username, password, db', done, hu, hp, htrans, -⟩ := registerCallBack_inv h
    exact ⟨username, password, hu, hp, insert_isOk.mp ⟨_, htrans⟩⟩
  · rintro ⟨username, password, hu, hp, hdb⟩
    obtain ⟨⟨db', done⟩, htrans⟩ := insert_isOk.mpr hdb
    obtain ⟨w', hw'⟩ := reply_isOk hlib { w with db := db' } session msgId
      (registerResponse_plain htrans)
    refine ⟨w', bind_ok hu (bind_ok hp ?_)⟩
    have hins : UserModel.insert (env 0) w.db
        { User.default with name := username, password := password } =
          .ok (db', { User.default with
            id := if done then (env 0).autoId else -1, name := username, password := password },
            done) := by
      rw [insert_eq]
      exact bind_ok htrans rfl
    refine bind_ok hins ?_
    cases done <;> exact hw'

theorem loginCallBack_isOk (hlib : lib.StylesPlain) :
    (∃ w', loginCallBack lib env w session msgId msgData = .ok w') ↔
      Survives lib env w session msgData .login := by
  constructor
  · rintro ⟨w', h⟩
    obtain ⟨id, username, password, hid, hu, hp, hcases⟩ := loginCallBack_inv h
    refine ⟨id, username, password, hid, hu, hp, fun hsuccess => ?_⟩
    rcases hcases with ⟨hrefused, -⟩ | ⟨-, db', done, hupd, -⟩
    · rw [hsuccess] at hrefused
      cases hrefused
    · exact update_isOk.mp ⟨_, hupd⟩
  · rintro ⟨id, username, password, hid, hu, hp, hupdate⟩
    cases hsuccess : isLoginSuccess (queried (env 0) w.db id) username password with
    | false =>
        obtain ⟨w', hw'⟩ : ∃ w', w.reply lib session msgId
            (response codeLoginFailed "msg" "login failed") = .ok w' :=
          reply_fixed_isOk hlib w session msgId (by simp [fixedResponses])
        refine ⟨w', bind_ok hid (bind_ok hu (bind_ok hp (bind_ok (query_eq _ _ _) ?_)))⟩
        rw [hsuccess, if_neg (by decide)]
        exact hw'
    | true =>
        obtain ⟨⟨db', done⟩, hupd⟩ := update_isOk.mpr (hupdate hsuccess)
        rw [← updateState_login] at hupd
        obtain ⟨w', hw'⟩ : ∃ w', World.reply lib { w with db := db' } session msgId
            (response codeLoginSuccess "msg" "login success") = .ok w' :=
          reply_fixed_isOk hlib _ session msgId (by simp [fixedResponses])
        refine ⟨w', bind_ok hid (bind_ok hu (bind_ok hp (bind_ok (query_eq _ _ _) ?_)))⟩
        rw [hsuccess, if_pos rfl]
        exact bind_ok hupd hw'

theorem logoutCallBack_isOk :
    (∃ w', logoutCallBack lib env w msgData = .ok w') ↔
      Survives lib env w session msgData .logout := by
  constructor
  · rintro ⟨w', h⟩
    obtain ⟨id, db', done, hid, hupd, -⟩ := logoutCallBack_inv h
    exact ⟨⟨id, hid⟩, update_isOk.mp ⟨_, hupd⟩⟩
  · rintro ⟨⟨id, hid⟩, hdb⟩
    obtain ⟨r, hupd⟩ := update_isOk.mpr hdb
    rw [← updateState_logout (env 0) w.db id] at hupd
    exact ⟨_, bind_ok hid (bind_ok hupd rfl)⟩

theorem addFriendCallBack_isOk (hlib : lib.StylesPlain) :
    (∃ w', addFriendCallBack lib env w session msgId msgData = .ok w') ↔
      Survives lib env w session msgData .addFriend := by
  constructor
  · rintro ⟨w', h⟩
    obtain ⟨userid, friendid, db', done, huserid, hfriendid, hins, -⟩ := addFriendCallBack_inv h
    exact ⟨userid, friendid, huserid, hfriendid, transact_isOk.mp ⟨_, hins⟩⟩
  · rintro ⟨userid, friendid, huserid, hfriend, hdb⟩
    obtain ⟨idStr, hid, huserid⟩ := bind_eq_ok.mp huserid
    obtain ⟨friendidStr, hfriendid, hfriend⟩ := bind_eq_ok.mp hfriend
    obtain ⟨⟨db', done⟩, hins⟩ : ∃ r, FriendModel.insert (env 0) w.db userid friendid = .ok r :=
      transact_isOk.mpr hdb
    obtain ⟨w', hw'⟩ : ∃ w', World.reply lib { w with db := db' } session msgId
        (if done then response codeAddFriendSuccess "msg" "add friend success"
          else response codeAddFriendFailed "msg" "add friend failed") = .ok w' :=
      reply_fixed_isOk hlib _ session msgId (by cases done <;> simp [fixedResponses])
    refine ⟨w', bind_ok hid (bind_ok hfriendid (bind_ok huserid (bind_ok hfriend ?_)))⟩
    refine bind_ok hins ?_
    cases done <;> exact hw'

/-- The payload was received in one frame, so it can be sent in one. -/
theorem oneChatCallBack_isOk (hlib : lib.StylesPlain) (hlen : msgData.length ≤ maxLength) :
    (∃ w', oneChatCallBack lib env w session msgId msgData = .ok w') ↔
      Survives lib env w session msgData .oneChat := by
  constructor
  · rintro ⟨w', h⟩
    obtain ⟨toid, htoid, -⟩ := oneChatCallBack_inv h
    exact ⟨toid, htoid⟩
  · rintro ⟨toid, htoid⟩
    have hfailed : ∀ w : World, ∃ w', w.reply lib session msgId
        (response codeOneChatFailed "msg" "one chat failed") = .ok w' := fun w =>
      reply_fixed_isOk hlib w session msgId (by simp [fixedResponses])
    have hsuccess : ∀ w : World, ∃ w', w.reply lib session msgId
        (response codeOneChatSuccess "msg" "one chat success") = .ok w' := fun w =>
      reply_fixed_isOk hlib w session msgId (by simp [fixedResponses])
    have hquery := query_eq (env 0) w.db toid
    by_cases hid : (queried (env 0) w.db toid).id = -1
    · obtain ⟨w', hw'⟩ := hfailed w
      refine ⟨w', bind_ok htoid (bind_ok hquery ?_)⟩
      rw [if_pos hid]
      exact hw'
    · by_cases hon : (queried (env 0) w.db toid).state = ascii "online"
      · cases hget : w.server.getSession (queried (env 0) w.db toid).uuid with
        | none =>
            obtain ⟨w', hw'⟩ := hsuccess w
            refine ⟨w', bind_ok htoid (bind_ok hquery ?_)⟩
            rw [if_neg hid, if_pos hon, hget]
            exact hw'
        | some toSession =>
            obtain ⟨w₁, hforward⟩ := (send_isOk w toSession msgData msgId none).mpr
              (sendReturns_of_length hlen)
            obtain ⟨w', hw'⟩ := hsuccess w₁
            refine ⟨w', bind_ok htoid (bind_ok hquery ?_)⟩
            rw [if_neg hid, if_pos hon, hget]
            exact bind_ok hforward hw'
      · obtain ⟨w', hw'⟩ := hfailed w
        refine ⟨w', bind_ok htoid (bind_ok hquery ?_)⟩
        rw [if_neg hid, if_neg hon]
        exact hw'

theorem groupCallBack_isOk (hlib : lib.StylesPlain) {code : Int} {text : String}
    (hfixed : response code "data" text ∈ fixedResponses) :
    (∃ w', groupCallBack lib w session msgId msgData code text = .ok w') ↔
      (lib.parse msgData).2.readable "data" = true := by
  constructor
  · rintro ⟨w', h⟩
    exact (field_isOk _ _).mp (groupCallBack_inv h).1
  · intro h
    obtain ⟨data, hdata⟩ := (field_isOk _ _).mpr h
    obtain ⟨w', hw'⟩ := reply_fixed_isOk hlib w session msgId hfixed
    exact ⟨w', bind_ok hdata hw'⟩

theorem groupChatCallBack_isOk :
    (∃ w', groupChatCallBack lib w msgData = .ok w') ↔
      (lib.parse msgData).2.readable "data" = true := by
  constructor
  · rintro ⟨w', h⟩
    obtain ⟨data, hdata, -⟩ := bind_eq_ok.mp h
    exact (field_isOk _ _).mp ⟨data, hdata⟩
  · intro h
    obtain ⟨data, hdata⟩ := (field_isOk _ _).mpr h
    exact ⟨w, bind_ok hdata rfl⟩

/-- A message is processed exactly when its callback returns. -/
theorem process_isOk (hlib : lib.StylesPlain) (hlen : msgData.length ≤ maxLength) :
    (∃ w', w.process lib env session msgId msgData = .ok w') ↔
      ∀ callBack, findCallBack msgId = some callBack →
        Survives lib env w session msgData callBack := by
  rw [World.process]
  cases hfind : findCallBack msgId with
  | none => exact ⟨fun _ _ h => (by cases h), fun _ => ⟨w, rfl⟩⟩
  | some callBack =>
      have hcall : (∃ w', callBack.call lib env w session msgId msgData = .ok w') ↔
          Survives lib env w session msgData callBack := by
        cases callBack with
        | helloWord => exact helloWordCallBack_isOk
        | register => exact registerCallBack_isOk hlib
        | login => exact loginCallBack_isOk hlib
        | logout => exact logoutCallBack_isOk
        | addFriend => exact addFriendCallBack_isOk hlib
        | oneChat => exact oneChatCallBack_isOk hlib hlen
        | joinGroup => exact groupCallBack_isOk hlib (by simp [fixedResponses])
        | createGroup => exact groupCallBack_isOk hlib (by simp [fixedResponses])
        | groupChat => exact groupChatCallBack_isOk
      rw [hcall]
      exact ⟨fun h callBack' heq => Option.some.inj heq ▸ h, fun h => h callBack rfl⟩

end

/-! ## The worker -/

/-- One iteration of `DealMsg` on a message that `HandleRead` can post returns
and leaves the rest of the queue, exactly when the callback of the message
returns. -/
theorem dealMsg_survives (lib : JsonLib) (hlib : lib.StylesPlain) (env : Nat → Outcome)
    (w : World) (msgNode : LogicNode) (rest : List LogicNode) (msgId : Int) (msgData : Bytes)
    (hmsg : msgNode.recvnode.message = .ok (msgId, msgData))
    (hlen : msgData.length ≤ maxLength) :
    (∃ w', dealMsg lib env w (msgNode :: rest) = .ok (w', rest)) ↔
      ∀ callBack, findCallBack msgId = some callBack →
        Survives lib env w msgNode.session msgData callBack := by
  rw [dealMsg_eq lib env w rest hmsg, ← process_isOk hlib hlen]
  cases w.process lib env msgNode.session msgId msgData with
  | error f => exact ⟨fun ⟨_, h⟩ => (by cases h), fun ⟨_, h⟩ => (by cases h)⟩
  | ok w' => exact ⟨fun _ => ⟨w', rfl⟩, fun _ => ⟨w', rfl⟩⟩

/-- A login in a node, as it is posted. -/
def loginNode (session : Uuid) : LogicNode where
  session := session
  recvnode :=
    { curLen := loginText.length
      totalLen := loginText.length
      data := loginText.map some ++ [some 0]
      total_nonneg := Int.natCast_nonneg _
      alloc := by simp
      msgId := msgLogin }

/-- The commit of the second connection fails, and so does its rollback. -/
def commitFails : Nat → Outcome
  | 0 => .good 1
  | _ => { Outcome.good 1 with commit := false, rollbackNull := false }

/-- A login ends well, and with a commit that fails it does not. -/
theorem dealMsg_survives_login :
    (∀ callBack, findCallBack msgLogin = some callBack →
      Survives scene (fun _ => .good 1) (.start (.single amy)) .first loginText callBack) ∧
    ¬ ∀ callBack, findCallBack msgLogin = some callBack →
      Survives scene commitFails (.start (.single amy)) .first loginText callBack := by
  have hmsg : (loginNode .first).recvnode.message = .ok (msgLogin, loginText) := rfl
  have hlen : loginText.length ≤ maxLength := by decide
  refine ⟨(dealMsg_survives scene (flat_stylesPlain _) _ _ _ [] _ _ hmsg hlen).mp ⟨_, rfl⟩,
    fun hsurvives => ?_⟩
  obtain ⟨w', hw'⟩ := (dealMsg_survives scene (flat_stylesPlain _) _ _ _ [] _ _ hmsg hlen).mpr
    hsurvives
  have herror : dealMsg scene commitFails (.start (.single amy)) [loginNode .first] =
      .error .nullPointer := rfl
  rw [herror] at hw'
  cases hw'

/-- A login without a payload: the payload is no JSON, the id of the null it
leaves is the empty text, and `stoi` throws. -/
theorem dealMsg_empty_login :
    ¬ ∀ (lib : JsonLib) (env : Nat → Outcome) (w : World) (msgNode : LogicNode)
      (rest : List LogicNode) (msgId : Int) (msgData : Bytes), lib.StylesPlain →
      msgNode.recvnode.message = .ok (msgId, msgData) → msgData.length ≤ maxLength →
      ∃ w', dealMsg lib env w (msgNode :: rest) = .ok (w', rest) := by
  intro hall
  obtain ⟨w', hw'⟩ := hall (.flat []) (fun _ => .good 1) (.start (.empty id))
    (emptyNode .first msgLogin) [] msgLogin [] (flat_stylesPlain []) rfl (Nat.zero_le _)
  have herror : dealMsg (.flat []) (fun _ => .good 1) (.start (.empty id))
      [emptyNode .first msgLogin] = .error .invalidArgument := rfl
  rw [herror] at hw'
  cases hw'

end AsioServer
