import AsioServer.Proofs.WorkerFaults

/-!
# What a reply says about the tables

A reply is truthful when its SUCCESS code stands for a change that was
committed and its FAILED code for tables that were not touched. The callbacks
look at one boolean of the model functions, which says that the statement was
executed; what `commit` returns is dropped, and `LoginCallBack` drops the
boolean of `updateState` as well. So a registration or a friendship is
reported truthfully unless the commit behind an executed insert fails, and an
accepted login only if its update is executed and committed.
-/

namespace AsioServer

/-- A member of a response that is a number. -/
def Sent.int (key : String) (s : Sent) : Option Int :=
  match s.response with
  | some (.obj members) =>
      match members.lookup (ascii key) with
      | some (.int i) => some i
      | _ => none
  | _ => none

def Sent.code (s : Sent) : Option Int := s.int "code"

/-- What was sent between two states. -/
def World.replies (w w' : World) : List Sent := w'.sent.drop w.sent.length

def successCode : CallBack → Option Int
  | .register => some codeRegisterSuccess
  | .login => some codeLoginSuccess
  | .addFriend => some codeAddFriendSuccess
  | _ => none

def failedCode : CallBack → Option Int
  | .register => some codeRegisterFailed
  | .login => some codeLoginFailed
  | .addFriend => some codeAddFriendFailed
  | _ => none

/-- The change a request asks for, between the tables before and after it. -/
def Made (db db' : Db) (session : Uuid) (root : Json) : CallBack → Prop
  | .register => ∃ username password row,
      root.field "username" = .ok username ∧ root.field "password" = .ok password ∧
      row.name = cStr username ∧ row.password = cStr password ∧
      db'.users.rows = db.users.rows ++ [row]
  | .login => ∃ id row, root.idField "id" = .ok id ∧ db'.users.find id = some row ∧
      row.state = ascii "online" ∧ row.uuid = some session.text
  | .addFriend => ∃ userid friendid,
      root.idField "id" = .ok userid ∧ root.idField "friendid" = .ok friendid ∧
      db'.friends.rows = db.friends.rows ++ [(userid, friendid)]
  | _ => True

structure Truthful (lib : JsonLib) (w w' : World) (session : Uuid) (msgData : Bytes)
    (callBack : CallBack) : Prop where
  success : ∀ s ∈ w.replies w', ∀ c, successCode callBack = some c → s.code = some c →
    Made w.db w'.db session (lib.parse msgData).2 callBack
  failed : ∀ s ∈ w.replies w', ∀ c, failedCode callBack = some c → s.code = some c →
    w'.db = w.db

/-- When the reply to a request is truthful. -/
def WritesDone (lib : JsonLib) (env : Nat → Outcome) (db : Db) (msgData : Bytes) :
    CallBack → Prop
  | .register => ∀ username password,
      (lib.parse msgData).2.field "username" = .ok username →
      (lib.parse msgData).2.field "password" = .ok password →
      (cStr username).length < 50 → (cStr password).length < 50 →
      (env 0).connect = true → (env 0).execute = true →
      (insertStmt (env 0).autoId username password db).isSome → (env 0).Commits
  | .login => ∀ id username password,
      (lib.parse msgData).2.idField "id" = .ok id →
      (lib.parse msgData).2.field "username" = .ok username →
      (lib.parse msgData).2.field "password" = .ok password →
      isLoginSuccess (queried (env 0) db id) username password = true →
      (env 1).connect = true ∧ (env 1).execute = true ∧ (env 1).Commits
  | .addFriend => ∀ userid friendid,
      (lib.parse msgData).2.idField "id" = .ok userid →
      (lib.parse msgData).2.idField "friendid" = .ok friendid →
      (env 0).connect = true → (env 0).execute = true →
      (db.insertFriend userid friendid).isSome → (env 0).Commits
  | _ => True

/-! ## Codes -/

theorem replies_eq {w w' : World} {sent : List Sent} (h : w'.sent = w.sent ++ sent) :
    w.replies w' = sent := by
  rw [World.replies, h, List.drop_left]

theorem code_response (lib : JsonLib) (session : Uuid) (msgId code : Int) (key text : String) :
    (Sent.reply lib session msgId (response code key text)).code = some code := by
  simp [Sent.code, Sent.int, Sent.reply, response]

theorem code_registerResponse (lib : JsonLib) (session : Uuid) (msgId : Int) (user : User) :
    (Sent.reply lib session msgId (registerResponse user)).code = some codeRegisterSuccess := by
  simp [Sent.code, Sent.int, Sent.reply, registerResponse]

/-- A request is answered by one reply, so its code decides. -/
theorem Truthful.of_reply {lib : JsonLib} {w w' : World} {session : Uuid} {msgData : Bytes}
    {callBack : CallBack} {s : Sent} {code : Int} (hsent : w'.sent = w.sent ++ [s])
    (hcode : s.code = some code)
    (hs : successCode callBack = some code → Made w.db w'.db session (lib.parse msgData).2 callBack)
    (hf : failedCode callBack = some code → w'.db = w.db) :
    Truthful lib w w' session msgData callBack := by
  have honly : ∀ t ∈ w.replies w', t.code = some code := by
    intro t ht
    rw [replies_eq hsent, List.mem_singleton] at ht
    rw [ht, hcode]
  refine ⟨fun t ht c hc hcode => hs ?_, fun t ht c hc hcode => hf ?_⟩
  · rw [hc, ← hcode, honly t ht]
  · rw [hc, ← hcode, honly t ht]

/-! ## Requests -/

section

variable {lib : JsonLib} {env : Nat → Outcome} {w w' : World} {session : Uuid} {msgId : Int}
  {msgData : Bytes} {callBack : CallBack}

theorem truthful_of_writesDone (hfind : findCallBack msgId = some callBack)
    (hdone : WritesDone lib env w.db msgData callBack)
    (h : w.process lib env session msgId msgData = .ok w') :
    Truthful lib w w' session msgData callBack := by
  obtain ⟨-, sent, hsent, hproc⟩ := process_ok h
  generalize hdb : w'.db = db' at hproc
  cases hproc with
  | other hregister hlogin hlogout haddFriend =>
      have hnone : successCode callBack = none ∧ failedCode callBack = none := by
        cases callBack with
        | register => exact absurd hfind hregister
        | login => exact absurd hfind hlogin
        | addFriend => exact absurd hfind haddFriend
        | helloWord | logout | oneChat | joinGroup | createGroup | groupChat => exact ⟨rfl, rfl⟩
      refine ⟨fun _ _ c hc => ?_, fun _ _ c hc => ?_⟩
      · rw [hnone.1] at hc; cases hc
      · rw [hnone.2] at hc; cases hc
  | logout find idField update =>
      obtain rfl := Option.some.inj (hfind.symm.trans find)
      exact ⟨fun _ _ c hc => (by cases hc), fun _ _ c hc => (by cases hc)⟩
  | register find name pass insert =>
      obtain rfl := Option.some.inj (hfind.symm.trans find)
      rcases transact_ok insert with ⟨rfl, rfl⟩ | ⟨rfl, hc, hx, stmt, new, hstmt, hnew, -⟩
      · exact .of_reply hsent (code_response ..) (fun hc => absurd hc (by decide)) fun _ => hdb
      · rw [hstmt] at insert
        obtain ⟨hu, hp, rfl⟩ := insertPrepare_ok.mp hstmt
        have hcommits := hdone _ _ name pass hu hp hc hx (by rw [hnew]; rfl)
        obtain rfl := transact_written insert hc hx hnew hcommits
        refine .of_reply hsent (code_registerResponse ..) (fun _ => ?_)
          fun hc => absurd hc (by decide)
        obtain ⟨row, -, hname, hpass, -, -, hrows, -⟩ := insertUser_eq_some hnew
        refine ⟨_, _, row, name, pass, bindString_inv hname, bindString_inv hpass, ?_⟩
        rw [hdb]
        exact (Table.insert_eq_some hrows).1
  | loginRefused find idField name pass refused =>
      obtain rfl := Option.some.inj (hfind.symm.trans find)
      exact .of_reply hsent (code_response ..) (fun hc => absurd hc (by decide)) fun _ => hdb
  | @login id _ _ _ _ find idField name pass accepted update =>
      obtain rfl := Option.some.inj (hfind.symm.trans find)
      refine .of_reply hsent (code_response ..) (fun _ => ?_) fun hc => absurd hc (by decide)
      obtain ⟨hc, hx, hcommits⟩ := hdone _ _ _ idField name pass accepted
      obtain ⟨row, hrow, -, -, hid⟩ := accepted_row accepted
      refine ⟨id, { row with state := ascii "online", uuid := some session.text }, idField, ?_,
        rfl, rfl⟩
      rw [hdb, transact_updated update hc hx hcommits, if_pos hid.symm, hid, hrow]
      rfl
  | addFriend find idField friendidField insert =>
      obtain rfl := Option.some.inj (hfind.symm.trans find)
      rcases transact_ok insert with ⟨rfl, rfl⟩ | ⟨rfl, hc, hx, stmt, new, hstmt, hnew, -⟩
      · exact .of_reply hsent (code_response ..) (fun hc => absurd hc (by decide)) fun _ => hdb
      · obtain rfl := Except.ok.inj hstmt
        have hcommits := hdone _ _ idField friendidField hc hx (Option.isSome_of_mem hnew)
        obtain rfl := transact_written insert hc hx hnew hcommits
        refine .of_reply hsent (code_response ..) (fun _ => ?_) fun hc => absurd hc (by decide)
        refine ⟨_, _, idField, friendidField, ?_⟩
        rw [hdb]
        exact insertFriend_rows hnew

/-- No change is made where the tables stay. -/
theorem not_made_self {db : Db} {root : Json}
    (hcallBack : callBack = .register ∨ callBack = .addFriend) :
    ¬ Made db db session root callBack := by
  intro hmade
  rcases hcallBack with rfl | rfl
  · obtain ⟨_, _, row, -, -, -, -, hrows⟩ := hmade
    simpa using congrArg List.length hrows
  · obtain ⟨_, _, -, -, hrows⟩ := hmade
    simpa using congrArg List.length hrows

/-- A truthful success means that the change was made. -/
theorem Truthful.made {s : Sent} {code : Int} (h : Truthful lib w w' session msgData callBack)
    (hsent : w'.sent = w.sent ++ [s]) (hcode : s.code = some code)
    (hsuccess : successCode callBack = some code) :
    Made w.db w'.db session (lib.parse msgData).2 callBack :=
  h.success s (by rw [replies_eq hsent]; exact List.mem_singleton_self s) code hsuccess hcode

theorem register_writesDone (hlib : lib.StylesPlain) (hfind : findCallBack msgId = some .register)
    (hall : ∀ w', w.process lib env session msgId msgData = .ok w' →
      Truthful lib w w' session msgData .register) :
    WritesDone lib env w.db msgData .register := by
  intro username password hu hp hlu hlp hc hx hs
  by_contra hlost
  obtain ⟨w', hw'⟩ : ∃ w', w.process lib env session msgId msgData = .ok w' := by
    rw [World.process, hfind]
    exact (registerCallBack_isOk hlib).mpr ⟨username, password, hu, hp, fun _ => ⟨hlu, hlp⟩,
      fun _ _ _ => Or.inr (not_commits.mp hlost).2⟩
  obtain ⟨-, sent, hsent, hproc⟩ := process_ok hw'
  obtain ⟨done, insert, rfl⟩ := hproc.registered hfind hu hp
  rw [insertPrepare_ok.mpr ⟨hlu, hlp, rfl⟩] at insert
  obtain rfl := (transact_done insert).mpr ⟨hc, hx, hs⟩
  obtain ⟨_, hkeep⟩ := transact_unwritten w.db
    (insertStmt (env 0).autoId username password) fun h => hlost h.2.2
  have hmade := (hall w' hw').made hsent (code_registerResponse ..) rfl
  rw [(Prod.mk.inj (Except.ok.inj (insert.symm.trans hkeep))).1] at hmade
  exact not_made_self (Or.inl rfl) hmade

theorem addFriend_writesDone (hlib : lib.StylesPlain)
    (hfind : findCallBack msgId = some .addFriend)
    (hall : ∀ w', w.process lib env session msgId msgData = .ok w' →
      Truthful lib w w' session msgData .addFriend) :
    WritesDone lib env w.db msgData .addFriend := by
  intro userid friendid huserid hfriendid hc hx hs
  by_contra hlost
  obtain ⟨w', hw'⟩ : ∃ w', w.process lib env session msgId msgData = .ok w' := by
    rw [World.process, hfind]
    exact (addFriendCallBack_isOk hlib).mpr ⟨userid, friendid, huserid, hfriendid,
      fun _ _ _ => Or.inr (not_commits.mp hlost).2⟩
  obtain ⟨-, sent, hsent, hproc⟩ := process_ok hw'
  obtain ⟨done, insert, rfl⟩ := hproc.befriended hfind huserid hfriendid
  obtain rfl := (transact_done insert).mpr ⟨hc, hx, hs⟩
  obtain ⟨_, hkeep⟩ := transact_unwritten w.db
    (fun now => now.insertFriend userid friendid) fun h => hlost h.2.2
  have hmade := (hall w' hw').made hsent (code_response ..) rfl
  rw [(Prod.mk.inj (Except.ok.inj (insert.symm.trans hkeep))).1] at hmade
  exact not_made_self (Or.inr rfl) hmade

/-- An update that is not executed and committed leaves a row that was not
online as it was. -/
theorem login_writesDone (hlib : lib.StylesPlain) (hfind : findCallBack msgId = some .login)
    (hall : ∀ w', w.process lib env session msgId msgData = .ok w' →
      Truthful lib w w' session msgData .login) :
    WritesDone lib env w.db msgData .login := by
  intro id username password hid hu hp haccepted
  by_contra hlost
  obtain ⟨w', hw'⟩ : ∃ w', w.process lib env session msgId msgData = .ok w' := by
    rw [World.process, hfind]
    refine (loginCallBack_isOk hlib).mpr ⟨id, username, password, hid, hu, hp, fun _ hc hx _ => ?_⟩
    exact Or.inr (not_commits.mp fun h => hlost ⟨hc, hx, h⟩).2
  obtain ⟨-, sent, hsent, hproc⟩ := process_ok hw'
  rcases hproc.loggedIn hfind hid hu hp with ⟨hrefused, -, -⟩ | ⟨-, ⟨done, hupdate⟩, rfl⟩
  · rw [haccepted] at hrefused
    cases hrefused
  · obtain ⟨_, hkeep⟩ := transact_unwritten w.db (fun now => now.updateUser
      (some (ascii "online")) (some session.text) (queried (env 0) w.db id).id) hlost
    obtain ⟨id', row, hid', hrow, hstate, -⟩ := (hall w' hw').made hsent (code_response ..) rfl
    obtain rfl := Except.ok.inj (hid.symm.trans hid')
    obtain ⟨row', hrow', hoffline, -⟩ := accepted_row haccepted
    rw [(Prod.mk.inj (Except.ok.inj (hupdate.symm.trans hkeep))).1, hrow'] at hrow
    cases hrow
    exact hoffline hstate

end

/-! ## Truthful replies -/

/-- The reply to a request is truthful, whatever MySQL does, exactly when its
writes are done. -/
theorem reply_truthful_iff (lib : JsonLib) (hlib : lib.StylesPlain) (env : Nat → Outcome)
    (w : World) (session : Uuid) (msgId : Int) (msgData : Bytes) (callBack : CallBack)
    (hfind : findCallBack msgId = some callBack) :
    (∀ w', w.process lib env session msgId msgData = .ok w' →
      Truthful lib w w' session msgData callBack) ↔ WritesDone lib env w.db msgData callBack := by
  constructor
  · intro hall
    cases callBack with
    | register => exact register_writesDone hlib hfind hall
    | login => exact login_writesDone hlib hfind hall
    | addFriend => exact addFriend_writesDone hlib hfind hall
    | helloWord | logout | oneChat | joinGroup | createGroup | groupChat => trivial
  · exact fun hdone w' hw' => truthful_of_writesDone hfind hdone hw'

/-- All calls of MySQL succeed but the execution of the second connection's
statement. -/
def updateFails : Nat → Outcome
  | 0 => .good 1
  | _ => { Outcome.good 1 with execute := false }

/-- A login whose update fails. -/
theorem reply_truthful_iff_login :
    (∀ w', (World.start (.single amy)).process scene updateFails .first msgLogin loginText =
      .ok w' → Truthful scene (.start (.single amy)) w' .first loginText .login) ↔
      WritesDone scene updateFails (World.start (.single amy)).db loginText .login :=
  reply_truthful_iff scene (flat_stylesPlain _) updateFails (.start (.single amy))
    .first msgLogin loginText .login rfl

/-- It is reported as a success, and the row is still offline. -/
theorem login_success_unwritten :
    ¬ ∀ (lib : JsonLib) (env : Nat → Outcome) (w w' : World) (session : Uuid) (msgId : Int)
      (msgData : Bytes) (callBack : CallBack), lib.StylesPlain →
      findCallBack msgId = some callBack →
      w.process lib env session msgId msgData = .ok w' →
      Truthful lib w w' session msgData callBack := by
  intro hall
  obtain ⟨w', hw', hsent, hrow⟩ : ∃ w',
      (World.start (.single amy)).process scene updateFails .first msgLogin loginText =
        .ok w' ∧
      w'.sent = [] ++ [.reply scene .first msgLogin
        (response codeLoginSuccess "msg" "login success")] ∧
      w'.db.users.find 1 = some amy := ⟨_, rfl, rfl, rfl⟩
  obtain ⟨id, row, hid, hfound, hstate, -⟩ :=
    (hall scene updateFails _ w' _ _ _ .login (flat_stylesPlain _) rfl hw').made hsent
      (code_response ..) rfl
  cases Except.ok.inj (show Except.ok (1 : Int) = .ok id from hid)
  rw [hrow] at hfound
  cases hfound
  exact absurd hstate (by decide)

end AsioServer
