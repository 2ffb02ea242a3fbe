import AsioServer.Lib.Accounts
import AsioServer.Proofs.Reachability
import AsioServer.Proofs.Replies

/-!
# Logins over runs of the worker

A run of the worker is put beside the history that its clients see of it
(`mark`): a registration with the id the reply gives, a login that was replied
to with success, a logout. The worker simulates the service of
`AsioServer.Lib.Accounts` along that history: in every state reached the table
of users stands for the accounts the history leads to (`Recorded`), so what
holds of the histories of that service holds of the worker.

The simulation needs MySQL to succeed, and names and passwords without a NUL:
a row holds what `strcpy` leaves of them, and a login compares the row with
what the client sends.
-/

namespace AsioServer

/-- An event of the history: the credentials are the name and the password. -/
abbrev Mark := Accounts.Event Int (Bytes × Bytes) Uuid

/-- What a message and the replies to it show. -/
def mark (lib : JsonLib) (job : Job) (replies : List Sent) : Option Mark :=
  let root := (lib.parse job.msgData).2
  match findCallBack job.msgId with
  | some .register =>
      match root.field "username", root.field "password",
        (replies.find? fun s => s.code = some codeRegisterSuccess).bind (Sent.int "id") with
      | .ok username, .ok password, some id => some (.registered id (username, password))
      | _, _, _ => none
  | some .login =>
      match root.idField "id", root.field "username", root.field "password" with
      | .ok id, .ok username, .ok password =>
          if replies.any fun s => s.code = some codeLoginSuccess then
            some (.loggedIn id job.session (username, password))
          else none
      | _, _, _ => none
  | some .logout =>
      match root.idField "id" with
      | .ok id => some (.loggedOut id)
      | .error _ => none
  | _ => none

/-- The worker with its history. -/
def historyStep (lib : JsonLib) (s : World × List Mark) (job : Job) :
    Option (World × List Mark) :=
  (jobStep lib s.1 job).map fun w => (w, s.2 ++ (mark lib job (s.1.replies w)).toList)

/-- A row and the account it stands for. -/
inductive RowAccount :
    Option UserRow → Option (Accounts.Account (Bytes × Bytes) Uuid) → Prop where
  | none : RowAccount none none
  | offline {row : UserRow} (name : row.name.length < 50 ∧ 0 ∉ row.name)
      (pass : row.password.length < 50 ∧ 0 ∉ row.password)
      (state : row.state = ascii "offline") (uuid : row.uuid = .none) :
      RowAccount (some row) (some ⟨(row.name, row.password), .none⟩)
  | online {row : UserRow} {owner : Uuid} (name : row.name.length < 50 ∧ 0 ∉ row.name)
      (pass : row.password.length < 50 ∧ 0 ∉ row.password)
      (state : row.state = ascii "online") (uuid : row.uuid = some owner.text) :
      RowAccount (some row) (some ⟨(row.name, row.password), some owner⟩)

/-- The table stands for the accounts. -/
def Stands (db : Db) (accounts : Int → Option (Accounts.Account (Bytes × Bytes) Uuid)) : Prop :=
  ∀ id, RowAccount (db.users.find id) (accounts id)

/-- The names and passwords of the registrations have no NUL. -/
def NulFree (marks : List Mark) : Prop :=
  ∀ id username password, .registered id (username, password) ∈ marks →
    0 ∉ username ∧ 0 ∉ password

/-- The history is one of the service, and the table stands for where it
leads. -/
def Recorded (s : World × List Mark) : Prop :=
  NulFree s.2 → ∃ accounts, Machine.exec Accounts.step Accounts.start s.2 = some accounts ∧
    Stands s.1.db accounts

theorem start_recorded {w : World} {collation : Bytes → Bytes} (h : w.db = .empty collation) :
    Recorded (w, []) := by
  refine fun _ => ⟨Accounts.start, rfl, fun id => ?_⟩
  show RowAccount (w.db.users.find id) none
  rw [h]
  exact .none

/-! ## Steps -/

section

variable {lib : JsonLib} {job : Job} {db db' : Db} {sent : List Sent}
  {accounts accounts' : Int → Option (Accounts.Account (Bytes × Bytes) Uuid)} {m : Option Mark}

/-- The service goes where the message leads the table. -/
def Follows (accounts : Int → Option (Accounts.Account (Bytes × Bytes) Uuid)) (m : Option Mark)
    (db' : Db) : Prop :=
  ∃ accounts', Machine.exec Accounts.step accounts m.toList = some accounts' ∧ Stands db' accounts'

theorem Follows.stay (h : Stands db accounts) (hm : m = none) : Follows accounts m db := by
  rw [hm]
  exact ⟨accounts, rfl, h⟩

theorem Follows.step (e : Mark) (hm : m = some e)
    (hstep : Accounts.step accounts e = some accounts') (h : Stands db' accounts') :
    Follows accounts m db' := by
  rw [hm]
  exact ⟨accounts', Machine.exec_singleton.mpr hstep, h⟩

/-- A change of one row and of its account. -/
theorem Stands.update {id : Int} {a : Option (Accounts.Account (Bytes × Bytes) Uuid)}
    (row : Option UserRow) (h : Stands db accounts)
    (hfind : ∀ k, db'.users.find k = if k = id then row else db.users.find k)
    (hrow : RowAccount row a) : Stands db' (Function.update accounts id a) := by
  intro k
  rw [hfind, Function.update_apply]
  split
  · exact hrow
  · exact h k

/-- The mark of a registration is read off its reply. -/
theorem mark_register {username password : Bytes}
    (hfind : findCallBack job.msgId = some .register)
    (hname : (lib.parse job.msgData).2.field "username" = .ok username)
    (hpass : (lib.parse job.msgData).2.field "password" = .ok password) (s : Sent) :
    mark lib job [s] =
      if s.code = some codeRegisterSuccess then
        (s.int "id").map fun id => .registered id (username, password)
      else none := by
  simp only [mark, hfind, hname, hpass, List.find?_cons, List.find?_nil]
  by_cases hcode : s.code = some codeRegisterSuccess
  · simp only [hcode, decide_true, if_pos, Option.bind_some]
    cases s.int "id" <;> rfl
  · simp only [hcode, decide_false, if_neg, not_false_eq_true]
    rfl

theorem int_registerResponse (lib : JsonLib) (session : Uuid) (msgId : Int) (user : User) :
    (Sent.reply lib session msgId (registerResponse user)).int "id" = some user.id := rfl

theorem follows_register {username password : Bytes} {done : Bool} (h : Stands db accounts)
    (hdb : ∀ i, (job.env i).Succeeds) (hfind : findCallBack job.msgId = some .register)
    (hname : (lib.parse job.msgData).2.field "username" = .ok username)
    (hpass : (lib.parse job.msgData).2.field "password" = .ok password)
    (hinsert : transact (job.env 0) db (insertPrepare (job.env 0).autoId username password) =
      .ok (db', done))
    (hnul : ∀ id, m = some (.registered id (username, password)) → 0 ∉ username ∧ 0 ∉ password)
    (hm : m = mark lib job [.reply lib job.session job.msgId
      (if done then registerResponse { User.default with id := (job.env 0).autoId }
        else response codeRegisterFailed "msg" "register failed")]) :
    Follows accounts m db' := by
  rcases transact_ok hinsert with ⟨rfl, rfl⟩ | ⟨rfl, hc, hx, stmt, new, hstmt, hnew, -⟩
  · refine .stay h ?_
    rw [hm, mark_register hfind hname hpass]
    exact if_neg (by rw [if_neg (by decide), code_response]; decide)
  · rw [hstmt] at hinsert
    obtain ⟨hu, hp, rfl⟩ := insertPrepare_ok.mp hstmt
    obtain rfl := transact_written hinsert hc hx hnew (Or.inl (hdb 0).commit)
    have hmark : m = some (.registered (job.env 0).autoId (username, password)) := by
      rw [hm, mark_register hfind hname hpass, if_pos rfl, code_registerResponse, if_pos rfl,
        int_registerResponse]
      rfl
    obtain ⟨hnu, hnp⟩ := hnul _ hmark
    obtain ⟨row, hid, hrowName, hrowPass, hstate, huuid, hrows, -⟩ := insertUser_eq_some hnew
    have hrn : row.name = username := by rw [bindString_inv hrowName, cStr_of_nulFree hnu]
    have hrp : row.password = password := by rw [bindString_inv hrowPass, cStr_of_nulFree hnp]
    rw [cStr_of_nulFree hnu] at hu
    rw [cStr_of_nulFree hnp] at hp
    have hfresh : accounts (job.env 0).autoId = none := by
      have hrow := h (job.env 0).autoId
      rw [Table.find_eq_none.mpr fun s hs => hid ▸ (Table.insert_eq_some hrows).2 s hs] at hrow
      generalize accounts (job.env 0).autoId = a at hrow
      cases hrow
      rfl
    refine .step _ hmark (Accounts.step_registered hfresh) (h.update (some row) ?_ ?_)
    · intro k
      rw [Table.find_insert hrows, hid]
    · have hacc : RowAccount (some row) (some ⟨(row.name, row.password), none⟩) :=
        .offline (by rw [hrn]; exact ⟨hu, hnu⟩) (by rw [hrp]; exact ⟨hp, hnp⟩)
          (Option.some.inj hstate).symm huuid
      rwa [hrn, hrp] at hacc

theorem mark_login {id : Int} {username password : Bytes}
    (hfind : findCallBack job.msgId = some .login)
    (hid : (lib.parse job.msgData).2.idField "id" = .ok id)
    (hname : (lib.parse job.msgData).2.field "username" = .ok username)
    (hpass : (lib.parse job.msgData).2.field "password" = .ok password) (s : Sent) :
    mark lib job [s] =
      if s.code = some codeLoginSuccess then
        some (.loggedIn id job.session (username, password))
      else none := by
  simp [mark, hfind, hid, hname, hpass]

/-- An accepted login meets an account that is free, with the credentials the
client showed. -/
theorem accepted_account {o : Outcome} {id : Int} {username password : Bytes} {row : UserRow}
    (h : Stands db accounts) (haccepted : isLoginSuccess (queried o db id) username password = true)
    (hrow : db.users.find id = some row) :
    accounts id = some ⟨(username, password), none⟩ ∧
      RowAccount (some row) (some ⟨(username, password), none⟩) := by
  obtain ⟨row', hrow', hoffline, huser, -⟩ := accepted_row haccepted
  obtain rfl := Option.some.inj (hrow.symm.trans hrow')
  obtain ⟨-, hname, hpass, -⟩ := isLoginSuccess_iff.mp haccepted
  rw [huser] at hname hpass
  have hacc := h id
  rw [hrow] at hacc
  generalize haccount : accounts id = a at hacc
  cases hacc with
  | online name pass state uuid => exact absurd state hoffline
  | offline name pass state uuid =>
      obtain rfl : row.name = username := by
        rw [← hname]
        exact (fetchString_some name.1 name.2).symm
      obtain rfl : row.password = password := by
        rw [← hpass]
        exact (fetchString_some pass.1 pass.2).symm
      exact ⟨rfl, .offline name pass state uuid⟩

theorem follows_login {id : Int} {username password : Bytes} {done : Bool} (h : Stands db accounts)
    (hdb : ∀ i, (job.env i).Succeeds) (hfind : findCallBack job.msgId = some .login)
    (hid : (lib.parse job.msgData).2.idField "id" = .ok id)
    (hname : (lib.parse job.msgData).2.field "username" = .ok username)
    (hpass : (lib.parse job.msgData).2.field "password" = .ok password)
    (haccepted : isLoginSuccess (queried (job.env 0) db id) username password = true)
    (hupdate : transact (job.env 1) db (.ok fun now =>
      now.updateUser (some (ascii "online")) (some job.session.text)
        (queried (job.env 0) db id).id) = .ok (db', done)) :
    Follows accounts (mark lib job [.reply lib job.session job.msgId
      (response codeLoginSuccess "msg" "login success")]) db' := by
  obtain ⟨row, hrow, -, -, hqid⟩ := accepted_row haccepted
  obtain ⟨haccount, hacc⟩ := accepted_account h haccepted hrow
  have hfindRow := transact_updated hupdate (hdb 1).connect (hdb 1).execute
    (Or.inl (hdb 1).commit)
  rw [hqid, hrow] at hfindRow
  refine .step (.loggedIn id job.session (username, password)) ?_
    (Accounts.step_loggedIn haccount) (h.update _ hfindRow ?_)
  · rw [mark_login hfind hid hname hpass, code_response, if_pos rfl]
  · cases hacc with
    | offline name pass state uuid => exact .online name pass rfl rfl

theorem follows_logout {id : Int} {done : Bool} (h : Stands db accounts)
    (hdb : ∀ i, (job.env i).Succeeds) (hfind : findCallBack job.msgId = some .logout)
    (hid : (lib.parse job.msgData).2.idField "id" = .ok id)
    (hupdate : transact (job.env 0) db (.ok fun now =>
      now.updateUser (some (ascii "offline")) none id) = .ok (db', done)) :
    Follows accounts (mark lib job []) db' := by
  have hfindRow := transact_updated hupdate (hdb 0).connect (hdb 0).execute
    (Or.inl (hdb 0).commit)
  refine .step (.loggedOut id) ?_ rfl (h.update _ hfindRow ?_)
  · simp [mark, hfind, hid]
  · have hacc := h id
    generalize db.users.find id = r at hacc
    generalize accounts id = a at hacc
    cases hacc with
    | none => exact .none
    | offline name pass => exact .offline name pass rfl rfl
    | online name pass => exact .offline name pass rfl rfl

/-- A message takes the service along. -/
theorem Processed.follows
    (hproc : Processed lib job.env db job.session job.msgId job.msgData db' sent)
    (h : Stands db accounts) (hdb : ∀ i, (job.env i).Succeeds)
    (hnul : ∀ id username password, mark lib job sent = some (.registered id (username, password)) →
      0 ∉ username ∧ 0 ∉ password) :
    Follows accounts (mark lib job sent) db' := by
  cases hproc with
  | other hregister hlogin hlogout haddFriend =>
      refine .stay h ?_
      unfold mark
      split <;> simp_all
  | register find name pass insert =>
      exact follows_register h hdb find name pass insert (fun id hm => hnul id _ _ hm) rfl
  | loginRefused find idField name pass refused =>
      refine .stay h ?_
      rw [mark_login find idField name pass, code_response]
      exact if_neg (by decide)
  | login find idField name pass accepted update =>
      exact follows_login h hdb find idField name pass accepted update
  | logout find idField update => exact follows_logout h hdb find idField update
  | addFriend find idField friendidField insert =>
      have husers : db'.users = db.users := by
        rcases transact_db insert with rfl | hins
        · rfl
        · exact insertFriend_users hins
      refine .stay (fun id => ?_) ?_
      · rw [husers]
        exact h id
      · simp [mark, find]

end

theorem historyStep_recorded {lib : JsonLib} {s s' : World × List Mark} {job : Job}
    (h : Recorded s) (hdb : ∀ i, (job.env i).Succeeds) (hstep : historyStep lib s job = some s') :
    Recorded s' := by
  obtain ⟨w, marks⟩ := s
  obtain ⟨w', hjob, rfl⟩ := Option.map_eq_some_iff.mp hstep
  intro hnul
  obtain ⟨accounts, hrun, hstands⟩ := h fun id username password hmem =>
    hnul id username password (List.mem_append_left _ hmem)
  obtain ⟨-, sent, hsent, hproc⟩ := process_ok (jobStep_eq_some.mp hjob)
  obtain ⟨accounts', hlast, hstands'⟩ := hproc.follows hstands hdb fun id username password hm =>
    hnul id username password (List.mem_append_right _ (by rw [replies_eq hsent, hm]; simp))
  refine ⟨accounts', Machine.exec_append.mpr ⟨accounts, hrun, ?_⟩, hstands'⟩
  rwa [replies_eq hsent]

/-! ## Runs -/

/-- What a history of logins and the table it led to must satisfy. -/
structure LoginsSound (db : Db) (marks : List Mark) : Prop where
  exclusive : ∀ before between after id s s' c c',
    marks = before ++ .loggedIn id s c :: (between ++ .loggedIn id s' c' :: after) →
      .loggedOut id ∈ between
  online : ∀ row ∈ db.users.rows, row.state = ascii "online" ↔
    ∃ s c, Accounts.last row.id marks = some (.loggedIn row.id s c)
  uuid : ∀ row ∈ db.users.rows, ∀ s c,
    Accounts.last row.id marks = some (.loggedIn row.id s c) → row.uuid = some s.text
  authenticated : ∀ before after id s c, marks = before ++ .loggedIn id s c :: after →
    .registered id c ∈ before ∧ ∀ c', .registered id c' ∈ marks → c' = c

theorem loginsSound_of_stands {db : Db} {marks : List Mark}
    {accounts : Int → Option (Accounts.Account (Bytes × Bytes) Uuid)}
    (hrun : Machine.exec Accounts.step Accounts.start marks = some accounts)
    (h : Stands db accounts) : LoginsSound db marks := by
  have howner : ∀ row ∈ db.users.rows, ∃ a, accounts row.id = some a ∧
      RowAccount (some row) (some a) := by
    intro row hrow
    have hacc := h row.id
    rw [Table.find_self hrow] at hacc
    generalize accounts row.id = a at hacc
    cases hacc with
    | offline name pass state uuid => exact ⟨_, rfl, .offline name pass state uuid⟩
    | online name pass state uuid => exact ⟨_, rfl, .online name pass state uuid⟩
  refine ⟨?_, fun row hrow => ?_, fun row hrow s c hlast => ?_, ?_⟩
  · rintro before between after id s s' c c' rfl
    exact Accounts.exclusive hrun
  · obtain ⟨a, ha, hacc⟩ := howner row hrow
    have hlast := Accounts.owner_iff_last hrun row.id a ha
    cases hacc with
    | offline name pass state uuid =>
        refine iff_of_false (by rw [state]; decide) ?_
        rintro ⟨s, c, hs⟩
        cases (hlast s).mpr ⟨c, hs⟩
    | online name pass state uuid => exact iff_of_true state ⟨_, (hlast _).mp rfl⟩
  · obtain ⟨a, ha, hacc⟩ := howner row hrow
    have howned := (Accounts.owner_iff_last hrun row.id a ha s).mpr ⟨c, hlast⟩
    cases hacc with
    | offline => cases howned
    | online name pass state uuid => rw [uuid, Option.some.inj howned]
  · rintro before after id s c rfl
    exact Accounts.authenticated hrun

/-- In every run of the worker from empty tables logins are exclusive and
authenticated. -/
theorem logins_sound (lib : JsonLib) (w₀ : World) (collation : Bytes → Bytes)
    (hempty : w₀.db = .empty collation) (jobs : List Job)
    (hdb : ∀ job ∈ jobs, ∀ i, (job.env i).Succeeds) (w : World) (marks : List Mark)
    (hrun : Machine.exec (historyStep lib) (w₀, []) jobs = some (w, marks))
    (hnul : NulFree marks) : LoginsSound w.db marks := by
  have hrecorded : Recorded (w, marks) :=
    Machine.exec_invariant_of (L := fun job : Job => ∀ i, (job.env i).Succeeds)
      (fun _ _ _ h hdb hstep => historyStep_recorded h hdb hstep)
      (start_recorded hempty) hdb hrun
  obtain ⟨accounts, hhistory, hstands⟩ := hrecorded hnul
  exact loginsSound_of_stands hhistory hstands

/-- A user registers, logs in, and tries once more. -/
def twoLogins : List Job :=
  [⟨fun _ => .good 1, .first, msgRegister, registerText⟩,
    ⟨fun _ => .good 1, .first, msgLogin, loginText⟩,
    ⟨fun _ => .good 1, .second, msgLogin, loginText⟩]

/-- The second login is refused and leaves no mark. -/
def twoLoginsMarks : List Mark :=
  [.registered 1 (ascii "amy", ascii "pw"), .loggedIn 1 .first (ascii "amy", ascii "pw")]

theorem logins_sound_two :
    ∃ w, Machine.exec (historyStep scene) (.start (.empty id), []) twoLogins =
      some (w, twoLoginsMarks) ∧ LoginsSound w.db twoLoginsMarks := by
  obtain ⟨w, hrun⟩ : ∃ w, Machine.exec (historyStep scene) (.start (.empty id), []) twoLogins =
      some (w, twoLoginsMarks) := ⟨_, rfl⟩
  refine ⟨w, hrun, logins_sound scene (.start (.empty id)) id rfl twoLogins ?_ w twoLoginsMarks
    hrun ?_⟩
  · simp [twoLogins, good_succeeds]
  · intro id username password hmem
    simp only [twoLoginsMarks, List.mem_cons, List.not_mem_nil, or_false, reduceCtorEq,
      Accounts.Event.registered.injEq, Prod.mk.injEq] at hmem
    rw [hmem.2.1, hmem.2.2]
    decide

/-! ## Other sessions -/

/-- The row of a user who is online stays as it is, whatever message comes from
whatever session, unless the message is a logout that names the user. -/
theorem online_row_kept (lib : JsonLib) (w w' : World) (job : Job)
    (hjob : jobStep lib w job = some w') (id : Int) (row : UserRow)
    (hrow : w.db.users.find id = some row) (honline : row.state = ascii "online") :
    w'.db.users.find id = some row ∨
      (findCallBack job.msgId = some .logout ∧
        (lib.parse job.msgData).2.idField "id" = .ok id ∧
        w'.db.users.find id = some { row with state := ascii "offline", uuid := none }) := by
  obtain ⟨-, sent, -, hproc⟩ := process_ok (jobStep_eq_some.mp hjob)
  have hstep := hproc.row id
  rw [hrow] at hstep
  generalize w'.db.users.find id = now at hstep
  cases hstep with
  | kept => exact Or.inl rfl
  | online find idField name pass accepted state => exact absurd honline state
  | offline find idField => exact Or.inr ⟨find, idField, rfl⟩

/-- One session registers a user and logs in, and another is connected. -/
def twoSessions : List ServerEvent :=
  [.accept .first, .accept .second,
    .process ⟨fun _ => .good 1, .first, msgRegister, registerText⟩,
    .process ⟨fun _ => .good 1, .first, msgLogin, loginText⟩]

/-- The user of `twoSessions` once online. -/
def amyOnline : UserRow :=
  { amy with state := ascii "online", uuid := some (Uuid.first).text }

/-- A message of the other session that is no logout. -/
theorem online_row_kept_login :
    ∃ s s', Machine.exec (serverStep scene) (.start (.empty id)) twoSessions = some s ∧
      jobStep scene s.world ⟨fun _ => .good 1, .second, msgLogin, loginText⟩ = some s' ∧
      (s'.db.users.find 1 = some amyOnline ∨
        (findCallBack msgLogin = some .logout ∧
          (scene.parse loginText).2.idField "id" = .ok 1 ∧
          s'.db.users.find 1 =
            some { amyOnline with state := ascii "offline", uuid := none })) := by
  obtain ⟨s, s', hrun, hjob, hrow⟩ : ∃ s s',
      Machine.exec (serverStep scene) (.start (.empty id)) twoSessions = some s ∧
      jobStep scene s.world ⟨fun _ => .good 1, .second, msgLogin, loginText⟩ = some s' ∧
      s.world.db.users.find 1 = some amyOnline := ⟨_, _, rfl, rfl, rfl⟩
  exact ⟨s, s', hrun, hjob, online_row_kept scene s.world s' _ hjob 1 amyOnline hrow rfl⟩

/-- A logout of the other session that names the user. -/
theorem online_row_not_kept :
    ¬ ∀ (lib : JsonLib) (events : List ServerEvent) (s s' : ServerState) (job : Job) (id : Int)
      (row : UserRow) (owner : Uuid),
      Machine.exec (serverStep lib) (.start (.empty fun name => name)) events = some s →
      s.world.db.users.find id = some row → row.state = ascii "online" →
      row.uuid = some owner.text → job.session ≠ owner →
      serverStep lib s (.process job) = some s' → s'.world.db.users.find id = some row := by
  intro hall
  obtain ⟨s, s', hrun, hstep, hrow, hrow'⟩ : ∃ s s',
      Machine.exec (serverStep scene) (.start (.empty fun name => name)) twoSessions = some s ∧
      serverStep scene s (.process ⟨fun _ => .good 1, .second, msgLogout, logoutText⟩) =
        some s' ∧
      s.world.db.users.find 1 = some amyOnline ∧ s'.world.db.users.find 1 = some amy :=
    ⟨_, _, rfl, rfl, rfl, rfl⟩
  have hother : Uuid.second ≠ Uuid.first := by decide
  have hkept := hall scene twoSessions s s' _ 1 amyOnline .first hrun hrow rfl rfl hother hstep
  rw [hrow'] at hkept
  exact absurd hkept (by decide)

end AsioServer
