import AsioServer.Proofs.Logins

/-!
# Credentials from registration to login

A registration copies the name and the password with `strcpy`, so the row holds
what stands before their first NUL, and a text of fifty bytes or more leaves
its array. A login compares the row with the whole texts of the request. While
no login or logout names the user, nothing writes the row, so the two comparisons
that matter are the request with what was registered and the request with what
is left of that before a NUL (`credentials_kept`).
-/

namespace AsioServer

/-- A registration of a name and a password, on a day when MySQL succeeds. -/
structure Registers (lib : JsonLib) (job : Job) (username password : Bytes) : Prop where
  find : findCallBack job.msgId = some .register
  name : (lib.parse job.msgData).2.field "username" = .ok username
  pass : (lib.parse job.msgData).2.field "password" = .ok password
  succeeds : ∀ i, (job.env i).Succeeds

/-- A login, on such a day. -/
structure LogsIn (lib : JsonLib) (job : Job) (id : Int) (username password : Bytes) : Prop where
  find : findCallBack job.msgId = some .login
  idField : (lib.parse job.msgData).2.idField "id" = .ok id
  name : (lib.parse job.msgData).2.field "username" = .ok username
  pass : (lib.parse job.msgData).2.field "password" = .ok password
  succeeds : ∀ i, (job.env i).Succeeds

/-- A login or logout is processed that has the user's id. -/
def Names (lib : JsonLib) (id : Int) : ServerEvent → Prop
  | .process job =>
      (findCallBack job.msgId = some .login ∨ findCallBack job.msgId = some .logout) ∧
        (lib.parse job.msgData).2.idField "id" = .ok id
  | _ => False

/-- A registration was reported as a success, with this id. -/
def RegisteredAs (w w' : World) (id : Int) : Prop :=
  ∃ s ∈ w.replies w', s.code = some codeRegisterSuccess ∧ s.int "id" = some id

/-- A message is answered by one reply, with this code. -/
def RepliesWith (lib : JsonLib) (w : World) (job : Job) (code : Int) : Prop :=
  ∃ w' s, jobStep lib w job = some w' ∧ w.replies w' = [s] ∧ s.code = some code

/-- What a registration leaves of a user. -/
structure Enrolled (db : Db) (id : Int) (username password : Bytes) (row : UserRow) : Prop where
  find : db.users.find id = some row
  found : id ≠ -1
  name : row.name = cStr username
  pass : row.password = cStr password
  short : (cStr username).length < 50 ∧ (cStr password).length < 50
  state : row.state = ascii "offline"

/-! ## Registration -/

/-- With MySQL succeeding a registration returns exactly when its texts fit the
arrays they are copied to. -/
theorem register_isOk {lib : JsonLib} (hlib : lib.StylesPlain) {job : Job}
    {username password : Bytes} (hreg : Registers lib job username password) (w : World) :
    (∃ w', jobStep lib w job = some w') ↔
      (cStr username).length < 50 ∧ (cStr password).length < 50 := by
  have hreturns : ∀ applies, (job.env 0).Returns applies :=
    fun _ _ _ _ => Or.inl (hreg.succeeds 0).commit
  have hcall : (∃ w', jobStep lib w job = some w') ↔
      ∃ w', registerCallBack lib job.env w job.session job.msgId job.msgData = .ok w' := by
    simp only [jobStep_eq_some, World.process, hreg.find]
    rfl
  rw [hcall, registerCallBack_isOk hlib]
  constructor
  · rintro ⟨u, p, hu, hp, hshort, -⟩
    obtain rfl := Except.ok.inj (hreg.name.symm.trans hu)
    obtain rfl := Except.ok.inj (hreg.pass.symm.trans hp)
    exact hshort (hreg.succeeds 0).connect
  · exact fun hshort => ⟨username, password, hreg.name, hreg.pass, fun _ => hshort, hreturns _⟩

/-- A registration that was reported as a success left its row. -/
theorem registered_row {lib : JsonLib} {job : Job} {username password : Bytes} {w w' : World}
    {id : Int} (hreg : Registers lib job username password)
    (hjob : jobStep lib w job = some w') (has : RegisteredAs w w' id) :
    ∃ row, Enrolled w'.db id username password row := by
  obtain ⟨-, sent, hsent, hproc⟩ := process_ok (jobStep_eq_some.mp hjob)
  obtain ⟨s, hs, hcode, hid⟩ := has
  rw [replies_eq hsent] at hs
  obtain ⟨done, insert, rfl⟩ := hproc.registered hreg.find hreg.name hreg.pass
  obtain rfl := List.mem_singleton.mp hs
  rcases transact_ok insert with ⟨rfl, -⟩ | ⟨rfl, hc, hx, stmt, new, hstmt, hnew, -⟩
  · rw [if_neg (by decide), code_response] at hcode
    cases hcode
  · rw [if_pos rfl, int_registerResponse] at hid
    obtain rfl := Option.some.inj hid
    rw [hstmt] at insert
    obtain ⟨hu, hp, rfl⟩ := insertPrepare_ok.mp hstmt
    have hdb := transact_written insert hc hx hnew (Or.inl (hreg.succeeds 0).commit)
    obtain ⟨row, hrow, hname, hpass, hstate, -, hrows, hpos, -⟩ := insertUser_eq_some hnew
    refine ⟨row, ?_, ?_, bindString_inv hname, bindString_inv hpass, ⟨hu, hp⟩,
      (Option.some.inj hstate).symm⟩
    · rw [hdb, Table.find_insert hrows, if_pos hrow.symm]
    · show (job.env 0).autoId ≠ -1
      omega

/-! ## In between -/

/-- A step that does not name a user leaves the row. -/
theorem row_unnamed {lib : JsonLib} {s s' : ServerState} {e : ServerEvent} {id : Int}
    {row : UserRow} (hrow : s.world.db.users.find id = some row) (hunnamed : ¬ Names lib id e)
    (hstep : serverStep lib s e = some s') : s'.world.db.users.find id = some row := by
  rcases serverStep_db hstep with hdb | ⟨job, sent, rfl, hproc⟩
  · rw [hdb]
    exact hrow
  · have hrowStep := hproc.row id
    rw [hrow] at hrowStep
    generalize s'.world.db.users.find id = now at hrowStep
    cases hrowStep with
    | kept => rfl
    | online find idField => exact absurd ⟨Or.inl find, idField⟩ hunnamed
    | offline find idField => exact absurd ⟨Or.inr find, idField⟩ hunnamed

theorem Enrolled.unnamed {lib : JsonLib} {s s' : ServerState} {events : List ServerEvent}
    {id : Int} {username password : Bytes} {row : UserRow}
    (h : Enrolled s.world.db id username password row)
    (hunnamed : ∀ e ∈ events, ¬ Names lib id e)
    (hrun : Machine.exec (serverStep lib) s events = some s') :
    Enrolled s'.world.db id username password row := by
  have hfind : s'.world.db.users.find id = some row :=
    Machine.exec_invariant_of
      (I := fun s : ServerState => s.world.db.users.find id = some row)
      (L := fun e => ¬ Names lib id e)
      (fun _ _ _ hrow hunnamed hstep => row_unnamed hrow hunnamed hstep) h.find hunnamed hrun
  exact { h with find := hfind }

/-! ## Login -/

/-- A login to an enrolled user is answered by what its texts are to those of
the row. -/
theorem Enrolled.login {lib : JsonLib} (hlib : lib.StylesPlain) {w : World} {job : Job} {id : Int}
    {username password username' password' : Bytes} {row : UserRow}
    (h : Enrolled w.db id username password row)
    (hlogin : LogsIn lib job id username' password') :
    RepliesWith lib w job (if cStr username = username' ∧ cStr password = password' then
      codeLoginSuccess else codeLoginFailed) := by
  have hquery : queried (job.env 0) w.db id =
      ⟨id, cStr username, cStr password, ascii "offline",
        fetchString 50 ((job.env 0).stack 5) row.uuid⟩ := by
    have hcalls := hlogin.succeeds 0
    rw [queried, hcalls.connect, hcalls.execute, hcalls.fetch, h.find]
    show User.fetched _ row = _
    rw [User.fetched, h.name, h.pass, h.state, fetchString_some h.short.1 (nul_notMem_cStr _),
      fetchString_some h.short.2 (nul_notMem_cStr _), fetchString_some (by decide) (by decide),
      (Table.find_eq_some.mp h.find).2]
  have haccepted : isLoginSuccess (queried (job.env 0) w.db id) username' password' = true ↔
      cStr username = username' ∧ cStr password = password' := by
    have hstate : ascii "offline" ≠ ascii "online" := by decide
    rw [isLoginSuccess_iff, hquery]
    exact ⟨fun ⟨_, hname, hpass, _⟩ => ⟨hname, hpass⟩,
      fun ⟨hname, hpass⟩ => ⟨h.found, hname, hpass, hstate⟩⟩
  obtain ⟨w', hw'⟩ : ∃ w', w.process lib job.env job.session job.msgId job.msgData = .ok w' := by
    rw [World.process, hlogin.find]
    exact (loginCallBack_isOk hlib).mpr ⟨id, username', password', hlogin.idField, hlogin.name,
      hlogin.pass, fun _ _ _ _ => Or.inl (hlogin.succeeds 1).commit⟩
  obtain ⟨-, sent, hsent, hproc⟩ := process_ok hw'
  rcases hproc.loggedIn hlogin.find hlogin.idField hlogin.name hlogin.pass with
    ⟨hrefused, -, rfl⟩ | ⟨hyes, -, rfl⟩
  · refine ⟨w', _, jobStep_eq_some.mpr hw', replies_eq hsent, ?_⟩
    rw [code_response, if_neg (by rw [← haccepted, hrefused]; decide)]
  · refine ⟨w', _, jobStep_eq_some.mpr hw', replies_eq hsent, ?_⟩
    rw [code_response, if_pos (haccepted.mp hyes)]

/-- There is one reply, so there is one code. -/
theorem RepliesWith.code_eq {lib : JsonLib} {w : World} {job : Job} {code code' : Int}
    (h : RepliesWith lib w job code) (h' : RepliesWith lib w job code') : code = code' := by
  obtain ⟨w₁, s, hjob, hreplies, hcode⟩ := h
  obtain ⟨w₂, t, hjob', hreplies', hcode'⟩ := h'
  obtain rfl := Option.some.inj (hjob.symm.trans hjob')
  obtain rfl := (List.cons.inj (hreplies.symm.trans hreplies')).1
  exact Option.some.inj (hcode.symm.trans hcode')

/-- The texts of a request, compared with those registered and with those of
the row, agree on the answer. -/
def SameAnswer (username password username' password' : Bytes) : Prop :=
  (0 ∉ username ∧ 0 ∉ password) ∨
    ¬ (username' = username ∧ password' = password) ∧
      ¬ (username' = cStr username ∧ password' = cStr password)

theorem sameAnswer_iff {username password username' password' : Bytes} :
    SameAnswer username password username' password' ↔
      ((cStr username = username' ∧ cStr password = password') ↔
        (username' = username ∧ password' = password)) := by
  have hwhole : (0 ∉ username ∧ 0 ∉ password) ↔
      cStr username = username ∧ cStr password = password := by
    rw [cStr_eq_iff, cStr_eq_iff]
  unfold SameAnswer
  rw [hwhole]
  constructor
  · rintro (⟨hu, hp⟩ | ⟨hneq, hnrow⟩)
    · rw [hu, hp, eq_comm, @eq_comm _ password]
    · exact iff_of_false (fun h => hnrow ⟨h.1.symm, h.2.symm⟩) hneq
  · intro hiff
    by_cases heq : username' = username ∧ password' = password
    · obtain ⟨rfl, rfl⟩ := heq
      exact Or.inl (hiff.mpr ⟨rfl, rfl⟩)
    · exact Or.inr ⟨heq, fun h => heq (hiff.mp ⟨h.1.symm, h.2.symm⟩)⟩

/-! ## Both together -/

/-- A registration stays inside its arrays exactly when its texts up to their
first NUL are shorter than fifty bytes; and once it is reported as a success, a
login that follows it without a message for the user is answered by whether it
brings the same texts, exactly when there is no NUL to tell the row from them. -/
theorem credentials_kept (lib : JsonLib) (hlib : lib.StylesPlain) (s : ServerState)
    (register : Job) (username password : Bytes)
    (hreg : Registers lib register username password) :
    ((∃ s₁, serverStep lib s (.process register) = some s₁) ↔
        (cStr username).length < 50 ∧ (cStr password).length < 50) ∧
      ∀ (s₁ s₂ : ServerState) (id : Int) (events : List ServerEvent) (login : Job)
        (username' password' : Bytes),
        serverStep lib s (.process register) = some s₁ → RegisteredAs s.world s₁.world id →
        Machine.exec (serverStep lib) s₁ events = some s₂ → (∀ e ∈ events, ¬ Names lib id e) →
        LogsIn lib login id username' password' →
        (RepliesWith lib s₂.world login
            (if username' = username ∧ password' = password then codeLoginSuccess
              else codeLoginFailed) ↔
          SameAnswer username password username' password') := by
  constructor
  · rw [← register_isOk hlib hreg s.world]
    simp [serverStep]
  · intro s₁ s₂ id events login username' password' hstep has hrun hunnamed hlogin
    obtain ⟨w₁, hw₁, rfl⟩ := Option.map_eq_some_iff.mp hstep
    obtain ⟨row, hrow⟩ := registered_row hreg hw₁ has
    have hreply := (hrow.unnamed hunnamed hrun).login hlib hlogin
    have hcodes : codeLoginSuccess ≠ codeLoginFailed := by decide
    rw [sameAnswer_iff]
    constructor
    · intro hright
      have hcode := hreply.code_eq hright
      by_cases hsame : username' = username ∧ password' = password
      · rw [if_pos hsame] at hcode
        refine iff_of_true (by_contra fun hno => ?_) hsame
        rw [if_neg hno] at hcode
        exact hcodes hcode.symm
      · rw [if_neg hsame] at hcode
        refine iff_of_false (fun hyes => ?_) hsame
        rw [if_pos hyes] at hcode
        exact hcodes hcode
    · intro hiff
      rw [if_congr hiff rfl rfl] at hreply
      exact hreply

/-- A user registers, and logs in right away. -/
theorem credentials_kept_scene :
    ∃ s₁, serverStep scene (.start (.empty id))
        (.process ⟨fun _ => .good 1, .first, msgRegister, registerText⟩) = some s₁ ∧
      (RepliesWith scene s₁.world ⟨fun _ => .good 1, .second, msgLogin, loginText⟩
          (if ascii "amy" = ascii "amy" ∧ ascii "pw" = ascii "pw" then codeLoginSuccess
            else codeLoginFailed) ↔
        SameAnswer (ascii "amy") (ascii "pw") (ascii "amy") (ascii "pw")) := by
  obtain ⟨s₁, hstep, has⟩ : ∃ s₁, serverStep scene (.start (.empty id))
        (.process ⟨fun _ => .good 1, .first, msgRegister, registerText⟩) = some s₁ ∧
      RegisteredAs (World.start (.empty id)) s₁.world 1 :=
    ⟨_, rfl, _, List.mem_singleton_self _, rfl, rfl⟩
  obtain ⟨-, hlogin⟩ := credentials_kept scene (flat_stylesPlain _) (.start (.empty id))
    ⟨fun _ => .good 1, .first, msgRegister, registerText⟩ (ascii "amy") (ascii "pw")
    ⟨rfl, rfl, rfl, fun _ => good_succeeds 1⟩
  exact ⟨s₁, hstep, hlogin s₁ s₁ 1 [] ⟨fun _ => .good 1, .second, msgLogin, loginText⟩ _ _ hstep
    has rfl (fun e he => by cases he) ⟨rfl, rfl, rfl, rfl, fun _ => good_succeeds 1⟩⟩

/-- A name with a NUL in it. -/
def nulName : Bytes := ascii "amy" ++ [0, 120]

def nulRegisterText : Bytes :=
  ascii "\x7b\"username\":\"amy\\u0000x\",\"password\":\"pw\"\x7d"

def nulLoginText : Bytes :=
  ascii "\x7b\"id\":1,\"username\":\"amy\\u0000x\",\"password\":\"pw\"\x7d"

def nulScene : JsonLib := .flat
  [(nulRegisterText, .obj [(ascii "password", .str (ascii "pw")), (ascii "username", .str nulName)]),
    (nulLoginText, .obj [(ascii "id", .int 1), (ascii "password", .str (ascii "pw")),
      (ascii "username", .str nulName)])]

/-- It is registered, and the login that follows with the same texts fails. -/
theorem credentials_not_kept :
    ¬ ∀ (lib : JsonLib) (s s₁ : ServerState) (register login : Job) (username password : Bytes)
      (id : Int), lib.StylesPlain → Registers lib register username password →
      serverStep lib s (.process register) = some s₁ → RegisteredAs s.world s₁.world id →
      LogsIn lib login id username password →
      RepliesWith lib s₁.world login codeLoginSuccess := by
  intro hall
  obtain ⟨s₁, hstep, has, hfailed⟩ : ∃ s₁, serverStep nulScene (.start (.empty id))
        (.process ⟨fun _ => .good 1, .first, msgRegister, nulRegisterText⟩) = some s₁ ∧
      RegisteredAs (World.start (.empty id)) s₁.world 1 ∧
      RepliesWith nulScene s₁.world ⟨fun _ => .good 1, .first, msgLogin, nulLoginText⟩
        codeLoginFailed :=
    ⟨_, rfl, ⟨_, List.mem_singleton_self _, rfl, rfl⟩, ⟨_, _, rfl, rfl, rfl⟩⟩
  have hsuccess := hall nulScene (.start (.empty id)) s₁
    ⟨fun _ => .good 1, .first, msgRegister, nulRegisterText⟩
    ⟨fun _ => .good 1, .first, msgLogin, nulLoginText⟩ nulName (ascii "pw") 1
    (flat_stylesPlain _) ⟨rfl, rfl, rfl, fun _ => good_succeeds 1⟩ hstep has
    ⟨rfl, rfl, rfl, rfl, fun _ => good_succeeds 1⟩
  exact absurd (hsuccess.code_eq hfailed) (by decide)

end AsioServer
