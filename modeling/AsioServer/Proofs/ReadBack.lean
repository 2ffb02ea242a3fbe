import AsioServer.Proofs.Replies

/-!
# What the model functions read

A query copies columns into arrays of its caller and builds strings from the
arrays. A string comes back as it was written only if the fetch writes all of
its bytes and a terminator: `fetchString_eq_iff` says when it does so over any
memory. `updateState` binds an empty uuid as NULL, which a fetch does not
write at all, so what is read is whatever the array held
(`updateState_read_back`).

`FriendModel::query` binds its arrays only after `execute`, inside a loop whose
condition is the negation of the one meant: the first row ends it, and without
a row it does not end (`friends_never_listed`).
-/

namespace AsioServer

/-! ## Columns -/

/-- A column is read as its bytes, whatever the array held, exactly when they
leave room for a terminator and have none among them. -/
theorem fetchString_eq_iff {size : Nat} {v : Bytes} :
    (∀ stack, fetchString size stack (some v) = v) ↔ v.length < size ∧ 0 ∉ v := by
  constructor
  · intro h
    by_cases hfits : v.length < size ∨ 0 ∈ v.take size
    · have hread : cStr (v.take size) = v := by
        have hv := h []
        rwa [fetchString, if_pos hfits] at hv
      have hnul : 0 ∉ v := by
        rw [← hread]
        intro hmem
        exact absurd (List.mem_takeWhile_imp hmem) (by decide)
      refine ⟨hfits.resolve_right fun hmem => hnul (List.mem_of_mem_take hmem), hnul⟩
    · have hread : ∀ stack, (v.take size ++ stack).length = v.length := by
        intro stack
        have hv := h stack
        rw [fetchString, if_neg hfits] at hv
        rw [hv]
      have hnone := hread []
      have hone := hread [0]
      simp only [List.length_append, List.length_nil, List.length_singleton] at hnone hone
      omega
  · exact fun ⟨hlen, hnul⟩ stack => fetchString_some hlen hnul

/-- The states the server writes. -/
def serverStates : List Bytes := [ascii "online", ascii "offline"]

/-- A state or uuid that the parameters of `updateState` carry whole. -/
theorem updateState_bound {o : Outcome} {db : Db} {user : User}
    (hstate : user.state ∈ serverStates) (hlen : user.uuid.length < 50) (hnul : 0 ∉ user.uuid) :
    UserModel.updateState o db user = transact o db (.ok fun now =>
      now.updateUser (some user.state) (bindString user.uuid) user.id) := by
  have hstates : ∀ s ∈ serverStates, (cStr s).length < 10 ∧ bindString (cStr s) = some s := by
    decide
  obtain ⟨hshort, hbound⟩ := hstates user.state hstate
  rw [updateState_eq o db user hshort (by rw [cStr_of_nulFree hnul]; exact hlen), hbound,
    cStr_of_nulFree hnul]

/-- The row of an update that was committed. -/
theorem updateState_row {o : Outcome} {db db' : Db} {user : User} {row : UserRow}
    (hstate : user.state ∈ serverStates) (hlen : user.uuid.length < 50) (hnul : 0 ∉ user.uuid)
    (hrow : db.users.find user.id = some row) (hcommit : o.commit = true)
    (hupdate : UserModel.updateState o db user = .ok (db', true)) :
    db'.users.find user.id =
      some { row with state := user.state, uuid := bindString user.uuid } := by
  rw [updateState_bound hstate hlen hnul] at hupdate
  obtain ⟨hconnect, hexecute, -⟩ := (transact_done hupdate).mp rfl
  rw [transact_updated hupdate hconnect hexecute (Or.inl hcommit), if_pos rfl, hrow]
  rfl

/-! ## Reading back an update -/

/-- A query returns the user of the row it found. -/
theorem query_found {o : Outcome} (ho : o.Succeeds) {db : Db} {id : Int} {row : UserRow}
    (hrow : db.users.find id = some row) :
    UserModel.query o db id = .ok (User.fetched o.stack row) := by
  rw [query_eq, queried, ho.connect, ho.execute, ho.fetch, hrow]
  rfl

/-- After an update that succeeded a query returns the user with what was
written, whatever its arrays held, exactly when the uuid written is not empty
and the name and the password of the row fit their arrays. -/
theorem updateState_read_back (o : Outcome) (db db' : Db) (user : User) (row : UserRow)
    (hstate : user.state ∈ serverStates) (hlen : user.uuid.length ≤ 49) (hnul : 0 ∉ user.uuid)
    (hrow : db.users.find user.id = some row) (hcommit : o.commit = true)
    (hupdate : UserModel.updateState o db user = .ok (db', true)) :
    (∀ o' : Outcome, o'.Succeeds → UserModel.query o' db' user.id =
        .ok ⟨user.id, row.name, row.password, user.state, user.uuid⟩) ↔
      user.uuid ≠ [] ∧ (row.name.length < 50 ∧ 0 ∉ row.name) ∧
        (row.password.length < 50 ∧ 0 ∉ row.password) := by
  have hfound := updateState_row hstate (by omega) hnul hrow hcommit hupdate
  have hid : row.id = user.id := (Table.find_eq_some.mp hrow).2
  have hstates : ∀ s ∈ serverStates, s.length < 10 ∧ 0 ∉ s := by decide
  obtain ⟨hshort, hstateNul⟩ := hstates user.state hstate
  have hquery : ∀ o' : Outcome, o'.Succeeds → UserModel.query o' db' user.id =
      .ok ⟨user.id, fetchString 50 (o'.stack 2) (some row.name),
        fetchString 50 (o'.stack 3) (some row.password), user.state,
        fetchString 50 (o'.stack 5) (bindString user.uuid)⟩ := by
    intro o' ho'
    rw [query_found ho' hfound, User.fetched, fetchString_some hshort hstateNul, hid]
  constructor
  · intro hread
    -- a query over any memory, on a day when all calls succeed
    have hstack : ∀ stack, fetchString 50 stack (some row.name) = row.name ∧
        fetchString 50 stack (some row.password) = row.password ∧
        fetchString 50 stack (bindString user.uuid) = user.uuid := by
      intro stack
      have ho' : Outcome.Succeeds { Outcome.good 1 with stack := fun _ => stack } :=
        ⟨rfl, rfl, rfl, rfl⟩
      have huser := Except.ok.inj ((hquery _ ho').symm.trans (hread _ ho'))
      simp only [User.mk.injEq, true_and] at huser
      exact huser
    refine ⟨fun hempty => ?_, fetchString_eq_iff.mp fun stack => (hstack stack).1,
      fetchString_eq_iff.mp fun stack => (hstack stack).2.1⟩
    -- NULL leaves the array as it was
    have hleft := (hstack [0]).2.2
    rw [hempty] at hleft
    exact absurd hleft (by decide)
  · rintro ⟨hne, hname, hpass⟩ o' ho'
    rw [hquery o' ho', fetchString_some hname.1 hname.2, fetchString_some hpass.1 hpass.2,
      bindString_of_ne_nil hne, fetchString_some (by omega) hnul]

/-- A login of the one user of a small database. -/
def amyLogin : User := ⟨1, ascii "amy", ascii "pw", ascii "online", (Uuid.first).text⟩

theorem updateState_read_back_login :
    ∃ db', UserModel.updateState (.good 1) (.single amy) amyLogin = .ok (db', true) ∧
      ((∀ o' : Outcome, o'.Succeeds → UserModel.query o' db' 1 = .ok amyLogin) ↔
        amyLogin.uuid ≠ [] ∧ (amy.name.length < 50 ∧ 0 ∉ amy.name) ∧
          (amy.password.length < 50 ∧ 0 ∉ amy.password)) := by
  obtain ⟨db', hupdate⟩ : ∃ db',
      UserModel.updateState (.good 1) (.single amy) amyLogin = .ok (db', true) := ⟨_, rfl⟩
  exact ⟨db', hupdate, updateState_read_back (.good 1) (.single amy) db' amyLogin amy (by decide)
    (by decide) (by decide) rfl rfl hupdate⟩

/-- A logout, read back over memory that holds one byte. -/
theorem logout_not_read_back :
    ¬ ∀ (o o' : Outcome) (db db' : Db) (user : User) (row : UserRow),
      o.Succeeds → o'.Succeeds → user.state ∈ serverStates → user.uuid.length ≤ 49 →
      0 ∉ user.uuid → db.users.find user.id = some row →
      UserModel.updateState o db user = .ok (db', true) →
      UserModel.query o' db' user.id =
        .ok ⟨user.id, row.name, row.password, user.state, user.uuid⟩ := by
  intro hall
  have ho' : Outcome.Succeeds { Outcome.good 1 with stack := fun _ => [65] } :=
    ⟨rfl, rfl, rfl, rfl⟩
  have hread := hall (.good 1) { Outcome.good 1 with stack := fun _ => [65] } (.single amy)
    (.single amy) (User.new 1 [] [] (ascii "offline") []) amy (good_succeeds 1) ho'
    (by decide) (by decide) (by decide) rfl rfl
  have huuid : ([65] : Bytes) = [] := congrArg User.uuid (Except.ok.inj hread)
  cases huuid

/-! ## Lists of friends -/

/-- The list that `FriendModel::query` is to return. -/
structure FriendsListed (db : Db) (userid : Int) (users : List User) : Prop where
  once : (users.map User.id).Nodup
  mem : ∀ k, k ∈ users.map User.id ↔ (userid, k) ∈ db.friends.rows
  shown : ∀ user ∈ users, ∃ row, db.users.find user.id = some row ∧ user.name = row.name ∧
    user.state = row.state ∧ user.uuid = row.uuid.getD []

/-- Behind the last row the loop goes on for ever. -/
theorem collect_nil (o : Outcome) (stackId : Int) :
    ∀ (rounds : Nat) (vec : List User), FriendModel.collect o stackId rounds [] vec = none := by
  intro rounds
  induction rounds with
  | zero => intro vec; rfl
  | succ rounds ih =>
      intro vec
      have hrc : (Sqlstatement.next o []).1 ≠ 0 := by
        rw [Sqlstatement.next]
        cases o.fetch <;> decide
      rw [FriendModel.collect]
      simp only [if_pos hrc]
      exact ih _

/-- And the first row ends it. -/
theorem collect_cons {o : Outcome} (hfetch : o.fetch = true) (stackId : Int) (rounds : Nat)
    (row : UserRow) (rows : List UserRow) (vec : List User) :
    FriendModel.collect o stackId (rounds + 1) (row :: rows) vec = some vec := by
  rw [FriendModel.collect, Sqlstatement.next, if_pos hfetch]
  rfl

/-- A friend is a row of the result set. -/
theorem mem_friendRows {db : Db} {userid k : Int} :
    (∃ row ∈ db.friendRows userid, row.id = k) ↔ (userid, k) ∈ db.friends.rows := by
  unfold Db.friendRows
  constructor
  · rintro ⟨row, hrow, rfl⟩
    simpa using (List.mem_filter.mp hrow).2
  · intro hfriend
    obtain ⟨row, hrow⟩ := Option.isSome_iff_exists.mp (db.foreign _ hfriend).2
    obtain ⟨hmem, hid⟩ := Table.find_eq_some.mp hrow
    refine ⟨row, List.mem_filter.mpr ⟨hmem, ?_⟩, hid⟩
    rw [hid]
    exact decide_eq_true hfriend

/-- Without friends the query does not return, whatever rounds it is granted. -/
theorem friendQuery_nil {o : Outcome} (ho : o.Succeeds) (stackId : Int) (rounds : Nat) {db : Db}
    {userid : Int} (hrows : db.friendRows userid = []) :
    FriendModel.query o stackId rounds db userid = .ok none := by
  unfold FriendModel.query connecttodb
  rw [if_pos ho.connect, ho.execute, hrows, collect_nil]
  rfl

/-- What the query makes of its result set if it returns: nothing. -/
theorem friendQuery_ok {o : Outcome} (ho : o.Succeeds) {stackId : Int} {rounds : Nat} {db : Db}
    {userid : Int} {users : List User}
    (h : FriendModel.query o stackId rounds db userid = .ok (some users)) :
    users = [] ∧ db.friendRows userid ≠ [] := by
  cases hrows : db.friendRows userid with
  | nil =>
      rw [friendQuery_nil ho stackId rounds hrows] at h
      cases h
  | cons row rows =>
      unfold FriendModel.query connecttodb at h
      rw [if_pos ho.connect, ho.execute, hrows] at h
      cases rounds with
      | zero => cases h
      | succ rounds =>
          rw [collect_cons ho.fetch] at h
          cases h
          exact ⟨rfl, by simp⟩

/-- The query never returns the list of friends: with friends it returns the
empty list, and without friends it does not return. -/
theorem friends_never_listed (o : Outcome) (ho : o.Succeeds) (stackId : Int) (db : Db)
    (userid : Int) :
    ¬ ∃ rounds users, FriendModel.query o stackId rounds db userid = .ok (some users) ∧
      FriendsListed db userid users := by
  rintro ⟨rounds, users, hquery, hlisted⟩
  obtain ⟨rfl, hrows⟩ := friendQuery_ok ho hquery
  obtain ⟨row, hrow⟩ := List.exists_mem_of_ne_nil _ hrows
  have hfriend := mem_friendRows.mp ⟨row, hrow, rfl⟩
  exact absurd ((hlisted.mem row.id).mpr hfriend) List.not_mem_nil

/-- A user whose friend is in the table: the empty list is no answer. -/
theorem friends_never_listed_ben :
    Db.friends2.friendRows 1 = [ben] ∧
    ¬ ∃ rounds users, FriendModel.query (.good 1) 0 rounds .friends2 1 = .ok (some users) ∧
      FriendsListed .friends2 1 users :=
  ⟨by decide, friends_never_listed (.good 1) (good_succeeds 1) 0 .friends2 1⟩

/-- A user without friends. -/
theorem friends_not_listed :
    ¬ ∀ (o : Outcome) (stackId : Int) (db : Db) (userid : Int), o.Succeeds →
      ∃ rounds users, FriendModel.query o stackId rounds db userid = .ok (some users) ∧
        FriendsListed db userid users := by
  intro hall
  obtain ⟨rounds, users, hquery, -⟩ := hall (.good 1) 0 (.single amy) 1 (good_succeeds 1)
  rw [friendQuery_nil (good_succeeds 1) 0 rounds rfl] at hquery
  cases hquery

end AsioServer
