import AsioServer.Proofs.Credentials
import AsioServer.Proofs.OneChat

/-!
# What a message touches

A message touches the queue of its session, the row its "id" names, the row it
registers, the friendship it adds, and, if it is a chat, the queue of the session
that the row of its user names while that row is online (`Footprint`). All of
it but the last holds of every state. A chat looks for its session under the
text that the fetch leaves of the uuid, and where the row has no uuid that text
comes from the memory of the call: `footprint_iff` says that this is the only
way out of the footprint. The rows the server writes itself are online only
with the uuid of a session, so no run from tables without an online user gets
there (`footprint_of_run`).
-/

namespace AsioServer

/-- A chat for a user whose row is online with the uuid of `u`. -/
def ChatFor (lib : JsonLib) (db : Db) (msgId : Int) (msgData : Bytes) (u : Uuid) : Prop :=
  findCallBack msgId = some .oneChat ∧ ∃ toid row,
    (lib.parse msgData).2.idField "toid" = .ok toid ∧ db.users.find toid = some row ∧
    row.state = ascii "online" ∧ row.uuid = some u.text

/-- The tables change only where the message says. -/
structure TablesKept (lib : JsonLib) (db db' : Db) (msgId : Int) (msgData : Bytes) : Prop where
  rows : ∀ id row, db.users.find id = some row →
    ∃ row', db'.users.find id = some row' ∧ row'.name = row.name ∧ row'.password = row.password
  status : ∀ id row row', db.users.find id = some row → db'.users.find id = some row' →
    row'.state ≠ row.state ∨ row'.uuid ≠ row.uuid →
    (findCallBack msgId = some .login ∨ findCallBack msgId = some .logout) ∧
      (lib.parse msgData).2.idField "id" = .ok id
  users : db'.users.rows.map UserRow.id = db.users.rows.map UserRow.id ∨
    findCallBack msgId = some .register ∧ ∃ row, db'.users.rows = db.users.rows ++ [row]
  friends : db'.friends.rows = db.friends.rows ∨
    findCallBack msgId = some .addFriend ∧ ∃ userid friendid,
      (lib.parse msgData).2.idField "id" = .ok userid ∧
      (lib.parse msgData).2.idField "friendid" = .ok friendid ∧
      db'.friends.rows = db.friends.rows ++ [(userid, friendid)]

/-- And so do the queues. -/
structure Footprint (lib : JsonLib) (w w' : World) (session : Uuid) (msgId : Int)
    (msgData : Bytes) : Prop where
  tables : TablesKept lib w.db w'.db msgId msgData
  queues : ∀ u, (w'.session u).sendQue ≠ (w.session u).sendQue →
    u = session ∨ ChatFor lib w.db msgId msgData u

/-- A chat that finds a session finds that of the row, or itself, or one whose
queue is full. -/
def ChatNamesRow (lib : JsonLib) (env : Nat → Outcome) (w : World) (session : Uuid) (msgId : Int)
    (msgData : Bytes) : Prop :=
  findCallBack msgId = some .oneChat → ∀ toid row u,
    (lib.parse msgData).2.idField "toid" = .ok toid → ReadsOnline (env 0) w.db toid row →
    recipient (env 0) w.server row = some u →
    u = session ∨ maxSendque < (w.session u).sendQue.length ∨
      (row.state = ascii "online" ∧ row.uuid = some u.text)

/-! ## Tables -/

section

variable {lib : JsonLib} {env : Nat → Outcome} {db db' : Db} {session : Uuid} {msgId : Int}
  {msgData : Bytes} {sent : List Sent}

/-- A message that could do this to a row kept its name and password. -/
theorem RowStep.kept_credentials {id : Int} {row : UserRow} {now : Option UserRow}
    (h : RowStep lib env db session msgId msgData id (some row) now) :
    ∃ row', now = some row' ∧ row'.name = row.name ∧ row'.password = row.password := by
  cases h with
  | kept | online | offline => exact ⟨_, rfl, rfl, rfl⟩

/-- And had to name it to change the rest. -/
theorem RowStep.names {id : Int} {row row' : UserRow}
    (h : RowStep lib env db session msgId msgData id (some row) (some row'))
    (hchanged : row'.state ≠ row.state ∨ row'.uuid ≠ row.uuid) :
    (findCallBack msgId = some .login ∨ findCallBack msgId = some .logout) ∧
      (lib.parse msgData).2.idField "id" = .ok id := by
  cases h with
  | kept => simp at hchanged
  | online find idField => exact ⟨Or.inl find, idField⟩
  | offline find idField => exact ⟨Or.inr find, idField⟩

theorem Processed.users (h : Processed lib env db session msgId msgData db' sent) :
    db'.users.rows.map UserRow.id = db.users.rows.map UserRow.id ∨
      findCallBack msgId = some .register ∧ ∃ row, db'.users.rows = db.users.rows ++ [row] := by
  cases h with
  | other | loginRefused => exact Or.inl rfl
  | register find name pass insert =>
      rcases insertPrepare_db insert with rfl | hins
      · exact Or.inl rfl
      · obtain ⟨row, -, -, -, -, -, hrows, -⟩ := insertUser_eq_some hins
        exact Or.inr ⟨find, row, (Table.insert_eq_some hrows).1⟩
  | login find idField name pass accepted update =>
      rcases transact_db update with rfl | hupd
      · exact Or.inl rfl
      · exact Or.inl (updateUser_ids hupd)
  | logout find idField update =>
      rcases transact_db update with rfl | hupd
      · exact Or.inl rfl
      · exact Or.inl (updateUser_ids hupd)
  | addFriend find idField friendidField insert =>
      rcases transact_db insert with rfl | hins
      · exact Or.inl rfl
      · rw [insertFriend_users hins]
        exact Or.inl rfl

theorem Processed.friends (h : Processed lib env db session msgId msgData db' sent) :
    db'.friends.rows = db.friends.rows ∨
      findCallBack msgId = some .addFriend ∧ ∃ userid friendid,
        (lib.parse msgData).2.idField "id" = .ok userid ∧
        (lib.parse msgData).2.idField "friendid" = .ok friendid ∧
        db'.friends.rows = db.friends.rows ++ [(userid, friendid)] := by
  cases h with
  | other | loginRefused => exact Or.inl rfl
  | register find name pass insert =>
      rcases insertPrepare_db insert with rfl | hins
      · exact Or.inl rfl
      · obtain ⟨_, -, -, -, -, -, -, -, -, hfriends⟩ := insertUser_eq_some hins
        exact Or.inl (congrArg _ hfriends)
  | login find idField name pass accepted update =>
      rcases transact_db update with rfl | hupd
      · exact Or.inl rfl
      · obtain ⟨_, -, hfriends, -⟩ := find_updateUser hupd
        exact Or.inl (congrArg _ hfriends)
  | logout find idField update =>
      rcases transact_db update with rfl | hupd
      · exact Or.inl rfl
      · obtain ⟨_, -, hfriends, -⟩ := find_updateUser hupd
        exact Or.inl (congrArg _ hfriends)
  | addFriend find idField friendidField insert =>
      rcases transact_db insert with rfl | hins
      · exact Or.inl rfl
      · exact Or.inr ⟨find, _, _, idField, friendidField, insertFriend_rows hins⟩

theorem Processed.tablesKept (h : Processed lib env db session msgId msgData db' sent) :
    TablesKept lib db db' msgId msgData := by
  refine ⟨fun id row hrow => ?_, fun id row row' hrow hrow' => ?_, h.users, h.friends⟩
  · have hstep := h.row id
    rw [hrow] at hstep
    exact hstep.kept_credentials
  · have hstep := h.row id
    rw [hrow, hrow'] at hstep
    exact hstep.names

end

/-! ## Queues -/

section

variable {lib : JsonLib} {env : Nat → Outcome} {w w' : World} {session u : Uuid} {msgId : Int}
  {msgData : Bytes} {sents : List Sent}

/-- Whose queue a message changed. -/
theorem Outgoing.changed (hout : Outgoing lib env w session msgId msgData sents)
    (hpushes : Pushes w w' sents) (hu : (w'.session u).sendQue ≠ (w.session u).sendQue) :
    u = session ∨ findCallBack msgId = some .oneChat ∧ ∃ toid row,
      (lib.parse msgData).2.idField "toid" = .ok toid ∧ ReadsOnline (env 0) w.db toid row ∧
      recipient (env 0) w.server row = some u ∧ (w.session u).sendQue.length ≤ maxSendque := by
  have hcalled : ∃ s ∈ sents, s.session = u := by
    by_contra hno
    exact hu (hpushes.kept fun s hs heq => hno ⟨s, hs, heq⟩)
  obtain ⟨s, hs, rfl⟩ := hcalled
  cases hout with
  | silent => cases hs
  | plain | hello | refused | unheard =>
      rw [List.mem_singleton.mp hs]
      exact Or.inl rfl
  | forwarded find idField online somebody =>
      rw [List.mem_cons, List.mem_singleton] at hs
      rcases hs with rfl | rfl
      · refine Or.inr ⟨find, _, _, idField, online, somebody, Nat.le_of_not_lt fun hfull => hu ?_⟩
        exact (hpushes.takes _).of_full hfull
      · exact Or.inl rfl

/-- A chat that finds a session with room in its queue changes the queue. -/
theorem forwarded_changes (h : w.process lib env session msgId msgData = .ok w')
    (hfind : findCallBack msgId = some .oneChat) {toid : Int} {row : UserRow}
    (htoid : (lib.parse msgData).2.idField "toid" = .ok toid)
    (honline : ReadsOnline (env 0) w.db toid row)
    (hsomebody : recipient (env 0) w.server row = some u)
    (hroom : (w.session u).sendQue.length ≤ maxSendque) :
    (w'.session u).sendQue ≠ (w.session u).sendQue := by
  obtain ⟨sents, hpushes, hout⟩ := process_outgoing h
  cases hout with
  | silent hello chat | plain hello chat => exact absurd hfind chat
  | hello find =>
      rw [hfind] at find
      cases find
  | refused find idField offline =>
      obtain rfl := Except.ok.inj (htoid.symm.trans idField)
      exact absurd ⟨row, honline⟩ offline
  | unheard find idField online nobody =>
      obtain rfl := Except.ok.inj (htoid.symm.trans idField)
      obtain rfl := honline.unique online
      rw [hsomebody] at nobody
      cases nobody
  | forwarded find idField online somebody =>
      obtain rfl := Except.ok.inj (htoid.symm.trans idField)
      obtain rfl := honline.unique online
      obtain rfl := Option.some.inj (hsomebody.symm.trans somebody)
      have htakes := hpushes.takes u
      rw [List.filter_cons_of_pos (by simp)] at htakes
      exact htakes.ne_of_room hroom

end

/-! ## The footprint -/

/-- A message stays in its footprint exactly when it is no chat that finds a
session the row does not name. -/
theorem footprint_iff {lib : JsonLib} {env : Nat → Outcome} {w w' : World} {session : Uuid}
    {msgId : Int} {msgData : Bytes} (h : w.process lib env session msgId msgData = .ok w') :
    Footprint lib w w' session msgId msgData ↔ ChatNamesRow lib env w session msgId msgData := by
  obtain ⟨-, sent, -, hproc⟩ := process_ok h
  obtain ⟨sents, hpushes, hout⟩ := process_outgoing h
  constructor
  · intro hfoot hfind toid row u htoid honline hsomebody
    by_cases hfull : maxSendque < (w.session u).sendQue.length
    · exact Or.inr (Or.inl hfull)
    · have hchanged := forwarded_changes h hfind htoid honline hsomebody (Nat.le_of_not_lt hfull)
      rcases hfoot.queues u hchanged with hself | ⟨-, toid', row', htoid', hrow', hstate, huuid⟩
      · exact Or.inl hself
      · obtain rfl := Except.ok.inj (htoid.symm.trans htoid')
        obtain rfl := Option.some.inj (honline.find.symm.trans hrow')
        exact Or.inr (Or.inr ⟨hstate, huuid⟩)
  · intro hcond
    refine ⟨hproc.tablesKept, fun u hu => ?_⟩
    rcases hout.changed hpushes hu with hself | ⟨hfind, toid, row, htoid, honline, hrec, hroom⟩
    · exact Or.inl hself
    · rcases hcond hfind toid row u htoid honline hrec with hself | hfull | ⟨hstate, huuid⟩
      · exact Or.inl hself
      · omega
      · exact Or.inr ⟨hfind, toid, row, htoid, honline.find, hstate, huuid⟩

/-! ## Runs -/

/-- A step of the server keeps the name and the password of a row. -/
theorem serverStep_credentials {lib : JsonLib} {s s' : ServerState} {e : ServerEvent} {id : Int}
    {row : UserRow} (hrow : s.world.db.users.find id = some row)
    (hstep : serverStep lib s e = some s') :
    ∃ row', s'.world.db.users.find id = some row' ∧ row'.name = row.name ∧
      row'.password = row.password := by
  rcases serverStep_db hstep with hdb | ⟨job, sent, rfl, hproc⟩
  · rw [hdb]
    exact ⟨row, hrow, rfl, rfl⟩
  · exact hproc.tablesKept.rows id row hrow

/-- Whatever state a message is processed in, it stays in its footprint exactly
when it is no chat that finds a session the row does not name; and along every
run a user keeps the name and the password of the row. -/
theorem dispatch_touches (lib : JsonLib) :
    (∀ (env : Nat → Outcome) (w w' : World) (session : Uuid) (msgId : Int) (msgData : Bytes),
      w.process lib env session msgId msgData = .ok w' →
      (Footprint lib w w' session msgId msgData ↔
        ChatNamesRow lib env w session msgId msgData)) ∧
      ∀ (s s' : ServerState) (events : List ServerEvent) (id : Int) (row : UserRow),
        Machine.exec (serverStep lib) s events = some s' → s.world.db.users.find id = some row →
        ∃ row', s'.world.db.users.find id = some row' ∧ row'.name = row.name ∧
          row'.password = row.password := by
  refine ⟨fun _ _ _ _ _ _ h => footprint_iff h, fun s s' events id row hrun hrow => ?_⟩
  refine Machine.exec_invariant (I := fun s : ServerState => ∃ row',
    s.world.db.users.find id = some row' ∧ row'.name = row.name ∧ row'.password = row.password)
    (fun t e t' ht hstep => ?_) ⟨row, hrow, rfl, rfl⟩ hrun
  obtain ⟨row₁, hrow₁, hname₁, hpass₁⟩ := ht
  obtain ⟨row₂, hrow₂, hname₂, hpass₂⟩ := serverStep_credentials hrow₁ hstep
  exact ⟨row₂, hrow₂, hname₂.trans hname₁, hpass₂.trans hpass₁⟩

/-- Every row is offline, or online with the uuid of a session. -/
def OnlineNamed (db : Db) : Prop :=
  ∀ id row, db.users.find id = some row → row.state = ascii "offline" ∨
    row.state = ascii "online" ∧ ∃ u : Uuid, row.uuid = some u.text

theorem serverStep_onlineNamed {lib : JsonLib} {s s' : ServerState} {e : ServerEvent}
    (h : OnlineNamed s.world.db) (hstep : serverStep lib s e = some s') :
    OnlineNamed s'.world.db := by
  rcases serverStep_db hstep with hdb | ⟨job, sent, rfl, hproc⟩
  · rw [hdb]
    exact h
  · intro id row hrow
    have hrowStep := hproc.row id
    rw [hrow] at hrowStep
    generalize hold : s.world.db.users.find id = old at hrowStep
    cases hrowStep with
    | kept => exact h id row hold
    | added find state uuid => exact Or.inl state
    | online find idField name pass accepted state => exact Or.inr ⟨rfl, job.session, rfl⟩
    | offline find idField => exact Or.inl rfl

/-- A chat over such tables finds the session of the row. -/
theorem OnlineNamed.chatNamesRow {lib : JsonLib} {env : Nat → Outcome} {w : World}
    (h : OnlineNamed w.db) (session : Uuid) (msgId : Int) (msgData : Bytes) :
    ChatNamesRow lib env w session msgId msgData := by
  intro _ toid row u _ honline hsomebody
  rcases h toid row honline.find with hstate | ⟨hstate, v, huuid⟩
  · have hread := honline.state
    rw [hstate, fetchString_some (by decide) (by decide)] at hread
    exact absurd hread (by decide)
  · rw [recipient_of_uuid huuid] at hsomebody
    split at hsomebody
    · cases hsomebody
      exact Or.inr (Or.inr ⟨hstate, huuid⟩)
    · cases hsomebody

/-- From tables without an online user every message stays in its footprint,
whatever MySQL does. -/
theorem footprint_of_run {lib : JsonLib} {db : Db} {events : List ServerEvent} {s : ServerState}
    {job : Job} {w' : World} (hoffline : ∀ row ∈ db.users.rows, row.state = ascii "offline")
    (hrun : Machine.exec (serverStep lib) (.start db) events = some s)
    (hjob : jobStep lib s.world job = some w') :
    Footprint lib s.world w' job.session job.msgId job.msgData := by
  have hnamed : OnlineNamed s.world.db :=
    Machine.exec_invariant (I := fun s : ServerState => OnlineNamed s.world.db)
      (fun _ _ _ h hstep => serverStep_onlineNamed h hstep)
      (fun id row hrow => Or.inl (hoffline row (Table.find_eq_some.mp hrow).1)) hrun
  exact (footprint_iff (jobStep_eq_some.mp hjob)).mpr (hnamed.chatNamesRow _ _ _)

/-- A row that is online without a uuid, and a session that it does not name. -/
def unnamedWorld : World :=
  { World.start (.single { amy with state := ascii "online" }) with
    server := CServer.insert ⟨∅⟩ .second }

/-- The memory of a query that holds the text of that session, as the query
before it left it. -/
def leftOver : Outcome := { Outcome.good 1 with stack := fun _ => (Uuid.second).text }

/-- A chat for the user of the row goes to that session. -/
theorem dispatch_elsewhere :
    ¬ ∀ (lib : JsonLib) (env : Nat → Outcome) (w w' : World) (session : Uuid) (msgId : Int)
      (msgData : Bytes), w.process lib env session msgId msgData = .ok w' →
      Footprint lib w w' session msgId msgData := by
  intro hall
  obtain ⟨w', hw'⟩ : ∃ w', unnamedWorld.process chatScene (fun _ => leftOver) .first msgOneChat
      chatText = .ok w' :=
    (process_isOk (flat_stylesPlain _) (by decide)).mpr fun callBack hfind => by
      cases hfind
      exact ⟨1, rfl⟩
  have honline : ReadsOnline leftOver unnamedWorld.db 1 { amy with state := ascii "online" } :=
    ⟨rfl, rfl, rfl, rfl, by decide, by decide⟩
  have hcond := (footprint_iff hw').mp (hall _ _ _ _ _ _ _ hw') rfl 1 _ .second rfl honline
    (getSession_eq_some.mpr ⟨rfl, CServer.mem_insert.mpr (Or.inl rfl)⟩)
  rcases hcond with hself | hfull | ⟨-, huuid⟩
  · exact absurd hself (by decide)
  · exact absurd hfull (by decide)
  · cases huuid

end AsioServer
