import AsioServer.Proofs.Statements

/-!
# The model classes read what their SQL selects

`UserModel::query` binds an array to each column before it executes; a fetch
writes them, and what it does not write is whatever the array held.
`FriendModel::query` binds its arrays too late: the descriptions MySQL was handed
are empty, and no round of its loop is written to.
-/

namespace AsioServer

/-! ## Reading a fetched column -/

/-- The string behind what a fetch writes into an array of `size` chars. -/
def leftover (size : Nat) (array : Bytes) : Option Bytes → Bytes
  | none => cStr array
  | some _ => cStr (array.drop size)

theorem cStr_append_of_nulFree {s : Bytes} (h : 0 ∉ s) (rest : Bytes) :
    cStr (s ++ rest) = s ++ cStr rest := by
  unfold cStr
  exact List.takeWhile_append_of_pos fun c hc => by
    rw [bne_iff_ne]
    exact fun hz => h (hz ▸ hc)

theorem cStr_append_of_nul {s : Bytes} (h : 0 ∈ s) (rest : Bytes) : cStr (s ++ rest) = cStr s := by
  obtain ⟨before, after, rfl, hbefore⟩ := List.eq_append_cons_of_mem h
  rw [List.append_assoc, List.cons_append, cStr_append hbefore, cStr_append hbefore]

/-- What an array of `chars` reads as after a fetch. -/
theorem fetch_string {mem : Variables} {b : MysqlBind} (hb : b.bufferType = .varString)
    (v : Option Bytes) :
    cStr (b.fetch mem (.ofText v) b.buffer) =
      fetchString b.bufferLength (leftover b.bufferLength (mem b.buffer) v) v := by
  cases v with
  | none => rfl
  | some s =>
      rw [SqlValue.ofText, MysqlBind.fetch, if_pos hb, write_same, fetchString, leftover]
      by_cases hlt : s.length < b.bufferLength
      · have htake : s.take b.bufferLength = s := List.take_of_length_le hlt.le
        rw [if_pos hlt, if_pos (Or.inl hlt), htake, List.append_assoc]
        by_cases hnul : 0 ∈ s
        · exact cStr_append_of_nul hnul _
        · rw [cStr_of_nulFree hnul]
          exact cStr_append hnul _
      · have hlen : (s.take b.bufferLength).length = b.bufferLength :=
          List.length_take_of_le (Nat.not_lt.mp hlt)
        rw [if_neg hlt, List.append_nil, hlen]
        by_cases hnul : 0 ∈ s.take b.bufferLength
        · rw [if_pos (Or.inr hnul), cStr_append_of_nul hnul]
        · rw [if_neg (not_or.mpr ⟨hlt, hnul⟩), cStr_append_of_nulFree hnul]

theorem fetch_other {mem : Variables} {b : MysqlBind} {a : Address} (h : a ≠ b.buffer)
    (v : SqlValue) : b.fetch mem v a = mem a := by
  cases v with
  | null => rfl
  | int i =>
      rw [MysqlBind.fetch]
      split
      · exact write_other mem h _
      · rfl
  | text s =>
      rw [MysqlBind.fetch]
      split
      · exact write_other mem h _
      · rfl

theorem fetch_int (mem : Variables) {b : MysqlBind} (hb : b.bufferType = .long) {x : Int}
    (hx : InInt x) : (b.fetch mem (.int x)).int b.buffer = x := by
  rw [MysqlBind.fetch, if_pos hb, Variables.int, write_same]
  obtain ⟨b₀, b₁, b₂, b₃, hbytes, -, hvalue⟩ :=
    int_storeInt hx ((mem b.buffer).drop (storeInt x).length)
  rw [hbytes]
  exact hvalue

theorem fetch_congr {mem mem' : Variables} {b : MysqlBind} (h : mem b.buffer = mem' b.buffer)
    (v : SqlValue) : b.fetch mem v b.buffer = b.fetch mem' v b.buffer := by
  cases v with
  | null => exact h
  | int i =>
      rw [MysqlBind.fetch, MysqlBind.fetch]
      split
      · rw [write_same, write_same, h]
      · exact h
  | text s =>
      rw [MysqlBind.fetch, MysqlBind.fetch]
      split
      · rw [write_same, write_same, h]
      · exact h

theorem fetchRow_other {a : Address} {binds : List MysqlBind} (h : a ∉ binds.map (·.buffer))
    (row : List SqlValue) (mem : Variables) : fetchRow binds row mem a = mem a := by
  induction binds generalizing row mem with
  | nil => rfl
  | cons b binds ih =>
      rw [List.map_cons, List.mem_cons, not_or] at h
      cases row with
      | nil => rfl
      | cons v row => exact (ih h.2 row _).trans (fetch_other h.1 v)

/-- Each column is written where its own variable is. -/
theorem fetchRow_at {binds : List MysqlBind} (hdisj : (binds.map (·.buffer)).Nodup)
    {row : List SqlValue} {k : Nat} {b : MysqlBind} {v : SqlValue} (hb : binds[k]? = some b)
    (hv : row[k]? = some v) (mem : Variables) :
    fetchRow binds row mem b.buffer = b.fetch mem v b.buffer := by
  induction binds generalizing row k mem with
  | nil => cases hb
  | cons b' binds ih =>
      rw [List.map_cons, List.nodup_cons] at hdisj
      cases row with
      | nil => cases hv
      | cons v' row =>
          cases k with
          | zero =>
              obtain rfl : b' = b := Option.some.inj hb
              obtain rfl : v' = v := Option.some.inj hv
              exact fetchRow_other hdisj.1 row _
          | succ k =>
              have hmem : b.buffer ∈ binds.map (·.buffer) :=
                List.mem_map_of_mem (List.mem_of_getElem? hb)
              rw [fetchRow, ih hdisj.2 hb hv]
              exact fetch_congr (fetch_other (fun heq => hdisj.1 (heq ▸ hmem)) v') v

theorem slots_taken (outs : List BindOut) (hle : outs.length ≤ maxParams) :
    (List.ofFn (outSlots outs)).take outs.length = outs.map (·.write .zero) := by
  refine List.ext_getElem? fun j => ?_
  rw [List.getElem?_map]
  rcases Nat.lt_or_ge j outs.length with hj | hj
  · have hv : outs[j]? = some outs[j] := List.getElem?_eq_getElem hj
    rw [List.getElem?_take_of_lt hj, List.getElem?_ofFn, dif_pos (by omega), hv, outSlots]
    dsimp only
    rw [hv, Option.map_some]
  · rw [List.getElem?_eq_none (by simp; omega), List.getElem?_eq_none hj]
    rfl

/-! ## The rows of a query -/

/-- A statement whose execution MySQL took, with an empty error record. -/
structure Sqlstatement.Ready (st : Sqlstatement) : Prop where
  state : st.mState = true
  rc : st.mCda.rc = 0
  type : st.mSqltype = 0

theorem Sqlstatement.Ready.lost {o : Outcome} {st : Sqlstatement} (h : st.Ready)
    (hfetch : o.fetch = false) (mem : Variables) (rows : List (List SqlValue)) :
    st.nextRow o mem rows = st.lost mem rows := by
  unfold Sqlstatement.nextRow
  rw [if_neg (by rw [h.state]; decide), if_neg (by rw [h.rc]; decide),
    if_neg (by rw [h.type]; decide), hfetch]
  rfl

theorem Sqlstatement.Ready.fetched {o : Outcome} {st : Sqlstatement} (h : st.Ready)
    (hfetch : o.fetch = true) (mem : Variables) (rows : List (List SqlValue)) :
    st.nextRow o mem rows =
      match rows with
      | [] => ⟨mysqlNoData, st, mem, []⟩
      | row :: rest =>
          ⟨0, { st with mCda := { st.mCda with rpc := st.mCda.rpc + 1 } },
            fetchRow st.mHandle.results row mem, rest⟩ := by
  unfold Sqlstatement.nextRow
  rw [if_neg (by rw [h.state]; decide), if_neg (by rw [h.rc]; decide),
    if_neg (by rw [h.type]; decide), hfetch]
  rfl

theorem lost_rc {st : Sqlstatement} (hopen : st.mState = true) (mem : Variables)
    (rows : List (List SqlValue)) : (st.lost mem rows).rc = 1105 := by
  unfold Sqlstatement.lost Sqlstatement.errReport
  rw [if_pos hopen]
  rfl

theorem select_queryUser (db : Db) {idParam : Received} {id : Int} (h : idParam.int = some id) :
    db.select queryUserSql [idParam] = some ((db.users.find id).toList.map fun row =>
      [.int row.id, .text row.name, .text row.password, .text row.state, .ofText row.uuid]) := by
  unfold Db.select
  rw [if_pos rfl]
  dsimp only
  rw [h, Option.map_some]

theorem select_queryFriend (db : Db) {idParam : Received} {id : Int} (h : idParam.int = some id) :
    db.select queryFriendSql [idParam] = some ((db.friendRows id).map fun row =>
      [.int row.id, .text row.name, .text row.state, .ofText row.uuid]) := by
  unfold Db.select
  obtain ⟨-, -, -, happart, -⟩ := model_texts.2.2
  rw [if_neg happart, if_pos rfl]
  dsimp only
  rw [h, Option.map_some]

/-- A query that MySQL knows is refused only when its execution fails. -/
theorem Ran.query_rc {o : Outcome} {db : Db} {mem : Variables} {sql : Bytes} {vs : List BindIn}
    {outs : List BindOut} {done : Executed} {rows : List (List SqlValue)}
    (h : Ran o db mem sql vs outs done)
    (hselect : db.select sql (vs.map (·.sent mem)) = some rows) :
    done.rc ≠ 0 ↔ o.execute = false := by
  rw [h.refused, hselect]
  simp

/-! ## `UserModel::query` -/

/-- The output variables of `UserModel::query`. -/
def userOuts : List BindOut :=
  [.int otherIdVar, .chars nameVar 50, .chars passwordVar 50, .chars stateVar 10,
    .chars uuidVar 50]

/-- What `UserModel::query` makes of an execution. -/
def UserModel.readUser (o : Outcome) (db : Db) (mem : Variables) (done : Executed) : User :=
  let rows := (done.received.bind (db.select done.statement.mSql)).getD []
  let fetched := done.statement.nextRow o mem rows
  if done.rc ≠ 0 ∨ fetched.rc ≠ 0 then User.default
  else
    { id := fetched.mem.int otherIdVar
      name := cStr (fetched.mem nameVar)
      password := cStr (fetched.mem passwordVar)
      state := cStr (fetched.mem stateVar)
      uuid := cStr (fetched.mem uuidVar) }

theorem userQuery_ran (o : Outcome) (db : Db) (mem : Variables) {st : Sqlstatement}
    (hopen : st.mState = true) (id : Int) :
    ∃ done, Ran o db (mem.write idVar (storeInt id)) queryUserSql [.int idVar] userOuts done ∧
      UserModel.queryStatement o db mem st id =
        .ok (UserModel.readUser o db (mem.write idVar (storeInt id)) done) := by
  have hprepare := prepare_server o db hopen model_texts.1.2.2.2.1
    model_texts.2.1.2.2.2.1
  have hopen' : (Sqlstatement.prepared { st with mCda := .zero } queryUserSql
    (1, fieldCount queryUserSql)).mState = true := hopen
  have hcount : ∀ n < 5, n < (Sqlstatement.prepared { st with mCda := .zero } queryUserSql
      (1, fieldCount queryUserSql)).mHandle.fieldCount := fun n hn => by
    show n < fieldCount queryUserSql
    rw [fieldCount, if_pos rfl]
    exact hn
  obtain ⟨cda, hin⟩ := calls_bound hopen' [] (by decide) [] .zero (.int idVar)
  have hout := fun (outs : List BindOut) (hlt : outs.length < 5) => outs_bound hopen' outs
    (by unfold maxParams; omega) (hcount _ hlt) [.int idVar] cda
  obtain ⟨done, hexec, hran⟩ := execute_ran o db (mem.write idVar (storeInt id))
    hopen queryUserSql [.int idVar] (by decide) userOuts cda
  refine ⟨done, hran, ?_⟩
  calc UserModel.queryStatement o db mem st id
      = _ := ok_bind hprepare _
    _ = _ := ok_bind hin _
    _ = _ := ok_bind (hout [] (by decide) (.int otherIdVar)) _
    _ = _ := ok_bind (hout [.int otherIdVar] (by decide) (.chars nameVar 50)) _
    _ = _ := ok_bind (hout [.int otherIdVar, .chars nameVar 50] (by decide)
          (.chars passwordVar 50)) _
    _ = _ := ok_bind (hout [.int otherIdVar, .chars nameVar 50, .chars passwordVar 50] (by decide)
          (.chars stateVar 10)) _
    _ = _ := ok_bind (hout [.int otherIdVar, .chars nameVar 50, .chars passwordVar 50,
          .chars stateVar 10] (by decide) (.chars uuidVar 50)) _
    _ = _ := ok_bind hexec _
    _ = .ok (UserModel.readUser o db (mem.write idVar (storeInt id)) done) := by
        unfold UserModel.readUser
        by_cases hrc : done.rc ≠ 0
        · rw [if_pos hrc, if_pos (Or.inl hrc)]
          rfl
        · rw [if_neg hrc]
          dsimp only
          by_cases hfetch : (done.statement.nextRow o (mem.write idVar (storeInt id))
            ((done.received.bind (db.select done.statement.mSql)).getD [])).rc ≠ 0
          · rw [if_pos hfetch, if_pos (Or.inr hfetch)]
            rfl
          · rw [if_neg hfetch, if_neg (not_or.mpr ⟨hrc, hfetch⟩)]
            rfl

/-- What the arrays of `UserModel::query` read as where the fetch writes nothing. -/
def UserModel.stack (mem : Variables) (uuid : Option Bytes) : Nat → Bytes
  | 2 => cStr ((mem nameVar).drop 50)
  | 3 => cStr ((mem passwordVar).drop 50)
  | 4 => cStr ((mem stateVar).drop 10)
  | _ => leftover 50 (mem uuidVar) uuid

theorem userStack_write (mem : Variables) (bytes : Bytes) (uuid : Option Bytes) :
    UserModel.stack (mem.write idVar bytes) uuid = UserModel.stack mem uuid := by
  unfold UserModel.stack
  rw [write_other mem (by decide), write_other mem (by decide), write_other mem (by decide),
    write_other mem (by decide)]

/-- A row in the variables of `UserModel::query`. -/
theorem readUser_row {mem : Variables} {row : UserRow} (hid : InInt row.id) :
    let got := fetchRow (userOuts.map (·.write .zero))
      [.int row.id, .text row.name, .text row.password, .text row.state, .ofText row.uuid] mem
    (⟨got.int otherIdVar, cStr (got nameVar), cStr (got passwordVar), cStr (got stateVar),
      cStr (got uuidVar)⟩ : User) = User.fetched (UserModel.stack mem row.uuid) row := by
  have hdisj : ((userOuts.map (·.write .zero)).map (·.buffer)).Nodup := by decide
  intro got
  have hint : got.int otherIdVar = row.id := by
    rw [← fetch_int mem (b := (BindOut.int otherIdVar).write .zero) rfl hid]
    unfold Variables.int
    rw [show got otherIdVar = _ from fetchRow_at hdisj (k := 0) rfl rfl mem]
  have hname : cStr (got nameVar) = _ :=
    (congrArg cStr (fetchRow_at hdisj (k := 1) rfl rfl mem)).trans
      (fetch_string rfl (some row.name))
  have hpassword : cStr (got passwordVar) = _ :=
    (congrArg cStr (fetchRow_at hdisj (k := 2) rfl rfl mem)).trans
      (fetch_string rfl (some row.password))
  have hstate : cStr (got stateVar) = _ :=
    (congrArg cStr (fetchRow_at hdisj (k := 3) rfl rfl mem)).trans
      (fetch_string rfl (some row.state))
  have huuid : cStr (got uuidVar) = _ :=
    (congrArg cStr (fetchRow_at hdisj (k := 4) rfl rfl mem)).trans (fetch_string rfl row.uuid)
  rw [hint, hname, hpassword, hstate, huuid]
  rfl

/-- What an execution that MySQL took comes to, by the rows it found. -/
theorem readUser_eq (o : Outcome) (db : Db) {mem : Variables} {id : Int} (hid : InInt id)
    (hmem : HoldsInt mem idVar id) {done : Executed}
    (hran : Ran o db mem queryUserSql [.int idVar] userOuts done) :
    UserModel.readUser o db mem done =
      if o.execute && o.fetch then
        match db.users.find id with
        | some row => User.fetched (UserModel.stack mem row.uuid) row
        | none => User.default
      else User.default := by
  have hselect := select_queryUser db (hmem.sent hid)
  have hrow : ∀ row, db.users.find id = some row → InInt row.id := fun row hfind => by
    rw [(Table.find_eq_some.mp hfind).2]
    exact hid
  have hrc := hran.query_rc hselect
  unfold UserModel.readUser
  dsimp only
  cases hexec : o.execute with
  | false => exact if_pos (Or.inl (hrc.mpr hexec))
  | true =>
      have hzero : done.rc = 0 := not_not.mp fun hne => by
        rw [hrc.mp hne] at hexec
        cases hexec
      have hrows : (done.received.bind (db.select done.statement.mSql)).getD [] =
          (db.users.find id).toList.map fun row =>
            [.int row.id, .text row.name, .text row.password, .text row.state,
              .ofText row.uuid] := by
        rw [hran.received, hran.text]
        exact congrArg (·.getD []) hselect
      have hready : done.statement.Ready :=
        ⟨hran.state, hran.taken hzero, hran.type.trans (by decide +kernel)⟩
      rw [hrows]
      cases hfetch : o.fetch with
      | false =>
          rw [hready.lost hfetch, lost_rc hran.state]
          exact if_pos (Or.inr (by decide))
      | true =>
          rw [hready.fetched hfetch]
          cases hfind : db.users.find id with
          | none => exact if_pos (Or.inr (show mysqlNoData ≠ 0 by decide))
          | some row =>
              have hfields : done.statement.mHandle.results = userOuts.map (·.write .zero) := by
                rw [hran.results, fieldCount, if_pos rfl]
                exact slots_taken userOuts (by decide)
              rw [hfields]
              refine (if_neg ?_).trans (readUser_row (hrow row hfind))
              rintro (hne | hne)
              · exact hne hzero
              · exact hne rfl

theorem userQuery_refined (o : Outcome) (db : Db) (mem : Variables) {st : Sqlstatement}
    (hopen : st.mState = true) {id : Int} (hid : InInt id) :
    UserModel.queryBy o db mem st id =
      UserModel.query { o with
        stack := UserModel.stack mem ((db.users.find id).bind (·.uuid)) } db id := by
  obtain ⟨done, hran, hstatement⟩ := userQuery_ran o db mem hopen id
  rw [query_eq, queried, UserModel.queryBy, hstatement,
    readUser_eq o db hid (HoldsInt.written mem idVar id) hran]
  unfold connecttodb
  cases o.connect with
  | false => rfl
  | true =>
      cases hfind : db.users.find id with
      | none => rfl
      | some row =>
          dsimp only
          rw [userStack_write]
          rfl

/-! ## `FriendModel::query` -/

/-- What the arrays of the loop hold. -/
def FriendModel.stack (mem : Variables) : Nat → Bytes
  | 2 => cStr (mem nameVar)
  | 3 => cStr (mem stateVar)
  | _ => cStr (mem uuidVar)

def friendColumns (row : UserRow) : List SqlValue :=
  [.int row.id, .text row.name, .text row.state, .ofText row.uuid]

/-- The statement of the loop. -/
structure Sqlstatement.Looping (o : Outcome) (st : Sqlstatement) : Prop where
  state : st.mState = true
  type : st.mSqltype = 0
  fields : st.mHandle.fieldCount = 4
  rc : o.fetch = true → st.mCda.rc = 0

/-- One call of `next()`, and one of the tables' level. A call that fails leaves the variables
to the round it starts. -/
theorem Sqlstatement.Looping.next {o : Outcome} {st : Sqlstatement} (h : st.Looping o)
    (mem : Variables) (rows : List UserRow) :
    (((st.nextRow o mem (rows.map friendColumns)).rc ≠ 0 ↔
      (Sqlstatement.next o rows).1 ≠ 0)) ∧
    ((Sqlstatement.next o rows).1 ≠ 0 →
      (st.nextRow o mem (rows.map friendColumns)).mem = mem ∧
      (st.nextRow o mem (rows.map friendColumns)).rows =
        (Sqlstatement.next o rows).2.map friendColumns ∧
      (st.nextRow o mem (rows.map friendColumns)).statement.Looping o) := by
  have hnoData : mysqlNoData ≠ 0 := by decide
  have hminus : (-1 : Int) ≠ 0 := by decide
  cases hfetch : o.fetch with
  | true =>
      have hready : st.Ready := ⟨h.state, h.rc hfetch, h.type⟩
      rw [hready.fetched hfetch]
      cases rows with
      | nil =>
          rw [Sqlstatement.next, if_pos hfetch]
          exact ⟨iff_of_true hnoData hnoData, fun _ => ⟨rfl, rfl, h⟩⟩
      | cons row rows =>
          rw [Sqlstatement.next, if_pos hfetch]
          exact ⟨iff_of_false (fun hne => hne rfl) (fun hne => hne rfl), fun hne => absurd rfl hne⟩
  | false =>
      have hnext : Sqlstatement.next o rows = (-1, rows) := by
        cases rows <;> rw [Sqlstatement.next, if_neg (by rw [hfetch]; decide)]
      rw [hnext]
      by_cases hrc : st.mCda.rc = 0
      · have hready : st.Ready := ⟨h.state, hrc, h.type⟩
        rw [hready.lost hfetch, lost_rc h.state]
        refine ⟨iff_of_true (by decide) hminus, fun _ => ⟨rfl, rfl, ?_⟩⟩
        unfold Sqlstatement.lost Sqlstatement.errReport
        rw [if_pos h.state]
        exact ⟨h.state, h.type, h.fields, fun htrue => by rw [hfetch] at htrue; cases htrue⟩
      · have hkept : st.nextRow o mem (rows.map friendColumns) =
            ⟨st.mCda.rc, st, mem, rows.map friendColumns⟩ := by
          unfold Sqlstatement.nextRow
          rw [if_neg (by rw [h.state]; decide), if_pos hrc]
        rw [hkept]
        exact ⟨iff_of_true hrc hminus, fun _ => ⟨rfl, rfl, h⟩⟩

/-- So does a binding of its body. -/
theorem Sqlstatement.Looping.bindout {o : Outcome} {st : Sqlstatement} (h : st.Looping o)
    (position : UInt32) (hpos : 1 ≤ position.toNat) (hle : position.toNat ≤ 4) (b : BindOut) :
    ∃ st', b.call st position = .ok (st', 0) ∧ st'.Looping o := by
  obtain ⟨i, -, hcall⟩ := bindout_legal h.state position hpos (by unfold maxParams; omega)
    (by rw [h.fields]; exact hle) b
  exact ⟨_, hcall, h.state, h.type, h.fields, h.rc⟩

/-- The loop, by the rounds granted to it. -/
theorem collect_refined (o : Outcome) (mem : Variables) (rounds : Nat) {st : Sqlstatement}
    (h : st.Looping o) (rows : List UserRow) (vec : List User) :
    FriendModel.collectStatement o rounds st mem (rows.map friendColumns) vec =
      .ok (FriendModel.collect { o with stack := FriendModel.stack mem } (mem.int idVar) rounds
        rows vec) := by
  induction rounds generalizing st rows vec with
  | zero => rfl
  | succ rounds ih =>
      have hsame : Sqlstatement.next { o with stack := FriendModel.stack mem } rows =
          Sqlstatement.next o rows := by cases rows <;> rfl
      obtain ⟨hrc, hleft⟩ := h.next mem rows
      rw [FriendModel.collectStatement, FriendModel.collect, hsame]
      by_cases hend : (Sqlstatement.next o rows).1 ≠ 0
      · obtain ⟨hmem, hrows, hloop⟩ := hleft hend
        obtain ⟨st₁, hid, hloop₁⟩ := hloop.bindout 1 (by decide) (by decide)
          (.int idVar)
        obtain ⟨st₂, hname, hloop₂⟩ := hloop₁.bindout 2 (by decide) (by decide)
          (.chars nameVar 50)
        obtain ⟨st₃, hstate, hloop₃⟩ := hloop₂.bindout 3 (by decide) (by decide)
          (.chars stateVar 10)
        obtain ⟨st₄, huuid, hloop₄⟩ := hloop₃.bindout 4 (by decide) (by decide)
          (.chars uuidVar 50)
        dsimp only
        rw [if_pos (hrc.mpr hend), if_pos hend]
        refine (ok_bind hid _).trans ((ok_bind hname _).trans ((ok_bind hstate _).trans
          ((ok_bind huuid _).trans ?_)))
        dsimp only
        rw [hmem, hrows]
        exact ih hloop₄ _ _
      · dsimp only
        rw [if_neg (mt hrc.mp hend), if_neg hend]
        rfl

/-- What `FriendModel::query` goes on with after its statement was executed. -/
theorem friendQuery_ran (o : Outcome) (rounds : Nat) (db : Db) (mem : Variables)
    {st : Sqlstatement} (hopen : st.mState = true) (userid : Int) :
    ∃ done, Ran o db (mem.write otherIdVar (storeInt userid)) queryFriendSql [.int otherIdVar] []
        done ∧
      FriendModel.queryStatement o rounds db mem st userid =
        if done.rc ≠ 0 then .ok (some [])
        else FriendModel.collectStatement o rounds done.statement
          (mem.write otherIdVar (storeInt userid))
          ((done.received.bind (db.select done.statement.mSql)).getD []) [] := by
  have hprepare := prepare_server o db hopen model_texts.1.2.2.2.2
    model_texts.2.1.2.2.2.2
  have hopen' : (Sqlstatement.prepared { st with mCda := .zero } queryFriendSql
    (1, fieldCount queryFriendSql)).mState = true := hopen
  obtain ⟨cda, hin⟩ := calls_bound hopen' [] (by decide) [] .zero (.int otherIdVar)
  obtain ⟨done, hexec, hran⟩ := execute_ran o db (mem.write otherIdVar (storeInt userid))
    hopen queryFriendSql [.int otherIdVar] (by decide) [] cda
  exact ⟨done, hran, (ok_bind hprepare _).trans ((ok_bind hin _).trans (ok_bind hexec _))⟩

theorem friendQuery_eq (o : Outcome) (stackId : Int) (rounds : Nat) (db : Db) (userid : Int) :
    FriendModel.query o stackId rounds db userid =
      .ok (if o.connect && o.execute then
        FriendModel.collect o stackId rounds (db.friendRows userid) [] else some []) := by
  unfold FriendModel.query connecttodb
  cases hc : o.connect with
  | false => rfl
  | true =>
      cases hx : o.execute with
      | false => rfl
      | true => cases FriendModel.collect o stackId rounds (db.friendRows userid) [] <;> rfl

theorem friendQueryBy_eq {o : Outcome} {rounds : Nat} {db : Db} {mem : Variables}
    {st : Sqlstatement} {userid : Int} {got : Option (List User)}
    (h : FriendModel.queryStatement o rounds db mem st userid = .ok got) :
    FriendModel.queryBy o rounds db mem st userid =
      .ok (if o.connect then got else some []) := by
  unfold FriendModel.queryBy connecttodb
  rw [h]
  cases o.connect with
  | false => rfl
  | true => cases got <;> rfl

theorem friendQuery_refined (o : Outcome) (rounds : Nat) (db : Db) (mem : Variables)
    {st : Sqlstatement} (hopen : st.mState = true) {userid : Int} (hid : InInt userid) :
    FriendModel.queryBy o rounds db mem st userid =
      FriendModel.query { o with stack := FriendModel.stack mem } (mem.int idVar) rounds db
        userid := by
  obtain ⟨done, hran, hstatement⟩ := friendQuery_ran o rounds db mem hopen userid
  generalize hfilled : mem.write otherIdVar (storeInt userid) = filled at hran hstatement
  have hheld : HoldsInt filled otherIdVar userid := by
    rw [← hfilled]
    exact HoldsInt.written _ _ _
  have hselect := select_queryFriend db (hheld.sent hid)
  have hrc := hran.query_rc hselect
  have hint : filled.int idVar = mem.int idVar := by
    rw [← hfilled, Variables.int, write_other mem (by decide), Variables.int]
  have hstack : FriendModel.stack filled = FriendModel.stack mem := by
    rw [← hfilled]
    unfold FriendModel.stack
    rw [write_other mem (by decide), write_other mem (by decide), write_other mem (by decide)]
  rw [friendQuery_eq]
  by_cases hzero : done.rc = 0
  · have hexec : o.execute = true := by
      rw [← Bool.not_eq_false]
      exact fun hfalse => hrc.mpr hfalse hzero
    have hrows : (done.received.bind (db.select done.statement.mSql)).getD [] =
        (db.friendRows userid).map friendColumns := by
      rw [hran.received, hran.text]
      exact congrArg (·.getD []) hselect
    have hloop : done.statement.Looping o :=
      ⟨hran.state, hran.type.trans (by decide +kernel), hran.fields.trans (by decide +kernel),
        fun _ => hran.taken hzero⟩
    rw [if_neg (not_not.mpr hzero), hrows, collect_refined o filled rounds hloop, hint,
      hstack] at hstatement
    rw [friendQueryBy_eq hstatement, show (o.connect && o.execute) = o.connect by simp [hexec]]
  · rw [if_pos hzero] at hstatement
    rw [friendQueryBy_eq hstatement, ite_self,
      if_neg (by rw [show (o.connect && o.execute) = false by simp [hrc.mp hzero]]; decide)]

/-- The functions that read, against what `Ref/Model` says of them. -/
theorem model_reads_refined (o : Outcome) (db : Db) (mem : Variables) (st : Sqlstatement)
    (hopen : st.mState = true) (id : Int) (hid : InInt id) :
    UserModel.queryBy o db mem st id =
      UserModel.query { o with
        stack := UserModel.stack mem ((db.users.find id).bind (·.uuid)) } db id ∧
    ∀ rounds, FriendModel.queryBy o rounds db mem st id =
      FriendModel.query { o with stack := FriendModel.stack mem } (mem.int idVar) rounds db id :=
  ⟨userQuery_refined o db mem hopen hid, fun rounds =>
    friendQuery_refined o rounds db mem hopen hid⟩

theorem model_reads_refined_used :
    UserModel.queryBy (.good 1) .friends2 usedMemory (freshStatement 0) 2 =
        UserModel.query { Outcome.good 1 with
          stack := UserModel.stack usedMemory ((Db.friends2.users.find 2).bind (·.uuid)) }
          .friends2 2 ∧
      ∀ rounds, FriendModel.queryBy (.good 1) rounds .friends2 usedMemory (freshStatement 0) 2 =
        FriendModel.query { Outcome.good 1 with stack := FriendModel.stack usedMemory }
          (usedMemory.int idVar) rounds .friends2 2 :=
  model_reads_refined (.good 1) .friends2 usedMemory (freshStatement 0) rfl 2 (by decide)

end AsioServer
