import AsioServer.Proofs.BoundValues
import AsioServer.Proofs.Replies
import AsioServer.Proofs.Strings
import AsioServer.Ref.Statements

/-!
# The model classes do what their SQL says

The functions of `Ref/Model` against the same functions with their statement.
Prepared, each text becomes the one MySQL understands, with a question mark where
a parameter was; nothing a user sends is part of it. Bound, the variables arrive
in the order of the question marks, an empty string as NULL. So MySQL is asked
for the change that `Ref/Model` makes, and for the rows it reads; and what a
fetch leaves in the arrays is what `fetchString` says, or, in
`FriendModel::query`, what was there before.
-/

namespace AsioServer

/-! ## Texts -/

theorem updateStr_absent {sql str1 : Bytes} (h : ¬ str1 <:+: sql) (str2 : Bytes) :
    updateStr mSqlSize sql str1 str2 = .ok sql := by
  cases sql with
  | nil => rfl
  | cons c sql =>
      have hnone : strstr (c :: sql) str1 = none := Replace.first_eq_none.mpr h
      rw [updateStr, if_neg (List.cons_ne_nil c sql), List.length_cons, updateLoop, hnone]
      rfl

theorem updateUnless_absent {sql str1 : Bytes} (h : ¬ str1 <:+: sql) (guard str2 : Bytes) :
    updateUnless sql guard str1 str2 = .ok sql := by
  unfold updateUnless
  split
  · exact updateStr_absent h str2
  · rfl

/-- Every name and format of Oracle has an underscore or a `y` in it. -/
theorem oracleNames_absent {sql : Bytes} (hunderscore : 95 ∉ sql) (hy : 121 ∉ sql) :
    oracleNames sql = .ok sql := by
  have habsent : ∀ {pat : Bytes}, 95 ∈ pat ∨ 121 ∈ pat → ¬ pat <:+: sql := fun hpat hin =>
    hpat.elim (fun h => hunderscore (hin.subset h)) fun h => hy (hin.subset h)
  unfold oracleNames
  rw [updateUnless_absent (habsent (by decide)), ok_bind rfl, updateStr_absent (habsent (by decide)),
    ok_bind rfl, updateStr_absent (habsent (by decide)), ok_bind rfl,
    updateStr_absent (habsent (by decide)), ok_bind rfl, updateUnless_absent (habsent (by decide))]

/-- What a text that stands in the code has to meet, and the text MySQL is handed. -/
structure TextOf (text sql : Bytes) : Prop where
  plain : percent ∉ text
  nulFree : 0 ∉ text
  short : text.length < sqlSize
  params : checkParams maxParams text = true
  marks : (tokens text).map Tok.mark = sql
  underscore : 95 ∉ sql
  y : 121 ∉ sql

instance (text sql : Bytes) : Decidable (TextOf text sql) :=
  decidable_of_iff (percent ∉ text ∧ 0 ∉ text ∧ text.length < sqlSize ∧
      checkParams maxParams text = true ∧ (tokens text).map Tok.mark = sql ∧ 95 ∉ sql ∧ 121 ∉ sql)
    ⟨fun ⟨hplain, hnul, hshort, hparams, hmarks, hunderscore, hy⟩ =>
      ⟨hplain, hnul, hshort, hparams, hmarks, hunderscore, hy⟩,
      fun h => ⟨h.plain, h.nulFree, h.short, h.params, h.marks, h.underscore, h.y⟩⟩

theorem prepare_text {mysql : MysqlLib} {st : Sqlstatement} {text sql : Bytes}
    {counts : Nat × Nat} (h : TextOf text sql) (hopen : st.mState = true)
    (hcounts : mysql.prepare sql = .ok counts) :
    st.prepare mysql text [] =
      .ok (Sqlstatement.prepared { st with mCda := .zero } sql counts, 0) := by
  refine prepare_eq hopen ((vsnprintf_again h.short h.nulFree).mpr h.plain) ?_ hcounts
  rw [translate, placeholders_eq (paramText_of_check h.params) h.short, h.marks]
  exact oracleNames_absent h.underscore h.y

/-- The texts of the model classes: each as MySQL is handed it, with so many parameters, and none
taken for another. -/
theorem model_texts :
    (TextOf insertUserText insertUserSql ∧ TextOf updateStateText updateStateSql ∧
      TextOf insertFriendText insertFriendSql ∧ TextOf queryUserText queryUserSql ∧
      TextOf queryFriendText queryFriendSql) ∧
    (mysqlLexer.paramCount insertUserSql = 4 ∧ mysqlLexer.paramCount updateStateSql = 3 ∧
      mysqlLexer.paramCount insertFriendSql = 2 ∧ mysqlLexer.paramCount queryUserSql = 1 ∧
      mysqlLexer.paramCount queryFriendSql = 1) ∧
    updateStateSql ≠ insertUserSql ∧ insertFriendSql ≠ insertUserSql ∧
      insertFriendSql ≠ updateStateSql ∧ queryFriendSql ≠ queryUserSql ∧
      ∀ sql ∈ [insertUserSql, updateStateSql, insertFriendSql],
        sql ≠ queryUserSql ∧ sql ≠ queryFriendSql := by
  rw [show insertUserText = _ from ascii_ofList _, show updateStateText = _ from ascii_ofList _,
    show insertFriendText = _ from ascii_ofList _, show queryUserText = _ from ascii_ofList _,
    show queryFriendText = _ from congrArg₂ _ (ascii_ofList _) (ascii_ofList _),
    show insertUserSql = _ from ascii_ofList _, show updateStateSql = _ from ascii_ofList _,
    show insertFriendSql = _ from ascii_ofList _, show queryUserSql = _ from ascii_ofList _,
    show queryFriendSql = _ from congrArg₂ _ (ascii_ofList _) (ascii_ofList _)]
  decide +kernel

/-! ## Memory -/

theorem write_same (mem : Variables) (a : Address) (bytes : Bytes) :
    mem.write a bytes a = bytes ++ (mem a).drop bytes.length := Function.update_self ..

theorem write_other (mem : Variables) {a b : Address} (h : b ≠ a) (bytes : Bytes) :
    mem.write a bytes b = mem b := Function.update_of_ne h ..

theorem int_storeInt {x : Int} (h : InInt x) (rest : Bytes) :
    ∃ b₀ b₁ b₂ b₃, storeInt x ++ rest = b₀ :: b₁ :: b₂ :: b₃ :: rest ∧
      storeInt x = [b₀, b₁, b₂, b₃] ∧ int (beWord b₃ b₂ b₁ b₀) = x := by
  refine ⟨_, _, _, _, rfl, rfl, ?_⟩
  have hw : (x % 4294967296).toNat < 4294967296 := by omega
  generalize hv : (x % 4294967296).toNat = w at hw
  have hword : beWord (UInt8.ofNat (w / 16777216)) (UInt8.ofNat (w / 65536 % 256))
      (UInt8.ofNat (w / 256 % 256)) (UInt8.ofNat (w % 256)) = w := by
    simp only [beWord, UInt8.toNat_ofNat']
    omega
  rw [hword, ← hv, Int.toNat_of_nonneg (by omega)]
  exact (Int.emod_bmod x 4294967296).trans (int_eq h.1 h.2)

/-! ## Bound statements -/

/-- The array with these variables in its first slots. -/
def outSlots (outs : List BindOut) (i : Fin maxParams) : MysqlBind :=
  match outs[i.val]? with
  | some b => b.write .zero
  | none => .zero

/-- A prepared statement with what has been bound since. -/
def Sqlstatement.bound (st : Sqlstatement) (vs : List BindIn) (outs : List BindOut) (cda : Cda) :
    Sqlstatement :=
  { st.withBound vs cda with paramsOut := outSlots outs }

theorem outSlots_snoc {done : List BindOut} {i : Fin maxParams} (hi : i.val = done.length)
    (b : BindOut) :
    Function.update (outSlots done) i (b.write (outSlots done i)) = outSlots (done ++ [b]) := by
  have hnone : outSlots done i = .zero := by
    rw [outSlots, List.getElem?_eq_none (by omega)]
  funext j
  by_cases hj : j = i
  · subst hj
    rw [Function.update_self, hnone, outSlots, List.getElem?_append_right (by omega), hi,
      Nat.sub_self]
    rfl
  · have hne : j.val ≠ done.length := fun h => hj (Fin.ext (h.trans hi.symm))
    rw [Function.update_of_ne hj, outSlots, outSlots]
    rcases Nat.lt_or_gt_of_ne hne with hlt | hgt
    · rw [List.getElem?_append_left hlt]
    · rw [List.getElem?_eq_none (by omega), List.getElem?_eq_none (by simp; omega)]

/-- The array of descriptions begins with these. -/
theorem calls_bound {st : Sqlstatement} (hopen : st.mState = true) (vs : List BindIn)
    (hlt : vs.length < maxParams) (outs : List BindOut) (cda : Cda) (b : BindIn) :
    ∃ cda', b.call (st.bound vs outs cda) (UInt32.ofNat (vs.length + 1)) =
      .ok (st.bound (vs ++ [b]) outs cda', 0) :=
  have hopen' : ({ st with paramsOut := outSlots outs } : Sqlstatement).mState = true := hopen
  call_withBound hopen' hlt b cda

/-- A legal position below the last leaves the error record as it is. -/
theorem bindout_legal {st : Sqlstatement} (hopen : st.mState = true) (position : UInt32)
    (hpos : 1 ≤ position.toNat) (hlt : position.toNat < maxParams)
    (hcount : position.toNat ≤ st.mHandle.fieldCount) (b : BindOut) :
    ∃ i : Fin maxParams, i.val + 1 = position.toNat ∧ b.call st position =
      .ok ({ st with
        paramsOut := Function.update st.paramsOut i (b.write (st.paramsOut i)) }, 0) := by
  obtain ⟨i, hi, hslot⟩ := slot_eq hpos hlt.le
  have hlegal : st.checkPosition position st.mHandle.fieldCount = st := by
    refine if_neg ?_
    rw [UInt32.lt_iff_toNat_lt]
    show ¬ (position.toNat < 1 ∨ _ ∨ _)
    omega
  refine ⟨i, hi, ?_⟩
  rw [b.call_eq, Sqlstatement.bindoutWith, if_neg (by rw [hopen]; decide)]
  dsimp only
  rw [hlegal, hslot]
  rfl

theorem outs_bound {st : Sqlstatement} (hopen : st.mState = true) (outs : List BindOut)
    (hlt : outs.length + 1 < maxParams) (hcount : outs.length < st.mHandle.fieldCount)
    (vs : List BindIn) (cda : Cda) (b : BindOut) :
    b.call (st.bound vs outs cda) (UInt32.ofNat (outs.length + 1)) =
      .ok (st.bound vs (outs ++ [b]) cda, 0) := by
  have hnat : (UInt32.ofNat (outs.length + 1)).toNat = outs.length + 1 :=
    UInt32.toNat_ofNat_of_lt' (by unfold maxParams at hlt; show _ < 4294967296; omega)
  have hopen' : (st.bound vs outs cda).mState = true := hopen
  obtain ⟨i, hi, hcall⟩ := bindout_legal hopen' (UInt32.ofNat (outs.length + 1)) (by omega)
    (by omega) (by show _ ≤ st.mHandle.fieldCount; omega) b
  have hslots := outSlots_snoc (show i.val = outs.length by omega) b
  rw [hcall]
  unfold Sqlstatement.bound
  rw [← hslots]

/-! ## Execution -/

/-- What the first slots send is what their variables hold. -/
theorem sends_bound (mem : Variables) (st : Sqlstatement) {vs : List BindIn}
    (hle : vs.length ≤ maxParams) (cda : Cda) :
    ((List.ofFn (slotsOf vs)).take vs.length).map (((st.withBound vs cda).markNulls mem).send mem) =
      vs.map (·.sent mem) := by
  refine List.ext_getElem? fun j => ?_
  rw [List.getElem?_map, List.getElem?_map]
  rcases Nat.lt_or_ge j vs.length with hj | hj
  · have hv : vs[j]? = some vs[j] := List.getElem?_eq_getElem hj
    rw [List.getElem?_take_of_lt hj, List.getElem?_ofFn, dif_pos (by omega), hv, Option.map_some,
      Option.map_some, send_bound mem st cda (i := ⟨j, by omega⟩) hv]
  · rw [List.getElem?_eq_none (by simp; omega), List.getElem?_eq_none hj]
    rfl

theorem bindParam_run {mysql : MysqlLib} (hmysql : mysql.Binds) (st : Sqlstatement) {p f : Nat}
    (hhandle : st.mHandle = .prepared p f) (hp : p ≤ maxParams) :
    ∃ handle : MysqlStmt, st.bindParam mysql = .ok ({ st with mHandle := handle }, none) ∧
      handle.params = (List.ofFn st.paramsIn).take p ∧ handle.fieldCount = f ∧
      handle.bindResultDone = false ∧ handle.results = [] := by
  unfold Sqlstatement.bindParam
  rw [hhandle]
  by_cases hpos : 0 < p
  · rw [if_pos ⟨hpos, rfl⟩]
    refine ⟨⟨p, f, true, false, (List.ofFn st.paramsIn).take p, []⟩, ?_, rfl, rfl, rfl, rfl⟩
    show (firstBinds st.paramsIn p).map _ = _
    rw [(firstBinds_eq st.paramsIn p).1 hp, Except.map, hmysql.param]
    rfl
  · rw [if_neg fun h => hpos h.1, Nat.eq_zero_of_not_pos hpos]
    refine ⟨.prepared 0 f, ?_, rfl, rfl, rfl, rfl⟩
    rw [← Nat.eq_zero_of_not_pos hpos, ← hhandle]

theorem bindResult_run {mysql : MysqlLib} (hmysql : mysql.Binds) (st : Sqlstatement)
    (hdone : st.mHandle.bindResultDone = false) (hnone : st.mHandle.results = [])
    (hf : st.mHandle.fieldCount ≤ maxParams) :
    ∃ handle : MysqlStmt, st.bindResult mysql = .ok ({ st with mHandle := handle }, none) ∧
      handle.params = st.mHandle.params ∧ handle.fieldCount = st.mHandle.fieldCount ∧
      handle.results = (List.ofFn st.paramsOut).take st.mHandle.fieldCount := by
  unfold Sqlstatement.bindResult
  by_cases hpos : 0 < st.mHandle.fieldCount
  · rw [if_pos ⟨hpos, by rw [hdone]; rfl⟩]
    refine ⟨{ st.mHandle with
      bindResultDone := true
      results := (List.ofFn st.paramsOut).take st.mHandle.fieldCount }, ?_, rfl, rfl, rfl⟩
    rw [(firstBinds_eq st.paramsOut _).1 hf, Except.map, hmysql.result]
  · rw [if_neg fun h => hpos h.1]
    refine ⟨st.mHandle, rfl, rfl, rfl, ?_⟩
    rw [hnone, Nat.eq_zero_of_not_pos hpos, List.take_zero]

/-- The calls before the last hand over the descriptions. -/
theorem execute_run {mysql : MysqlLib} (hmysql : mysql.Binds) (mem : Variables)
    (st : Sqlstatement) (hopen : st.mState = true) {p f : Nat}
    (hhandle : st.mHandle = .prepared p f) (hp : p ≤ maxParams) (hf : f ≤ maxParams) :
    ∃ handle : MysqlStmt, handle.params = (List.ofFn st.paramsIn).take p ∧
      handle.results = (List.ofFn st.paramsOut).take f ∧ handle.fieldCount = f ∧
      st.execute mysql mem =
        .ok (Sqlstatement.run mysql mem { st with mCda := .zero, mHandle := handle }) := by
  obtain ⟨handle, hparam, hparams, rfl, hdone, hnone⟩ :=
    bindParam_run hmysql { st with mCda := .zero } hhandle hp
  obtain ⟨handle', hresult, hparams', hfield, hresults⟩ :=
    bindResult_run hmysql { st with mCda := .zero, mHandle := handle } hdone hnone hf
  refine ⟨handle', hparams'.trans hparams, hresults, hfield, ?_⟩
  unfold Sqlstatement.execute
  rw [if_neg (by rw [hopen]; decide), hparam]
  show (Sqlstatement.bindResult mysql _).map _ = _
  rw [hresult]
  rfl

/-- What the last part returns and leaves, by MySQL's answer. -/
theorem run_answers (mysql : MysqlLib) (mem : Variables) (st : Sqlstatement)
    (hopen : st.mState = true) (hcda : st.mCda = .zero) :
    (st.run mysql mem).statement.mSql = st.mSql ∧
      (st.run mysql mem).statement.mState = true ∧
      (st.run mysql mem).statement.mSqltype = st.mSqltype ∧
      (st.run mysql mem).statement.mHandle = st.mHandle ∧
      match mysql.execute st.mSql (st.mHandle.params.map ((st.markNulls mem).send mem)) with
      | .ok _ => (st.run mysql mem).rc = 0 ∧ (st.run mysql mem).statement.mCda.rc = 0
      | .error e => e.errno ≠ 1243 → (st.run mysql mem).rc = e.errno := by
  have hopen' : (st.markNulls mem).mState = true := hopen
  unfold Sqlstatement.run
  dsimp only
  rw [show (st.markNulls mem).mHandle = st.mHandle from rfl,
    show (st.markNulls mem).mSql = st.mSql from rfl]
  cases mysql.execute st.mSql (st.mHandle.params.map ((st.markNulls mem).send mem)) with
  | ok rows =>
      dsimp only
      split
      · exact ⟨rfl, hopen, rfl, rfl, rfl, by show st.mCda.rc = 0; rw [hcda]; rfl⟩
      · exact ⟨rfl, hopen, rfl, rfl, rfl, by show st.mCda.rc = 0; rw [hcda]; rfl⟩
  | error e =>
      dsimp only
      rw [Sqlstatement.errReport, if_pos hopen']
      dsimp only
      split
      · next h1243 => exact ⟨rfl, hopen, rfl, rfl, fun hne => absurd h1243 hne⟩
      · exact ⟨rfl, hopen, rfl, rfl, fun _ => rfl⟩

/-- An execution: what MySQL gets, what the call returns, and what it leaves of the statement
when MySQL has taken it. -/
structure Ran (o : Outcome) (db : Db) (mem : Variables) (sql : Bytes) (vs : List BindIn)
    (outs : List BindOut) (done : Executed) : Prop where
  received : done.received = some (vs.map (·.sent mem))
  text : done.statement.mSql = sql
  refused : done.rc ≠ 0 ↔ o.execute = false ∨
    (db.write o.autoId sql (vs.map (·.sent mem)) = none ∧
      db.select sql (vs.map (·.sent mem)) = none)
  state : done.statement.mState = true
  type : done.statement.mSqltype = sqltype sql
  taken : done.rc = 0 → done.statement.mCda.rc = 0
  fields : done.statement.mHandle.fieldCount = fieldCount sql
  results : done.statement.mHandle.results = (List.ofFn (outSlots outs)).take (fieldCount sql)

theorem mysqlServer_binds (o : Outcome) (db : Db) : (mysqlServer o db).Binds where
  param := fun _ => rfl
  result := fun _ => rfl

theorem fieldCount_le (sql : Bytes) : fieldCount sql ≤ maxParams := by
  unfold fieldCount
  split
  · decide
  · split <;> decide

/-- The server's answer to a statement. -/
theorem server_answers (o : Outcome) (db : Db) (sql : Bytes) (params : List Received) :
    (∃ rows, (mysqlServer o db).execute sql params = .ok rows ∧ o.execute = true ∧
      ¬ (db.write o.autoId sql params = none ∧ db.select sql params = none)) ∨
    ((mysqlServer o db).execute sql params = .error refusal ∧ (o.execute = false ∨
      (db.write o.autoId sql params = none ∧ db.select sql params = none))) := by
  unfold mysqlServer
  dsimp only
  cases o.execute with
  | false => exact Or.inr ⟨rfl, Or.inl rfl⟩
  | true =>
      cases db.write o.autoId sql params with
      | some new => exact Or.inl ⟨1, rfl, rfl, fun h => by cases h.1⟩
      | none =>
          cases db.select sql params with
          | some rows => exact Or.inl ⟨rows.length, rfl, rfl, fun h => by cases h.2⟩
          | none => exact Or.inr ⟨rfl, Or.inr ⟨rfl, rfl⟩⟩

theorem execute_ran (o : Outcome) (db : Db) (mem : Variables) {st : Sqlstatement}
    (hopen : st.mState = true) (sql : Bytes) (vs : List BindIn) (hle : vs.length ≤ maxParams)
    (outs : List BindOut) (cda : Cda) :
    ∃ done, ((st.prepared sql (vs.length, fieldCount sql)).bound vs outs cda).execute
        (mysqlServer o db) mem = .ok done ∧ Ran o db mem sql vs outs done := by
  obtain ⟨handle, hparams, hresults, hfields, hexec⟩ := execute_run (mysqlServer_binds o db) mem
    ((st.prepared sql (vs.length, fieldCount sql)).bound vs outs cda) hopen rfl hle
    (fieldCount_le sql)
  refine ⟨_, hexec, ?_⟩
  have hsends : handle.params.map ((Sqlstatement.markNulls mem
      { (st.prepared sql (vs.length, fieldCount sql)).bound vs outs cda with
        mCda := .zero, mHandle := handle }).send mem) = vs.map (·.sent mem) := by
    rw [hparams]
    exact sends_bound mem { st.prepared sql (vs.length, fieldCount sql) with
      mHandle := handle, paramsOut := outSlots outs } hle .zero
  obtain ⟨htext, hstate, htype, hhandle, hanswer⟩ := run_answers (mysqlServer o db) mem
    { (st.prepared sql (vs.length, fieldCount sql)).bound vs outs cda with
      mCda := .zero, mHandle := handle } hopen rfl
  rw [hsends] at hanswer
  have hrc : ∀ {done : Executed}, (match (mysqlServer o db).execute sql (vs.map (·.sent mem)) with
      | .ok _ => done.rc = 0 ∧ done.statement.mCda.rc = 0
      | .error e => e.errno ≠ 1243 → done.rc = e.errno) →
      (done.rc ≠ 0 ↔ o.execute = false ∨ (db.write o.autoId sql (vs.map (·.sent mem)) = none ∧
        db.select sql (vs.map (·.sent mem)) = none)) ∧
      (done.rc = 0 → done.statement.mCda.rc = 0) := by
    intro done hmatch
    rcases server_answers o db sql (vs.map (·.sent mem)) with ⟨rows, hok, hx, hsome⟩ | ⟨herr, hwhy⟩
    · rw [hok] at hmatch
      refine ⟨iff_of_false (fun hne => hne hmatch.1) ?_, fun _ => hmatch.2⟩
      rintro (hfalse | hnone)
      · rw [hx] at hfalse
        cases hfalse
      · exact hsome hnone
    · rw [herr] at hmatch
      have hcode := hmatch (by decide)
      refine ⟨iff_of_true ?_ hwhy, fun hzero => ?_⟩
      · rw [hcode]
        decide
      · rw [hcode] at hzero
        exact absurd hzero (by decide)
  exact
    { received := by rw [run_received]; exact congrArg some hsends
      text := htext
      refused := (hrc hanswer).1
      state := hstate
      type := htype
      taken := (hrc hanswer).2
      fields := by rw [hhandle]; exact hfields
      results := by rw [hhandle]; exact hresults }

/-! ## Values -/

/-- A string stands at an address, behind whatever else. -/
def HoldsText (mem : Variables) (a : Address) (s : Bytes) : Prop := ∃ rest, mem a = s ++ 0 :: rest

def HoldsInt (mem : Variables) (a : Address) (x : Int) : Prop := ∃ rest, mem a = storeInt x ++ rest

theorem HoldsText.written (mem : Variables) (a : Address) (s : Bytes) :
    HoldsText (mem.write a (s ++ [0])) a s :=
  ⟨_, by rw [write_same, List.append_assoc]; rfl⟩

theorem HoldsText.other {mem : Variables} {a b : Address} {s : Bytes} (h : HoldsText mem a s)
    (hne : a ≠ b) (bytes : Bytes) : HoldsText (mem.write b bytes) a s := by
  rwa [HoldsText, write_other mem hne]

theorem HoldsInt.written (mem : Variables) (a : Address) (x : Int) :
    HoldsInt (mem.write a (storeInt x)) a x := ⟨_, write_same mem a (storeInt x)⟩

theorem HoldsInt.other {mem : Variables} {a b : Address} {x : Int} (h : HoldsInt mem a x)
    (hne : a ≠ b) (bytes : Bytes) : HoldsInt (mem.write b bytes) a x := by
  rwa [HoldsInt, write_other mem hne]

/-- A string that was copied into its array arrives, unless it is empty. -/
theorem HoldsText.sent {mem : Variables} {a : Address} {s : Bytes} (h : HoldsText mem a (cStr s))
    (len : UInt32) : ((BindIn.chars a len).sent mem).text = bindString (cStr s) := by
  obtain ⟨rest, hmem⟩ := h
  have hstr : cStr (mem a) = cStr s := by
    rw [hmem]
    exact cStr_append (nul_notMem_cStr s) rest
  rw [BindIn.sent, hstr]
  by_cases hempty : cStr s = []
  · rw [hempty]
    rfl
  · rw [if_neg (by simpa using hempty), bindString_of_ne_nil hempty]
    rfl

theorem HoldsInt.sent {mem : Variables} {a : Address} {x : Int} (h : HoldsInt mem a x)
    (hx : InInt x) : ((BindIn.int a).sent mem).int = some x := by
  obtain ⟨rest, hmem⟩ := h
  obtain ⟨b₀, b₁, b₂, b₃, hbytes, -, hvalue⟩ := int_storeInt hx rest
  rw [BindIn.sent, hmem, hbytes]
  exact congrArg some hvalue

/-! ## Functions that write -/

theorem prepare_server (o : Outcome) (db : Db) {st : Sqlstatement} (hopen : st.mState = true)
    {text sql : Bytes} (h : TextOf text sql) {n : Nat}
    (hcount : mysqlLexer.paramCount sql = n) :
    st.prepare (mysqlServer o db) text [] =
      .ok ((Sqlstatement.prepared { st with mCda := .zero } sql (n, fieldCount sql)).bound [] []
        .zero, 0) := by
  subst hcount
  exact prepare_text h hopen rfl

/-- A memory in use. -/
def usedMemory : Variables := fun _ =>
  ascii "an earlier call left this behind, and more than a variable holds"

end AsioServer
