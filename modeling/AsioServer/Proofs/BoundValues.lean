import AsioServer.Proofs.BindPositions
import AsioServer.Proofs.Markers
import AsioServer.Proofs.Placeholders
import AsioServer.Proofs.SqlFormat

/-!
# Which value arrives at which parameter

A statement whose parameters are `:1` to `:n` is prepared, `n` variables are
bound in order, and it is executed. The numbers are gone from the text by then:
MySQL gives the `j`-th question mark what the `j`-th slot describes, and the
slot of a variable is its number. So a parameter receives its own variable only
where the numbers stand in their order, or where the variable it receives
instead holds the same.
-/

namespace AsioServer

/-- MySQL takes what is bound. -/
structure MysqlLib.Binds (mysql : MysqlLib) : Prop where
  param : ∀ binds, mysql.bindParam binds = none
  result : ∀ binds, mysql.bindResult binds = none

/-- A statement has the parameters this lexer sees. -/
def MysqlLib.Counts (mysql : MysqlLib) (L : SqlLexer) : Prop :=
  ∀ sql counts, mysql.prepare sql = .ok counts → counts.1 = L.paramCount sql

/-- What is to arrive of a variable: a string up to its end, a blob of its size,
and nothing of an empty one. -/
def BindIn.sent (vars : Variables) : BindIn → Received
  | .int value | .unsignedInt value => .data .long ((vars value).take 4)
  | .long value | .unsignedLong value => .data .longlong ((vars value).take 8)
  | .float value => .data .float ((vars value).take 4)
  | .double value => .data .double ((vars value).take 8)
  | .chars value _ =>
      if (cStr (vars value)).length = 0 then .null else .data .varString (cStr (vars value))
  | .lob buffer size =>
      if leNat ((vars size).take 8) = 0 then .null
      else .data .blob ((vars buffer).take (leNat ((vars size).take 8)))

/-- The calls of `bindin`, from this position on. -/
def bindAll : List BindIn → Nat → Sqlstatement → Except Fault Sqlstatement
  | [], _, st => .ok st
  | b :: vs, k, st =>
      (b.call st (UInt32.ofNat k)).bind fun bound => bindAll vs (k + 1) bound.1

/-- The variables are bound and the statement is executed, and at each of these marks the
variable of its number arrives. -/
def Arrives (mysql : MysqlLib) (vars : Variables) (st : Sqlstatement) (vs : List BindIn)
    (marks : List Tok) : Prop :=
  ∃ (bound : Sqlstatement) (done : Executed) (received : List Received),
    bindAll vs 1 st = .ok bound ∧ bound.execute mysql vars = .ok done ∧
    done.received = some received ∧
    ∀ (j k : Nat) (v : BindIn), marks[j]? = some (Tok.param k) → vs[k - 1]? = some v →
      received[j]? = some (v.sent vars)

/-- The text is prepared, and every `:k` in it receives the `k`-th variable. -/
def Delivered (mysql : MysqlLib) (L : SqlLexer) (vars : Variables) (st : Sqlstatement)
    (fmt : Bytes) (args : List Arg) (vs : List BindIn) (s : Bytes) : Prop :=
  ∃ st', st.prepare mysql fmt args = .ok (st', 0) ∧ Arrives mysql vars st' vs (L.marks s)

/-! ## `prepare` -/

/-- The text a successful `prepare` has handed over, and what it leaves. -/
theorem prepare_inv {mysql : MysqlLib} {st st' : Sqlstatement} {fmt : Bytes} {args : List Arg}
    (h : st.prepare mysql fmt args = .ok (st', 0)) :
    ∃ s sql counts, Sqlstatement.formatPrepare fmt args = .ok s ∧ translate s = .ok sql ∧
      mysql.prepare sql = .ok counts ∧ st.mState = true ∧
      st' = Sqlstatement.prepared { st with mCda := .zero } sql counts := by
  unfold Sqlstatement.prepare at h
  cases hopen : st.mState with
  | false =>
      simp only [hopen] at h
      cases h
  | true =>
      simp only [hopen] at h
      obtain ⟨s, hs, h⟩ := bind_eq_ok.mp h
      obtain ⟨sql, hsql, h⟩ := bind_eq_ok.mp h
      cases hmysql : mysql.prepare sql with
      | ok counts =>
          rw [hmysql] at h
          cases h
          exact ⟨s, sql, counts, hs, hsql, hmysql, rfl, rfl⟩
      | error e =>
          rw [hmysql] at h
          refine absurd (Prod.mk.inj (Except.ok.inj h)).2 ?_
          unfold Sqlstatement.refused Sqlstatement.errReport
          exact e.failed

theorem prepare_eq {mysql : MysqlLib} {st : Sqlstatement} {fmt s sql : Bytes} {args : List Arg}
    {counts : Nat × Nat} (hopen : st.mState = true)
    (hs : Sqlstatement.formatPrepare fmt args = .ok s) (hsql : translate s = .ok sql)
    (hcounts : mysql.prepare sql = .ok counts) :
    st.prepare mysql fmt args =
      .ok (Sqlstatement.prepared { st with mCda := .zero } sql counts, 0) := by
  unfold Sqlstatement.prepare
  rw [if_neg (by rw [hopen]; decide)]
  exact bind_ok hs (bind_ok hsql (by rw [hcounts]))

/-! ## The calls of `bindin` -/

/-- The array with these variables in its first slots. -/
def slotsOf (vs : List BindIn) (i : Fin maxParams) : MysqlBind :=
  match vs[i.val]? with
  | some b => b.write i .zero
  | none => .zero

def Sqlstatement.withBound (st : Sqlstatement) (vs : List BindIn) (cda : Cda) : Sqlstatement :=
  { st with paramsIn := slotsOf vs, maxbindin := vs.length, mCda := cda }

theorem slotsOf_snoc {done : List BindIn} {i : Fin maxParams} (hi : i.val = done.length)
    (b : BindIn) :
    Function.update (slotsOf done) i (b.write i (slotsOf done i)) = slotsOf (done ++ [b]) := by
  have hnone : slotsOf done i = .zero := by
    rw [slotsOf, List.getElem?_eq_none (by omega)]
  funext j
  by_cases hj : j = i
  · subst hj
    rw [Function.update_self, hnone, slotsOf, List.getElem?_append_right (by omega), hi,
      Nat.sub_self]
    rfl
  · have hne : j.val ≠ done.length := fun h => hj (Fin.ext (h.trans hi.symm))
    rw [Function.update_of_ne hj, slotsOf, slotsOf]
    rcases Nat.lt_or_gt_of_ne hne with hlt | hgt
    · rw [List.getElem?_append_left hlt]
    · rw [List.getElem?_eq_none (by omega), List.getElem?_eq_none (by simp; omega)]

theorem call_withBound {st : Sqlstatement} (hopen : st.mState = true) {done : List BindIn}
    (hlt : done.length < maxParams) (b : BindIn) (cda : Cda) :
    ∃ cda', b.call (st.withBound done cda) (UInt32.ofNat (done.length + 1)) =
      .ok (st.withBound (done ++ [b]) cda', 0) := by
  have hnat : (UInt32.ofNat (done.length + 1)).toNat = done.length + 1 :=
    UInt32.toNat_ofNat_of_lt' (by unfold maxParams at hlt; show _ < 4294967296; omega)
  have hpos : 1 ≤ (UInt32.ofNat (done.length + 1)).toNat := by omega
  obtain ⟨i, hi, hslot⟩ := slot_eq hpos (by omega)
  rw [hnat] at hi
  have hopen' : (st.withBound done cda).mState = true := hopen
  have hmax : (if (st.withBound done cda).maxbindin < done.length + 1 then done.length + 1
      else (st.withBound done cda).maxbindin) = (done ++ [b]).length := by
    rw [List.length_append, List.length_singleton]
    exact if_pos (Nat.lt_succ_self done.length)
  have hslots := slotsOf_snoc (show i.val = done.length by omega) b
  rw [b.call_eq, bindinWith_eq hopen' hslot, hnat, hmax]
  unfold Sqlstatement.withBound
  rw [← hslots]
  exact ⟨_, rfl⟩

/-- The array has no slot for the next one. -/
theorem call_overflow {st : Sqlstatement} (hopen : st.mState = true) {done : List BindIn}
    (hfull : done.length = maxParams) (b : BindIn) (cda : Cda) :
    b.call (st.withBound done cda) (UInt32.ofNat (done.length + 1)) = .error .outOfBounds := by
  have hslot : slot (UInt32.ofNat (done.length + 1)) = .error .outOfBounds := by
    rw [hfull]
    decide
  rw [b.call_eq, Sqlstatement.bindinWith, show (st.withBound done cda).mState = true from hopen]
  dsimp only [Bool.not_true]
  rw [hslot]
  rfl

theorem bindAll_withBound {st : Sqlstatement} (hopen : st.mState = true) :
    ∀ (vs done : List BindIn) (cda : Cda), done.length ≤ maxParams →
      ((done ++ vs).length ≤ maxParams → ∃ cda',
        bindAll vs (done.length + 1) (st.withBound done cda) =
          .ok (st.withBound (done ++ vs) cda')) ∧
      (maxParams < (done ++ vs).length →
        bindAll vs (done.length + 1) (st.withBound done cda) = .error .outOfBounds)
  | [], done, cda, hdone => by
      rw [List.append_nil]
      exact ⟨fun _ => ⟨cda, rfl⟩, fun hlt => by omega⟩
  | b :: vs, done, cda, hdone => by
      rcases Nat.lt_or_eq_of_le hdone with hlt | hfull
      · obtain ⟨cda', hcall⟩ := call_withBound hopen hlt b cda
        have hlen : (done ++ [b]).length = done.length + 1 := List.length_append
        have ih := bindAll_withBound hopen vs (done ++ [b]) cda' (by omega)
        rw [List.append_assoc, List.singleton_append, hlen] at ih
        rw [bindAll, hcall]
        exact ih
      · rw [bindAll, call_overflow hopen hfull b cda]
        refine ⟨fun hle => ?_, fun _ => rfl⟩
        rw [List.length_append, List.length_cons] at hle
        omega

/-! ## `execute` -/

/-- The last part of `execute` hands over what is bound, whatever MySQL says. -/
theorem run_received (mysql : MysqlLib) (vars : Variables) (st : Sqlstatement) :
    (st.run mysql vars).received =
      some (st.mHandle.params.map ((st.markNulls vars).send vars)) := by
  unfold Sqlstatement.run
  dsimp only
  split <;> rfl

theorem firstBinds_eq (binds : Fin maxParams → MysqlBind) (count : Nat) :
    (count ≤ maxParams → firstBinds binds count = .ok ((List.ofFn binds).take count)) ∧
      (¬ count ≤ maxParams → firstBinds binds count = .error .outOfBounds) :=
  ⟨fun h => if_pos h, fun h => if_neg h⟩

theorem bindParam_prepared {mysql : MysqlLib} (hmysql : mysql.Binds) {st : Sqlstatement}
    {paramCount fieldCount : Nat} (hhandle : st.mHandle = .prepared paramCount fieldCount) :
    (paramCount ≤ maxParams → ∃ handle, st.bindParam mysql =
      .ok ({ st with mHandle := handle }, none) ∧
      handle.params = (List.ofFn st.paramsIn).take paramCount ∧
      handle.fieldCount = fieldCount ∧ handle.bindResultDone = false) ∧
      (¬ paramCount ≤ maxParams → st.bindParam mysql = .error .outOfBounds) := by
  obtain ⟨hbinds, hover⟩ := firstBinds_eq st.paramsIn paramCount
  unfold Sqlstatement.bindParam
  rw [hhandle]
  by_cases hpos : 0 < paramCount
  · rw [if_pos ⟨hpos, rfl⟩]
    refine ⟨fun hle => ?_, fun hgt => ?_⟩
    · refine ⟨⟨paramCount, fieldCount, true, false, (List.ofFn st.paramsIn).take paramCount, []⟩,
        ?_, rfl, rfl, rfl⟩
      show (firstBinds st.paramsIn paramCount).map _ = _
      rw [hbinds hle, Except.map, hmysql.param]
      rfl
    · show (firstBinds st.paramsIn paramCount).map _ = _
      rw [hover hgt]
      rfl
  · rw [if_neg fun h => hpos h.1]
    refine ⟨fun _ => ⟨st.mHandle, rfl, ?_, ?_, ?_⟩, fun hgt => absurd hpos (by omega)⟩
    · rw [hhandle, Nat.eq_zero_of_not_pos hpos]
      rfl
    · rw [hhandle]
      rfl
    · rw [hhandle]
      rfl

theorem bindResult_prepared {mysql : MysqlLib} (hmysql : mysql.Binds) {st : Sqlstatement}
    (hdone : st.mHandle.bindResultDone = false) :
    (st.mHandle.fieldCount ≤ maxParams → ∃ handle, st.bindResult mysql =
      .ok ({ st with mHandle := handle }, none) ∧ handle.params = st.mHandle.params) ∧
      (¬ st.mHandle.fieldCount ≤ maxParams → st.bindResult mysql = .error .outOfBounds) := by
  obtain ⟨hbinds, hover⟩ := firstBinds_eq st.paramsOut st.mHandle.fieldCount
  unfold Sqlstatement.bindResult
  by_cases hpos : 0 < st.mHandle.fieldCount
  · rw [if_pos ⟨hpos, by rw [hdone]; rfl⟩]
    refine ⟨fun hle => ?_, fun hgt => ?_⟩
    · refine ⟨{ st.mHandle with
        bindResultDone := true
        results := (List.ofFn st.paramsOut).take st.mHandle.fieldCount }, ?_, rfl⟩
      rw [hbinds hle, Except.map, hmysql.result]
    · rw [hover hgt]
      rfl
  · rw [if_neg fun h => hpos h.1]
    exact ⟨fun _ => ⟨st.mHandle, rfl, rfl⟩, fun hgt => absurd hpos (by omega)⟩

theorem execute_prepared {mysql : MysqlLib} (hmysql : mysql.Binds) (vars : Variables)
    {st : Sqlstatement} (hopen : st.mState = true) {paramCount fieldCount : Nat}
    (hhandle : st.mHandle = .prepared paramCount fieldCount) :
    (paramCount ≤ maxParams ∧ fieldCount ≤ maxParams → ∃ done,
      st.execute mysql vars = .ok done ∧ done.received =
        some (((List.ofFn st.paramsIn).take paramCount).map ((st.markNulls vars).send vars))) ∧
      (¬ (paramCount ≤ maxParams ∧ fieldCount ≤ maxParams) →
        st.execute mysql vars = .error .outOfBounds) := by
  have hhandle' : ({ st with mCda := .zero } : Sqlstatement).mHandle =
      .prepared paramCount fieldCount := hhandle
  have hparam := bindParam_prepared hmysql hhandle'
  unfold Sqlstatement.execute
  rw [if_neg (by rw [hopen]; decide)]
  by_cases hparams : paramCount ≤ maxParams
  · obtain ⟨handle, hbound, hlist, hfield, hdone⟩ := hparam.1 hparams
    have hdone' : ({ st with mCda := .zero, mHandle := handle } :
        Sqlstatement).mHandle.bindResultDone = false := hdone
    have hresult := bindResult_prepared hmysql hdone'
    rw [hbound]
    refine ⟨fun h => ?_, fun h => ?_⟩
    · obtain ⟨handle', hres, hlist'⟩ := hresult.1 (by rw [hfield]; exact h.2)
      show ∃ done, ((Sqlstatement.bindResult mysql _).map _) = _ ∧ _
      rw [hres]
      refine ⟨_, rfl, ?_⟩
      rw [run_received]
      show some (handle'.params.map _) = _
      rw [hlist', hlist]
      rfl
    · show (Sqlstatement.bindResult mysql _).map _ = _
      rw [hresult.2 (by rw [hfield]; exact fun hle => h ⟨hparams, hle⟩)]
      rfl
  · rw [hparam.2 hparams]
    exact ⟨fun h => absurd h.1 hparams, fun _ => rfl⟩

/-! ## What arrives -/

/-- A bound slot sends what its variable holds. -/
theorem send_bound (vars : Variables) (st : Sqlstatement) {vs : List BindIn} (cda : Cda)
    {i : Fin maxParams} {b : BindIn} (h : vs[i.val]? = some b) :
    ((st.withBound vs cda).markNulls vars).send vars (slotsOf vs i) = b.sent vars := by
  have hslot : slotsOf vs i = b.write i .zero := by rw [slotsOf, h]
  have hlt : i.val < (st.withBound vs cda).maxbindin := (List.getElem?_eq_some_iff.mp h).1
  have hin : (st.withBound vs cda).paramsIn i = b.write i .zero := hslot
  rw [hslot]
  cases b with
  | int _ | unsignedInt _ | long _ | unsignedLong _ | float _ | double _ => rfl
  | chars value len =>
      have hnull : (st.withBound vs cda).isNullAfter vars i =
          ((cStr (vars value)).length == 0) := by
        rw [Sqlstatement.isNullAfter, if_pos hlt, hin]
        rfl
      have hlength : (cStr (vars value)).length ≠ 0 →
          (st.withBound vs cda).lengthAfter vars i = (cStr (vars value)).length := fun hne => by
        rw [Sqlstatement.lengthAfter, hin, if_pos ⟨hlt, rfl, hne⟩]
        rfl
      show (if (st.withBound vs cda).isNullAfter vars i = true then Received.null
        else .data .varString ((vars value).take ((st.withBound vs cda).lengthAfter vars i))) = _
      rw [hnull, BindIn.sent]
      by_cases hempty : (cStr (vars value)).length = 0
      · rw [if_pos hempty, if_pos (beq_iff_eq.mpr hempty)]
      · rw [if_neg hempty, if_neg (by rwa [beq_iff_eq]), hlength hempty]
        exact congrArg (Received.data .varString)
          (List.prefix_iff_eq_take.mp (List.takeWhile_prefix _)).symm
  | lob buffer size =>
      have hnull : (st.withBound vs cda).isNullAfter vars i =
          (leNat ((vars size).take 8) == 0) := by
        rw [Sqlstatement.isNullAfter, if_pos hlt, hin]
        rfl
      show (if (st.withBound vs cda).isNullAfter vars i = true then Received.null
        else .data .blob ((vars buffer).take (leNat ((vars size).take 8)))) = _
      rw [hnull, BindIn.sent]
      by_cases hempty : leNat ((vars size).take 8) = 0
      · rw [if_pos hempty, if_pos (beq_iff_eq.mpr hempty)]
      · rw [if_neg hempty, if_neg (by rwa [beq_iff_eq])]

theorem send_unbound (vars : Variables) (st : Sqlstatement) {vs : List BindIn} {i : Fin maxParams}
    (h : vs[i.val]? = none) : st.send vars (slotsOf vs i) = .data .decimal [] := by
  rw [slotsOf, h]
  rfl

/-- No variable sends what a slot without one does. -/
theorem BindIn.sent_ne_decimal (vars : Variables) (b : BindIn) :
    b.sent vars ≠ .data .decimal [] := by
  cases b with
  | int _ | unsignedInt _ | long _ | unsignedLong _ | float _ | double _ =>
      exact fun h => FieldType.noConfusion (Received.data.inj h).1
  | chars value len =>
      rw [BindIn.sent]
      split
      · exact Received.noConfusion
      · exact fun h => FieldType.noConfusion (Received.data.inj h).1
  | lob buffer size =>
      rw [BindIn.sent]
      split
      · exact Received.noConfusion
      · exact fun h => FieldType.noConfusion (Received.data.inj h).1

/-- The slot of a question mark sends what a variable does if its own variable
sends the same. -/
theorem send_eq_iff (vars : Variables) (st : Sqlstatement) {vs : List BindIn} (cda : Cda)
    (i : Fin maxParams) (v : BindIn) :
    ((st.withBound vs cda).markNulls vars).send vars (slotsOf vs i) = v.sent vars ↔
      ∃ w, vs[i.val]? = some w ∧ w.sent vars = v.sent vars := by
  cases h : vs[i.val]? with
  | none =>
      rw [send_unbound vars _ h]
      exact ⟨fun heq => absurd heq.symm (v.sent_ne_decimal vars), fun ⟨w, hw, _⟩ => by cases hw⟩
  | some w =>
      rw [send_bound vars st cda h]
      exact ⟨fun heq => ⟨w, rfl, heq⟩, fun ⟨w', hw', heq⟩ => by rwa [Option.some.inj hw']⟩

/-! ## The whole run -/

/-- Each parameter stands where the variable of its slot sends the same as its
own. -/
def InPlace (vars : Variables) (vs : List BindIn) (marks : List Tok) : Prop :=
  ∀ (j k : Nat) (v : BindIn), marks[j]? = some (Tok.param k) → vs[k - 1]? = some v →
    ∃ w, vs[j]? = some w ∧ w.sent vars = v.sent vars

theorem arrives_iff {mysql : MysqlLib} (hmysql : mysql.Binds) (vars : Variables)
    {st : Sqlstatement} {vs : List BindIn} {marks : List Tok} {paramCount fieldCount : Nat}
    (hopen : st.mState = true) (hhandle : st.mHandle = .prepared paramCount fieldCount)
    (hin : st.paramsIn = fun _ => .zero) (hmax : st.maxbindin = 0)
    (hcount : vs.length ≤ maxParams → paramCount = marks.length)
    (hused : vs.length ≤ marks.length) :
    Arrives mysql vars st vs marks ↔
      marks.length ≤ maxParams ∧ fieldCount ≤ maxParams ∧ InPlace vars vs marks := by
  have hstart : st = st.withBound [] st.mCda := by
    unfold Sqlstatement.withBound
    rw [show slotsOf [] = st.paramsIn from hin.symm, List.length_nil, ← hmax]
  have hcalls := bindAll_withBound hopen vs [] st.mCda (Nat.zero_le _)
  rw [← hstart, List.nil_append, List.length_nil, Nat.zero_add] at hcalls
  by_cases hfits : vs.length ≤ maxParams
  · obtain ⟨cda, hbound⟩ := hcalls.1 hfits
    obtain rfl := hcount hfits
    have hhandle' : (st.withBound vs cda).mHandle = .prepared marks.length fieldCount := hhandle
    have hopen' : (st.withBound vs cda).mState = true := hopen
    obtain ⟨hruns, hfails⟩ := execute_prepared hmysql vars hopen' hhandle'
    by_cases hroom : marks.length ≤ maxParams ∧ fieldCount ≤ maxParams
    · obtain ⟨done, hexec, hreceived⟩ := hruns hroom
      have hiff : ∀ (j : Nat) (v : BindIn), j < marks.length →
          ((((List.ofFn (slotsOf vs)).take marks.length).map
            (((st.withBound vs cda).markNulls vars).send vars))[j]? = some (v.sent vars) ↔
          ∃ w, vs[j]? = some w ∧ w.sent vars = v.sent vars) := fun j v hj => by
        have hslot : ((List.ofFn (slotsOf vs)).take marks.length)[j]? =
            some (slotsOf vs ⟨j, by omega⟩) := by
          rw [List.getElem?_take_of_lt hj, List.getElem?_ofFn, dif_pos (by omega)]
        rw [List.getElem?_map, hslot, Option.map_some, Option.some_inj, send_eq_iff]
      constructor
      · rintro ⟨bound, done', received, hbound', hexec', hreceived', hall⟩
        obtain rfl := Except.ok.inj (hbound.symm.trans hbound')
        obtain rfl := Except.ok.inj (hexec.symm.trans hexec')
        obtain rfl := Option.some.inj (hreceived.symm.trans hreceived')
        exact ⟨hroom.1, hroom.2, fun j k v hmark hv =>
          (hiff j v (List.getElem?_eq_some_iff.mp hmark).1).mp (hall j k v hmark hv)⟩
      · rintro ⟨-, -, hplace⟩
        exact ⟨_, done, _, hbound, hexec, hreceived, fun j k v hmark hv =>
          (hiff j v (List.getElem?_eq_some_iff.mp hmark).1).mpr (hplace j k v hmark hv)⟩
    · refine iff_of_false ?_ fun h => hroom ⟨h.1, h.2.1⟩
      rintro ⟨bound, done, received, hbound', hexec, -⟩
      obtain rfl := Except.ok.inj (hbound.symm.trans hbound')
      rw [hfails hroom] at hexec
      cases hexec
  · refine iff_of_false ?_ fun h => hfits (Nat.le_trans hused h.1)
    rintro ⟨bound, done, received, hbound, -⟩
    rw [hcalls.2 (by omega)] at hbound
    cases hbound

theorem arrives_prepared_iff {mysql : MysqlLib} {L : SqlLexer} (hmysql : mysql.Binds)
    (hcounts : mysql.Counts L) (hblind : L.Blind) (vars : Variables) {st : Sqlstatement}
    {vs : List BindIn} {s sql : Bytes} {counts : Nat × Nat} (hparams : L.Params vs.length s)
    (hused : ∀ k, 1 ≤ k → k ≤ vs.length → Tok.param k ∈ L.marks s) (hsql : translate s = .ok sql)
    (hcount : mysql.prepare sql = .ok counts) (hopen : st.mState = true) :
    Arrives mysql vars (Sqlstatement.prepared { st with mCda := .zero } sql counts) vs
        (L.marks s) ↔
      (L.marks s).length ≤ maxParams ∧ counts.2 ≤ maxParams ∧ InPlace vars vs (L.marks s) := by
  refine arrives_iff hmysql vars hopen rfl rfl rfl (fun hle => ?_)
    (SqlLexer.le_length_marks hused)
  rw [hcounts sql counts hcount]
  exact SqlLexer.paramCount_translate hblind (hparams.mono hle) hsql

/-- What it takes: the text fits `m_sql` all the while, MySQL takes it, the arrays have a slot for
each parameter it sees and for each field, and each parameter is in its place. -/
structure Deliverable (mysql : MysqlLib) (L : SqlLexer) (vars : Variables) (st : Sqlstatement)
    (vs : List BindIn) (s : Bytes) : Prop where
  isOpen : st.mState = true
  fits : ∀ done, done <+: translationRules s → (Replace.seq done s).length < mSqlSize
  taken : ∃ counts, mysql.prepare (Replace.seq (translationRules s) s) = .ok counts ∧
    counts.2 ≤ maxParams
  slots : (L.marks s).length ≤ maxParams
  inPlace : InPlace vars vs (L.marks s)

theorem bound_value_delivered_iff (mysql : MysqlLib) (L : SqlLexer) (hmysql : mysql.Binds)
    (hcounts : mysql.Counts L) (hblind : L.Blind) (vars : Variables) (st : Sqlstatement)
    (fmt : Bytes) (args : List Arg) (vs : List BindIn) (s : Bytes)
    (hs : Sqlstatement.formatPrepare fmt args = .ok s) (hparams : L.Params vs.length s)
    (hused : ∀ k, 1 ≤ k → k ≤ vs.length → Tok.param k ∈ L.marks s) :
    Delivered mysql L vars st fmt args vs s ↔ Deliverable mysql L vars st vs s := by
  have hlen : s.length < mSqlSize := by
    have := vsnprintf_length hs
    unfold sqlSize at this
    unfold mSqlSize
    omega
  constructor
  · rintro ⟨st', hprepare, harrive⟩
    obtain ⟨s', sql, counts, hs', hsql, hcount, hopen, rfl⟩ := prepare_inv hprepare
    obtain rfl := Except.ok.inj (hs.symm.trans hs')
    obtain ⟨hslots, hfields, hplace⟩ := (arrives_prepared_iff hmysql hcounts hblind vars hparams
      hused hsql hcount hopen).mp harrive
    refine ⟨hopen, (translate_ok_iff hlen).mp ⟨sql, hsql⟩, ⟨counts, ?_, hfields⟩, hslots, hplace⟩
    rw [← translate_ok hsql]
    exact hcount
  · rintro ⟨hopen, hfits, ⟨counts, hcount, hfields⟩, hslots, hplace⟩
    obtain ⟨sql, hsql⟩ := (translate_ok_iff hlen).mpr hfits
    rw [← translate_ok hsql] at hcount
    exact ⟨_, prepare_eq hopen hs hsql hcount, (arrives_prepared_iff hmysql hcounts hblind vars
      hparams hused hsql hcount hopen).mpr ⟨hslots, hfields, hplace⟩⟩

/-! ## In their order, and in the other -/

/-- A MySQL that takes every statement. -/
def countingMysql : MysqlLib where
  prepare := fun sql => .ok (mysqlLexer.paramCount sql, 0)
  bindParam := fun _ => none
  bindResult := fun _ => none
  execute := fun _ _ => .ok 0

theorem countingMysql_binds : countingMysql.Binds := ⟨fun _ => rfl, fun _ => rfl⟩

theorem countingMysql_counts : countingMysql.Counts mysqlLexer :=
  fun _ _ h => (congrArg Prod.fst (Except.ok.inj h)).symm

/-- The numbers 1 and 2, at two addresses. -/
def twoInts : Variables := fun address =>
  if address = 8 then [1, 0, 0, 0] else if address = 16 then [2, 0, 0, 0] else []

theorem format_text {s : Bytes} (hlen : s.length < sqlSize) (hnul : 0 ∉ s) (hplain : percent ∉ s) :
    Sqlstatement.formatPrepare s [] = .ok s := (vsnprintf_again hlen hnul).mpr hplain

/-- A question mark in a string is no parameter. -/
theorem marks_quoted : mysqlLexer.marks (ascii "('?',:1,:2)") = [.param 1, .param 2] := by decide

theorem bound_value_delivered_iff_quoted :
    Delivered countingMysql mysqlLexer twoInts (freshStatement 0) (ascii "('?',:1,:2)") []
      [.int 8, .int 16] (ascii "('?',:1,:2)") := by
  have htranslate : translate (ascii "('?',:1,:2)") = .ok (ascii "('?',?,?)") := by
    rw [translate, placeholders_eq (paramText_of_check (by decide)) (by decide)]
    decide
  refine (bound_value_delivered_iff countingMysql mysqlLexer countingMysql_binds
    countingMysql_counts mysqlLexer_blind twoInts (freshStatement 0) _ [] _ _
    (format_text (by decide) (by decide) (by decide))
    (SqlLexer.params_of_paramText (paramText_of_check (by decide))) (fun k hpos hle => ?_)).mpr
    ⟨rfl, (translate_ok_iff (by decide)).mp ⟨_, htranslate⟩, ⟨_, rfl, Nat.zero_le _⟩,
      by rw [marks_quoted]; decide, ?_⟩
  · rw [marks_quoted]
    obtain rfl | rfl : k = 1 ∨ k = 2 := by
      have hle : k ≤ 2 := hle
      omega
    · decide
    · decide
  · rw [marks_quoted]
    intro j k v hmark hv
    match j, hmark with
    | 0, hmark =>
        obtain rfl := Tok.param.inj (Option.some.inj hmark)
        exact ⟨v, hv, rfl⟩
    | 1, hmark =>
        obtain rfl := Tok.param.inj (Option.some.inj hmark)
        exact ⟨v, hv, rfl⟩

/-- The value of `:2` arrives at `:1`. -/
theorem bound_value_not_delivered :
    ¬ ∀ (mysql : MysqlLib) (L : SqlLexer) (vars : Variables) (st : Sqlstatement) (fmt : Bytes)
      (args : List Arg) (vs : List BindIn) (s : Bytes), mysql.Binds → mysql.Counts L → L.Blind →
      st.mState = true → Sqlstatement.formatPrepare fmt args = .ok s → L.Params vs.length s →
      (∀ k, 1 ≤ k → k ≤ vs.length → Tok.param k ∈ L.marks s) →
      Delivered mysql L vars st fmt args vs s := by
  intro hall
  have hmarks : mysqlLexer.marks (ascii ":2,:1") = [.param 2, .param 1] := by decide
  have hformat : Sqlstatement.formatPrepare (ascii ":2,:1") [] = .ok (ascii ":2,:1") :=
    format_text (by decide) (by decide) (by decide)
  have hparams : mysqlLexer.Params ([.int 8, .int 16] : List BindIn).length (ascii ":2,:1") :=
    SqlLexer.params_of_paramText (paramText_of_check (by decide))
  have hused : ∀ k, 1 ≤ k → k ≤ 2 → Tok.param k ∈ mysqlLexer.marks (ascii ":2,:1") := by
    intro k hpos hle
    rw [hmarks]
    obtain rfl | rfl : k = 1 ∨ k = 2 := by omega
    · decide
    · decide
  obtain ⟨st', hprepare, harrive⟩ := hall countingMysql mysqlLexer twoInts (freshStatement 0) _ []
    [.int 8, .int 16] _ countingMysql_binds countingMysql_counts mysqlLexer_blind rfl hformat
    hparams hused
  obtain ⟨s', sql, counts, hs', hsql, hcount, hopen, rfl⟩ := prepare_inv hprepare
  obtain rfl := Except.ok.inj (hformat.symm.trans hs')
  obtain ⟨-, -, hplace⟩ := (arrives_prepared_iff countingMysql_binds countingMysql_counts
    mysqlLexer_blind twoInts hparams hused hsql hcount hopen).mp harrive
  rw [hmarks] at hplace
  obtain ⟨w, hw, hsent⟩ := hplace 0 2 (.int 16) rfl rfl
  obtain rfl := Option.some.inj hw
  revert hsent
  decide

end AsioServer
