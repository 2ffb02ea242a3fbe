import AsioServer.Lib.Handles
import AsioServer.Lib.Machine
import AsioServer.Ref.Mysql

/-!
# Handles of the connection object

The calls of the library, read as uses of handles, make a log, and a careful
object keeps it `Disciplined` with the one handle it holds (`Tidy`). Every
member function does as long as what it calls succeeds, and so do the error
exits of `connecttodb` and `disconnect`: the one closes a handle before
`m_state` is set, the other clears `m_state` behind it.

`commit` and `rollback` close the handle when they fail and leave `m_state` at
1. From then on the object calls itself open without a handle
(`connectionOk_always_iff`), and what it does next, if only in its destructor,
passes a null pointer.
-/

namespace AsioServer.Mysql

open Handles

/-- What a call does to handles. Only `mysql_close` may be given none. -/
def Call.uses : Call → List (Use Handle)
  | .init result => (result.map .opened).toList
  | .stmtInit conn result => .used conn :: (result.map .opened).toList
  | .on _ handle => [.used handle]
  | .close handle => [.closed handle]
  | .stmtClose (some handle) => [.closed (some handle)]
  | .stmtClose none => [.used none]

def Connection.log (c : Connection) : List (Use Handle) := c.calls.flatMap Call.uses

/-- `m_state` says whether `m_conn` is an open handle, no function but
`mysql_close` was given a null pointer, and an object that is gone closed every
handle once. -/
structure ConnectionOk (s : Object) : Prop where
  open_iff : s.conn.mState = true ↔ ∃ h, s.conn.mConn = some h ∧
    Use.opened h ∈ s.conn.log ∧ Use.closed (some h) ∉ s.conn.log
  noNull : Use.used none ∉ s.conn.log
  closedOnce : s.destroyed = true → ∀ h, Use.opened h ∈ s.conn.log →
    s.conn.log.count (.closed (some h)) = 1

/-- A commit or a rollback of an open connection succeeds. -/
def SucceedsIfOpen (s : Object) : Event → Prop
  | .commit o => s.conn.mState = true → o.commit = true
  | .rollback o => s.conn.mState = true → o.rollback = true
  | .connecttodb _ _ | .execute _ | .disconnect _ | .destroy _ => True

/-! ## Logs -/

@[simp] theorem log_record (c : Connection) (call : Call) :
    (c.record call).log = c.log ++ call.uses := by
  simp [Connection.log, Connection.record]

@[simp] theorem on_mConn (c : Connection) (fn : Fn) : (c.on fn).mConn = c.mConn := rfl

@[simp] theorem on_mState (c : Connection) (fn : Fn) : (c.on fn).mState = c.mState := rfl

@[simp] theorem stmtOn_mConn (s : Statement) (c : Connection) (fn : Fn) :
    (s.on c fn).mConn = c.mConn := rfl

@[simp] theorem stmtOn_mState (s : Statement) (c : Connection) (fn : Fn) :
    (s.on c fn).mState = c.mState := rfl

/-- The log is disciplined, with these handles open, and the handles to come
are new. -/
structure Tidy (c : Connection) (live : List Handle) : Prop where
  disciplined : Disciplined c.log live
  fresh : ∀ h, Use.opened h ∈ c.log → h < c.next

theorem Tidy.record_used {c : Connection} {live : List Handle} {h : Handle} {call : Call}
    (ht : Tidy c live) (huses : call.uses = [.used (some h)]) (hmem : h ∈ live) :
    Tidy (c.record call) live := by
  refine ⟨?_, fun k hk => ht.fresh k ?_⟩
  · rw [log_record, huses]
    exact .used ht.disciplined hmem
  · simpa [huses] using hk

theorem Tidy.on {c : Connection} {live : List Handle} {h : Handle} (ht : Tidy c live)
    (hconn : c.mConn = some h) (hmem : h ∈ live) (fn : Fn) : Tidy (c.on fn) live := by
  rw [Connection.on, hconn]
  exact ht.record_used rfl hmem

theorem Tidy.record_closed {c : Connection} {live : List Handle} {h : Handle} (call : Call)
    (ht : Tidy c live) (huses : call.uses = [.closed (some h)]) (hmem : h ∈ live) :
    Tidy (c.record call) (live.erase h) := by
  refine ⟨?_, fun k hk => ht.fresh k ?_⟩
  · rw [log_record, huses]
    exact .closed ht.disciplined hmem
  · simpa [huses] using hk

/-- Closing no handle. -/
theorem Tidy.record_closeNull {c : Connection} {live : List Handle} (ht : Tidy c live) :
    Tidy (c.record (.close none)) live := by
  refine ⟨?_, fun k hk => ht.fresh k ?_⟩
  · rw [log_record]
    exact .closedNull ht.disciplined
  · simpa [Call.uses] using hk

/-- A new handle. -/
theorem Tidy.open {c c' : Connection} {live : List Handle} (ht : Tidy c live)
    (hlog : c'.log = c.log ++ [.opened c.next]) (hnext : c'.next = c.next + 1) :
    Tidy c' (c.next :: live) := by
  refine ⟨?_, fun k hk => ?_⟩
  · rw [hlog]
    exact .opened ht.disciplined fun hold => Nat.lt_irrefl _ (ht.fresh _ hold)
  · rw [hlog, List.mem_append, List.mem_singleton] at hk
    rw [hnext]
    rcases hk with hk | hk
    · exact Nat.lt_succ_of_lt (ht.fresh k hk)
    · cases hk
      exact Nat.lt_succ_self _

/-! ## Error exits -/

/-- The connection holds one handle. -/
structure Open (c : Connection) (h : Handle) (live : List Handle) : Prop where
  conn : c.mConn = some h
  mem : h ∈ live
  tidy : Tidy c live

theorem Open.on {c : Connection} {h : Handle} {live : List Handle} (ho : Open c h live)
    (fn : Fn) : Open (c.on fn) h live :=
  ⟨ho.conn, ho.mem, ho.tidy.on ho.conn ho.mem fn⟩

theorem Open.charset {c : Connection} {h : Handle} {live : List Handle} (ho : Open c h live)
    (charset : Bool) : Open (if charset then c.on .setCharacterSet else c) h live := by
  split
  · exact ho.on _
  · exact ho

/-- What `errReport` keeps. -/
theorem Open.errReport {c : Connection} {h : Handle} {live : List Handle} (ho : Open c h live) :
    Open c.errReport h live ∧ c.errReport.mState = c.mState := by
  unfold Connection.errReport
  split
  · exact ⟨(ho.on .errno).on .error, rfl⟩
  · exact ⟨ho, rfl⟩

theorem Open.closeOnError {c : Connection} {h : Handle} {live : List Handle}
    (ho : Open c h live) : Tidy c.closeOnError (live.erase h) := by
  have hread := ((ho.on .errno).on .error).tidy
  have hclosed := hread.record_closed (.close c.mConn) (by rw [ho.conn]; rfl) ho.mem
  exact ⟨hclosed.disciplined, hclosed.fresh⟩

/-! ## The statement inside `execute` -/

/-- A statement with its handle, on an open connection. -/
structure Busy (c : Connection) (s : Statement) (h k : Handle) : Prop where
  isOpen : Open c h [k, h]
  mState : c.mState = true
  bound : s = ⟨true, some k⟩

theorem Busy.on {c : Connection} {s : Statement} {h k : Handle} (hb : Busy c s h k) (fn : Fn) :
    Busy (s.on c fn) s h k := by
  refine ⟨⟨hb.isOpen.conn, hb.isOpen.mem, ?_⟩, hb.mState, hb.bound⟩
  exact hb.isOpen.tidy.record_used (h := k) (by rw [hb.bound]; rfl) (by simp)

theorem Busy.errReport {c : Connection} {s : Statement} {h k : Handle} (hb : Busy c s h k) :
    Busy (s.errReport c) s h k := by
  unfold Statement.errReport
  split
  · have hread := (hb.on .stmtErrno).on .stmtError
    obtain ⟨hopen, hstate⟩ := hread.isOpen.errReport
    exact ⟨hopen, hstate.trans hread.mState, hb.bound⟩
  · exact hb

theorem Busy.prepare {c : Connection} {s : Statement} {h k : Handle} (hb : Busy c s h k)
    (o : Answers) : Busy (s.prepare o c).1 s h k := by
  unfold Statement.prepare
  split
  · exact hb
  · show Busy (if _ then _ else _ : Connection × Bool).1 s h k
    split
    · exact hb.on _
    · exact (hb.on _).errReport

theorem Busy.attempt {r : Connection × Bool} {s : Statement} {h k : Handle}
    (hb : Busy r.1 s h k) (needed answer : Bool) (fn : Fn) :
    Busy (s.attempt needed answer fn r).1 s h k := by
  obtain ⟨c, ok⟩ := r
  unfold Statement.attempt
  cases ok with
  | false => exact hb
  | true =>
      show Busy (if _ then if _ then _ else _ else _ : Connection × Bool).1 s h k
      split
      · split
        · exact hb.on _
        · exact (hb.on _).errReport
      · exact hb

theorem Busy.execute {c : Connection} {s : Statement} {h k : Handle} (hb : Busy c s h k)
    (o : Answers) : Busy (s.execute o c).1 s h k := by
  unfold Statement.execute
  split
  · exact hb
  · refine Busy.attempt (Busy.attempt (Busy.attempt ?_ ..) ..) ..
    exact hb

theorem Busy.executeText {c : Connection} {s : Statement} {h k : Handle} (hb : Busy c s h k)
    (o : Answers) : Busy (s.executeText o c).1 s h k := by
  have hprepared := hb.prepare o
  unfold Statement.executeText
  split
  next c₁ prepared heq =>
    rw [heq] at hprepared
    split
    · exact hprepared.execute o
    · exact hprepared

/-- The destructor of the statement closes its handle. -/
theorem Busy.disconnect {c : Connection} {s : Statement} {h k : Handle} (hb : Busy c s h k) :
    Open (s.disconnect c) h [h] ∧ (s.disconnect c).mState = true := by
  rw [hb.bound, Statement.disconnect, if_pos rfl]
  have hclosed := hb.isOpen.tidy.record_closed (.stmtClose (some k)) rfl (by simp)
  rw [List.erase_cons_head] at hclosed
  exact ⟨⟨hb.isOpen.conn, List.mem_singleton_self h, hclosed⟩, hb.mState⟩

theorem connect_open {c : Connection} {h : Handle} (ho : Open c h [h])
    (hstate : c.mState = true) (o : Answers) :
    (Open (Statement.connect o c).2 h [h] ∧ (Statement.connect o c).2.mState = true ∧
      (Statement.connect o c).1.mState = false) ∨
    Busy (Statement.connect o c).2 (Statement.connect o c).1 h c.next := by
  unfold Statement.connect
  rw [hstate]
  have hused := ho.tidy.on ho.conn ho.mem .realConnect
  cases o.stmtInit with
  | false =>
      left
      refine ⟨⟨ho.conn, ho.mem, ?_⟩, hstate, rfl⟩
      exact ho.tidy.record_used (h := h) (by rw [ho.conn]; rfl) ho.mem
  | true =>
      right
      refine ⟨⟨ho.conn, by simp, ?_⟩, hstate, rfl⟩
      refine hused.open ?_ rfl
      show (c.record _).log = (c.on _).log ++ [.opened c.next]
      simp [Connection.on, Call.uses, ho.conn]

/-- `execute` leaves the connection as open as it was: its statement's handle is
closed again. -/
theorem execute_open {c : Connection} {h : Handle} (ho : Open c h [h]) (hstate : c.mState = true)
    (o : Answers) : Open (c.execute o).1 h [h] ∧ (c.execute o).1.mState = true := by
  have hconnect := connect_open ho hstate o
  unfold Connection.execute
  split
  next s c₁ heq =>
    rw [heq] at hconnect
    rcases hconnect with ⟨hopen, hstate₁, hunbound⟩ | hbusy
    · have hnone : s.executeText o c₁ = (c₁, false) := by
        simp [Statement.executeText, Statement.prepare, show s.mState = false from hunbound]
      rw [hnone]
      show Open (s.disconnect c₁) h [h] ∧ (s.disconnect c₁).mState = true
      rw [Statement.disconnect, if_neg (by simp [show s.mState = false from hunbound])]
      exact ⟨hopen, hstate₁⟩
    · exact (hbusy.executeText o).disconnect

/-! ## Member functions -/

/-- Between two calls: the one handle that is open is the one the object holds,
if `m_state` says that it holds one. -/
structure Settled (c : Connection) : Prop where
  tidy : Tidy c c.mConn.toList
  mState : c.mState = c.mConn.isSome

theorem Settled.cases {c : Connection} (hs : Settled c) :
    (c.mState = false ∧ c.mConn = none ∧ Tidy c []) ∨
      ∃ h, c.mState = true ∧ Open c h [h] := by
  have htidy := hs.tidy
  have hstate := hs.mState
  cases hconn : c.mConn with
  | none =>
      rw [hconn] at htidy hstate
      exact Or.inl ⟨hstate, rfl, htidy⟩
  | some h =>
      rw [hconn] at htidy hstate
      exact Or.inr ⟨h, hstate, hconn, List.mem_singleton_self h, htidy⟩

theorem Settled.of_open {c : Connection} {h : Handle} (ho : Open c h [h])
    (hstate : c.mState = true) : Settled c := by
  refine ⟨?_, ?_⟩
  · rw [ho.conn]
    exact ho.tidy
  · rw [ho.conn]
    exact hstate

theorem Settled.of_closed {c : Connection} (ht : Tidy c []) (hconn : c.mConn = none)
    (hstate : c.mState = false) : Settled c := by
  refine ⟨?_, ?_⟩
  · rw [hconn]
    exact ht
  · rw [hconn]
    exact hstate

/-- The error exit before `m_state` is set, or with it cleared behind. -/
theorem Open.closed {c : Connection} {h : Handle} (ho : Open c h [h]) :
    Tidy c.closeOnError [] := by
  have hclosed := ho.closeOnError
  rwa [List.erase_cons_head] at hclosed

/-- `mysql_init` gives no handle. -/
theorem init_none {c : Connection} {o : Answers} (ht : Tidy c []) (hstate : c.mState = false)
    (hinit : o.init = false) : (c.init o).mConn = none ∧ Settled (c.init o) := by
  have hnone : c.init o = { c.record (.init none) with mConn := none } := by
    simp [Connection.init, hinit]
  have htidy : Tidy (c.record (.init none)) [] := by
    refine ⟨?_, fun k hk => ht.fresh k ?_⟩
    · simpa [Call.uses] using ht.disciplined
    · simpa [Call.uses] using hk
  rw [hnone]
  exact ⟨rfl, .of_closed ⟨htidy.disciplined, htidy.fresh⟩ rfl hstate⟩

/-- Or a new one. -/
theorem init_some {c : Connection} {o : Answers} (ht : Tidy c []) (hstate : c.mState = false)
    (hinit : o.init = true) : Open (c.init o) c.next [c.next] ∧ (c.init o).mState = false := by
  rw [Connection.init, if_pos hinit]
  refine ⟨⟨rfl, List.mem_singleton_self _, ht.open ?_ rfl⟩, hstate⟩
  show (c.record _).log = c.log ++ [.opened c.next]
  simp [Call.uses]

theorem Settled.connecttodb {c : Connection} (hs : Settled c) (o : Answers) (charset : Bool) :
    Settled (c.connecttodb o charset).1 := by
  unfold Connection.connecttodb
  rcases hs.cases with ⟨hstate, hconn, htidy⟩ | ⟨h, hstate, -⟩
  · rw [if_neg (by simp [hstate])]
    cases hinit : o.init with
    | false =>
        obtain ⟨hnone, hsettled⟩ := init_none htidy hstate hinit
        simp only [hnone, if_true]
        exact hsettled
    | true =>
        obtain ⟨hopen, hclosed⟩ := init_some htidy hstate hinit
        simp only [hopen.conn, reduceCtorEq, if_false]
        cases o.realConnect with
        | false => exact .of_closed (hopen.on _).closed rfl hclosed
        | true =>
            cases o.autocommit with
            | false => exact .of_closed ((hopen.on _).on _).closed rfl hclosed
            | true =>
                have hset := (hopen.on .realConnect).on .autocommit
                have hready := hset.charset charset
                have hlogin : Open { (if charset then
                      (((c.init o).on .realConnect).on .autocommit).on .setCharacterSet
                    else ((c.init o).on .realConnect).on .autocommit) with mState := true }
                    c.next [c.next] :=
                  ⟨hready.conn, hready.mem, hready.tidy.disciplined, hready.tidy.fresh⟩
                obtain ⟨hdone, hstate⟩ := execute_open hlogin rfl o
                exact .of_open hdone hstate
  · rw [if_pos hstate]
    exact hs

theorem Settled.execute {c : Connection} (hs : Settled c) (o : Answers) :
    Settled (c.execute o).1 := by
  rcases hs.cases with ⟨hstate, -, -⟩ | ⟨h, hstate, hopen⟩
  · have hnone : (c.execute o).1 = c := by
      simp [Connection.execute, Statement.connect, Statement.executeText, Statement.prepare,
        Statement.disconnect, hstate]
    rw [hnone]
    exact hs
  · obtain ⟨hdone, hstate⟩ := execute_open hopen hstate o
    exact .of_open hdone hstate

/-- A failed `rollback` or `commit` leaves `m_state` at 1 and no handle. -/
theorem closeOnError_state (c : Connection) :
    c.closeOnError.mState = c.mState ∧ c.closeOnError.mConn = none := ⟨rfl, rfl⟩

theorem Settled.rollback {c : Connection} (hs : Settled c) {o : Answers}
    (hok : c.mState = true → o.rollback = true) : Settled (c.rollback o).1 := by
  unfold Connection.rollback
  rcases hs.cases with ⟨hstate, -, -⟩ | ⟨h, hstate, hopen⟩
  · rw [if_pos (by simp [hstate])]
    exact hs
  · rw [if_neg (by simp [hstate])]
    simp only [hok hstate, if_true]
    exact .of_open (hopen.on _) hstate

theorem Settled.commit {c : Connection} (hs : Settled c) {o : Answers}
    (hok : c.mState = true → o.commit = true) : Settled (c.commit o).1 := by
  unfold Connection.commit
  rcases hs.cases with ⟨hstate, -, -⟩ | ⟨h, hstate, hopen⟩
  · rw [if_pos (by simp [hstate])]
    exact hs
  · rw [if_neg (by simp [hstate])]
    simp only [hok hstate, if_true]
    exact .of_open (hopen.on _) hstate

/-- `disconnect` closes the handle itself, or finds it closed by `rollback` and
closes nothing. -/
theorem Settled.disconnect {c : Connection} (hs : Settled c) (o : Answers) :
    Settled (c.disconnect o).1 ∧ (c.disconnect o).1.mConn = none := by
  unfold Connection.disconnect
  rcases hs.cases with ⟨hstate, hconn, -⟩ | ⟨h, hstate, hopen⟩
  · rw [if_pos (by simp [hstate])]
    exact ⟨hs, hconn⟩
  · rw [if_neg (by simp [hstate])]
    have hclosed : Tidy ((c.rollback o).1.record (.close (c.rollback o).1.mConn)) [] := by
      rw [Connection.rollback, if_neg (by simp [hstate])]
      cases o.rollback with
      | true =>
          have hrolled := (hopen.on .rollback).tidy.record_closed
            (.close (c.on .rollback).mConn) (by simp [Call.uses, hopen.conn]) hopen.mem
          rwa [List.erase_cons_head] at hrolled
      | false => exact (hopen.on _).closed.record_closeNull
    exact ⟨.of_closed ⟨hclosed.disciplined, hclosed.fresh⟩ rfl rfl, rfl⟩

/-! ## Runs -/

/-- An object that is gone holds no handle. -/
structure Good (s : Object) : Prop where
  settled : Settled s.conn
  gone : s.destroyed = true → s.conn.mConn = none

theorem new_good : Good Object.new := by
  refine ⟨.of_closed ⟨.nil, fun h hmem => ?_⟩ rfl rfl, fun _ => rfl⟩
  exact absurd hmem List.not_mem_nil

theorem Good.ok {s : Object} (hg : Good s) : ConnectionOk s := by
  have hlive := hg.settled.tidy.disciplined
  refine ⟨?_, no_null hlive, fun hgone h hopened => ?_⟩
  · rw [hg.settled.mState, Option.isSome_iff_exists]
    refine exists_congr fun h => ⟨fun hconn => ⟨hconn, ?_⟩, fun hh => hh.1⟩
    rw [← mem_live hlive, hconn]
    exact List.mem_singleton_self h
  · refine closed_once hlive hopened ?_
    rw [hg.gone hgone]
    exact List.not_mem_nil

/-- An open object without a handle. -/
theorem not_ok_of_lost {s : Object} (hstate : s.conn.mState = true) (hconn : s.conn.mConn = none) :
    ¬ ConnectionOk s := by
  intro hok
  obtain ⟨h, hsome, -⟩ := hok.open_iff.mp hstate
  rw [hconn] at hsome
  cases hsome

/-- One step keeps the handles in order exactly when it is no commit or rollback
that fails on an open connection. -/
theorem objectStep_ok_iff {s s' : Object} {e : Event} (hg : Good s)
    (hstep : objectStep s e = some s') :
    (ConnectionOk s' ↔ SucceedsIfOpen s e) ∧ (ConnectionOk s' → Good s') := by
  have hkeep : SucceedsIfOpen s e → Good s' → (ConnectionOk s' ↔ SucceedsIfOpen s e) ∧
      (ConnectionOk s' → Good s') := fun hc hgood =>
    ⟨⟨fun _ => hc, fun _ => hgood.ok⟩, fun _ => hgood⟩
  have hlose : ¬ SucceedsIfOpen s e → ¬ ConnectionOk s' →
      (ConnectionOk s' ↔ SucceedsIfOpen s e) ∧ (ConnectionOk s' → Good s') := fun hc hbad =>
    ⟨⟨fun h => absurd h hbad, fun h => absurd h hc⟩, fun h => absurd h hbad⟩
  unfold objectStep at hstep
  split at hstep
  · cases hstep
  · next hlive =>
      have halive : s.destroyed = false := by simpa using hlive
      have hnever : ∀ {c : Connection}, s.destroyed = true → c.mConn = none := fun h => by
        rw [halive] at h
        cases h
      cases e with
      | connecttodb o charset =>
          cases hstep
          exact hkeep trivial ⟨hg.settled.connecttodb o charset, hnever⟩
      | execute o =>
          cases hstep
          exact hkeep trivial ⟨hg.settled.execute o, hnever⟩
      | disconnect o =>
          cases hstep
          exact hkeep trivial ⟨(hg.settled.disconnect o).1, hnever⟩
      | destroy o =>
          cases hstep
          obtain ⟨hsettled, hconn⟩ := hg.settled.disconnect o
          exact hkeep trivial ⟨hsettled, fun _ => hconn⟩
      | commit o =>
          cases hstep
          by_cases hok : s.conn.mState = true → o.commit = true
          · exact hkeep hok ⟨hg.settled.commit hok, hnever⟩
          · obtain ⟨hstate, hfail⟩ := Classical.not_imp.mp hok
            refine hlose hok (not_ok_of_lost ?_ ?_)
            all_goals simp [Connection.commit, hstate, hfail, closeOnError_state]
      | rollback o =>
          cases hstep
          by_cases hok : s.conn.mState = true → o.rollback = true
          · exact hkeep hok ⟨hg.settled.rollback hok, hnever⟩
          · obtain ⟨hstate, hfail⟩ := Classical.not_imp.mp hok
            refine hlose hok (not_ok_of_lost ?_ ?_)
            all_goals simp [Connection.rollback, hstate, hfail, closeOnError_state]

/-- A run keeps the handles of a connection object in order, in every state,
exactly when no commit and no rollback in it fails on an open connection. -/
theorem connectionOk_always_iff (events : List Event) :
    Machine.Always objectStep ConnectionOk .new events ↔
      Machine.Meets objectStep SucceedsIfOpen .new events :=
  Machine.always_iff_meets (I := Good) (L := fun _ => True)
    (fun _ _ _ hg _ hok _ hstep => (objectStep_ok_iff hg hstep).2 hok)
    (fun _ _ _ hg _ _ hstep => (objectStep_ok_iff hg hstep).1)
    new_good new_good.ok fun _ _ => trivial

/-- A connection whose commit fails, and the destructor. -/
def failedCommit : List Event :=
  [.connecttodb .good true, .commit { Answers.good with commit := false }, .destroy .good]

/-- Behind the failed commit `m_state` is 1 and `m_conn` null, and the
destructor hands null to `mysql_rollback`. -/
theorem connection_lost :
    ¬ ∀ events, Machine.Always objectStep ConnectionOk .new events := by
  intro hall
  obtain ⟨s, hrun, hstate, hconn⟩ : ∃ s, Machine.exec objectStep .new
      [.connecttodb .good true, .commit { Answers.good with commit := false }] = some s ∧
      s.conn.mState = true ∧ s.conn.mConn = none := ⟨_, rfl, rfl, rfl⟩
  exact not_ok_of_lost hstate hconn
    (Machine.always_iff.mp (hall failedCommit) _ [.destroy .good] s rfl hrun)

end AsioServer.Mysql
